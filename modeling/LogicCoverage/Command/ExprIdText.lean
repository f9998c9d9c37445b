import LogicCoverage.Decimal.Numeral
import LogicCoverage.Id

/-!
# Expression ids on the command line
-/

namespace LogicCoverage

/-- An id written as `12` or `e12`. -/
def ExprId.ofText? (s : String) : Option ExprId :=
  let digits := match s.toList with
    | 'e' :: rest => String.ofList rest
    | _ => s
  (Decimal.uint32? digits).map ExprId.mk

/-- The objection to a text that is no id. -/
def ExprId.objection (s : String) : String :=
  "'" ++ s ++ "' is not an expression id (expected e.g. e12)"

end LogicCoverage
