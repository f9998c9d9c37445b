/-!
# Operators and their categories

`Operator` is everything an expression node can do; `Category` is the closed classification that
scoring switches on, and `Operator.category` is the only place that maps one to the other.
-/

namespace LogicCoverage

/-- How a node is scored. -/
inductive Category where
  | andGate | orGate | comparison | value | event | constant | control
deriving DecidableEq

namespace Category

/-- Gates of one kind can be merged into chains. -/
def isGate (c : Category) : Bool := c = andGate || c = orGate

/-- Constants and control constructs are never scored. -/
def isMeasurable (c : Category) : Bool := c ≠ constant && c ≠ control

def isControl (c : Category) : Bool := c = control

def name : Category → String
  | andGate => "And"
  | orGate => "Or"
  | comparison => "Comparable"
  | value => "Unary"
  | event => "Event"
  | constant => "Static"
  | control => "Control"

end Category

/-- What an expression node computes or does. -/
inductive Operator where
  | static | signal | param | bitSelect | partSelect | concat | expand | funcCall | invert
  | logicNot | redAnd | redOr | redXor | redNand | redNor | redXnor | add | sub | mul | div | mod
  | shiftLeft | shiftRight | conditional | bitAnd | logicAnd | bitOr | logicOr | xor | xnor
  | nand | nor | equal | notEqual | caseEqual | caseNotEqual | less | lessEqual | greater
  | greaterEqual | posEdge | negEdge | anyEdge | eventOr | delay | condSelect | caseItem
  | casexItem | casezItem | caseDefault | assign | declAssign | blockingAssign
  | nonBlockingAssign | ifBranch | whileLoop | repeatLoop | trigger | taskCall | fork | join
  | disable | noop
deriving DecidableEq, Inhabited

namespace Operator

/-- Every operator, in the order of declaration. -/
def all : List Operator :=
  [static, signal, param, bitSelect, partSelect, concat, expand, funcCall, invert, logicNot,
   redAnd, redOr, redXor, redNand, redNor, redXnor, add, sub, mul, div, mod, shiftLeft,
   shiftRight, conditional, bitAnd, logicAnd, bitOr, logicOr, xor, xnor, nand, nor, equal,
   notEqual, caseEqual, caseNotEqual, less, lessEqual, greater, greaterEqual, posEdge, negEdge,
   anyEdge, eventOr, delay, condSelect, caseItem, casexItem, casezItem, caseDefault, assign,
   declAssign, blockingAssign, nonBlockingAssign, ifBranch, whileLoop, repeatLoop, trigger,
   taskCall, fork, join, disable, noop]

/-- The name used in snapshots and messages. -/
def name : Operator → String
  | static => "Static"
  | signal => "Signal"
  | param => "Param"
  | bitSelect => "BitSelect"
  | partSelect => "PartSelect"
  | concat => "Concat"
  | expand => "Expand"
  | funcCall => "FuncCall"
  | invert => "Inv"
  | logicNot => "Not"
  | redAnd => "RedAnd"
  | redOr => "RedOr"
  | redXor => "RedXor"
  | redNand => "RedNand"
  | redNor => "RedNor"
  | redXnor => "RedXnor"
  | add => "Add"
  | sub => "Sub"
  | mul => "Mul"
  | div => "Div"
  | mod => "Mod"
  | shiftLeft => "Shl"
  | shiftRight => "Shr"
  | conditional => "Cond"
  | bitAnd => "And"
  | logicAnd => "LogicAnd"
  | bitOr => "Or"
  | logicOr => "LogicOr"
  | xor => "Xor"
  | xnor => "Xnor"
  | nand => "Nand"
  | nor => "Nor"
  | equal => "Eq"
  | notEqual => "Ne"
  | caseEqual => "CaseEq"
  | caseNotEqual => "CaseNe"
  | less => "Lt"
  | lessEqual => "Le"
  | greater => "Gt"
  | greaterEqual => "Ge"
  | posEdge => "PosEdge"
  | negEdge => "NegEdge"
  | anyEdge => "AnyEdge"
  | eventOr => "EventOr"
  | delay => "Delay"
  | condSelect => "CondSel"
  | caseItem => "Case"
  | casexItem => "Casex"
  | casezItem => "Casez"
  | caseDefault => "Default"
  | assign => "Assign"
  | declAssign => "DeclAssign"
  | blockingAssign => "BlockingAssign"
  | nonBlockingAssign => "NonBlockingAssign"
  | ifBranch => "If"
  | whileLoop => "While"
  | repeatLoop => "Repeat"
  | trigger => "Trigger"
  | taskCall => "TaskCall"
  | fork => "Fork"
  | join => "Join"
  | disable => "Disable"
  | noop => "Noop"

/-- The operator of that name. -/
def ofName? (s : String) : Option Operator := all.find? fun op => op.name == s

theorem mem_all (op : Operator) : op ∈ all := by cases op <;> decide

/-- No two operators share a name. -/
theorem ofName?_name (op : Operator) : ofName? op.name = some op := by cases op <;> decide

def category : Operator → Category
  | bitAnd | logicAnd => .andGate
  | bitOr | logicOr => .orGate
  | xor | xnor | nand | nor | equal | notEqual | caseEqual | caseNotEqual | less | lessEqual
  | greater | greaterEqual => .comparison
  | signal | param | bitSelect | partSelect | concat | expand | funcCall | invert | logicNot
  | redAnd | redOr | redXor | redNand | redNor | redXnor | add | sub | mul | div | mod
  | shiftLeft | shiftRight | conditional => .value
  | posEdge | negEdge | anyEdge | eventOr => .event
  | static => .constant
  | delay | condSelect | caseItem | casexItem | casezItem | caseDefault | assign | declAssign
  | blockingAssign | nonBlockingAssign | ifBranch | whileLoop | repeatLoop | trigger | taskCall
  | fork | join | disable | noop => .control

/-- Two gates of one category; only such gates join into a chain. -/
def sameFamily (a b : Operator) : Bool := a.category.isGate && a.category = b.category

theorem sameFamily_comm (a b : Operator) : a.sameFamily b = b.sameFamily a := by
  unfold sameFamily
  by_cases h : a.category = b.category
  · rw [h]
  · have h' : ¬ b.category = a.category := fun e => h e.symm
    simp [h, h']

end Operator

end LogicCoverage
