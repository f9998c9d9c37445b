import LogicCoverage.Marks

/-!
# Marks along a run

Passes are started and expressions marked in any order. Old stamps stay where they are, and the stamps
grow when an expression beyond them is marked. Neither shows: an expression counts just if it was
marked after the last pass was started. How much room there was at first, and how many passes there
were, makes no difference.
-/

namespace LogicCoverage

/-- Some call marks the expression, and no pass starts after it. -/
def MarkedLast (calls : List MarkCall) (id : ExprId) : Prop :=
  ∃ before after, calls = before ++ .mark id :: after ∧ .beginPass ∉ after

theorem not_markedLast_nil (id : ExprId) : ¬ MarkedLast [] id := by
  rintro ⟨before, after, hsplit, -⟩
  exact absurd hsplit.symm (List.append_ne_nil_of_right_ne_nil before (List.cons_ne_nil _ after))

/-- A call is the last one to matter if none of the later ones does. -/
theorem markedLast_cons {call : MarkCall} {calls : List MarkCall} {id : ExprId} :
    MarkedLast (call :: calls) id ↔
      MarkedLast calls id ∨ (call = .mark id ∧ .beginPass ∉ calls) := by
  constructor
  · rintro ⟨before, after, hsplit, hafter⟩
    rcases List.cons_eq_append_iff.1 hsplit with ⟨-, hnow⟩ | ⟨before', -, hlater⟩
    · obtain ⟨rfl, rfl⟩ := List.cons.inj hnow
      exact .inr ⟨rfl, hafter⟩
    · exact .inl ⟨before', after, hlater, hafter⟩
  · rintro (⟨before, after, rfl, hafter⟩ | ⟨rfl, hcalls⟩)
    · exact ⟨call :: before, after, rfl, hafter⟩
    · exact ⟨[], calls, rfl, hcalls⟩

namespace PassMarks

/-- One call: an expression counts if it is marked now, or if it counted and no pass is started. -/
theorem counted_perform (m : PassMarks) (call : MarkCall) (id : ExprId) :
    (m.perform call).counted id = true ↔
      call = .mark id ∨ (m.counted id = true ∧ call ≠ .beginPass) := by
  cases call with
  | beginPass => simp [perform, counted_beginPass]
  | mark other =>
    rw [perform, counted_mark, Bool.or_eq_true, decide_eq_true_eq]
    constructor
    · rintro (hm | rfl)
      · exact .inr ⟨hm, nofun⟩
      · exact .inl rfl
    · rintro (hnow | ⟨hm, -⟩)
      · exact .inr (MarkCall.mark.inj hnow).symm
      · exact .inl hm

/-- Many calls: an expression counts if it was marked and no pass started since, be it before the run
or in it. -/
theorem counted_run (m : PassMarks) (calls : List MarkCall) (id : ExprId) :
    (m.run calls).counted id = true ↔
      MarkedLast calls id ∨ (m.counted id = true ∧ .beginPass ∉ calls) := by
  -- the first call is taken into the marks that the rest of the run starts from
  induction calls generalizing m with
  | nil => simp [run, not_markedLast_nil]
  | cons call calls ih =>
    rw [run, List.foldl_cons, ← run, ih, counted_perform, markedLast_cons, List.mem_cons, not_or]
    constructor
    · rintro (hlast | ⟨hnow | ⟨hm, hcall⟩, hcalls⟩)
      · exact .inl (.inl hlast)
      · exact .inl (.inr ⟨hnow, hcalls⟩)
      · exact .inr ⟨hm, Ne.symm hcall, hcalls⟩
    · rintro ((hlast | ⟨hnow, hcalls⟩) | ⟨hm, hcall, hcalls⟩)
      · exact .inl hlast
      · exact .inr ⟨.inl hnow, hcalls⟩
      · exact .inr ⟨.inr ⟨hm, Ne.symm hcall⟩, hcalls⟩

/-- On new marks of any capacity, an expression counts just if some call marked it and no pass was
started since; so all capacities give the same answers. -/
theorem counted_run_new (capacity : Nat) (calls : List MarkCall) (id : ExprId) :
    (((new capacity).run calls).counted id = true ↔
      ∃ before after, calls = before ++ .mark id :: after ∧ .beginPass ∉ after) ∧
    ∀ other : Nat, ((new other).run calls).counted id = ((new capacity).run calls).counted id := by
  have hnew (room : Nat) : ((new room).run calls).counted id = true ↔ MarkedLast calls id := by
    rw [counted_run, counted_new]
    simp
  exact ⟨hnew capacity, fun other => Bool.eq_iff_iff.2 ((hnew other).trans (hnew capacity).symm)⟩

/-- A mark of an earlier pass is forgotten, and a later one beyond the room there was is kept. -/
example : let m := (new 2).run [.mark ⟨1⟩, .beginPass, .mark ⟨9⟩]
    m.counted ⟨1⟩ = false ∧ m.counted ⟨9⟩ = true ∧ m.counted ⟨5⟩ = false := by decide

end PassMarks

end LogicCoverage
