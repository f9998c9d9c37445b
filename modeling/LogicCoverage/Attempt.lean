/-!
# Attempts

An attempt reads and changes a state, and may fail on the way. The state stands outside of the
failure: what has been changed by then stays changed. That a failure leaves the state as it was is
therefore something to be proved, and `on_ask` and `on_update` tell of which steps it holds.
-/

namespace LogicCoverage

/-- A computation on states of type `σ` that may fail with an `ε`. -/
abbrev Attempt (ε σ : Type) := ExceptT ε (StateM σ)

namespace Attempt

variable {ε ε' σ α β : Type}

/-- Asks about the state, which stays as it is. -/
def ask (question : σ → Except ε α) : Attempt ε σ α := ExceptT.mk do
  return question (← get)

/-- Replaces the state, unless that fails. -/
def update (change : σ → Except ε (α × σ)) : Attempt ε σ α := do
  let (a, s) ← ask change
  set s
  return a

/-- The same attempt, with another way to put its failures. -/
def mapError (rename : ε → ε') (attempt : Attempt ε σ α) : Attempt ε' σ α :=
  ExceptT.adapt rename attempt

/-- Carries an attempt out: its answer, and the state that it leaves. -/
def on (attempt : Attempt ε σ α) (s : σ) : Except ε α × σ := (attempt.run).run s

/-- What an attempt that does not fail answers and leaves. -/
def outcome (attempt : Attempt ε σ α) (s : σ) : Except ε (α × σ) :=
  match attempt.on s with
  | (.ok a, s) => .ok (a, s)
  | (.error e, _) => .error e

/-! ## The state that is left -/

/-- What comes next goes on from the state that was left, unless there was a failure. -/
theorem on_bind (attempt : Attempt ε σ α) (next : α → Attempt ε σ β) (s : σ) :
    (attempt >>= next).on s =
      match attempt.on s with
      | (.ok a, s') => (next a).on s'
      | (.error e, s') => (.error e, s') := by
  simp only [on, ExceptT.run_bind, StateT.run_bind]
  rcases StateT.run (ExceptT.run attempt) s with ⟨_ | a, s'⟩ <;> rfl

theorem on_map (f : α → β) (attempt : Attempt ε σ α) (s : σ) :
    (f <$> attempt).on s = ((attempt.on s).1.map f, (attempt.on s).2) := by
  simp only [on, ExceptT.run_map, StateT.run_map]
  rfl

/-- A question leaves the state as it is, whatever the answer. -/
theorem on_ask (question : σ → Except ε α) (s : σ) : (ask question).on s = (question s, s) := rfl

/-- A change happens, or fails and does not happen. -/
theorem on_update (change : σ → Except ε (α × σ)) (s : σ) :
    (update change).on s =
      match change s with
      | .ok (a, s') => (.ok a, s')
      | .error e => (.error e, s) := by
  rw [update, on_bind, on_ask]
  cases change s <;> rfl

/-- A question changes nothing: what is left is up to what comes next. -/
theorem left_of_ask_bind {question : σ → Except ε α} {next : α → Attempt ε σ β} {s left : σ}
    {result : Except ε β} (hnext : ∀ a, (next a).on s = (result, left) → left = s)
    (h : (ask question >>= next).on s = (result, left)) : left = s := by
  rw [on_bind, on_ask] at h
  cases hquestion : question s with
  | ok a =>
    rw [hquestion] at h
    exact hnext a h
  | error e =>
    rw [hquestion] at h
    exact (Prod.mk.inj h).2.symm

/-- A change that fails changes nothing. -/
theorem left_of_update {change : σ → Except ε (α × σ)} {s left : σ} {e : ε}
    (h : (update change).on s = (.error e, left)) : left = s := by
  rw [on_update] at h
  cases hchange : change s with
  | ok r =>
    rw [hchange] at h
    cases (Prod.mk.inj h).1
  | error e' =>
    rw [hchange] at h
    exact (Prod.mk.inj h).2.symm

theorem on_mapError (rename : ε → ε') (attempt : Attempt ε σ α) (s : σ) :
    (attempt.mapError rename).on s = ((attempt.on s).1.mapError rename, (attempt.on s).2) := rfl

/-- An attempt whose failures are put otherwise fails where it failed before. -/
theorem of_mapError_error {rename : ε → ε'} {attempt : Attempt ε σ α} {s left : σ} {e : ε'}
    (h : (attempt.mapError rename).on s = (.error e, left)) :
    ∃ e₀, rename e₀ = e ∧ attempt.on s = (.error e₀, left) := by
  rw [on_mapError] at h
  rcases hon : attempt.on s with ⟨e₀ | a, left'⟩ <;> rw [hon] at h <;> cases h
  exact ⟨e₀, rfl, rfl⟩

/-! ## Outcomes -/

/-- The outcome of an attempt that does not fail is its answer, with the state that it leaves. -/
theorem outcome_eq_ok_iff {attempt : Attempt ε σ α} {s left : σ} {a : α} :
    attempt.outcome s = .ok (a, left) ↔ attempt.on s = (.ok a, left) := by
  rw [outcome]
  rcases attempt.on s with ⟨_ | a', s'⟩ <;> simp

theorem exists_on_of_outcome {attempt : Attempt ε σ α} {s : σ} {e : ε}
    (h : attempt.outcome s = .error e) : ∃ left, attempt.on s = (.error e, left) := by
  rw [outcome] at h
  rcases hon : attempt.on s with ⟨e' | a, left⟩ <;> rw [hon] at h <;> cases h
  exact ⟨left, rfl⟩

theorem outcome_pure (a : α) (s : σ) : (pure a : Attempt ε σ α).outcome s = .ok (a, s) := rfl

/-- Outcomes are passed on from step to step. -/
theorem outcome_bind (attempt : Attempt ε σ α) (next : α → Attempt ε σ β) (s : σ) :
    (attempt >>= next).outcome s = attempt.outcome s >>= fun r => (next r.1).outcome r.2 := by
  rw [outcome, outcome, on_bind]
  rcases attempt.on s with ⟨_ | a, s'⟩ <;> rfl

theorem outcome_ask_bind (question : σ → Except ε α) (next : α → Attempt ε σ β) (s : σ) :
    (ask question >>= next).outcome s = question s >>= fun a => (next a).outcome s := by
  rw [outcome_bind, outcome, on_ask]
  cases question s <;> rfl

theorem outcome_update (change : σ → Except ε (α × σ)) (s : σ) :
    (update change).outcome s = change s := by
  rw [outcome, on_update]
  cases change s <;> rfl

theorem outcome_update_bind (change : σ → Except ε (α × σ)) (next : α → Attempt ε σ β) (s : σ) :
    (update change >>= next).outcome s = change s >>= fun r => (next r.1).outcome r.2 := by
  rw [outcome_bind, outcome_update]

theorem outcome_get_bind (next : σ → Attempt ε σ β) (s : σ) :
    ((get : Attempt ε σ σ) >>= next).outcome s = (next s).outcome s := rfl

theorem outcome_modify_bind (f : σ → σ) (next : PUnit → Attempt ε σ β) (s : σ) :
    ((modify f : Attempt ε σ PUnit) >>= next).outcome s = (next ⟨⟩).outcome (f s) := rfl

/-- To change the state for one item after the other is to fold over the items. -/
theorem outcome_forM (change : σ → α → Except ε σ) (l : List α) (s : σ) :
    (l.forM fun a => update fun s => (change s a).map fun s => (⟨⟩, s)).outcome s =
      (l.foldlM change s).map fun s => (⟨⟩, s) := by
  induction l generalizing s with
  | nil => rfl
  | cons a l ih =>
    rw [List.foldlM_cons]
    show (update _ >>= fun _ => l.forM _).outcome s = _
    rw [outcome_update_bind]
    cases change s a with
    | error e => rfl
    | ok s' => exact ih s'

/-- Likewise for what comes next. -/
theorem outcome_forM_bind (change : σ → α → Except ε σ) (l : List α)
    (next : PUnit → Attempt ε σ β) (s : σ) :
    ((l.forM fun a => update fun s => (change s a).map fun s => (⟨⟩, s)) >>= next).outcome s =
      l.foldlM change s >>= fun s => (next ⟨⟩).outcome s := by
  rw [outcome_bind, outcome_forM]
  cases l.foldlM change s <;> rfl

theorem outcome_mapError (rename : ε → ε') (attempt : Attempt ε σ α) (s : σ) :
    (attempt.mapError rename).outcome s = (attempt.outcome s).mapError rename := by
  rw [outcome, outcome, on_mapError]
  rcases attempt.on s with ⟨_ | a, s'⟩ <;> rfl

end Attempt

end LogicCoverage
