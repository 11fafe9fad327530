-- Transactions that an error aborts: until the rollback every further statement raises, also when
-- the caller has swallowed the error. And a batch that gives each of its rows a transaction and
-- ends with the first one that raises.
import Mathlib.Data.List.Basic

namespace aborting

variable {State Row : Type}

/-- What the connection sees, and whether an error has aborted the transaction. -/
structure Connection (State : Type) where
  state : State
  aborted : Bool := false

/-- One statement, `none` when it raises. -/
def statement (fails : Bool) (f : State → State) (c : Connection State) :
    Option (Connection State) :=
  if c.aborted || fails then none else some { c with state := f c.state }

/-- One statement whose exception is swallowed. -/
def swallowed (fails : Bool) (f : State → State) (c : Connection State) : Connection State :=
  (statement fails f c).getD { c with aborted := true }

/-- `async with conn.transaction()`. The COMMIT of an aborted transaction rolls back. -/
def transaction (body : Connection State → Option (Connection State)) (s : State) : Option State :=
  (body { state := s }).map fun c => if c.aborted then s else c.state

/-- The rows one after another, and whether the loop came to its end. -/
def each (step : State → Row → Option State) : List Row → State → State × Bool
  | [], s => (s, true)
  | r :: t, s =>
    match step s r with
    | none => (s, false)
    | some s' => each step t s'

/-! ## A statement -/

@[simp] theorem statement_clean (f : State → State) (s : State) :
    statement false f ⟨s, false⟩ = some ⟨f s, false⟩ := rfl

@[simp] theorem statement_fails (f : State → State) (c : Connection State) :
    statement true f c = none := by
  simp [statement]

theorem statement_aborted {fails : Bool} {f : State → State} {c : Connection State}
    (h : c.aborted = true) : statement fails f c = none := by
  simp [statement, h]

@[simp] theorem swallowed_clean (f : State → State) (s : State) :
    swallowed false f ⟨s, false⟩ = ⟨f s, false⟩ := rfl

@[simp] theorem swallowed_fails (f : State → State) (c : Connection State) :
    (swallowed true f c).aborted = true := by
  simp [swallowed]

/-! ## A loop -/

/-- What is aborted stays aborted. -/
def KeepsAborted (step : Connection State → Row → Option (Connection State)) : Prop :=
  ∀ c r c', c.aborted = true → step c r = some c' → c'.aborted = true

theorem foldlM_aborted {step : Connection State → Row → Option (Connection State)}
    (hstep : KeepsAborted step) {t : List Row} {c c' : Connection State} (h : c.aborted = true)
    (hrun : t.foldlM step c = some c') : c'.aborted = true := by
  induction t generalizing c with
  | nil =>
    cases hrun
    exact h
  | cons r t ih =>
    rw [List.foldlM_cons] at hrun
    obtain ⟨c₁, hr, hrun⟩ := Option.bind_eq_some_iff.mp hrun
    exact ih (hstep c r c₁ h hr) hrun

/-- A turn that fails raises, or leaves the transaction aborted. -/
theorem foldlM_fails {step : Connection State → Row → Option (Connection State)}
    {fails : Row → Bool} (hstep : KeepsAborted step)
    (hfails : ∀ c r c', fails r = true → step c r = some c' → c'.aborted = true) {t : List Row}
    {c c' : Connection State} (h : t.any fails = true) (hrun : t.foldlM step c = some c') :
    c'.aborted = true := by
  induction t generalizing c with
  | nil => cases h
  | cons r t ih =>
    rw [List.foldlM_cons] at hrun
    obtain ⟨c₁, hr, hrun⟩ := Option.bind_eq_some_iff.mp hrun
    rcases Bool.or_eq_true_iff.mp h with hfirst | hrest
    · exact foldlM_aborted hstep (hfails c r c₁ hfirst hr) hrun
    · exact ih hrest hrun

theorem foldlM_clean {step : Connection State → Row → Option (Connection State)}
    {fails : Row → Bool} {f : State → Row → State}
    (hclean : ∀ s r, fails r = false → step ⟨s, false⟩ r = some ⟨f s r, false⟩) {t : List Row}
    (h : t.any fails = false) (s : State) :
    t.foldlM step ⟨s, false⟩ = some ⟨t.foldl f s, false⟩ := by
  induction t generalizing s with
  | nil => rfl
  | cons r t ih =>
    obtain ⟨hr, ht⟩ := Bool.or_eq_false_iff.mp h
    rw [List.foldlM_cons, hclean s r hr]
    exact ih ht (f s r)

/-! ## A batch -/

/-- The second loop runs when the first one came to its end. -/
theorem each_append (step : State → Row → Option State) (t t' : List Row) (s : State) :
    each step (t ++ t') s =
      if (each step t s).2 then each step t' (each step t s).1 else each step t s := by
  induction t generalizing s with
  | nil => rfl
  | cons r t ih =>
    rw [List.cons_append]
    cases h : step s r with
    | none => simp [each, h]
    | some s' => simpa [each, h] using ih s'

/-- The batch ends before the first row that fails. -/
theorem each_eq {step : State → Row → Option State} {fails : Row → Bool} {f : State → Row → State}
    (hstep : ∀ s r, step s r = if fails r then none else some (f s r)) (t : List Row) (s : State) :
    each step t s = ((t.takeWhile fun r => !fails r).foldl f s, t.all fun r => !fails r) := by
  induction t generalizing s with
  | nil => rfl
  | cons r t ih =>
    unfold each
    rw [hstep, List.takeWhile_cons, List.all_cons]
    cases hr : fails r with
    | true => simp
    | false => simp [ih]

end aborting
