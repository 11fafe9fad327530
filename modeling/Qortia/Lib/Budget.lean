-- A list whose elements cost something, and a budget: how far the list fits from its beginning.
import Mathlib.Algebra.GroupWithZero.Nat
import Mathlib.Data.List.Basic

namespace budget

variable {α β : Type}

def total (cost : α → Nat) (l : List α) : Int := ((l.map cost).sum : Nat)

@[simp] theorem total_nil (cost : α → Nat) : total cost [] = 0 := rfl

@[simp] theorem total_cons (cost : α → Nat) (x : α) (l : List α) :
    total cost (x :: l) = cost x + total cost l := by
  simp [total]

theorem total_append (cost : α → Nat) (l l' : List α) :
    total cost (l ++ l') = total cost l + total cost l' := by
  simp [total]

theorem total_nonneg (cost : α → Nat) (l : List α) : 0 ≤ total cost l := Int.natCast_nonneg _

theorem total_perm (cost : α → Nat) {l l' : List α} (h : l.Perm l') :
    total cost l = total cost l' :=
  congrArg Int.ofNat (h.map cost).sum_nat

/-- The longest part, from the beginning of the list, that fits. Of a list whose first element does
not fit, the first element. -/
def LongestWithin (cost : α → Nat) (b : Int) : (l kept : List α) → Prop
  | [], kept => kept = []
  | x :: l, kept =>
    if b < cost x then kept = [x]
    else kept ≠ [] ∧ kept <+: x :: l ∧ total cost kept ≤ b ∧
      ∀ p, p <+: x :: l → total cost p ≤ b → p <+: kept

/-- The elements that fit next to what is used. -/
def fitting (cost : α → Nat) (b : Int) : (used : Int) → List α → List α
  | _, [] => []
  | used, x :: l => if used + cost x ≤ b then x :: fitting cost b (used + cost x) l else []

/-- The first element and those that fit next to it. -/
def budgeted (cost : α → Nat) (b : Int) : List α → List α
  | [] => []
  | x :: l => x :: fitting cost b (cost x) l

theorem budgeted_cons (cost : α → Nat) (b : Int) (x : α) (l : List α) :
    budgeted cost b (x :: l) = x :: fitting cost b (cost x) l := rfl

section
variable {cost : α → Nat} {b used : Int}

theorem fitting_le (h : used ≤ b) (l : List α) : used + total cost (fitting cost b used l) ≤ b := by
  induction l generalizing used with
  | nil => simpa [fitting] using h
  | cons x l ih =>
    unfold fitting
    by_cases hx : used + cost x ≤ b
    · rw [if_pos hx, total_cons, ← Int.add_assoc]
      exact ih hx
    · rw [if_neg hx]
      simpa using h

theorem fitting_of_lt (h : b < used) (l : List α) : fitting cost b used l = [] := by
  cases l with
  | nil => rfl
  | cons x l =>
    unfold fitting
    rw [if_neg (by omega)]

/-- What does not fit any more comes next. -/
theorem fitting_next (l : List α) :
    fitting cost b used l = l ∨ ∃ next rest, l = fitting cost b used l ++ next :: rest ∧
      b < used + total cost (fitting cost b used l) + cost next := by
  induction l generalizing used with
  | nil => exact Or.inl rfl
  | cons x l ih =>
    unfold fitting
    by_cases hx : used + cost x ≤ b
    · rw [if_pos hx]
      rcases @ih (used + cost x) with h | ⟨next, rest, hl, hover⟩
      · left
        rw [h]
      · right
        refine ⟨next, rest, ?_, ?_⟩
        · rw [List.cons_append, ← hl]
        · rw [total_cons]
          omega
    · rw [if_neg hx]
      right
      exact ⟨x, l, rfl, by simp; omega⟩

theorem fitting_longest (l : List α) {p : List α} (hp : p <+: l) (hle : used + total cost p ≤ b) :
    p <+: fitting cost b used l := by
  induction l generalizing used p with
  | nil =>
    rw [List.prefix_nil.mp hp]
    exact List.nil_prefix
  | cons x l ih =>
    cases p with
    | nil => exact List.nil_prefix
    | cons y p =>
      obtain ⟨rfl, hrest⟩ := List.cons_prefix_cons.mp hp
      rw [total_cons] at hle
      have hnonneg := total_nonneg cost p
      unfold fitting
      rw [if_pos (by omega)]
      exact List.cons_prefix_cons.mpr ⟨rfl, ih hrest (by omega)⟩

theorem budgeted_next (l : List α) :
    budgeted cost b l = l ∨ ∃ next rest, l = budgeted cost b l ++ next :: rest ∧
      b < total cost (budgeted cost b l) + cost next := by
  cases l with
  | nil => exact Or.inl rfl
  | cons x l =>
    rw [budgeted_cons]
    rcases @fitting_next α cost b (cost x) l with h | ⟨next, rest, hl, hover⟩
    · left
      rw [h]
    · right
      refine ⟨next, rest, ?_, ?_⟩
      · rw [List.cons_append, ← hl]
      · rw [total_cons]
        exact hover

theorem budgeted_prefix (l : List α) : budgeted cost b l <+: l := by
  rcases @budgeted_next α cost b l with h | ⟨next, rest, hl, -⟩
  · exact ⟨[], by rw [List.append_nil, h]⟩
  · exact ⟨next :: rest, hl.symm⟩

theorem budgeted_le (hb : 0 ≤ b) (l : List α) :
    total cost (budgeted cost b l) ≤ b ∨ (budgeted cost b l).length = 1 := by
  cases l with
  | nil => exact Or.inl hb
  | cons x l =>
    rw [budgeted_cons]
    by_cases hx : (cost x : Int) ≤ b
    · left
      rw [total_cons]
      exact fitting_le hx l
    · right
      rw [fitting_of_lt (by omega)]
      rfl

theorem budgeted_ne_nil {l : List α} (h : l ≠ []) : budgeted cost b l ≠ [] := by
  cases l with
  | nil => exact absurd rfl h
  | cons x l => exact List.cons_ne_nil _ _

theorem budgeted_longest (l : List α) : LongestWithin cost b l (budgeted cost b l) := by
  cases l with
  | nil => rfl
  | cons x l =>
    rw [budgeted_cons]
    simp only [LongestWithin]
    by_cases hx : b < cost x
    · rw [if_pos hx, fitting_of_lt hx]
    · rw [if_neg hx]
      refine ⟨List.cons_ne_nil _ _, budgeted_prefix (x :: l), ?_, ?_⟩
      · rw [total_cons]
        exact fitting_le (by omega) l
      · intro p hp hle
        cases p with
        | nil => exact List.nil_prefix
        | cons y p =>
          obtain ⟨rfl, hrest⟩ := List.cons_prefix_cons.mp hp
          rw [total_cons] at hle
          exact List.cons_prefix_cons.mpr ⟨rfl, fitting_longest l hrest hle⟩

theorem fitting_map (cost : β → Nat) (g : α → β) (l : List α) :
    fitting cost b used (l.map g) = (fitting (fun x => cost (g x)) b used l).map g := by
  induction l generalizing used with
  | nil => rfl
  | cons x l ih =>
    rw [List.map_cons]
    unfold fitting
    split
    · rw [ih, List.map_cons]
    · rfl

/-- The choice depends on the costs alone. -/
theorem budgeted_map (cost : β → Nat) (g : α → β) (l : List α) :
    budgeted cost b (l.map g) = (budgeted (fun x => cost (g x)) b l).map g := by
  cases l with
  | nil => rfl
  | cons x l => rw [List.map_cons, budgeted_cons, budgeted_cons, List.map_cons, fitting_map]

end

end budget
