-- A loop that keeps the keys it has seen and skips an element whose key it knows. What it asks of
-- the elements that it does not skip is asked of the first one of each key.
import Mathlib.Data.List.Basic

namespace first_seen

variable {α Key : Type}

/-- `P k x` for each element `x` at place `k` whose key was not seen, and is of no element before
it. -/
def AtFirst (key : α → Option Key) (P : Nat → α → Prop) (seen : List Key) (xs : List α) : Prop :=
  ∀ k x c, xs[k]? = some x → key x = some c → c ∉ seen → (∀ y ∈ xs.take k, key y ≠ some c) → P k x

variable {key : α → Option Key} {P : Nat → α → Prop} {seen : List Key} {x : α} {xs : List α}

@[simp] theorem at_first_nil : AtFirst key P seen [] := by
  intro k x c h
  simp at h

/-- What is asked of the elements after the head. -/
theorem at_first_cons_iff :
    AtFirst key P seen (x :: xs) ↔
      (∀ c, key x = some c → c ∉ seen → P 0 x) ∧
        AtFirst key (fun k => P (k + 1)) (seen ++ (key x).toList) xs := by
  unfold AtFirst
  constructor
  · intro h
    refine ⟨fun c hc hseen => h 0 x c rfl hc hseen (fun y hy => nomatch hy), ?_⟩
    intro k y c hy hc hseen hbefore
    rw [List.mem_append, not_or, Option.mem_toList] at hseen
    apply h (k + 1) y c hy hc hseen.1
    intro z hz
    rw [List.take_succ_cons] at hz
    rcases List.mem_cons.mp hz with rfl | hz
    · exact hseen.2
    · exact hbefore z hz
  · rintro ⟨hhead, htail⟩ k y c hy hc hseen hbefore
    cases k with
    | zero =>
      cases hy
      exact hhead c hc hseen
    | succ k =>
      rw [List.take_succ_cons, List.forall_mem_cons] at hbefore
      apply htail k y c hy hc _ hbefore.2
      rw [List.mem_append, not_or, Option.mem_toList]
      exact ⟨hseen, hbefore.1⟩

/-- Only which keys were seen matters. -/
theorem at_first_congr {seen' : List Key} (h : ∀ c, c ∈ seen ↔ c ∈ seen') :
    AtFirst key P seen xs ↔ AtFirst key P seen' xs := by
  unfold AtFirst
  simp only [h]

/-- The loop skips an element without a key. -/
theorem at_first_cons_none (hx : key x = none) :
    AtFirst key P seen (x :: xs) ↔ AtFirst key (fun k => P (k + 1)) seen xs := by
  rw [at_first_cons_iff, hx]
  simp

/-- The loop skips an element whose key it has seen. -/
theorem at_first_cons_seen {c : Key} (hx : key x = some c) (hseen : c ∈ seen) :
    AtFirst key P seen (x :: xs) ↔ AtFirst key (fun k => P (k + 1)) seen xs := by
  rw [at_first_cons_iff, hx]
  have hskip : ∀ c', some c = some c' → c' ∉ seen → P 0 x := by
    rintro c' ⟨⟩ hnot
    exact absurd hseen hnot
  rw [and_iff_right hskip]
  apply at_first_congr
  intro c'
  rw [Option.toList_some, List.mem_append, List.mem_singleton]
  constructor
  · rintro (h | rfl)
    · exact h
    · exact hseen
  · exact Or.inl

/-- The loop does not skip the first element of a key, and has seen the key from then on. -/
theorem at_first_cons_new {c : Key} (hx : key x = some c) (hseen : c ∉ seen) :
    AtFirst key P seen (x :: xs) ↔
      P 0 x ∧ AtFirst key (fun k => P (k + 1)) (c :: seen) xs := by
  rw [at_first_cons_iff, hx]
  apply and_congr
  · constructor
    · intro h
      exact h c rfl hseen
    · rintro h c' ⟨⟩ -
      exact h
  · apply at_first_congr
    intro c'
    rw [Option.toList_some, List.mem_append, List.mem_singleton, List.mem_cons, or_comm]

end first_seen
