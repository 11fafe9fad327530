-- Transactions that look whether a key is there and then insert it. Each one sees the committed
-- keys and its own. What the others hold and have not committed, the check does not see, and
-- nothing else stands behind it.
import Mathlib.Data.List.Pairwise
import Mathlib.Logic.Function.Basic

namespace check_then_insert

variable {Key Txn : Type} (conflict : Key → Key → Prop)

/-- The committed keys, and the keys that each open transaction has checked or inserted. No two of
them are in conflict. -/
structure Good (committed : List Key) (held : Txn → List Key) : Prop where
  committed_apart : committed.Pairwise fun k k' => ¬ conflict k k'
  own_apart : ∀ i, (held i).Pairwise fun k k' => ¬ conflict k k'
  unseen_apart : ∀ i, ∀ k ∈ committed, ∀ k' ∈ held i, ¬ conflict k k'
  others_apart : ∀ i j, i ≠ j → ∀ k ∈ held i, ∀ k' ∈ held j, ¬ conflict k k'

section
variable {conflict} {committed : List Key} {held : Txn → List Key}

theorem Good.start (h : committed.Pairwise fun k k' => ¬ conflict k k') :
    Good conflict committed (fun _ : Txn => []) := by
  refine ⟨h, fun _ => List.Pairwise.nil, ?_, ?_⟩
  · simp
  · simp

variable [DecidableEq Txn]

/-- A check that finds nothing, of a key that no other transaction holds. -/
theorem Good.check (h : Good conflict committed held)
    (hsymm : ∀ k k', conflict k k' → conflict k' k) {i : Txn} {key : Key}
    (hseen : ∀ k ∈ committed ++ held i, ¬ conflict k key)
    (hothers : ∀ j, j ≠ i → ∀ k ∈ held j, ¬ conflict k key) :
    Good conflict committed (Function.update held i (held i ++ [key])) := by
  have hmine : ∀ k ∈ held i ++ [key], k ∈ held i ∨ k = key := by
    simp
  refine ⟨h.committed_apart, fun j => ?_, fun j k hk k' hk' => ?_, fun j j' hne k hk k' hk' => ?_⟩
  · by_cases hj : j = i
    · subst hj
      rw [Function.update_self, List.pairwise_append]
      refine ⟨h.own_apart j, List.pairwise_singleton _ _, fun k hk k' hk' => ?_⟩
      rw [List.mem_singleton.mp hk']
      exact hseen k (List.mem_append_right _ hk)
    · rw [Function.update_of_ne hj]
      exact h.own_apart j
  · by_cases hj : j = i
    · subst hj
      rw [Function.update_self] at hk'
      rcases hmine k' hk' with hk' | rfl
      · exact h.unseen_apart j k hk k' hk'
      · exact hseen k (List.mem_append_left _ hk)
    · rw [Function.update_of_ne hj] at hk'
      exact h.unseen_apart j k hk k' hk'
  · by_cases hj : j = i
    · subst hj
      rw [Function.update_self] at hk
      rw [Function.update_of_ne (Ne.symm hne)] at hk'
      rcases hmine k hk with hk | rfl
      · exact h.others_apart j j' hne k hk k' hk'
      · exact fun hc => hothers j' (Ne.symm hne) k' hk' (hsymm _ _ hc)
    · rw [Function.update_of_ne hj] at hk
      by_cases hj' : j' = i
      · subst hj'
        rw [Function.update_self] at hk'
        rcases hmine k' hk' with hk' | rfl
        · exact h.others_apart j j' hne k hk k' hk'
        · exact hothers j hj k hk
      · rw [Function.update_of_ne hj'] at hk'
        exact h.others_apart j j' hne k hk k' hk'

/-- A transaction ends and holds nothing any more. -/
theorem Good.release (h : Good conflict committed held) (i : Txn) :
    Good conflict committed (Function.update held i []) := by
  have hsub : ∀ j, ∀ k ∈ Function.update held i [] j, k ∈ held j := by
    intro j k hk
    by_cases hj : j = i
    · subst hj
      simp at hk
    · rwa [Function.update_of_ne hj] at hk
  refine ⟨h.committed_apart, fun j => ?_, fun j k hk k' hk' => ?_, fun j j' hne k hk k' hk' => ?_⟩
  · by_cases hj : j = i
    · subst hj
      simp
    · rw [Function.update_of_ne hj]
      exact h.own_apart j
  · exact h.unseen_apart j k hk k' (hsub j k' hk')
  · exact h.others_apart j j' hne k (hsub j k hk) k' (hsub j' k' hk')

/-- A transaction commits what it holds. -/
theorem Good.commit (h : Good conflict committed held) (i : Txn) :
    Good conflict (committed ++ held i) (Function.update held i []) := by
  have hreleased := h.release i
  refine ⟨?_, hreleased.own_apart, fun j k hk k' hk' => ?_, hreleased.others_apart⟩
  · rw [List.pairwise_append]
    exact ⟨h.committed_apart, h.own_apart i, h.unseen_apart i⟩
  · by_cases hj : j = i
    · subst hj
      simp at hk'
    · rcases List.mem_append.mp hk with hk | hk
      · exact hreleased.unseen_apart j k hk k' hk'
      · rw [Function.update_of_ne hj] at hk'
        exact h.others_apart i j (Ne.symm hj) k hk k' hk'

end

end check_then_insert
