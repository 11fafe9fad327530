-- Greedy packing. Items come one after the other into the current group, and a new group begins
-- when the item would make the current one too heavy.
import Mathlib.Algebra.GroupWithZero.Nat
import Mathlib.Algebra.Order.BigOperators.Group.List
import Mathlib.Algebra.Order.Group.Nat

namespace packing

variable {α : Type} (weight : α → Nat) (heavy : Nat → Bool)

def total (items : List α) : Nat := (items.map weight).sum

/-- The groups of the items, where `current` is the group that is being filled. -/
def pack : (current items : List α) → List (List α)
  | current, [] => if current.isEmpty then [] else [current]
  | current, x :: items =>
    if !current.isEmpty && heavy (total weight current + weight x) then
      current :: pack [x] items
    else pack (current ++ [x]) items

variable {weight heavy} {current items g : List α}

theorem total_append (xs ys : List α) :
    total weight (xs ++ ys) = total weight xs + total weight ys := by
  unfold total
  rw [List.map_append, List.sum_append]

theorem total_singleton (x : α) : total weight [x] = weight x := by simp [total]

/-- No item is lost, and the order stays. -/
theorem flatten_pack (current items : List α) :
    (pack weight heavy current items).flatten = current ++ items := by
  induction items generalizing current with
  | nil =>
    unfold pack
    split
    · rename_i hempty
      rw [List.isEmpty_iff.mp hempty]
      rfl
    · simp
  | cons x items ih =>
    unfold pack
    split
    · rw [List.flatten_cons, ih]
      rfl
    · rw [ih, List.append_assoc]
      rfl

theorem ne_nil_of_mem_pack (h : g ∈ pack weight heavy current items) : g ≠ [] := by
  induction items generalizing current with
  | nil =>
    unfold pack at h
    split at h
    · cases h
    · rename_i hempty
      rw [List.mem_singleton.mp h]
      exact fun hnil => hempty (List.isEmpty_iff.mpr hnil)
  | cons x items ih =>
    unfold pack at h
    split at h
    · rename_i hover
      rcases List.mem_cons.mp h with rfl | hlater
      · intro hnil
        rw [hnil] at hover
        exact Bool.false_ne_true hover
      · exact ih hlater
    · exact ih h

theorem pack_ne_nil (h : current ++ items ≠ []) : pack weight heavy current items ≠ [] := by
  intro hnil
  have hflat : (pack weight heavy current items).flatten = current ++ items :=
    flatten_pack current items
  rw [hnil] at hflat
  exact h hflat.symm

/-- A group is too heavy only when it is a single item. -/
theorem pack_fits (hcurrent : current.length ≤ 1 ∨ heavy (total weight current) = false)
    (h : g ∈ pack weight heavy current items) :
    g.length ≤ 1 ∨ heavy (total weight g) = false := by
  induction items generalizing current with
  | nil =>
    unfold pack at h
    split at h
    · cases h
    · rw [List.mem_singleton.mp h]
      exact hcurrent
  | cons x items ih =>
    unfold pack at h
    split at h
    · rcases List.mem_cons.mp h with rfl | hlater
      · exact hcurrent
      · have hone : [x].length ≤ 1 := Nat.le_refl 1
        exact ih (Or.inl hone) hlater
    · rename_i hfits
      refine ih ?_ h
      cases current with
      | nil => exact Or.inl (Nat.le_refl 1)
      | cons y current =>
        rw [total_append, total_singleton]
        exact Or.inr (by simpa using hfits)

/-- The group that is being filled is the first one, with all that it holds so far. -/
theorem pack_cons (hcurrent : current ≠ []) (items : List α) :
    ∃ more later, pack weight heavy current items = (current ++ more) :: later := by
  induction items generalizing current with
  | nil =>
    refine ⟨[], [], ?_⟩
    have hempty : current.isEmpty = false := by simpa using hcurrent
    simp [pack, hempty]
  | cons x items ih =>
    unfold pack
    split
    · exact ⟨[], _, by rw [List.append_nil]⟩
    · obtain ⟨more, later, hpack⟩ := ih (List.append_ne_nil_of_left_ne_nil hcurrent [x])
      exact ⟨x :: more, later, by rw [hpack, List.append_assoc, List.singleton_append]⟩

/-- A group ends only where its next item would have made it too heavy. -/
theorem pack_greedy (current items : List α) :
    (pack weight heavy current items).IsChain fun g next =>
      ∀ x, next.head? = some x → heavy (total weight g + weight x) = true := by
  induction items generalizing current with
  | nil =>
    unfold pack
    split
    · exact List.IsChain.nil
    · exact List.IsChain.singleton current
  | cons x items ih =>
    unfold pack
    split
    · rename_i hover
      obtain ⟨more, later, hpack⟩ : ∃ more later,
          pack weight heavy [x] items = ([x] ++ more) :: later :=
        pack_cons (List.cons_ne_nil x []) items
      have hrest := ih [x]
      rw [hpack] at hrest ⊢
      rw [List.isChain_cons_cons]
      refine ⟨fun y hy => ?_, hrest⟩
      rw [← Option.some.inj hy]
      exact (Bool.and_eq_true_iff.mp hover).2
    · exact ih (current ++ [x])

/-- Only the weights count. -/
theorem map_pack (current items : List α) :
    (pack weight heavy current items).map (List.map weight) =
      pack id heavy (current.map weight) (items.map weight) := by
  induction items generalizing current with
  | nil =>
    simp only [pack, List.map_nil, List.isEmpty_map]
    split
    · rfl
    · rfl
  | cons x items ih =>
    have htotal : total id (current.map weight) = total weight current := by simp [total]
    simp only [pack, List.map_cons, List.isEmpty_map, htotal, id]
    split
    · rw [List.map_cons, ih]
      rfl
    · rw [ih, List.map_append]
      rfl

end packing
