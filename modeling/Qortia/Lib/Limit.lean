-- A query with a LIMIT and no order: the rows that it returns whatever the order is, and an order
-- that leaves a row out.
import Mathlib.Data.List.Perm.Basic

namespace limit

variable {Row : Type} {p : Row → Bool} {n : Nat} {t t' : List Row}

/-- A row that has fewer than `n` others is among the first `n`. -/
theorem mem_take (hperm : t'.Perm t) (hfew : (t.filter p).length < n) {r : Row} (hr : r ∈ t)
    (hother : ∀ r' ∈ t, p r' = false → r' = r) : r ∈ t'.take n := by
  by_contra hout
  have hall : ∀ r' ∈ t'.take n, p r' = true := by
    intro r' hr'
    by_contra hne
    have hmem := hperm.mem_iff.mp (List.mem_of_mem_take hr')
    exact hout (hother r' hmem (eq_false_of_ne_true hne) ▸ hr')
  have hshort : n < t'.length := by
    by_contra hle
    rw [List.take_of_length_le (Nat.le_of_not_lt hle)] at hout
    exact hout (hperm.mem_iff.mpr hr)
  have hlength : (t'.filter p).length < n := by
    rw [(hperm.filter p).length_eq]
    exact hfew
  have htake : ((t'.take n).filter p).length ≤ (t'.filter p).length :=
    ((List.take_sublist n t').filter p).length_le
  rw [List.filter_eq_self.mpr hall, List.length_take,
    Nat.min_eq_left (Nat.le_of_lt hshort)] at htake
  omega

/-- The rows at the flagged positions first. -/
def flagged_first {α : Type} (flags : List Bool) (m : List α) : List α :=
  if m.length = flags.length then
    ((m.zip flags).filter (·.2)).map (·.1) ++ ((m.zip flags).filter fun x => !x.2).map (·.1)
  else m

theorem flagged_first_perm {α : Type} (flags : List Bool) (m : List α) :
    (flagged_first flags m).Perm m := by
  unfold flagged_first
  split
  · rename_i hlength
    rw [← List.map_append]
    have hparts := (List.filter_append_perm (fun x : α × Bool => x.2) (m.zip flags)).map (·.1)
    rw [List.map_fst_zip (Nat.le_of_eq hlength)] at hparts
    exact hparts
  · exact List.Perm.refl m

theorem flagged_first_eq (p : Row → Bool) (t : List Row) :
    flagged_first (t.map p) t = t.filter p ++ t.filter fun r => !p r := by
  have hzip : t.zip (t.map p) = t.map fun r => (r, p r) := by
    induction t with
    | nil => rfl
    | cons r t ih => rw [List.map_cons, List.zip_cons_cons, ih, List.map_cons]
  unfold flagged_first
  rw [if_pos (List.length_map p).symm, hzip, List.filter_map, List.filter_map, List.map_map,
    List.map_map]
  congr 1
  · exact List.map_id _
  · exact List.map_id _

/-- With `n` such rows, some order puts nothing else among the first `n`. -/
theorem exists_order (hmany : n ≤ (t.filter p).length) :
    ∃ unordered : ∀ {α : Type}, List α → List α, (∀ {α : Type} (m : List α), (unordered m).Perm m) ∧
      ∀ r ∈ (unordered t).take n, p r = true := by
  refine ⟨fun m => flagged_first (t.map p) m, fun m => flagged_first_perm _ m, fun r hr => ?_⟩
  simp only [flagged_first_eq] at hr
  rw [List.take_append_of_le_length hmany] at hr
  exact (List.mem_filter.mp (List.mem_of_mem_take hr)).2

end limit
