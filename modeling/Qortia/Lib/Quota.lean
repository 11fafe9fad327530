-- A walk over rows in their order that keeps, for every key, the first rows up to a limit.
import Mathlib.Data.List.Basic

namespace quota

variable {Row Key : Type} [DecidableEq Key] {key : Row → Key} {limit : Nat} {t : List Row}

/-- The rows that the walk keeps for one key. -/
def taken (key : Row → Key) (limit : Nat) (t : List Row) (k : Key) : List Row :=
  (t.filter fun r => key r = k).take limit

theorem mem_taken {k : Key} {r : Row} (h : r ∈ taken key limit t k) : r ∈ t ∧ key r = k := by
  obtain ⟨hr, hk⟩ := List.mem_filter.mp (List.mem_of_mem_take h)
  exact ⟨hr, of_decide_eq_true hk⟩

theorem taken_length_le (k : Key) : (taken key limit t k).length ≤ limit :=
  List.length_take_le _ _

/-- No row of the key came so far. -/
theorem taken_absent {k : Key} (h : ∀ r ∈ t, key r ≠ k) : taken key limit t k = [] := by
  unfold taken
  rw [List.filter_eq_nil_iff.mpr fun r hr => by simpa using h r hr, List.take_nil]

/-! ## One more row -/

theorem taken_concat_other {r : Row} {k : Key} (h : key r ≠ k) :
    taken key limit (t ++ [r]) k = taken key limit t k := by
  unfold taken
  simp [List.filter_append, h]

/-- The quota of the key is used up. -/
theorem taken_concat_full {r : Row} (h : limit ≤ (taken key limit t (key r)).length) (k : Key) :
    taken key limit (t ++ [r]) k = taken key limit t k := by
  by_cases hk : key r = k
  · subst hk
    unfold taken at h ⊢
    have hfull : limit ≤ (t.filter fun r' => key r' = key r).length :=
      Nat.le_trans h (List.length_take_le' _ _)
    rw [List.filter_append, List.take_append_of_le_length hfull]
  · exact taken_concat_other hk

theorem taken_concat {r : Row} (h : (taken key limit t (key r)).length < limit) :
    taken key limit (t ++ [r]) (key r) = taken key limit t (key r) ++ [r] := by
  unfold taken at h ⊢
  have hroom : (t.filter fun r' => key r' = key r).length < limit := by
    rw [List.length_take] at h
    omega
  have hone : [r].filter (fun r' => key r' = key r) = [r] := by simp
  rw [List.filter_append, hone, List.take_of_length_le (Nat.le_of_lt hroom),
    List.take_of_length_le]
  rw [List.length_append, List.length_singleton]
  omega

/-! ## All keys -/

theorem taken_all_length_le (ks : List Key) :
    (ks.flatMap (taken key limit t)).length ≤ ks.length * limit := by
  induction ks with
  | nil => simp
  | cons k ks ih =>
    have hk : (taken key limit t k).length ≤ limit := taken_length_le k
    rw [List.flatMap_cons, List.length_append, List.length_cons, Nat.succ_mul]
    omega

end quota
