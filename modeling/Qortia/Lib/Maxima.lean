-- A table with the largest of the values that each key was given.
import Mathlib.Order.Bounds.Basic
import Mathlib.Order.MinMax
import Qortia.Lib.Rows

namespace maxima

variable {Key Val : Type} [DecidableEq Key] [LinearOrder Val]

/-- The table has one row for each key with values, and the largest of them in it. -/
structure Holds (t : List (Key × Val)) (given : Key → Set Val) : Prop where
  keys : (t.map (·.1)).Nodup
  largest : ∀ k v, (k, v) ∈ t → IsGreatest (given k) v
  present : ∀ k, (given k).Nonempty → ∃ v, (k, v) ∈ t

def raise (k : Key) (v : Val) (t : List (Key × Val)) : List (Key × Val) :=
  rows.upsert (fun r => r.1 = k) (fun r => (k, max r.2 v)) (k, v) t

variable {t : List (Key × Val)} {given given' : Key → Set Val}

omit [DecidableEq Key] in
theorem Holds.empty : Holds ([] : List (Key × Val)) fun _ => ∅ where
  keys := List.nodup_nil
  largest _ _ h := nomatch h
  present _ h := absurd h Set.not_nonempty_empty

omit [DecidableEq Key] in
theorem Holds.congr (h : Holds t given) (heq : ∀ k v, v ∈ given' k ↔ v ∈ given k) :
    Holds t given' :=
  (funext fun k => Set.ext (heq k) : given' = given) ▸ h

omit [DecidableEq Key] in
theorem Holds.mem_iff (h : Holds t given) (k : Key) (v : Val) :
    (k, v) ∈ t ↔ IsGreatest (given k) v := by
  constructor
  · exact h.largest k v
  · intro hv
    obtain ⟨v', hv'⟩ := h.present k ⟨v, hv.1⟩
    rw [hv.unique (h.largest k v' hv')]
    exact hv'

omit [DecidableEq Key] in
theorem isGreatest_max {s : Set Val} {v v' : Val} (h : IsGreatest s v) :
    IsGreatest (insert v' s) (max v v') := by
  constructor
  · rcases max_choice v v' with hmax | hmax
    · rw [hmax]
      exact Set.mem_insert_of_mem _ h.1
    · rw [hmax]
      exact Set.mem_insert _ _
  · rintro w (rfl | hw)
    · exact le_max_right _ _
    · exact (h.2 hw).trans (le_max_left _ _)

/-- One more value for a key. -/
theorem Holds.raise (h : Holds t given) (k : Key) (v : Val) :
    Holds (raise k v t) fun k' => if k' = k then insert v (given k') else given k' := by
  unfold maxima.raise
  by_cases hany : t.any (fun r => r.1 = k) = true
  · rw [rows.upsert_of_any hany]
    have hkeys : (rows.update (fun r => r.1 = k) (fun r => (k, max r.2 v)) t).map (·.1) =
        t.map (·.1) := by
      unfold rows.update
      rw [List.map_map]
      apply List.map_congr_left
      intro r _
      simp only [Function.comp]
      split
      · rename_i hk
        exact (of_decide_eq_true hk).symm
      · rfl
    refine ⟨by rw [hkeys]; exact h.keys, fun k' v' hmem => ?_, fun k' hgiven => ?_⟩
    · obtain ⟨⟨k₀, v₀⟩, hr, ⟨hk, heq⟩ | ⟨hk, heq⟩⟩ := rows.mem_update.mp hmem
      · cases heq
        have hk : k₀ = k := of_decide_eq_true hk
        subst hk
        rw [if_pos rfl]
        exact isGreatest_max (h.largest _ _ hr)
      · cases heq
        rw [if_neg (of_decide_eq_false hk)]
        exact h.largest _ _ hr
    · have hold : k' ∈ t.map (·.1) := by
        by_cases hk : k' = k
        · obtain ⟨r, hr, hrk⟩ := List.any_eq_true.mp hany
          rw [hk, ← of_decide_eq_true hrk]
          exact List.mem_map_of_mem hr
        · rw [if_neg hk] at hgiven
          obtain ⟨v', hv'⟩ := h.present k' hgiven
          exact List.mem_map.mpr ⟨_, hv', rfl⟩
      rw [← hkeys] at hold
      obtain ⟨⟨k₀, v₀⟩, hr, rfl⟩ := List.mem_map.mp hold
      exact ⟨v₀, hr⟩
  · rw [rows.upsert_of_not_any hany]
    have hnew : ∀ r ∈ t, r.1 ≠ k := fun r hr hk =>
      hany (List.any_eq_true.mpr ⟨r, hr, decide_eq_true hk⟩)
    refine ⟨?_, fun k' v' hmem => ?_, fun k' hgiven => ?_⟩
    · rw [List.map_append, List.nodup_append]
      refine ⟨h.keys, List.nodup_singleton _, ?_⟩
      rintro a ha b hb rfl
      obtain ⟨r, hr, rfl⟩ := List.mem_map.mp ha
      exact hnew r hr (List.mem_singleton.mp hb)
    · rcases List.mem_append.mp hmem with hmem | hmem
      · rw [if_neg (hnew _ hmem)]
        exact h.largest _ _ hmem
      · cases List.mem_singleton.mp hmem
        rw [if_pos rfl]
        -- The key had no value before.
        have hnone : given k = ∅ := by
          by_contra hne
          obtain ⟨v', hv'⟩ := h.present k (Set.nonempty_iff_ne_empty.mpr hne)
          exact hnew _ hv' rfl
        rw [hnone, insert_empty_eq]
        exact isGreatest_singleton
    · by_cases hk : k' = k
      · rw [hk]
        exact ⟨v, List.mem_append_right _ List.mem_cons_self⟩
      · rw [if_neg hk] at hgiven
        obtain ⟨v', hv'⟩ := h.present k' hgiven
        exact ⟨v', List.mem_append_left _ hv'⟩

/-- One more value for some keys. -/
theorem Holds.raise_all (h : Holds t given) (v : Val) (ks : List Key) :
    Holds (ks.foldl (fun t k => maxima.raise k v t) t)
      fun k => if k ∈ ks then insert v (given k) else given k := by
  induction ks generalizing t given with
  | nil => simpa using h
  | cons k ks ih =>
    refine (ih (h.raise k v)).congr fun k' v' => ?_
    by_cases hk : k' = k
    · by_cases hks : k' ∈ ks
      · simp [hk, hk ▸ hks]
      · simp [hk, hk ▸ hks]
    · simp [hk]

end maxima
