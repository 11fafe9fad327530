-- `_mmr` of `qortia.recall_helpers`: the selected candidates are pairwise dissimilar, and a
-- candidate is left out only if it is similar to a selected one, has no embedding, or finds no
-- room.
import Qortia.Cosine
import Qortia.Lib.Ranking
import Qortia.RecallHelpers

namespace qortia

open ranking (at_places)

variable {K : Type} [Field K] [LinearOrder K] [HasSqrt K]

/-! ## The inner loop -/

section
variable {qe : List K} {lambda_ threshold : K} {selected : List (RecallResult K)}

omit [Field K] [HasSqrt K] in
theorem foldl_max_lt_iff {a t : K} {l : List K} :
    l.foldl max a < t ↔ a < t ∧ ∀ x ∈ l, x < t := by
  induction l generalizing a with
  | nil => simp
  | cons x l ih =>
    rw [List.foldl_cons, ih, max_lt_iff]
    simp [and_assoc]

/-- The redundancy stays below a bound if the similarity to each selected candidate does. -/
theorem redundancy_lt_iff (hthreshold : 0 < threshold) (x : RecallResult K) :
    redundancy selected x < threshold ↔
      ∀ s ∈ selected, s.embedding ≠ [] → cosine x.embedding s.embedding < threshold := by
  have hmem : ∀ c, (c ∈ (selected.filter fun s => s.embedding ≠ []).map fun s =>
      cosine x.embedding s.embedding) ↔
      ∃ s ∈ selected, s.embedding ≠ [] ∧ cosine x.embedding s.embedding = c := by
    intro c
    simp [and_assoc]
  have hall : (∀ s ∈ selected, s.embedding ≠ [] →
      cosine x.embedding s.embedding < threshold) ↔
      ∀ c ∈ (selected.filter fun s => s.embedding ≠ []).map fun s =>
        cosine x.embedding s.embedding, c < threshold := by
    constructor
    · intro h c hc
      obtain ⟨s, hs, hvector, rfl⟩ := (hmem c).mp hc
      exact h s hs hvector
    · intro h s hs hvector
      exact h _ ((hmem _).mpr ⟨s, hs, hvector, rfl⟩)
  rw [hall]
  unfold redundancy
  split
  · rename_i hnil
    rw [hnil]
    simp [hthreshold]
  · rename_i c cs hcons
    rw [hcons, foldl_max_lt_iff]
    simp

/-- The candidate has an embedding that is redundant to no selected one. -/
def admissible (threshold : K) (selected : List (RecallResult K)) (x : RecallResult K) : Prop :=
  x.embedding ≠ [] ∧ redundancy selected x < threshold

/-- `score` of `_mmr`. -/
def mmr_score (qe : List K) (lambda_ : K) (selected : List (RecallResult K))
    (x : RecallResult K) : K :=
  lambda_ * cosine qe x.embedding - (1 - lambda_) * redundancy selected x

theorem mmr_consider_takes {best : K × Option Nat} {x : RecallResult K} (i : Nat)
    (hx : admissible threshold selected x) (hscore : best.1 < mmr_score qe lambda_ selected x) :
    mmr_consider qe lambda_ threshold selected best (x, i) =
      (mmr_score qe lambda_ selected x, some i) := by
  obtain ⟨hvector, hfar⟩ := hx
  unfold mmr_score at hscore
  unfold mmr_consider mmr_score
  simp only [hvector, not_le.mpr hfar, hscore, if_false, if_true]

theorem mmr_consider_keeps {best : K × Option Nat} {x : RecallResult K} (i : Nat)
    (hx : admissible threshold selected x → mmr_score qe lambda_ selected x ≤ best.1) :
    mmr_consider qe lambda_ threshold selected best (x, i) = best := by
  unfold mmr_consider
  by_cases hvector : x.embedding = []
  · simp [hvector]
  · by_cases hfar : redundancy selected x < threshold
    · have hscore := hx ⟨hvector, hfar⟩
      unfold mmr_score at hscore
      simp only [hvector, not_le.mpr hfar, not_lt.mpr hscore, if_false]
    · simp only [hvector, not_lt.mp hfar, if_false, if_true]

/-- The inner loop finds the first of the admissible candidates with the highest score, if that
is higher than the score it starts with. -/
theorem consider_all (best : K × Option Nat) (l : List (RecallResult K)) (k : Nat) :
    ((l.zipIdx k).foldl (mmr_consider qe lambda_ threshold selected) best = best ∧
      ∀ x ∈ l, admissible threshold selected x → mmr_score qe lambda_ selected x ≤ best.1) ∨
    ∃ i x, l[i]? = some x ∧ admissible threshold selected x ∧
      best.1 < mmr_score qe lambda_ selected x ∧
      (∀ j < i, ∀ y, l[j]? = some y → admissible threshold selected y →
        mmr_score qe lambda_ selected y < mmr_score qe lambda_ selected x) ∧
      (l.zipIdx k).foldl (mmr_consider qe lambda_ threshold selected) best =
        (mmr_score qe lambda_ selected x, some (k + i)) := by
  induction l generalizing best k with
  | nil => simp
  | cons x l ih =>
    rw [List.zipIdx_cons, List.foldl_cons]
    by_cases htake : admissible threshold selected x ∧ best.1 < mmr_score qe lambda_ selected x
    · obtain ⟨hx, hscore⟩ := htake
      rw [mmr_consider_takes k hx hscore]
      right
      rcases ih (mmr_score qe lambda_ selected x, some k) (k + 1) with
        ⟨heq, -⟩ | ⟨i, y, hy, hadmissible, hbetter, hfirst, heq⟩
      · refine ⟨0, x, rfl, hx, hscore, ?_, heq⟩
        intro j hj
        omega
      · refine ⟨i + 1, y, hy, hadmissible, hscore.trans hbetter, ?_, ?_⟩
        · intro j hj z hz hz'
          cases j with
          | zero =>
            rw [List.getElem?_cons_zero, Option.some.injEq] at hz
            rw [← hz]
            exact hbetter
          | succ j => exact hfirst j (by omega) z hz hz'
        · rw [heq]
          congr 2
          omega
    · have hx : admissible threshold selected x → mmr_score qe lambda_ selected x ≤ best.1 := by
        intro hadmissible
        exact not_lt.mp fun hscore => htake ⟨hadmissible, hscore⟩
      rw [mmr_consider_keeps k hx]
      rcases ih best (k + 1) with ⟨heq, hrest⟩ | ⟨i, y, hy, hadmissible, hscore, hfirst, heq⟩
      · left
        refine ⟨heq, ?_⟩
        intro z hz
        rcases List.mem_cons.mp hz with rfl | hz
        · exact hx
        · exact hrest z hz
      · right
        refine ⟨i + 1, y, hy, hadmissible, hscore, ?_, ?_⟩
        · intro j hj z hz hz'
          cases j with
          | zero =>
            rw [List.getElem?_cons_zero, Option.some.injEq] at hz
            rw [← hz] at hz' ⊢
            exact (hx hz').trans_lt hscore
          | succ j => exact hfirst j (by omega) z hz hz'
        · rw [heq]
          congr 2
          omega

variable [IsStrictOrderedRing K] [LawfulSqrt K]

/-- The score that the inner loop starts with is below that of every admissible candidate. -/
theorem neg_one_lt_mmr_score (hlambda : 0 ≤ lambda_) (hlambda' : lambda_ < 1)
    (hthreshold : threshold ≤ 1) {x : RecallResult K} (hx : admissible threshold selected x) :
    -1 < mmr_score qe lambda_ selected x := by
  have hrelevance : lambda_ * -1 ≤ lambda_ * cosine qe x.embedding :=
    mul_le_mul_of_nonneg_left (neg_one_le_cosine _ _) hlambda
  have hredundancy : (1 - lambda_) * redundancy selected x < (1 - lambda_) * 1 :=
    mul_lt_mul_of_pos_left (hx.2.trans_le hthreshold) (sub_pos.mpr hlambda')
  unfold mmr_score
  linarith

end

/-! ## The loop -/

omit [Field K] [HasSqrt K] in
/-- `remaining.remove(best_candidate)` takes away the candidate at its place, where no candidate
before it equals it. -/
theorem remove_first {remaining : List (RecallResult K)} {i : Nat} {x : RecallResult K}
    (hi : remaining[i]? = some x) (hfirst : ∀ j < i, remaining[j]? ≠ some x) :
    remaining.erase x = remaining.eraseIdx i := by
  induction remaining generalizing i with
  | nil => rfl
  | cons y remaining ih =>
    cases i with
    | zero =>
      rw [List.getElem?_cons_zero, Option.some.injEq] at hi
      rw [hi, List.erase_cons_head, List.eraseIdx_cons_zero]
    | succ i =>
      have hne : y ≠ x := by
        intro heq
        exact hfirst 0 (by omega) (by rw [heq, List.getElem?_cons_zero])
      rw [List.erase_cons_tail (by simpa using hne), List.eraseIdx_cons_succ]
      rw [List.getElem?_cons_succ] at hi
      rw [ih hi]
      intro j hj
      exact hfirst (j + 1) (by omega)

section
variable {qe : List K} {lambda_ threshold : K}
variable [IsStrictOrderedRing K] [LawfulSqrt K]

/-- One turn of the loop: nothing that remains is admissible, or an admissible candidate moves
from the remaining to the selected ones. It is the first one that equals it. -/
theorem mmr_loop_step {wanted : Nat} {selected remaining : List (RecallResult K)}
    (hselected : selected ≠ []) (hlambda : 0 ≤ lambda_) (hlambda' : lambda_ < 1)
    (hthreshold : threshold ≤ 1) :
    (mmr_loop qe lambda_ threshold (wanted + 1) selected remaining = selected ∧
      ∀ x ∈ remaining, ¬ admissible threshold selected x) ∨
    ∃ i x, remaining[i]? = some x ∧ admissible threshold selected x ∧
      remaining.erase x = remaining.eraseIdx i ∧
      mmr_loop qe lambda_ threshold (wanted + 1) selected remaining =
        mmr_loop qe lambda_ threshold wanted (selected ++ [x]) (remaining.erase x) := by
  obtain ⟨s, rest, rfl⟩ := List.exists_cons_of_ne_nil hselected
  cases remaining with
  | nil =>
    left
    simp [mmr_loop]
  | cons y remaining =>
    rcases @consider_all K _ _ _ qe lambda_ threshold (s :: rest) (-1, none) (y :: remaining) 0 with
      ⟨heq, hnone⟩ | ⟨i, x, hi, hx, -, hfirst, heq⟩
    · left
      rw [mmr_loop.eq_def]
      simp only [heq, true_and]
      intro x hx hadmissible
      apply absurd (hnone x hx hadmissible)
      rw [not_le]
      exact neg_one_lt_mmr_score hlambda hlambda' hthreshold hadmissible
    · right
      have hremove : (y :: remaining).erase x = (y :: remaining).eraseIdx i := by
        apply remove_first hi
        intro j hj heq'
        exact absurd (hfirst j hj x heq' hx) (lt_irrefl _)
      refine ⟨i, x, hi, hx, hremove, ?_⟩
      rw [mmr_loop.eq_def, hremove]
      simp only [heq, Nat.zero_add, hi]

/-- Of two candidates with embeddings, neither is redundant to the other. -/
def dissimilar (threshold : K) (x y : RecallResult K) : Prop :=
  x.embedding ≠ [] → y.embedding ≠ [] → cosine x.embedding y.embedding < threshold

/-- The candidate is similar to one of the selected. -/
def redundant (threshold : K) (selected : List (RecallResult K)) (x : RecallResult K) : Prop :=
  ∃ s ∈ selected, s.embedding ≠ [] ∧ threshold ≤ cosine x.embedding s.embedding

omit [IsStrictOrderedRing K] [LawfulSqrt K] in
theorem redundant_of_not_lt (hthreshold : 0 < threshold) {selected : List (RecallResult K)}
    {x : RecallResult K} (h : ¬ redundancy selected x < threshold) :
    redundant threshold selected x := by
  rw [redundancy_lt_iff hthreshold] at h
  push Not at h
  exact h

omit [IsStrictOrderedRing K] [LawfulSqrt K] in
theorem pairwise_dissimilar_add (hthreshold : 0 < threshold) {selected : List (RecallResult K)}
    {x : RecallResult K} (hfar : selected.Pairwise (dissimilar threshold))
    (hx : redundancy selected x < threshold) :
    (selected ++ [x]).Pairwise (dissimilar threshold) := by
  rw [List.pairwise_append]
  refine ⟨hfar, List.pairwise_singleton _ _, ?_⟩
  intro s hs y hy hvector _
  rw [List.mem_singleton] at hy
  rw [hy, cosine_comm]
  exact (redundancy_lt_iff hthreshold x).mp hx s hs hvector

/-- The loop adds places to the selected ones: no place twice, no two similar candidates, and as
many as are wanted unless all the others are redundant or have no embedding. -/
theorem mmr_loop_places {l : List (RecallResult K)} (hlambda : 0 ≤ lambda_)
    (hlambda' : lambda_ < 1) (hthreshold : 0 < threshold) (hthreshold' : threshold ≤ 1)
    (wanted : Nat) (P R : List Nat) (hP : P ≠ []) (hnodup : (P ++ R).Nodup)
    (hlt : ∀ i ∈ P ++ R, i < l.length)
    (hfar : (at_places l P).Pairwise (dissimilar threshold)) :
    ∃ Q, mmr_loop qe lambda_ threshold wanted (at_places l P) (at_places l R) =
        at_places l (P ++ Q) ∧
      (P ++ Q).Nodup ∧ Q ⊆ R ∧ Q.length ≤ wanted ∧
      (at_places l (P ++ Q)).Pairwise (dissimilar threshold) ∧
      (Q.length < wanted → ∀ i ∈ R, i ∉ Q → ∀ x, l[i]? = some x → x.embedding ≠ [] →
        redundant threshold (at_places l (P ++ Q)) x) := by
  induction wanted generalizing P R with
  | zero =>
    refine ⟨[], ?_, ?_, List.nil_subset R, le_refl 0, ?_, ?_⟩
    · rw [List.append_nil]
      simp [mmr_loop]
    · rw [List.append_nil]
      exact hnodup.of_append_left
    · rw [List.append_nil]
      exact hfar
    · intro h
      omega
  | succ wanted ih =>
    have hltP : ∀ i ∈ P, i < l.length := fun i hi => hlt i (List.mem_append_left R hi)
    have hltR : ∀ i ∈ R, i < l.length := fun i hi => hlt i (List.mem_append_right P hi)
    have hselected : at_places l P ≠ [] := by
      intro hnil
      have hlength := ranking.length_at_places hltP
      rw [hnil] at hlength
      exact hP (List.eq_nil_of_length_eq_zero hlength.symm)
    rcases mmr_loop_step hselected hlambda hlambda' hthreshold' with
      ⟨heq, hnone⟩ | ⟨n, x, hn, hx, hremove, heq⟩
    · refine ⟨[], ?_, ?_, List.nil_subset R, Nat.zero_le _, ?_, ?_⟩
      · rw [List.append_nil, heq]
      · rw [List.append_nil]
        exact hnodup.of_append_left
      · rw [List.append_nil]
        exact hfar
      · intro _ i hi _ x hix hvector
        rw [List.append_nil]
        have hnot := hnone x (ranking.mem_at_places.mpr ⟨i, hi, hix⟩)
        exact redundant_of_not_lt hthreshold fun h => hnot ⟨hvector, h⟩
    · rw [ranking.getElem?_at_places hltR, Option.bind_eq_some_iff] at hn
      obtain ⟨i, hi, hix⟩ := hn
      obtain ⟨hnR, hiR⟩ := List.getElem?_eq_some_iff.mp hi
      have hperm : (i :: R.eraseIdx n).Perm R := by
        rw [← hiR]
        exact List.getElem_cons_eraseIdx_perm hnR
      have hperm' : (P ++ [i] ++ R.eraseIdx n).Perm (P ++ R) := by
        rw [List.append_assoc]
        exact hperm.append_left P
      have hsingle : at_places l [i] = [x] := List.filterMap_cons_some hix
      have hfar' : (at_places l (P ++ [i])).Pairwise (dissimilar threshold) := by
        rw [ranking.at_places_append, hsingle]
        exact pairwise_dissimilar_add hthreshold hfar hx.2
      obtain ⟨Q, hloop, hnodup', hsub, hlength, hpairwise, hmaximal⟩ :=
        ih (P ++ [i]) (R.eraseIdx n) (by simp) (hperm'.nodup_iff.mpr hnodup)
          (fun j hj => hlt j (hperm'.mem_iff.mp hj)) hfar'
      have hassoc : P ++ [i] ++ Q = P ++ i :: Q := by simp
      rw [hassoc] at hloop hnodup' hpairwise hmaximal
      refine ⟨i :: Q, ?_, hnodup', ?_, Nat.succ_le_succ hlength, hpairwise, ?_⟩
      · rw [heq, hremove, ranking.eraseIdx_at_places hltR, ← hsingle, ← ranking.at_places_append]
        exact hloop
      · intro j hj
        rcases List.mem_cons.mp hj with rfl | hj
        · exact hperm.mem_iff.mp List.mem_cons_self
        · exact hperm.mem_iff.mp (List.mem_cons_of_mem i (hsub hj))
      · intro hroom j hj hnot
        rw [List.mem_cons, not_or] at hnot
        apply hmaximal (by simpa using hroom) j _ hnot.2
        exact (List.mem_cons.mp (hperm.mem_iff.mpr hj)).resolve_left hnot.1

end

/-! ## The selected candidates -/

/-- The places of a selection: at most `k`, among the eligible candidates, the first of these at
the head, no two similar, and no room left for another one. -/
structure Diversified (min_score threshold : K) (k : Nat) (candidates : List (RecallResult K))
    (places : List Nat) : Prop where
  distinct : places.Nodup
  at_most : places.length ≤ k
  eligible : ∀ i ∈ places, ∃ c, candidates[i]? = some c ∧ min_score ≤ c.score
  first : places.head? = candidates.findIdx? fun c => min_score ≤ c.score
  dissimilar : (at_places candidates places).Pairwise (dissimilar threshold)
  maximal : places.length < k → ∀ i c, candidates[i]? = some c → min_score ≤ c.score →
    i ∉ places → c.embedding = [] ∨ redundant threshold (at_places candidates places) c

section
omit [Field K] [HasSqrt K]

/-- The places of the eligible candidates. -/
def eligible_places (min_score : K) (candidates : List (RecallResult K)) : List Nat :=
  (List.range candidates.length).filter fun i => candidates[i]?.all fun c => min_score ≤ c.score

theorem at_eligible_places (min_score : K) (candidates : List (RecallResult K)) :
    at_places candidates (eligible_places min_score candidates) =
      candidates.filter fun c => min_score ≤ c.score := by
  unfold eligible_places
  rw [ranking.at_places_filter candidates (fun c => decide (min_score ≤ c.score)),
    ranking.at_places_range]

theorem mem_eligible_places {min_score : K} {candidates : List (RecallResult K)} {i : Nat} :
    i ∈ eligible_places min_score candidates ↔
      ∃ c, candidates[i]? = some c ∧ min_score ≤ c.score := by
  unfold eligible_places
  rw [List.mem_filter, List.mem_range]
  constructor
  · rintro ⟨hi, hall⟩
    rw [List.getElem?_eq_getElem hi] at hall
    exact ⟨candidates[i], List.getElem?_eq_getElem hi, by simpa using hall⟩
  · rintro ⟨c, hc, hscore⟩
    rw [hc]
    exact ⟨(List.getElem?_eq_some_iff.mp hc).1, by simpa using hscore⟩

theorem head?_eligible_places (min_score : K) (candidates : List (RecallResult K)) :
    (eligible_places min_score candidates).head? =
      candidates.findIdx? fun c => min_score ≤ c.score := by
  unfold eligible_places
  rw [List.head?_filter]
  induction candidates with
  | nil => rfl
  | cons c candidates ih =>
    rw [List.length_cons, List.range_succ_eq_map, List.find?_cons, List.findIdx?_cons]
    by_cases hc : min_score ≤ c.score
    · simp [hc]
    · simp only [List.getElem?_cons_zero, Option.all_some, hc, decide_false, Bool.false_eq_true,
        if_false, List.find?_map, ← ih]
      rfl

end

/-- `_mmr` selects distinct eligible candidates, the first one first. Of those with embeddings no
two are similar, and the loop ends early only when every other one is redundant. -/
theorem mmr_diversifies [IsStrictOrderedRing K] [LawfulSqrt K] (qe : List K)
    (candidates : List (RecallResult K)) (min_score : K) :
    ∃ places, mmr qe candidates (1 / 2) (85 / 100) min_score = at_places candidates places ∧
      Diversified min_score (85 / 100) 4 candidates places := by
  have hnodup : (eligible_places min_score candidates).Nodup := List.nodup_range.filter _
  have hlt : ∀ i ∈ eligible_places min_score candidates, i < candidates.length := by
    intro i hi
    exact List.mem_range.mp (List.mem_of_mem_filter hi)
  have hfirst := head?_eligible_places min_score candidates
  unfold mmr
  rw [← at_eligible_places]
  cases hplaces : eligible_places min_score candidates with
  | nil =>
    rw [hplaces] at hfirst
    refine ⟨[], by simp [mmr_loop, at_places], List.nodup_nil, Nat.zero_le _, ?_, hfirst,
      List.Pairwise.nil, ?_⟩
    · intro i hi
      cases hi
    · intro _ i c hc hscore
      have hmem := mem_eligible_places.mpr ⟨c, hc, hscore⟩
      rw [hplaces] at hmem
      cases hmem
  | cons e rest =>
    rw [hplaces] at hnodup hlt hfirst
    have he := hlt e List.mem_cons_self
    have hstart : mmr_loop qe (1 / 2) (85 / 100) 4 [] (at_places candidates (e :: rest)) =
        mmr_loop qe (1 / 2) (85 / 100) 3 (at_places candidates [e])
          (at_places candidates rest) := by
      rw [ranking.at_places_cons he, ranking.at_places_cons he]
      simp [mmr_loop, at_places]
    have hone : (at_places candidates [e]).Pairwise (dissimilar (85 / 100)) := by
      rw [ranking.at_places_cons he]
      exact List.pairwise_singleton _ _
    obtain ⟨Q, hloop, hdistinct, hsub, hlength, hpairwise, hmaximal⟩ :=
      @mmr_loop_places K _ _ _ qe (1 / 2) (85 / 100) _ _ candidates (by norm_num) (by norm_num)
        (by norm_num) (by norm_num) 3 [e] rest (by simp) hnodup hlt hone
    refine ⟨e :: Q, hstart.trans hloop, hdistinct, Nat.succ_le_succ hlength, ?_, hfirst, hpairwise,
      ?_⟩
    · intro i hi
      apply mem_eligible_places.mp
      rw [hplaces]
      rcases List.mem_cons.mp hi with rfl | hi
      · exact List.mem_cons_self
      · exact List.mem_cons_of_mem e (hsub hi)
    · intro hroom i c hc hscore hnot
      by_cases hvector : c.embedding = []
      · exact Or.inl hvector
      · right
        have hmem := mem_eligible_places.mpr ⟨c, hc, hscore⟩
        rw [hplaces] at hmem
        rw [List.mem_cons, not_or] at hnot
        have hrest := (List.mem_cons.mp hmem).resolve_left hnot.1
        rw [List.length_cons] at hroom
        exact hmaximal (by omega) i hrest hnot.2 c hc hvector

/-- A chunk with an embedding of real numbers. -/
noncomputable def real_chunk (id : UUID) (embedding : List ℝ) : RecallResult ℝ :=
  { id, type := .knowledge, scope := .knowledge, content := "restart the lexer", created_at := 0
    score := 1, embedding }

theorem mmr_diversifies_real_chunks :
    ∃ places,
      mmr [1, 1] [real_chunk 1 [1, 0], real_chunk 2 [1, 0], real_chunk 3 [0, 1]] (1 / 2)
          (85 / 100) (30 / 100) =
        at_places [real_chunk 1 [1, 0], real_chunk 2 [1, 0], real_chunk 3 [0, 1]] places ∧
      Diversified (30 / 100) (85 / 100) 4
        [real_chunk 1 [1, 0], real_chunk 2 [1, 0], real_chunk 3 [0, 1]] places :=
  mmr_diversifies [1, 1] _ (30 / 100)

end qortia
