-- `_rrf_fuse` of `qortia.recall_helpers`. It counts how often an id appears in the one list that
-- it is given, and does not know the ranks that the id has in the two lists behind it.
import Mathlib.Algebra.BigOperators.Group.List.Basic
import Qortia.Lib.Ranking
import Qortia.RecallResults

namespace qortia

variable {K : Type} [Field K] [LinearOrder K]

/-! ## What the loop gathers -/

/-- What an id gathers in `n` appearances. -/
def gathered (rrf_k n : Nat) : K :=
  ((List.range n).map fun j => 1 / ((rrf_k + (j + 1) : Nat) : K)).sum

omit [LinearOrder K] in
theorem gathered_succ (rrf_k n : Nat) :
    (gathered rrf_k (n + 1) : K) = gathered rrf_k n + 1 / ((rrf_k + (n + 1) : Nat) : K) := by
  unfold gathered
  rw [List.range_succ, List.map_append, List.sum_append]
  simp

/-- The three dicts after the results: one entry for each id, in the order of first appearance,
with the number of its appearances and its last result. -/
structure Tallied (rrf_k : Nat) (results : List (RecallResult K)) (fused : List (Fused K)) :
    Prop where
  nodup : (fused.map (·.result.id)).Nodup
  mem_iff : ∀ id, id ∈ fused.map (·.result.id) ↔ id ∈ results.map (·.id)
  first : (fused.map (·.result.id)).Pairwise fun x y =>
    (results.map (·.id)).idxOf x < (results.map (·.id)).idxOf y
  position : ∀ f ∈ fused, f.position = (results.map (·.id)).count f.result.id
  score : ∀ f ∈ fused, f.score = gathered rrf_k f.position
  latest : ∀ f ∈ fused, results.reverse.find? (fun r => r.id = f.result.id) = some f.result

omit [LinearOrder K] in
theorem mem_rrf_add_cases {rrf_k : Nat} {fused : List (Fused K)} {x : RecallResult K}
    {f : Fused K} (h : f ∈ rrf_add rrf_k fused x) :
    (∃ g ∈ fused, g.result.id = x.id ∧ f.result = x ∧ f.position = g.position + 1 ∧
      f.score = g.score + 1 / ((rrf_k + (g.position + 1) : Nat) : K)) ∨
    (f ∈ fused ∧ f.result.id ≠ x.id) ∨
    (x.id ∉ fused.map (·.result.id) ∧ f.result = x ∧ f.position = 1 ∧
      f.score = 1 / ((rrf_k + 1 : Nat) : K)) := by
  unfold rrf_add at h
  by_cases hany : fused.any fun f => f.result.id = x.id
  · rw [rows.upsert_of_any hany] at h
    obtain ⟨g, hg, ⟨hid, rfl⟩ | ⟨hother, rfl⟩⟩ := rows.mem_update.mp h
    · exact Or.inl ⟨g, hg, of_decide_eq_true hid, rfl, rfl, rfl⟩
    · exact Or.inr (Or.inl ⟨hg, by simpa using hother⟩)
  · rw [rows.upsert_of_not_any hany] at h
    have hnone : ∀ g ∈ fused, g.result.id ≠ x.id := by
      intro g hg hid
      exact hany (List.any_eq_true.mpr ⟨g, hg, decide_eq_true hid⟩)
    rcases List.mem_append.mp h with h | h
    · exact Or.inr (Or.inl ⟨h, hnone f h⟩)
    · rw [List.mem_singleton.mp h]
      refine Or.inr (Or.inr ⟨?_, rfl, rfl, rfl⟩)
      intro hmem
      obtain ⟨g, hg, hid⟩ := List.mem_map.mp hmem
      exact hnone g hg hid

omit [LinearOrder K] in
theorem Tallied.add_mem_iff {rrf_k : Nat} {results : List (RecallResult K)}
    {fused : List (Fused K)} (h : Tallied rrf_k results fused) (x : RecallResult K) (id : UUID) :
    id ∈ (rrf_add rrf_k fused x).map (·.result.id) ↔ id ∈ (results ++ [x]).map (·.id) := by
  rw [rrf_add_ids, List.map_append, List.mem_append, ← h.mem_iff]
  split
  · rename_i hmem
    constructor
    · exact Or.inl
    · rintro (hid | hid)
      · exact hid
      · rw [List.map_singleton, List.mem_singleton] at hid
        rw [hid]
        exact hmem
  · rw [List.mem_append]
    rfl

omit [LinearOrder K] in
/-- An id that is new comes after all the others. -/
theorem Tallied.add_first {rrf_k : Nat} {results : List (RecallResult K)}
    {fused : List (Fused K)} (h : Tallied rrf_k results fused) (x : RecallResult K) :
    ((rrf_add rrf_k fused x).map (·.result.id)).Pairwise fun a b =>
      ((results ++ [x]).map (·.id)).idxOf a < ((results ++ [x]).map (·.id)).idxOf b := by
  have hidx : ∀ id ∈ fused.map (·.result.id), ((results ++ [x]).map (·.id)).idxOf id =
      (results.map (·.id)).idxOf id := by
    intro id hid
    rw [List.map_append]
    exact List.idxOf_append_of_mem ((h.mem_iff id).mp hid)
  have hold : (fused.map (·.result.id)).Pairwise fun a b =>
      ((results ++ [x]).map (·.id)).idxOf a < ((results ++ [x]).map (·.id)).idxOf b := by
    refine h.first.imp_of_mem ?_
    intro a b ha hb hlt
    rw [hidx a ha, hidx b hb]
    exact hlt
  rw [rrf_add_ids]
  split
  · exact hold
  · rename_i hnew
    rw [List.pairwise_append]
    refine ⟨hold, List.pairwise_singleton _ _, ?_⟩
    intro a ha b hb
    rw [List.mem_singleton] at hb
    rw [hb, hidx a ha, List.map_append,
      List.idxOf_append_of_notMem (mt (h.mem_iff x.id).mpr hnew)]
    have hlt := List.idxOf_lt_length_of_mem ((h.mem_iff a).mp ha)
    omega

omit [LinearOrder K] in
/-- One turn of the loop. -/
theorem Tallied.add {rrf_k : Nat} {results : List (RecallResult K)} {fused : List (Fused K)}
    (h : Tallied rrf_k results fused) (x : RecallResult K) :
    Tallied rrf_k (results ++ [x]) (rrf_add rrf_k fused x) := by
  refine ⟨(foldl_rrf_add rrf_k [x] fused h.nodup).1, h.add_mem_iff x, h.add_first x, ?_, ?_, ?_⟩
  · intro f hf
    rw [List.map_append, List.count_append]
    rcases mem_rrf_add_cases hf with ⟨g, hg, hid, hresult, hposition, -⟩ | ⟨hf, hid⟩ |
      ⟨hnew, hresult, hposition, -⟩
    · rw [hposition, h.position g hg, hresult, hid]
      simp
    · rw [h.position f hf]
      simp [Ne.symm hid]
    · rw [hposition, hresult, List.count_eq_zero_of_not_mem (mt (h.mem_iff x.id).mpr hnew)]
      simp
  · intro f hf
    rcases mem_rrf_add_cases hf with ⟨g, hg, -, -, hposition, hscore⟩ | ⟨hf, -⟩ |
      ⟨-, -, hposition, hscore⟩
    · rw [hscore, hposition, gathered_succ, h.score g hg]
    · exact h.score f hf
    · rw [hscore, hposition]
      simp [gathered]
  · intro f hf
    rw [List.reverse_append, List.reverse_singleton, List.singleton_append, List.find?_cons]
    rcases mem_rrf_add_cases hf with ⟨g, -, -, hresult, -, -⟩ | ⟨hf, hid⟩ | ⟨-, hresult, -, -⟩
    · simp [hresult]
    · simp [Ne.symm hid, h.latest f hf]
    · simp [hresult]

omit [LinearOrder K] in
theorem tallied_nil (rrf_k : Nat) : Tallied (K := K) rrf_k [] [] := by
  refine ⟨List.nodup_nil, fun _ => Iff.rfl, List.Pairwise.nil, ?_, ?_, ?_⟩
  · simp
  · simp
  · simp

omit [LinearOrder K] in
/-- The whole loop. -/
theorem tallied (rrf_k : Nat) (results : List (RecallResult K)) :
    Tallied rrf_k results (results.foldl (rrf_add rrf_k) []) := by
  induction results using List.reverseRecOn with
  | nil => exact tallied_nil rrf_k
  | append_singleton results x ih =>
    rw [List.foldl_append]
    exact ih.add x

/-! ## The ranking -/

/-- The importance of an id, which is that of its last result. -/
def latest_importance (o : Outside K) (now : Timestamp) (results : List (RecallResult K))
    (id : UUID) : K :=
  ((results.reverse.find? fun r => r.id = id).map (RecallResult.dynamic_importance o now)).getD 0

/-- `boost` of `_rrf_fuse`. -/
def entity_boost (entity_links : List UUID) (id : UUID) : K :=
  if id ∈ entity_links then ((3 : Nat) : K) / ((2 : Nat) : K) else 1

/-- What `_rrf_fuse` ranks the ids of a list by. -/
def appearance_score (o : Outside K) (rrf_k : Nat) (now : Timestamp)
    (results : List (RecallResult K)) (entity_links : List UUID) (id : UUID) : K :=
  gathered rrf_k ((results.map (·.id)).count id) * latest_importance o now results id *
    entity_boost entity_links id

/-- Any list is ranked by the number of appearances of an id, its importance and its boost. -/
theorem rrf_fuse_ranked (o : Outside K) (cfg : Settings) (now : Timestamp)
    (results : List (RecallResult K)) (entity_links : List UUID) :
    ranking.RankedBy (appearance_score o cfg.recall_rrf_k now results entity_links)
      (results.map (·.id)) ((rrf_fuse o cfg now results entity_links).map (·.id)) := by
  have h := tallied cfg.recall_rrf_k results
  have hscore : ∀ f ∈ results.foldl (rrf_add cfg.recall_rrf_k) [],
      f.final_score o now entity_links =
        appearance_score o cfg.recall_rrf_k now results entity_links f.result.id := by
    intro f hf
    unfold Fused.final_score appearance_score latest_importance entity_boost
    rw [h.score f hf, h.position f hf, h.latest f hf]
    rfl
  have hids : (rrf_fuse o cfg now results entity_links).map (·.id) =
      rows.order_desc (appearance_score o cfg.recall_rrf_k now results entity_links)
        ((results.foldl (rrf_add cfg.recall_rrf_k) []).map (·.result.id)) := by
    unfold rrf_fuse rows.order_desc
    rw [List.map_map]
    apply List.map_insertionSort
    intro a ha b hb
    rw [hscore a ha, hscore b hb]
    rfl
  rw [hids]
  exact ranking.ranked_by_order_desc h.nodup h.mem_iff h.first

/-- What an id of two lists gets: the weight of a first rank, and that of a second rank if it is
in both lists. -/
def appearance_weight (rrf_k : Nat) (bm25 vector : List (RecallResult K)) (id : UUID) : K :=
  if id ∈ bm25.map (·.id) ∧ id ∈ vector.map (·.id) then
    1 / ((rrf_k + 1 : Nat) : K) + 1 / ((rrf_k + 2 : Nat) : K)
  else 1 / ((rrf_k + 1 : Nat) : K)

omit [LinearOrder K] in
theorem gathered_of_two {rrf_k : Nat} {bm25 vector : List (RecallResult K)} {id : UUID}
    (hbm25 : (bm25.map (·.id)).Nodup) (hvector : (vector.map (·.id)).Nodup)
    (hid : id ∈ (bm25 ++ vector).map (·.id)) :
    gathered rrf_k (((bm25 ++ vector).map (·.id)).count id) =
      appearance_weight rrf_k bm25 vector id := by
  have hone : (gathered rrf_k 1 : K) = 1 / ((rrf_k + 1 : Nat) : K) := by
    simp [gathered]
  have htwo : (gathered rrf_k 2 : K) =
      1 / ((rrf_k + 1 : Nat) : K) + 1 / ((rrf_k + 2 : Nat) : K) := by
    rw [gathered_succ, hone]
  unfold appearance_weight
  rw [List.map_append, List.mem_append] at hid
  rw [List.map_append, List.count_append]
  by_cases h1 : id ∈ bm25.map (·.id)
  · rw [List.count_eq_one_of_mem hbm25 h1]
    by_cases h2 : id ∈ vector.map (·.id)
    · rw [List.count_eq_one_of_mem hvector h2, if_pos ⟨h1, h2⟩]
      exact htwo
    · rw [List.count_eq_zero_of_not_mem h2, if_neg fun h => h2 h.2]
      exact hone
  · have h2 := hid.resolve_left h1
    rw [List.count_eq_zero_of_not_mem h1, List.count_eq_one_of_mem hvector h2,
      if_neg fun h => h1 h.1]
    exact hone

/-- Two lists are ranked by whether an id is in one of them or in both, its importance and its
boost. The ranks inside the lists play no part, except that the first appearance breaks a tie. -/
theorem rrf_fuse_counts_the_lists (o : Outside K) (cfg : Settings) (now : Timestamp)
    (bm25 vector : List (RecallResult K)) (entity_links : List UUID)
    (hbm25 : (bm25.map (·.id)).Nodup) (hvector : (vector.map (·.id)).Nodup) :
    ranking.RankedBy
      (fun id => appearance_weight cfg.recall_rrf_k bm25 vector id *
        latest_importance o now (bm25 ++ vector) id * entity_boost entity_links id)
      ((bm25 ++ vector).map (·.id))
      ((rrf_fuse o cfg now (bm25 ++ vector) entity_links).map (·.id)) := by
  apply (rrf_fuse_ranked o cfg now (bm25 ++ vector) entity_links).congr
  intro id hid
  unfold appearance_score
  rw [gathered_of_two hbm25 hvector hid]

/-! ## Reciprocal ranks -/

/-- The weight of an id in a ranked list. -/
def reciprocal_rank (rrf_k : Nat) (ranked : List (RecallResult K)) (id : UUID) : K :=
  if id ∈ ranked.map (·.id) then
    1 / ((rrf_k + ((ranked.map (·.id)).idxOf id + 1) : Nat) : K)
  else 0

/-- The score of an id in the reciprocal-rank fusion of two lists. -/
def fusion_score (o : Outside K) (rrf_k : Nat) (now : Timestamp)
    (bm25 vector : List (RecallResult K)) (entity_links : List UUID) (id : UUID) : K :=
  (reciprocal_rank rrf_k bm25 id + reciprocal_rank rrf_k vector id) *
    latest_importance o now (bm25 ++ vector) id * entity_boost entity_links id

/-- The result is the reciprocal-rank fusion of the two lists if and only if, for every two ids,
the ranks decide as the number of lists does. -/
theorem rrf_fuse_is_reciprocal_iff (o : Outside K) (cfg : Settings) (now : Timestamp)
    (bm25 vector : List (RecallResult K)) (entity_links : List UUID) :
    ranking.RankedBy (fusion_score o cfg.recall_rrf_k now bm25 vector entity_links)
        ((bm25 ++ vector).map (·.id))
        ((rrf_fuse o cfg now (bm25 ++ vector) entity_links).map (·.id)) ↔
      ∀ x ∈ (bm25 ++ vector).map (·.id), ∀ y ∈ (bm25 ++ vector).map (·.id),
        ((bm25 ++ vector).map (·.id)).idxOf x < ((bm25 ++ vector).map (·.id)).idxOf y →
          (appearance_score o cfg.recall_rrf_k now (bm25 ++ vector) entity_links y ≤
              appearance_score o cfg.recall_rrf_k now (bm25 ++ vector) entity_links x ↔
            fusion_score o cfg.recall_rrf_k now bm25 vector entity_links y ≤
              fusion_score o cfg.recall_rrf_k now bm25 vector entity_links x) :=
  (rrf_fuse_ranked o cfg now (bm25 ++ vector) entity_links).iff_agree

/-! ## Three memories in two lists -/

def memory_result (id : UUID) : RecallResult ℚ :=
  { id, type := .memory .episodic, scope := .private_, content := "the lexer stops"
    created_at := 0, score := 1 }

theorem rrf_fuse_counts_the_lists_of_three :
    ranking.RankedBy
      (fun id => appearance_weight 60 [memory_result 1, memory_result 2]
          [memory_result 3, memory_result 2] id *
        latest_importance no_models 0 [memory_result 1, memory_result 2, memory_result 3,
          memory_result 2] id * entity_boost [] id)
      [1, 2, 3, 2]
      ((rrf_fuse no_models {} 0 [memory_result 1, memory_result 2, memory_result 3,
        memory_result 2] []).map (·.id)) :=
  rrf_fuse_counts_the_lists no_models {} 0 [memory_result 1, memory_result 2]
    [memory_result 3, memory_result 2] [] (by decide) (by decide)

/-- The second memory of one list comes before the first one of the other. -/
theorem a_second_rank_comes_first :
    (rrf_fuse no_models {} 0 ([memory_result 1, memory_result 2] ++ [memory_result 3]) []).map
        (·.id) = [1, 2, 3] ∧
      ¬ ranking.RankedBy (fusion_score no_models 60 0 [memory_result 1, memory_result 2]
        [memory_result 3] []) [1, 2, 3]
        ((rrf_fuse no_models {} 0 ([memory_result 1, memory_result 2] ++ [memory_result 3])
          []).map (·.id)) := by
  refine ⟨by decide +kernel, ?_⟩
  intro h
  have hordered := h.ordered
  revert hordered
  decide +kernel

end qortia
