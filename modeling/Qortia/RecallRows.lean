-- The stored rows that the searches of the hybrid pipeline find: each search selects the first rows
-- of its table in its order, and its results are their columns.
import Qortia.RecallPrivate

namespace qortia

variable {K : Type} [Field K] [LinearOrder K]

/-! ## The rows that the searches find -/

/-- `WHERE p ORDER BY rank DESC LIMIT n`. -/
def first_matches {Row : Type} (n : Nat) (rank : Row → K) (p : Row → Bool) (t : List Row) :
    List Row :=
  (rows.order_desc rank (t.filter p)).take n

/-- The request starts the search, and the search does not raise. -/
def leg_runs (env : RecallEnv K) (body : RecallRequest) (l : Leg) : Bool :=
  l ∈ legs body (env.query_embedding.any (· ≠ [])) && !env.failed l

def rows_of_leg {Row : Type} (env : RecallEnv K) (body : RecallRequest) (l : Leg) (t : List Row) :
    List Row :=
  if leg_runs env body l then t else []

/-- The similarity of the vector of a row to the query. -/
def vector_similarity (o : Outside K) (qe : List K) (embedding : Option (List K)) : K :=
  (embedding.map fun v => o.similarity v qe).getD 0

/-- The ids of the private memories that the searches find. -/
def private_found (o : Outside K) (cfg : Settings) (env : RecallEnv K) (body : RecallRequest)
    (agent : AgentIdentity) (db : Db K) : List UUID :=
  let limit := cfg.recall_private_result_limit * cfg.recall_search_fetch_multiplier
  let qe := env.query_embedding.getD []
  (rows_of_leg env body .bm25_private (first_matches limit (private_rank o body)
      (bm25_private_where o env.now body agent) db.hindsight_memories) ++
    rows_of_leg env body .vector_private (first_matches limit (private_similarity o qe)
      (vector_private_where env.now body agent) db.hindsight_memories)).map (·.id)

/-- The text that the `content_tsv` of the organisation memory is generated from. -/
def org_text (r : OrgMemory K) : String := r.title ++ " " ++ r.content

def org_rank (o : Outside K) (body : RecallRequest) (r : OrgMemory K) : K :=
  o.ts_rank_cd body.query (org_text r) (bm25_normalization body.query)

/-- The ids of the organisation memories that the searches find. -/
def org_found (o : Outside K) (cfg : Settings) (env : RecallEnv K) (body : RecallRequest)
    (agent : AgentIdentity) (db : Db K) : List UUID :=
  let limit := cfg.recall_org_result_limit * cfg.recall_search_fetch_multiplier
  let qe := env.query_embedding.getD []
  (rows_of_leg env body .bm25_org (first_matches limit (org_rank o body)
      (fun r => o.ts_match body.query (org_text r) && org_where env.now body agent db r)
      db.org_memory) ++
    rows_of_leg env body .vector_org (first_matches limit
      (fun r => vector_similarity o qe r.embedding)
      (fun r => r.embedding.isSome && org_where env.now body agent db r) db.org_memory)).map (·.id)

def knowledge_rank (o : Outside K) (body : RecallRequest) (r : OrgKnowledge K) : K :=
  o.ts_rank_cd body.query (index_text o r) (bm25_normalization body.query)

/-- The chunks that match the text. -/
def lexical_chunks (o : Outside K) (cfg : Settings) (env : RecallEnv K) (body : RecallRequest)
    (agent : AgentIdentity) (db : Db K) : List (OrgKnowledge K) :=
  rows_of_leg env body .bm25_knowledge (first_matches
    (cfg.recall_knowledge_result_limit * cfg.recall_search_fetch_multiplier)
    (knowledge_rank o body)
    (fun r => o.ts_match body.query (index_text o r) && knowledge_visible db agent r)
    db.org_knowledge)

/-- The chunks that are near the vector. -/
def semantic_chunks (o : Outside K) (cfg : Settings) (env : RecallEnv K) (body : RecallRequest)
    (agent : AgentIdentity) (db : Db K) (qe : List K) : List (OrgKnowledge K) :=
  rows_of_leg env body .vector_knowledge (first_matches
    (cfg.recall_knowledge_result_limit * cfg.recall_search_fetch_multiplier)
    (fun r => vector_similarity o qe r.embedding)
    (fun r => r.embedding.isSome && knowledge_visible db agent r) db.org_knowledge)

/-- The boosted score of the chunk reaches `min_score`. -/
def strong_chunk (o : Outside K) (body : RecallRequest) (raw : OrgKnowledge K → K)
    (r : OrgKnowledge K) : Bool :=
  ((30 / 100 : ℚ) : K) ≤ raw r * (1 + keyword_boost o body.query r.content)

/-! ## The searches select the rows -/

theorem top_rows_matches {Row : Type} (n : Nat) (scope : ResultScope) (p : Row → Bool)
    (rank : Row → K) (columns : Row → FetchedRow K) (t : List Row) :
    top_rows n scope ((t.filter p).map fun r => (columns r, rank r)) =
      (first_matches n rank p t).map fun r => to_result (columns r) scope := by
  unfold top_rows first_matches
  rw [rows.order_desc_map, List.map_take, List.map_map, List.map_take]
  rfl

theorem filterMap_where {Row Col : Type} (p : Row → Bool) (f : Row → Col) (t : List Row) :
    (t.filterMap fun r => if p r = true then some (f r) else none) = (t.filter p).map f := by
  rw [← List.filterMap_eq_map, List.filterMap_filter]
  rfl

omit [LinearOrder K] in
/-- A search by the vector asks for the rows that have one. -/
theorem filterMap_similar {Row : Type} (o : Outside K) (qe : List K) (p : Row → Bool)
    (embedding : Row → Option (List K)) (columns : Row → Option K → FetchedRow K) (t : List Row) :
    (t.filterMap fun r => (embedding r).bind fun v =>
        if p r = true then some (columns r (some (o.similarity v qe)), o.similarity v qe)
        else none) =
      (t.filter fun r => (embedding r).isSome && p r).map fun r =>
        (columns r (some (vector_similarity o qe (embedding r))),
          vector_similarity o qe (embedding r)) := by
  rw [← filterMap_where]
  apply List.filterMap_congr
  intro r _
  unfold vector_similarity
  cases embedding r with
  | none => rfl
  | some v => rfl

section
variable (o : Outside K) (cfg : Settings) (env : RecallEnv K) (body : RecallRequest)
  (agent : AgentIdentity) (db : Db K)

theorem bm25_private_matches :
    bm25_private o cfg env.now body agent db =
      (first_matches (cfg.recall_private_result_limit * cfg.recall_search_fetch_multiplier)
        (private_rank o body) (bm25_private_where o env.now body agent)
        db.hindsight_memories).map fun r =>
          to_result (private_columns r none (some (private_rank o body r))) .private_ := by
  rw [bm25_private_selects, top_rows_matches]

theorem vector_private_matches (qe : List K) :
    vector_private o cfg env.now body agent qe db =
      (first_matches (cfg.recall_private_result_limit * cfg.recall_search_fetch_multiplier)
        (private_similarity o qe) (vector_private_where env.now body agent)
        db.hindsight_memories).map fun r =>
          to_result (private_columns r (some (private_similarity o qe r)) none) .private_ := by
  rw [vector_private_selects, top_rows_matches]

theorem bm25_org_matches :
    bm25_org o cfg env.now body agent db =
      (first_matches (cfg.recall_org_result_limit * cfg.recall_search_fetch_multiplier)
        (org_rank o body)
        (fun r => o.ts_match body.query (org_text r) && org_where env.now body agent db r)
        db.org_memory).map fun r =>
          to_result (org_columns r none (some (org_rank o body r))) .org := by
  rw [← top_rows_matches, ← filterMap_where]
  rfl

theorem vector_org_matches (qe : List K) :
    vector_org o cfg env.now body agent qe db =
      (first_matches (cfg.recall_org_result_limit * cfg.recall_search_fetch_multiplier)
        (fun r => vector_similarity o qe r.embedding)
        (fun r => r.embedding.isSome && org_where env.now body agent db r)
        db.org_memory).map fun r =>
          to_result (org_columns r (some (vector_similarity o qe r.embedding)) none) .org := by
  rw [← top_rows_matches, ← filterMap_similar o qe _ OrgMemory.embedding
    (fun r score => org_columns r score none)]
  rfl

theorem bm25_knowledge_matches :
    bm25_knowledge o cfg body agent db =
      (first_matches (cfg.recall_knowledge_result_limit * cfg.recall_search_fetch_multiplier)
        (knowledge_rank o body)
        (fun r => o.ts_match body.query (index_text o r) && knowledge_visible db agent r)
        db.org_knowledge).map fun r =>
          to_result (knowledge_columns r none (some (knowledge_rank o body r))) .knowledge := by
  rw [← top_rows_matches, ← filterMap_where]
  rfl

theorem vector_knowledge_matches (qe : List K) :
    vector_knowledge o cfg agent qe db =
      (first_matches (cfg.recall_knowledge_result_limit * cfg.recall_search_fetch_multiplier)
        (fun r => vector_similarity o qe r.embedding)
        (fun r => r.embedding.isSome && knowledge_visible db agent r) db.org_knowledge).map fun r =>
          { to_result (knowledge_columns r (some (vector_similarity o qe r.embedding)) none)
              .knowledge with embedding := qe } := by
  unfold vector_knowledge
  rw [filterMap_similar o qe _ OrgKnowledge.embedding
    (fun r score => knowledge_columns r score none), top_rows_matches, List.map_map]
  rfl

theorem leg_results_matches {Row : Type} (l : Leg) {t : List Row} {f : Row → RecallResult K}
    (h : run_leg o cfg env body agent db l = t.map f) :
    leg_results o cfg env body agent db l = (rows_of_leg env body l t).map f := by
  unfold leg_results rows_of_leg leg_runs
  by_cases hl : l ∈ legs body (env.query_embedding.any (· ≠ [])) ∧ env.failed l = false
  · rw [if_pos hl, if_pos (by simpa using hl), h]
  · rw [if_neg hl, if_neg (by simpa using hl)]
    rfl

theorem private_leg_ids :
    (leg_results o cfg env body agent db .bm25_private ++
      leg_results o cfg env body agent db .vector_private).map (·.id) =
        private_found o cfg env body agent db := by
  unfold private_found
  rw [leg_results_matches o cfg env body agent db .bm25_private
      (bm25_private_matches o cfg env body agent db),
    leg_results_matches o cfg env body agent db .vector_private
      (vector_private_matches o cfg env body agent db (env.query_embedding.getD [])),
    List.map_append, List.map_append, List.map_map, List.map_map]
  rfl

theorem org_leg_ids :
    (leg_results o cfg env body agent db .bm25_org ++
      leg_results o cfg env body agent db .vector_org).map (·.id) =
        org_found o cfg env body agent db := by
  unfold org_found
  rw [leg_results_matches o cfg env body agent db .bm25_org
      (bm25_org_matches o cfg env body agent db),
    leg_results_matches o cfg env body agent db .vector_org
      (vector_org_matches o cfg env body agent db (env.query_embedding.getD [])),
    List.map_append, List.map_append, List.map_map, List.map_map]
  rfl

/-- What is fused: the private memories, and then the ones of the organisation. -/
theorem memory_results_eq :
    (search o cfg env body agent db).filter (fun r => r.scope ≠ .knowledge) =
      (leg_results o cfg env body agent db .bm25_private ++
        leg_results o cfg env body agent db .vector_private) ++
      (leg_results o cfg env body agent db .bm25_org ++
        leg_results o cfg env body agent db .vector_org) := by
  have hall : ∀ l, (∀ x ∈ run_leg o cfg env body agent db l, x.scope ≠ .knowledge) →
      (leg_results o cfg env body agent db l).filter (fun r => r.scope ≠ .knowledge) =
        leg_results o cfg env body agent db l := by
    intro l hl
    apply List.filter_eq_self.mpr
    intro x hx
    simpa using hl x (mem_leg_results hx)
  have hnone : ∀ l, (∀ x ∈ run_leg o cfg env body agent db l, x.scope = .knowledge) →
      (leg_results o cfg env body agent db l).filter (fun r => r.scope ≠ .knowledge) = [] := by
    intro l hl
    apply List.filter_eq_nil_iff.mpr
    intro x hx
    simpa using hl x (mem_leg_results hx)
  rw [search_eq]
  simp only [List.flatMap_cons, List.flatMap_nil, List.filter_append]
  rw [hall .bm25_private, hall .vector_private, hall .bm25_org, hall .vector_org,
    hnone .bm25_knowledge, hnone .vector_knowledge]
  · simp
  · exact fun x hx => (mem_vector_knowledge hx).1
  · exact fun x hx => (mem_bm25_knowledge hx).1
  · intro x hx
    rw [(mem_vector_org hx).1]
    simp
  · intro x hx
    rw [(mem_bm25_org hx).1]
    simp
  · intro x hx
    obtain ⟨r, -, -, score, rank, rfl⟩ := mem_vector_private hx
    simp [to_result]
  · intro x hx
    obtain ⟨r, -, -, score, rank, rfl⟩ := mem_bm25_private hx
    simp [to_result]

end

/-! ## The scores of the chunks -/

omit [LinearOrder K] in
theorem nonzero_getD [DecidableEq K] (x : K) : ((some x).filter (· ≠ 0)).getD 0 = x := by
  by_cases hx : x = 0
  · simp [Option.filter, hx]
  · simp [Option.filter, hx]

theorem score_of_rank (r : OrgKnowledge K) (rank : K) :
    (to_result (knowledge_columns r none (some rank)) .knowledge).score = rank := by
  have h := nonzero_getD rank
  simpa [to_result, knowledge_columns] using h

theorem score_of_similarity (r : OrgKnowledge K) (score : K) :
    (to_result (knowledge_columns r (some score) none) .knowledge).score = score := by
  have h := nonzero_getD score
  simpa [to_result, knowledge_columns] using h

/-- The results of `_bm25_knowledge`, one for each chunk that matches the text. -/
theorem lexical_results (o : Outside K) (cfg : Settings) (env : RecallEnv K) (body : RecallRequest)
    (agent : AgentIdentity) (db : Db K) :
    leg_results o cfg env body agent db .bm25_knowledge =
      (lexical_chunks o cfg env body agent db).map fun r =>
        to_result (knowledge_columns r none (some (knowledge_rank o body r))) .knowledge :=
  leg_results_matches o cfg env body agent db .bm25_knowledge
    (bm25_knowledge_matches o cfg body agent db)

/-- The results of `_vector_knowledge`, one for each chunk that is near the vector. -/
theorem semantic_results (o : Outside K) (cfg : Settings) (env : RecallEnv K) (body : RecallRequest)
    (agent : AgentIdentity) (db : Db K) {qe : List K} (henv : env.query_embedding = some qe) :
    leg_results o cfg env body agent db .vector_knowledge =
      (semantic_chunks o cfg env body agent db qe).map fun r =>
        { to_result (knowledge_columns r (some (vector_similarity o qe r.embedding)) none)
            .knowledge with embedding := qe } := by
  have hrun := leg_results_matches o cfg env body agent db .vector_knowledge
    (vector_knowledge_matches o cfg agent db (env.query_embedding.getD []))
  rw [henv, Option.getD_some] at hrun
  exact hrun

end qortia
