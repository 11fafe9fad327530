-- How many results of each scope the hybrid pipeline gives before it follows links. Each search
-- fetches the limit times the multiplier, the fusion keeps every memory that a search found, and
-- nothing trims the fused list to the limit.
import Mathlib.Data.List.Dedup
import Qortia.RecallDistinct

namespace qortia

variable {K : Type} [Field K] [LinearOrder K] [HasSqrt K]

/-! ## What has to hold -/

/-- The response of the pipeline without the linked memories. -/
def before_expansion (o : Outside K) (cfg : Settings) (env : RecallEnv K) (body : RecallRequest)
    (agent : AgentIdentity) (db : Db K) : List (RecallResult K) :=
  fused_part o cfg env body agent db ++ knowledge_part o cfg env body agent db

omit [Field K] [LinearOrder K] [HasSqrt K] in
def of_scope (scope : ResultScope) (results : List (RecallResult K)) : List (RecallResult K) :=
  results.filter fun r => r.scope = scope

omit [Field K] [LinearOrder K] [HasSqrt K] in
structure WithinLimits (cfg : Settings) (results : List (RecallResult K)) : Prop where
  private_ : (of_scope .private_ results).length ≤ cfg.recall_private_result_limit
  org : (of_scope .org results).length ≤ cfg.recall_org_result_limit
  knowledge : (of_scope .knowledge results).length ≤ cfg.recall_knowledge_result_limit

/-- How many chunks are chosen: up to four matches without a vector, else the first strong match and
the strong neighbours that there is room for. -/
def knowledge_count (o : Outside K) (cfg : Settings) (env : RecallEnv K) (body : RecallRequest)
    (agent : AgentIdentity) (db : Db K) : Nat :=
  let lexical := lexical_chunks o cfg env body agent db
  match env.query_embedding with
  | none | some [] => min 4 lexical.length
  | some (x :: qe) =>
    let semantic := (semantic_chunks o cfg env body agent db (x :: qe)).filter
      (strong_chunk o body fun r => vector_similarity o (x :: qe) r.embedding)
    if lexical.any (strong_chunk o body (knowledge_rank o body)) then
      1 + min (vector_room (x :: qe) 3) semantic.length
    else min (vector_room (x :: qe) 4) semantic.length

/-- The searches find no more memories of a scope than its limit, and the chunks that are chosen
do not outnumber theirs. -/
structure FewFound (o : Outside K) (cfg : Settings) (env : RecallEnv K) (body : RecallRequest)
    (agent : AgentIdentity) (db : Db K) : Prop where
  private_ : ((private_found o cfg env body agent db).filter fun id =>
    id ∉ org_found o cfg env body agent db).dedup.length ≤ cfg.recall_private_result_limit
  org : (org_found o cfg env body agent db).dedup.length ≤ cfg.recall_org_result_limit
  knowledge : knowledge_count o cfg env body agent db ≤ cfg.recall_knowledge_result_limit

/-! ## The fusion keeps each memory once -/

section
omit [HasSqrt K]

omit [LinearOrder K] in
/-- The turn of a result puts it under its id. -/
theorem rrf_add_latest {rrf_k : Nat} {fused : List (Fused K)} {x : RecallResult K} {f : Fused K}
    (h : f ∈ rrf_add rrf_k fused x) (hid : f.result.id = x.id) : f.result = x := by
  unfold rrf_add at h
  by_cases hany : fused.any fun f => f.result.id = x.id
  · rw [rows.upsert_of_any hany] at h
    obtain ⟨g, -, ⟨-, rfl⟩ | ⟨hother, rfl⟩⟩ := rows.mem_update.mp h
    · rfl
    · simp [hid] at hother
  · rw [rows.upsert_of_not_any hany] at h
    rcases List.mem_append.mp h with h | h
    · exact absurd (List.any_eq_true.mpr ⟨f, h, decide_eq_true hid⟩) hany
    · rw [List.mem_singleton.mp h]

omit [LinearOrder K] in
/-- The last result of an id is the one that stays. -/
theorem foldl_rrf_add_latest (rrf_k : Nat) (results : List (RecallResult K))
    (fused : List (Fused K)) (hnodup : (fused.map (·.result.id)).Nodup) {f : Fused K}
    (h : f ∈ results.foldl (rrf_add rrf_k) fused) (hid : f.result.id ∈ results.map (·.id)) :
    f.result ∈ results := by
  induction results generalizing fused with
  | nil => cases hid
  | cons x results ih =>
    have hstep : ((rrf_add rrf_k fused x).map (·.result.id)).Nodup :=
      (foldl_rrf_add rrf_k [x] fused hnodup).1
    by_cases hlater : f.result.id ∈ results.map (·.id)
    · exact List.mem_cons_of_mem _ (ih _ hstep h hlater)
    · rcases (foldl_rrf_add rrf_k results _ hstep).2 f h with hf | hf
      · exact List.mem_cons_of_mem _ hf
      · rw [List.map_cons, List.mem_cons] at hid
        rw [rrf_add_latest hf (hid.resolve_right hlater)]
        exact List.mem_cons_self

omit [LinearOrder K] in
theorem mem_foldl_rrf_add_ids (rrf_k : Nat) (results : List (RecallResult K))
    (fused : List (Fused K)) (id : UUID) :
    id ∈ (results.foldl (rrf_add rrf_k) fused).map (·.result.id) ↔
      id ∈ fused.map (·.result.id) ∨ id ∈ results.map (·.id) := by
  induction results generalizing fused with
  | nil => simp
  | cons x results ih =>
    rw [List.foldl_cons, ih, rrf_add_ids, List.map_cons, List.mem_cons, ← or_assoc]
    apply or_congr_left
    split
    · rename_i hold
      constructor
      · exact Or.inl
      · rintro (h | rfl)
        · exact h
        · exact hold
    · rw [List.mem_append, List.mem_singleton]

theorem mem_rrf_fuse_ids (o : Outside K) (cfg : Settings) (now : Timestamp)
    (results : List (RecallResult K)) (entity_links : List UUID) (id : UUID) :
    id ∈ (rrf_fuse o cfg now results entity_links).map (·.id) ↔ id ∈ results.map (·.id) := by
  have hmem := mem_foldl_rrf_add_ids cfg.recall_rrf_k results [] id
  unfold rrf_fuse
  rw [List.map_map, ((rows.order_desc_perm _ _).map _).mem_iff]
  simpa using hmem

/-- A memory of the first kind stays exactly when none of the last kind has its id. -/
theorem rrf_fuse_scope (o : Outside K) (cfg : Settings) (now : Timestamp)
    {private_results org_results : List (RecallResult K)} (entity_links : List UUID)
    (hprivate : ∀ x ∈ private_results, x.scope = .private_)
    (horg : ∀ x ∈ org_results, x.scope = .org) :
    ∀ x ∈ rrf_fuse o cfg now (private_results ++ org_results) entity_links,
      if x.id ∈ org_results.map (·.id) then x.scope = .org else x.scope = .private_ := by
  intro x hx
  unfold rrf_fuse at hx
  obtain ⟨f, hf, rfl⟩ := List.mem_map.mp hx
  have hf := rows.mem_order_desc.mp hf
  rw [List.foldl_append] at hf
  have hfirst := (foldl_rrf_add cfg.recall_rrf_k private_results [] List.nodup_nil).1
  split
  · rename_i hid
    exact horg _ (foldl_rrf_add_latest _ _ _ hfirst hf hid)
  · rename_i hid
    rcases (foldl_rrf_add cfg.recall_rrf_k org_results _ hfirst).2 f hf with hmem | hmem
    · exact absurd (List.mem_map_of_mem hmem) hid
    · rcases (foldl_rrf_add cfg.recall_rrf_k private_results [] List.nodup_nil).2 f hmem with
        hmem | hmem
      · exact hprivate _ hmem
      · cases hmem

omit [Field K] [LinearOrder K] in
/-- Results of distinct ids are counted by their ids. -/
theorem length_of_scope {results : List (RecallResult K)} (hnodup : (results.map (·.id)).Nodup)
    {scope : ResultScope} {ids : List UUID}
    (hmem : ∀ id, id ∈ ids ↔ ∃ x ∈ results, x.id = id ∧ x.scope = scope) :
    (of_scope scope results).length = ids.dedup.length := by
  unfold of_scope
  rw [← List.length_map (·.id)]
  apply List.Perm.length_eq
  rw [List.perm_ext_iff_of_nodup ((List.filter_sublist.map _).nodup hnodup) (List.nodup_dedup _)]
  intro id
  rw [List.mem_dedup, hmem]
  constructor
  · intro hid
    obtain ⟨x, hx, rfl⟩ := List.mem_map.mp hid
    obtain ⟨hx, hs⟩ := List.mem_filter.mp hx
    exact ⟨x, hx, rfl, of_decide_eq_true hs⟩
  · rintro ⟨x, hx, rfl, hs⟩
    exact List.mem_map_of_mem (List.mem_filter.mpr ⟨hx, decide_eq_true hs⟩)

/-- How many memories of the last kind, and how many of the first kind, the fusion gives. -/
theorem rrf_fuse_counts (o : Outside K) (cfg : Settings) (now : Timestamp)
    {private_results org_results : List (RecallResult K)} (entity_links : List UUID)
    (hprivate : ∀ x ∈ private_results, x.scope = .private_)
    (horg : ∀ x ∈ org_results, x.scope = .org) :
    (of_scope .private_
        (rrf_fuse o cfg now (private_results ++ org_results) entity_links)).length =
      ((private_results.map (·.id)).filter fun id => id ∉ org_results.map (·.id)).dedup.length ∧
    (of_scope .org
        (rrf_fuse o cfg now (private_results ++ org_results) entity_links)).length =
      (org_results.map (·.id)).dedup.length := by
  have hnodup := rrf_fuse_ids o cfg now (private_results ++ org_results) entity_links
  have hscope := rrf_fuse_scope o cfg now entity_links hprivate horg
  have hids : ∀ id, id ∈ (rrf_fuse o cfg now (private_results ++ org_results) entity_links).map
      (·.id) ↔ id ∈ private_results.map (·.id) ∨ id ∈ org_results.map (·.id) := by
    intro id
    rw [mem_rrf_fuse_ids, List.map_append, List.mem_append]
  constructor
  · refine length_of_scope hnodup fun id => ?_
    rw [List.mem_filter]
    constructor
    · rintro ⟨hid, hnone⟩
      obtain ⟨x, hx, rfl⟩ := List.mem_map.mp ((hids id).mpr (Or.inl hid))
      have hs := hscope x hx
      rw [if_neg (of_decide_eq_true hnone)] at hs
      exact ⟨x, hx, rfl, hs⟩
    · rintro ⟨x, hx, rfl, hs⟩
      have hx' := hscope x hx
      have hnone : x.id ∉ org_results.map (·.id) := by
        intro hid
        rw [if_pos hid, hs] at hx'
        cases hx'
      exact ⟨((hids x.id).mp (List.mem_map_of_mem hx)).resolve_right hnone, decide_eq_true hnone⟩
  · refine length_of_scope hnodup fun id => ?_
    constructor
    · intro hid
      obtain ⟨x, hx, rfl⟩ := List.mem_map.mp ((hids id).mpr (Or.inr hid))
      have hs := hscope x hx
      rw [if_pos hid] at hs
      exact ⟨x, hx, rfl, hs⟩
    · rintro ⟨x, hx, rfl, hs⟩
      by_contra hnone
      have hx' := hscope x hx
      rw [if_neg hnone, hs] at hx'
      cases hx'

end

/-! ## The chunks -/

section
variable {o : Outside K} {cfg : Settings} {env : RecallEnv K} {body : RecallRequest}
  {agent : AgentIdentity} {db : Db K}

theorem knowledge_part_length [IsStrictOrderedRing K] :
    (knowledge_part o cfg env body agent db).length = knowledge_count o cfg env body agent db := by
  have hlexical := lexical_results o cfg env body agent db
  -- Without a vector only the matches of the text are candidates.
  have htake : env.query_embedding.any (· ≠ []) = false →
      (((search o cfg env body agent db).filter (fun r => r.scope = .knowledge)).take 4).length =
        min 4 (lexical_chunks o cfg env body agent db).length := by
    intro hnone
    rw [knowledge_candidates_eq, no_neighbours hnone, List.append_nil, hlexical, List.length_take,
      List.length_map]
  unfold knowledge_part knowledge_count
  cases henv : env.query_embedding with
  | none =>
    have hlength := htake (by rw [henv]; rfl)
    unfold select_knowledge
    rw [henv]
    exact hlength
  | some qe =>
    cases qe with
    | nil =>
      have hlength := htake (by rw [henv]; rfl)
      unfold select_knowledge
      rw [henv]
      simp only [true_or, if_true]
      exact hlength
    | cons x qe =>
      have hsemantic := semantic_results o cfg env body agent db henv
      have hvector : ∀ y ∈ leg_results o cfg env body agent db .vector_knowledge,
          y.embedding = x :: qe := by
        intro y hy
        rw [hsemantic] at hy
        obtain ⟨r, -, rfl⟩ := List.mem_map.mp hy
        rfl
      have htext : ∀ y ∈ leg_results o cfg env body agent db .bm25_knowledge, y.embedding = [] :=
        fun y hy => (mem_bm25_knowledge (mem_leg_results hy)).2.1
      have hstrong : (eligible o body
          (leg_results o cfg env body agent db .vector_knowledge)).length =
            ((semantic_chunks o cfg env body agent db (x :: qe)).filter
              (strong_chunk o body fun r => vector_similarity o (x :: qe) r.embedding)).length := by
        rw [eligible_semantic henv, List.length_map]
        rfl
      have hfirst : (eligible o body
          (leg_results o cfg env body agent db .bm25_knowledge)).length =
            ((lexical_chunks o cfg env body agent db).filter
              (strong_chunk o body (knowledge_rank o body))).length := by
        rw [eligible_lexical, List.length_map]
        rfl
      rw [knowledge_candidates_eq, select_knowledge_eq henv (List.cons_ne_nil x qe) htext hvector]
      simp only
      cases hcase : eligible o body (leg_results o cfg env body agent db .bm25_knowledge) with
      | nil =>
        rw [hcase, List.length_nil, eq_comm, List.length_eq_zero_iff,
          List.filter_eq_nil_iff] at hfirst
        rw [if_neg, List.length_take, hstrong]
        rw [List.any_eq_true]
        rintro ⟨r, hr, hstrong⟩
        exact hfirst r hr hstrong
      | cons b L =>
        rw [hcase, List.length_cons] at hfirst
        have hsome : 0 < ((lexical_chunks o cfg env body agent db).filter
            (strong_chunk o body (knowledge_rank o body))).length := by omega
        obtain ⟨r, hr⟩ := List.exists_mem_of_length_pos hsome
        obtain ⟨hr, hstrong⟩ := List.mem_filter.mp hr
        rw [if_pos (List.any_eq_true.mpr ⟨r, hr, hstrong⟩), List.length_cons, List.length_take]
        omega

theorem knowledge_part_scope {x : RecallResult K} (h : x ∈ knowledge_part o cfg env body agent db) :
    x.scope = .knowledge := by
  obtain ⟨y, hy, -, hscope⟩ := mem_select_knowledge h
  rw [hscope]
  exact of_decide_eq_true (List.mem_filter.mp hy).2

/-! ## The limits -/

omit [HasSqrt K] in
theorem fused_part_counts (o : Outside K) (cfg : Settings) (env : RecallEnv K)
    (body : RecallRequest) (agent : AgentIdentity) (db : Db K) :
    (of_scope .private_ (fused_part o cfg env body agent db)).length =
      ((private_found o cfg env body agent db).filter fun id =>
        id ∉ org_found o cfg env body agent db).dedup.length ∧
    (of_scope .org (fused_part o cfg env body agent db)).length =
      (org_found o cfg env body agent db).dedup.length := by
  unfold fused_part
  obtain ⟨links, hlinks⟩ := fuse_memories_eq o cfg env agent
    ((extract_entities o body.query).getD []) ((query_links o env body agent db).map (·.1))
    ((search o cfg env body agent db).filter fun r => r.scope ≠ .knowledge) db
  rw [hlinks, memory_results_eq, ← private_leg_ids, ← org_leg_ids]
  apply rrf_fuse_counts
  · intro x hx
    rcases List.mem_append.mp hx with hx | hx
    · obtain ⟨r, -, -, score, rank, rfl⟩ := mem_bm25_private (mem_leg_results hx)
      rfl
    · obtain ⟨r, -, -, score, rank, rfl⟩ := mem_vector_private (mem_leg_results hx)
      rfl
  · intro x hx
    rcases List.mem_append.mp hx with hx | hx
    · exact (mem_bm25_org (mem_leg_results hx)).1
    · exact (mem_vector_org (mem_leg_results hx)).1

/-- Before it follows links the pipeline stays within the limits exactly when its searches find few
enough rows. -/
theorem hybrid_within_limits_iff [IsStrictOrderedRing K] (o : Outside K) (cfg : Settings)
    (env : RecallEnv K) (body : RecallRequest) (agent : AgentIdentity) (db : Db K) :
    WithinLimits cfg (before_expansion o cfg env body agent db) ↔
      FewFound o cfg env body agent db := by
  obtain ⟨hprivate, horg⟩ := fused_part_counts o cfg env body agent db
  have hmemories : ∀ scope, scope ≠ .knowledge →
      of_scope scope (before_expansion o cfg env body agent db) =
        of_scope scope (fused_part o cfg env body agent db) := by
    intro scope hscope
    have hnone : (knowledge_part o cfg env body agent db).filter (fun r => r.scope = scope) =
        [] := by
      apply List.filter_eq_nil_iff.mpr
      intro x hx
      rw [knowledge_part_scope hx]
      simpa using Ne.symm hscope
    unfold before_expansion of_scope
    rw [List.filter_append, hnone, List.append_nil]
  have hchunks : of_scope .knowledge (before_expansion o cfg env body agent db) =
      knowledge_part o cfg env body agent db := by
    unfold before_expansion of_scope
    rw [List.filter_append, List.filter_eq_nil_iff.mpr, List.nil_append, List.filter_eq_self.mpr]
    · intro x hx
      exact decide_eq_true (knowledge_part_scope hx)
    · intro x hx
      simpa using (mem_fused_part hx).2
  constructor
  · rintro ⟨h₁, h₂, h₃⟩
    rw [hmemories .private_ (by decide), hprivate] at h₁
    rw [hmemories .org (by decide), horg] at h₂
    rw [hchunks, knowledge_part_length] at h₃
    exact ⟨h₁, h₂, h₃⟩
  · rintro ⟨h₁, h₂, h₃⟩
    refine ⟨?_, ?_, ?_⟩
    · rw [hmemories .private_ (by decide), hprivate]
      exact h₁
    · rw [hmemories .org (by decide), horg]
      exact h₂
    · rw [hchunks, knowledge_part_length]
      exact h₃

end

/-- Three memories and a chunk, under the limits that the service starts with. -/
theorem hybrid_within_limits_iff_for_the_lexer :
    WithinLimits {} (before_expansion lucid_models {} lucid_env { query := "lexer" } analyst
        lexer_chunk_db) ↔
      FewFound lucid_models {} lucid_env { query := "lexer" } analyst lexer_chunk_db :=
  hybrid_within_limits_iff lucid_models {} lucid_env { query := "lexer" } analyst lexer_chunk_db

/-- Under a limit of one, two private memories come. -/
theorem two_memories_exceed_the_limit :
    ¬ WithinLimits { recall_private_result_limit := 1 }
      (before_expansion lucid_models { recall_private_result_limit := 1 } lucid_env
        { query := "lexer", scope := .private_ } analyst lexer_db) := by
  intro h
  have hprivate := h.private_
  revert hprivate
  decide +kernel

end qortia
