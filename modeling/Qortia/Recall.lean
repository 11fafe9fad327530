-- `qortia.recall`: the hybrid pipeline of `POST /v1/recall`. Its queries spell out the tenant, the
-- clearance and the audience, because row-level security adds nothing for the role of the service.
import Qortia.Links
import Qortia.Ner
import Qortia.Policies

namespace qortia

variable {K : Type} [Field K] [LinearOrder K]

/-! ## The searches -/

/-- The searches of the pipeline, which run at the same time. -/
inductive Leg where
  | bm25_private
  | vector_private
  | bm25_org
  | vector_org
  | bm25_knowledge
  | vector_knowledge
  deriving DecidableEq, Repr

/-- What the database and the embedding model decide in one call: the vector of the query, the
searches that raise, and the order of a query without ORDER BY. -/
structure RecallEnv (K : Type) where
  now : Timestamp
  query_embedding : Option (List K)
  failed : Leg → Bool
  expand_failed : Bool
  unordered : ∀ {α : Type}, List α → List α
  unordered_perm : ∀ {α : Type} (l : List α), (unordered l).Perm l

/-- The conditions that both private searches share. -/
def private_where (now : Timestamp) (body : RecallRequest) (agent : AgentIdentity)
    (r : HindsightMemory K) : Bool :=
  r.agent_id = agent.agent_id && r.type ≠ .short_term &&
    r.tier = (if body.scope = .archive then .archive else .active) &&
    r.expires_at.all (now < ·) && type_filter body r.type && entity_filter body r.entities &&
    temporal_filter body r.valid_from r.valid_until && lang_filter body r.lang

omit [Field K] [LinearOrder K] in
/-- The columns that both private searches select. -/
def private_columns (r : HindsightMemory K) (score rank : Option K) : FetchedRow K where
  id := r.id
  type := some (.memory r.type)
  content := r.content
  importance := some r.importance
  created_at := r.created_at
  recall_count := r.recall_count
  last_recalled_at := r.last_recalled_at
  confidence_multiplier := some r.confidence_multiplier
  valid_from := some r.valid_from
  valid_until := r.valid_until
  score := score
  rank := rank

/-- `ORDER BY rank DESC LIMIT n`, on the rows with their rank. -/
def top_rows (n : Nat) (scope : ResultScope) (fetched : List (FetchedRow K × K)) :
    List (RecallResult K) :=
  ((rows.order_desc (·.2) fetched).take n).map fun row => to_result row.1 scope

/-- `_bm25_private`. -/
def bm25_private (o : Outside K) (cfg : Settings) (now : Timestamp) (body : RecallRequest)
    (agent : AgentIdentity) (db : Db K) : List (RecallResult K) :=
  top_rows (cfg.recall_private_result_limit * cfg.recall_search_fetch_multiplier) .private_
    (db.hindsight_memories.filterMap fun r =>
      if o.ts_match body.query r.content && private_where now body agent r then
        let rank := o.ts_rank_cd body.query r.content (bm25_normalization body.query)
        some (private_columns r none (some rank), rank)
      else none)

/-- `_vector_private`. -/
def vector_private (o : Outside K) (cfg : Settings) (now : Timestamp) (body : RecallRequest)
    (agent : AgentIdentity) (qe : List K) (db : Db K) : List (RecallResult K) :=
  top_rows (cfg.recall_private_result_limit * cfg.recall_search_fetch_multiplier) .private_
    (db.hindsight_memories.filterMap fun r =>
      r.embedding.bind fun v =>
        if r.valid_until.all (now < ·) && private_where now body agent r then
          some (private_columns r (some (o.similarity v qe)) none, o.similarity v qe)
        else none)

/-- The conditions that both searches of the organisation memory share. -/
def org_where (now : Timestamp) (body : RecallRequest) (agent : AgentIdentity) (db : Db K)
    (r : OrgMemory K) : Bool :=
  org_visible db agent r && r.valid_until.all (now < ·) && entity_filter body r.entities &&
    lang_filter body r.lang

omit [Field K] [LinearOrder K] in
/-- The columns that both searches of the organisation memory select. -/
def org_columns (r : OrgMemory K) (score rank : Option K) : FetchedRow K where
  id := r.id
  type := some (.org r.type)
  content := r.content
  created_at := r.created_at
  recall_count := r.recall_count
  last_recalled_at := r.last_recalled_at
  confidence_multiplier := some r.confidence_multiplier
  score := score
  rank := rank

/-- `_bm25_org`. The text that is searched has the title too. -/
def bm25_org (o : Outside K) (cfg : Settings) (now : Timestamp) (body : RecallRequest)
    (agent : AgentIdentity) (db : Db K) : List (RecallResult K) :=
  top_rows (cfg.recall_org_result_limit * cfg.recall_search_fetch_multiplier) .org
    (db.org_memory.filterMap fun r =>
      let content_tsv := r.title ++ " " ++ r.content
      if o.ts_match body.query content_tsv && org_where now body agent db r then
        let rank := o.ts_rank_cd body.query content_tsv (bm25_normalization body.query)
        some (org_columns r none (some rank), rank)
      else none)

/-- `_vector_org`. -/
def vector_org (o : Outside K) (cfg : Settings) (now : Timestamp) (body : RecallRequest)
    (agent : AgentIdentity) (qe : List K) (db : Db K) : List (RecallResult K) :=
  top_rows (cfg.recall_org_result_limit * cfg.recall_search_fetch_multiplier) .org
    (db.org_memory.filterMap fun r =>
      r.embedding.bind fun v =>
        if org_where now body agent db r then
          some (org_columns r (some (o.similarity v qe)) none, o.similarity v qe)
        else none)

/-- The conditions on a knowledge row: the tenant, the clearance and the audience. -/
def knowledge_visible (db : Db K) (agent : AgentIdentity) (r : OrgKnowledge K) : Bool :=
  r.tenant_id = agent.tenant_id &&
    clearance_reaches db.level_order agent.clearance_order r.min_clearance &&
    audience_holds r.audience agent.division

omit [Field K] [LinearOrder K] in
/-- The columns that both searches of the knowledge select. -/
def knowledge_columns (r : OrgKnowledge K) (score rank : Option K) : FetchedRow K where
  id := r.id
  type := some .knowledge
  content := r.content
  created_at := r.created_at
  recall_count := r.recall_count
  last_recalled_at := r.last_recalled_at
  score := score
  rank := rank

/-- The text that `index_tsv` is generated from. -/
def index_text (o : Outside K) (r : OrgKnowledge K) : String :=
  r.index_summary ++ " " ++ o.json_dumps r.index_questions ++ " " ++ o.json_dumps r.index_entities

/-- `_bm25_knowledge`. -/
def bm25_knowledge (o : Outside K) (cfg : Settings) (body : RecallRequest) (agent : AgentIdentity)
    (db : Db K) : List (RecallResult K) :=
  top_rows (cfg.recall_knowledge_result_limit * cfg.recall_search_fetch_multiplier) .knowledge
    (db.org_knowledge.filterMap fun r =>
      if o.ts_match body.query (index_text o r) && knowledge_visible db agent r then
        let rank := o.ts_rank_cd body.query (index_text o r) (bm25_normalization body.query)
        some (knowledge_columns r none (some rank), rank)
      else none)

/-- `_vector_knowledge`. Each result gets the vector of the query. -/
def vector_knowledge (o : Outside K) (cfg : Settings) (agent : AgentIdentity) (qe : List K)
    (db : Db K) : List (RecallResult K) :=
  (top_rows (cfg.recall_knowledge_result_limit * cfg.recall_search_fetch_multiplier) .knowledge
    (db.org_knowledge.filterMap fun r =>
      r.embedding.bind fun v =>
        if knowledge_visible db agent r then
          some (knowledge_columns r (some (o.similarity v qe)) none, o.similarity v qe)
        else none)).map fun r => { r with embedding := qe }

/-- The searches that a request starts, in the order of `tasks`. -/
def legs (body : RecallRequest) (has_embedding : Bool) : List Leg :=
  (if body.scope = .private_ ∨ body.scope = .all ∨ body.scope = .archive then
    [.bm25_private] ++ if has_embedding then [.vector_private] else [] else []) ++
  (if body.scope = .org ∨ body.scope = .all then
    [.bm25_org] ++ if has_embedding then [.vector_org] else [] else []) ++
  (if body.scope = .knowledge ∨ body.scope = .all then
    [.bm25_knowledge] ++ if has_embedding then [.vector_knowledge] else [] else [])

def run_leg (o : Outside K) (cfg : Settings) (env : RecallEnv K) (body : RecallRequest)
    (agent : AgentIdentity) (db : Db K) : Leg → List (RecallResult K)
  | .bm25_private => bm25_private o cfg env.now body agent db
  | .vector_private => vector_private o cfg env.now body agent (env.query_embedding.getD []) db
  | .bm25_org => bm25_org o cfg env.now body agent db
  | .vector_org => vector_org o cfg env.now body agent (env.query_embedding.getD []) db
  | .bm25_knowledge => bm25_knowledge o cfg body agent db
  | .vector_knowledge => vector_knowledge o cfg agent (env.query_embedding.getD []) db

/-- The results of the searches, one after another. A search that raises gives none. -/
def search (o : Outside K) (cfg : Settings) (env : RecallEnv K) (body : RecallRequest)
    (agent : AgentIdentity) (db : Db K) : List (RecallResult K) :=
  ((legs body (env.query_embedding.any (· ≠ []))).filter fun l => !env.failed l).flatMap
    (run_leg o cfg env body agent db)

/-! ## The entity graph -/

/-- The conditions of both entity queries. -/
def entity_where (agent : AgentIdentity) (query_entities : List String) (e : Entity K) : Bool :=
  e.tenant_id = agent.tenant_id && (e.agent_id.isNone || e.agent_id = some agent.agent_id) &&
    e.entity_text ∈ query_entities && e.max_clearance_order ≤ agent.clearance_order

/-- The rows of `SELECT unnest(linked_memory_ids), summary`. -/
def linked_rows (env : RecallEnv K) (agent : AgentIdentity) (query_entities : List String)
    (db : Db K) : List (UUID × Option String) :=
  env.unordered ((db.qortia_entities.filter (entity_where agent query_entities)).flatMap fun e =>
    e.linked_memory_ids.map fun i => (i, e.summary))

/-- What `_bfs_entity_traversal` carries from hop to hop. -/
structure Traversal (K : Type) where
  visited : List UUID
  frontier : List UUID
  boosts : List (UUID × K) := []
  current_decay : K

/-- The query of one hop: entities that share a memory with a visited one and are similar to the
query. -/
def next_entities (o : Outside K) (unordered : ∀ {α : Type}, List α → List α)
    (query_embedding : List K) (visited : List UUID) (tenant_id : UUID) (db : Db K) :
    List (Entity K × K) :=
  (unordered ((db.qortia_entities.filter fun e1 =>
      e1.id ∈ visited && e1.tenant_id = tenant_id).flatMap fun e1 =>
    db.qortia_entities.filterMap fun e2 =>
      e2.embedding.bind fun v =>
        let similarity := o.similarity v query_embedding
        if (e2.linked_memory_ids.any fun i => i ∈ e1.linked_memory_ids) && e2.id ∉ visited &&
            e2.tenant_id = tenant_id && ((3 / 10 : ℚ) : K) ≤ similarity then
          some (e2, similarity)
        else none)).take 10

/-- `boosts[mid] = max(boosts.get(mid, 0.0), hop_boost)`. -/
def raise_boost (hop_boost : K) (boosts : List (UUID × K)) (mid : UUID) : List (UUID × K) :=
  rows.upsert (fun b => b.1 = mid) (fun b => (mid, max b.2 hop_boost)) (mid, max 0 hop_boost) boosts

/-- One turn of the loop over the entities of a hop, which collects `next_frontier`. -/
def visit_entity (t : Traversal K) (row : Entity K × K) : Traversal K :=
  if row.1.id ∈ t.visited then t
  else
    let n : K := ((row.1.linked_memory_ids.length : Int) - 1 : Int)
    let hop_boost := row.2 * (1 / 2 : ℚ) / (1 + (1 / 1000 : ℚ) * (n * n)) * t.current_decay
    { t with
      visited := t.visited ++ [row.1.id], frontier := t.frontier ++ [row.1.id]
      boosts := row.1.linked_memory_ids.foldl (raise_boost hop_boost) t.boosts }

/-- The hops of `_bfs_entity_traversal`, at most `max_depth` of them. -/
def bfs_hops (o : Outside K) (unordered : ∀ {α : Type}, List α → List α) (query_embedding : List K)
    (tenant_id : UUID) (decay : K) (db : Db K) : (max_depth : Nat) → Traversal K → Traversal K
  | 0, t => t
  | depth + 1, t =>
    if t.frontier = [] then t
    else
      let t' := (next_entities o unordered query_embedding t.visited tenant_id db).foldl
        visit_entity { t with frontier := [] }
      bfs_hops o unordered query_embedding tenant_id decay db depth
        { t' with current_decay := t'.current_decay * decay }

/-- `_bfs_entity_traversal`. -/
def bfs_entity_traversal (o : Outside K) (unordered : ∀ {α : Type}, List α → List α)
    (query_embedding : List K) (seed_entity_ids : List UUID) (tenant_id : UUID) (db : Db K)
    (max_depth : Nat := 2) (decay : K := (1 / 2 : ℚ)) : List (UUID × K) :=
  if seed_entity_ids = [] then []
  else
    (bfs_hops o unordered query_embedding tenant_id decay db max_depth
      { visited := seed_entity_ids.dedup, frontier := seed_entity_ids
        current_decay := decay }).boosts

/-! ## The pipeline -/

variable [HasSqrt K]

/-- The fused memories, ranked a second time where the traversal finds more memories to boost. -/
def fuse_memories (o : Outside K) (cfg : Settings) (env : RecallEnv K) (agent : AgentIdentity)
    (query_entities : List String) (entity_links : List UUID)
    (memory_results : List (RecallResult K)) (db : Db K) : List (RecallResult K) :=
  let fused_memory := rrf_fuse o cfg env.now memory_results entity_links
  match env.query_embedding with
  | none => fused_memory
  | some qe =>
    if entity_links = [] ∨ qe = [] then fused_memory
    else
      let seed_ids := (env.unordered
        (db.qortia_entities.filter (entity_where agent query_entities))).map (·.id)
      let bfs_boosts := bfs_entity_traversal o env.unordered qe seed_ids agent.tenant_id db
      if bfs_boosts = [] then fused_memory
      else rrf_fuse o cfg env.now memory_results (entity_links ++ bfs_boosts.map (·.1))

/-- The knowledge results: the candidates are boosted and diversified, or the first four are
taken. -/
def select_knowledge (o : Outside K) (env : RecallEnv K) (body : RecallRequest)
    (knowledge_candidates : List (RecallResult K)) : List (RecallResult K) :=
  match env.query_embedding with
  | none => knowledge_candidates.take 4
  | some qe =>
    if qe = [] ∨ knowledge_candidates = [] then knowledge_candidates.take 4
    else
      let boosted := knowledge_candidates.map fun kc =>
        { kc with score := kc.score * (1 + keyword_boost o body.query kc.content) }
      mmr qe boosted (1 / 2 : ℚ) (85 / 100 : ℚ) (30 / 100 : ℚ)

/-- `results[0].entity_summary = top_entity_summary`. -/
def attach_summary (top_entity_summary : Option String) :
    List (RecallResult K) → List (RecallResult K)
  | [] => []
  | r :: results =>
    match top_entity_summary with
    | none => r :: results
    | some summary => { r with entity_summary := some summary } :: results

/-- `_hybrid_recall_pipeline`. -/
def hybrid_recall_pipeline (o : Outside K) (cfg : Settings) (env : RecallEnv K)
    (body : RecallRequest) (agent : AgentIdentity) (db : Db K) : List (RecallResult K) :=
  let found := search o cfg env body agent db
  let memory_results := found.filter fun r => r.scope ≠ .knowledge
  let knowledge_candidates := found.filter fun r => r.scope = .knowledge
  let query_entities := (extract_entities o body.query).getD []
  let linked_rows :=
    if query_entities = [] then [] else linked_rows env agent query_entities db
  let entity_links := linked_rows.map (·.1)
  let top_entity_summary := (linked_rows.filterMap fun row => row.2.filter (· ≠ "")).head?
  let fused_memory :=
    fuse_memories o cfg env agent query_entities entity_links memory_results db
  let knowledge_results := select_knowledge o env body knowledge_candidates
  let fused_memory :=
    if fused_memory ≠ [] ∧ env.query_embedding.any (· ≠ []) then
      expand_with_links env.now agent.tenant_id agent.agent_id env.expand_failed env.unordered
        fused_memory db
    else fused_memory
  attach_summary top_entity_summary (fused_memory ++ knowledge_results)

end qortia
