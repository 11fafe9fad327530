-- The statements that the searches of `qortia.recall` send: their texts with numbered parameters
-- and their arguments. The clauses of `qortia.recall_helpers` are optional, so the numbers of the
-- later ones depend on which of the earlier ones are there. Line breaks of a text are spaces here.
import Qortia.Lib.Placeholders
import Qortia.RecallPrivate

namespace qortia

open placeholders (Piece Condition Filter Statement)

variable {K : Type}

/-! ## Arguments -/

/-- An argument of a call. A vector is sent as its text. -/
inductive Argument (K : Type) where
  | text (s : String)
  | uuid (id : UUID)
  | texts (l : List String)
  | timestamp (t : Timestamp)
  | order (n : Int)
  | vector (v : List K)

def holds_text (s : String) : Option (Argument K) → Bool
  | some (.text t) => s = t
  | _ => false

def is_uuid (id : UUID) : Option (Argument K) → Bool
  | some (.uuid i) => id = i
  | _ => false

/-- The `type` of a memory, as the tables and the requests spell it. -/
def MemoryType.literal : MemoryType → String
  | .episodic => "episodic"
  | .experiential => "experiential"
  | .mental_model => "mental_model"
  | .decision => "decision"
  | .lesson => "lesson"
  | .short_term => "short_term"

theorem literal_inj (t t' : MemoryType) : t.literal = t'.literal ↔ t = t' := by
  cases t <;> cases t' <;> simp [MemoryType.literal]

/-! ## The clauses of `qortia.recall_helpers` -/

/-- `_entity_filter_clause`. -/
def entity_filter_clause {Row : Type} (row_entities : Row → List (String × String))
    (entities : Option (List String)) : Filter Row (Argument K) := fun base_param =>
  match entities with
  | none | some [] => (.absent, [])
  | some (wanted :: more) =>
    (.on [.text "AND EXISTS ( SELECT 1 FROM jsonb_array_elements(entities) AS e WHERE e->>0 = ANY(",
        .number base_param, .text "::text[]) )"] base_param
      (fun v r => match v with
        | some (.texts l) => (row_entities r).any fun e => e.1 ∈ l
        | _ => false),
      [.texts (wanted :: more)])

/-- `_type_filter_clause`. -/
def type_filter_clause (memory_type : Option MemoryType) :
    Filter (HindsightMemory K) (Argument K) := fun param =>
  match memory_type with
  | none => (.absent, [])
  | some type =>
    (.on [.text "AND type = ", .number param] param (fun v r => holds_text r.type.literal v),
      [.text type.literal])

/-- `_temporal_filter_clause`. -/
def temporal_filter_clause (as_of : Option Timestamp) :
    Filter (HindsightMemory K) (Argument K) := fun param =>
  match as_of with
  | none => (.fixed "AND valid_until IS NULL" fun r => r.valid_until.isNone, [])
  | some as_of =>
    (.on [.text "AND valid_from <= ", .number param,
        .text " AND (valid_until IS NULL OR valid_until > ", .number param, .text ")"] param
      (fun v r => match v with
        | some (.timestamp t) => r.valid_from ≤ t && r.valid_until.all (t < ·)
        | _ => false),
      [.timestamp as_of])

/-- `_lang_filter_clause`. -/
def lang_filter_clause {Row : Type} (row_lang : Row → String) (lang : Option String) :
    Filter Row (Argument K) := fun param =>
  match lang with
  | none => (.absent, [])
  | some lang =>
    if lang = "" then (.absent, [])
    else (.on [.text "AND lang = ", .number param] param (fun v r => holds_text (row_lang r) v),
      [.text lang])

/-! ## The conditions and columns of the statements -/

section
variable (o : Outside K) (now : Timestamp) (body : RecallRequest) (agent : AgentIdentity)
  (db : Db K)

/-- `content_tsv @@ plainto_tsquery('simple', $1)`, with what is before and after it. -/
def ts_matches {Row : Type} (before after : String) (column : String) (tsv : Row → String)
    (otherwise : Row → Bool := fun _ => false) : Condition Row (Argument K) :=
  .on [.text (before ++ column ++ " @@ plainto_tsquery('simple', "), .number 1,
      .text (")" ++ after)] 1
    fun v r => (match v with
      | some (.text query) => o.ts_match query (tsv r)
      | _ => false) || otherwise r

def agent_is : Condition (HindsightMemory K) (Argument K) :=
  .on [.text "WHERE agent_id = ", .number 2] 2 fun v r => is_uuid r.agent_id v

def type_is (type : MemoryType) : Condition (HindsightMemory K) (Argument K) :=
  .fixed ("AND type = '" ++ type.literal ++ "'") fun r => r.type = type

def not_short_term : Condition (HindsightMemory K) (Argument K) :=
  .fixed "AND type != 'short_term'" fun r => r.type ≠ .short_term

/-- The `tier_clause`. -/
def tier_is (tier : Tier) : Condition (HindsightMemory K) (Argument K) :=
  .fixed (match tier with
    | .archive => "AND tier = 'archive'"
    | .active => "AND tier = 'active'") fun r => r.tier = tier

def embedded {Row : Type} (embedding : Row → Option (List K)) : Condition Row (Argument K) :=
  .fixed "AND embedding IS NOT NULL" fun r => (embedding r).isSome

def not_expired : Condition (HindsightMemory K) (Argument K) :=
  .fixed "AND (expires_at IS NULL OR expires_at > now())" fun r => r.expires_at.all (now < ·)

def valid_now {Row : Type} (valid_until : Row → Option Timestamp) : Condition Row (Argument K) :=
  .fixed "AND (valid_until IS NULL OR valid_until > now())" fun r => (valid_until r).all (now < ·)

def tenant_is {Row : Type} (tenant_id : Row → UUID) : Condition Row (Argument K) :=
  .on [.text "WHERE tenant_id = ", .number 2] 2 fun v r => is_uuid (tenant_id r) v

def clearance_holds {Row : Type} (table : String) (min_clearance : Row → String) :
    Condition Row (Argument K) :=
  .on [.text "AND (", .number 3, .text (" >= (SELECT level_order FROM qortia_clearance_levels " ++
      "WHERE level_name = " ++ table ++ ".min_clearance))")] 3
    fun v r => match v with
      | some (.order n) => clearance_reaches db.level_order n (min_clearance r)
      | _ => false

def in_audience {Row : Type} (audience : Row → List String) : Condition Row (Argument K) :=
  .on [.text "AND (", .number 4, .text " = ANY(audience) OR 'all' = ANY(audience))"] 4
    fun v r => match v with
      | some (.text division) => audience_holds (audience r) division
      | _ => false

/-- The `rank` column. -/
def rank_column (column : String) : List Piece :=
  [.text ("ts_rank_cd(" ++ column ++ ", plainto_tsquery('simple', "), .number 1,
    .text ("), " ++ toString (bm25_normalization body.query) ++ ") AS rank")]

/-- The `score` column. -/
def score_column : List Piece :=
  [.text "1 - (embedding <=> ", .number 1, .text "::vector) AS score"]

/-- `ORDER BY embedding <=> $1::vector`. -/
def by_distance : List Piece := [.text "ORDER BY embedding <=> ", .number 1, .text "::vector"]

/-! ## The statements of the type-routed searches -/

/-- What the four searches share. -/
def routed_query (column : List Piece) (type : MemoryType)
    (condition : Condition (HindsightMemory K) (Argument K)) (tier : Tier) (order : List Piece)
    (first : Argument K) : Statement (HindsightMemory K) (Argument K) :=
  let entity := entity_filter_clause HindsightMemory.entities body.entities 3
  { head := .text ("SELECT id, content, importance, created_at, recall_count, " ++
      "last_recalled_at, confidence_multiplier, ") :: column ++ [.text " FROM hindsight_memories"]
    conditions := [agent_is, type_is type, condition, tier_is tier, not_expired now,
      valid_now now HindsightMemory.valid_until, entity.1]
    tail := order ++ [.text " LIMIT 10"]
    args := [first, .uuid agent.agent_id] ++ entity.2 }

/-- Of `_recall_decisions`. -/
def recall_decisions_query : Statement (HindsightMemory K) (Argument K) :=
  routed_query now body agent (rank_column body "content_tsv") .decision
    (ts_matches o "AND " "" "content_tsv" HindsightMemory.content) (tier_clause body)
    [.text "ORDER BY rank DESC, created_at DESC"] (.text body.query)

/-- Of `_recall_lessons`. -/
def recall_lessons_query (query_embedding : List K) :
    Statement (HindsightMemory K) (Argument K) :=
  routed_query now body agent score_column .lesson (embedded HindsightMemory.embedding)
    (tier_clause body) by_distance (.vector query_embedding)

/-- Of `_recall_episodic`. -/
def recall_episodic_query : Statement (HindsightMemory K) (Argument K) :=
  routed_query now body agent (rank_column body "content_tsv") .episodic
    (ts_matches o "AND ( " " OR created_at > now() - interval '7 days' )" "content_tsv"
      HindsightMemory.content fun r => now - 7 * DAY < r.created_at) (tier_clause body)
    [.text "ORDER BY CASE WHEN content_tsv @@ plainto_tsquery('simple', ", .number 1,
      .text ") THEN 0 ELSE 1 END, rank DESC, created_at DESC"] (.text body.query)

/-- Of `_recall_short_term`. -/
def recall_short_term_query : Statement (HindsightMemory K) (Argument K) :=
  routed_query now body agent (rank_column body "content_tsv") .short_term
    (ts_matches o "AND " "" "content_tsv" HindsightMemory.content) .active
    [.text "ORDER BY rank DESC, created_at DESC"] (.text body.query)

/-! ## The statements of the pipeline -/

def limit (n : Nat) : Piece := .text (" LIMIT " ++ toString n)

/-- What the two searches of the private memories share. -/
def private_query (cfg : Settings) (column : List Piece)
    (condition : Condition (HindsightMemory K) (Argument K))
    (more : List (Condition (HindsightMemory K) (Argument K))) (order : List Piece)
    (first : Argument K) : Statement (HindsightMemory K) (Argument K) :=
  let type := type_filter_clause body.type 3
  let entity := entity_filter_clause HindsightMemory.entities body.entities (3 + type.2.length)
  let temporal := temporal_filter_clause body.as_of (3 + type.2.length + entity.2.length)
  let lang := lang_filter_clause HindsightMemory.lang body.lang
    (3 + type.2.length + entity.2.length + temporal.2.length)
  { head := .text ("SELECT id, type, content, importance, created_at, recall_count, " ++
      "last_recalled_at, confidence_multiplier, valid_from, valid_until, ") :: column ++
        [.text " FROM hindsight_memories"]
    conditions := [agent_is, condition, not_short_term, tier_is (tier_clause body),
      not_expired now] ++ more ++ [type.1, entity.1, temporal.1, lang.1]
    tail := order ++ [limit (cfg.recall_private_result_limit * cfg.recall_search_fetch_multiplier)]
    args := [first, .uuid agent.agent_id] ++ type.2 ++ entity.2 ++ temporal.2 ++ lang.2 }

/-- Of `_bm25_private`. -/
def bm25_private_query (cfg : Settings) : Statement (HindsightMemory K) (Argument K) :=
  private_query now body agent cfg (rank_column body "content_tsv")
    (ts_matches o "AND " "" "content_tsv" HindsightMemory.content) [] [.text "ORDER BY rank DESC"]
    (.text body.query)

/-- Of `_vector_private`. -/
def vector_private_query (cfg : Settings) (qe : List K) :
    Statement (HindsightMemory K) (Argument K) :=
  private_query now body agent cfg score_column (embedded HindsightMemory.embedding)
    [valid_now now HindsightMemory.valid_until] by_distance (.vector qe)

/-- What the two searches of the organisation memory share. -/
def org_query (cfg : Settings) (column : List Piece)
    (condition : Condition (OrgMemory K) (Argument K)) (order : List Piece) (first : Argument K) :
    Statement (OrgMemory K) (Argument K) :=
  let entity := entity_filter_clause OrgMemory.entities body.entities 5
  let lang := lang_filter_clause OrgMemory.lang body.lang (5 + entity.2.length)
  { head := .text ("SELECT id, type, content, NULL::float AS importance, created_at, " ++
      "recall_count, last_recalled_at, confidence_multiplier, ") :: column ++
        [.text " FROM org_memory"]
    conditions := [tenant_is OrgMemory.tenant_id, condition,
      clearance_holds db "org_memory" OrgMemory.min_clearance, in_audience OrgMemory.audience,
      valid_now now OrgMemory.valid_until, entity.1, lang.1]
    tail := order ++ [limit (cfg.recall_org_result_limit * cfg.recall_search_fetch_multiplier)]
    args := [first, .uuid agent.tenant_id, .order agent.clearance_order, .text agent.division] ++
      entity.2 ++ lang.2 }

/-- Of `_bm25_org`. -/
def bm25_org_query (cfg : Settings) : Statement (OrgMemory K) (Argument K) :=
  org_query now body agent db cfg (rank_column body "content_tsv")
    (ts_matches o "AND " "" "content_tsv" fun r => r.title ++ " " ++ r.content)
    [.text "ORDER BY rank DESC"] (.text body.query)

/-- Of `_vector_org`. -/
def vector_org_query (cfg : Settings) (qe : List K) : Statement (OrgMemory K) (Argument K) :=
  org_query now body agent db cfg score_column (embedded OrgMemory.embedding) by_distance
    (.vector qe)

/-- What the two searches of the knowledge share. -/
def knowledge_query (cfg : Settings) (column : List Piece)
    (condition : Condition (OrgKnowledge K) (Argument K)) (order : List Piece)
    (first : Argument K) : Statement (OrgKnowledge K) (Argument K) where
  head := .text ("SELECT id, 'knowledge' AS type, content, NULL::float AS importance, " ++
    "created_at, recall_count, last_recalled_at, ") :: column ++ [.text " FROM org_knowledge"]
  conditions := [tenant_is OrgKnowledge.tenant_id, condition,
    clearance_holds db "org_knowledge" OrgKnowledge.min_clearance,
    in_audience OrgKnowledge.audience]
  tail := order ++ [limit (cfg.recall_knowledge_result_limit * cfg.recall_search_fetch_multiplier)]
  args := [first, .uuid agent.tenant_id, .order agent.clearance_order, .text agent.division]

/-- Of `_bm25_knowledge`. -/
def bm25_knowledge_query (cfg : Settings) : Statement (OrgKnowledge K) (Argument K) :=
  knowledge_query agent db cfg (rank_column body "index_tsv")
    (ts_matches o "AND " "" "index_tsv" (index_text o)) [.text "ORDER BY rank DESC"]
    (.text body.query)

/-- Of `_vector_knowledge`. -/
def vector_knowledge_query (cfg : Settings) (qe : List K) :
    Statement (OrgKnowledge K) (Argument K) :=
  knowledge_query agent db cfg score_column (embedded OrgKnowledge.embedding) by_distance
    (.vector qe)

end

end qortia
