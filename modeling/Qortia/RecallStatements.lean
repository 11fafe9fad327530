-- The laws of the statements of `qortia.recall`. The database takes every statement with its
-- arguments, and it selects the rows that the search picks, whichever of the filters are there.
-- What a request says is in the arguments alone, never in the text.
import Qortia.RecallQueries

namespace qortia

open placeholders (Piece Condition Filter Statement)

variable {K : Type}

/-! ## What the clauses ask for -/

section
variable {Row : Type} (body : RecallRequest)

theorem absent_means {P : Row → Bool} (h : ∀ r, P r = true) :
    Filter.Means (fun _ => ((.absent : Condition Row (Argument K)), [])) P where
  numbers b n := by
    simp only [Condition.absent, placeholders.numbers_nil, List.not_mem_nil, List.length_nil,
      false_iff]
    omega
  holds _ _ _ r := (h r).symm

theorem entity_filter_clause_means (row_entities : Row → List (String × String)) :
    (entity_filter_clause row_entities body.entities : Filter Row (Argument K)).Means fun r =>
      entity_filter body (row_entities r) := by
  unfold entity_filter_clause
  split
  · rename_i hnone
    exact absent_means fun r => by simp [entity_filter, hnone]
  · rename_i hempty
    exact absent_means fun r => by simp [entity_filter, hempty]
  · rename_i wanted more hwanted
    constructor
    · intro b n
      simp [Condition.on]
      omega
    · intro b v hv r
      have hvalue : v b = some (.texts (wanted :: more)) := hv 0 _ rfl
      simp [Condition.on, hvalue, entity_filter, hwanted]

theorem type_filter_clause_means :
    (type_filter_clause body.type : Filter (HindsightMemory K) (Argument K)).Means fun r =>
      type_filter body r.type := by
  unfold type_filter_clause
  split
  · rename_i hnone
    exact absent_means fun r => by simp [type_filter, hnone]
  · rename_i type htype
    constructor
    · intro b n
      simp [Condition.on]
      omega
    · intro b v hv r
      have hvalue : v b = some (.text type.literal) := hv 0 _ rfl
      simp [Condition.on, hvalue, holds_text, type_filter, htype, literal_inj]

theorem temporal_filter_clause_means :
    (temporal_filter_clause body.as_of : Filter (HindsightMemory K) (Argument K)).Means fun r =>
      temporal_filter body r.valid_from r.valid_until := by
  unfold temporal_filter_clause
  split
  · rename_i hnone
    constructor
    · intro b n
      simp [Condition.fixed]
    · intro b v _ r
      simp [Condition.fixed, temporal_filter, hnone]
  · rename_i as_of has_of
    constructor
    · intro b n
      simp [Condition.on]
      omega
    · intro b v hv r
      have hvalue : v b = some (.timestamp as_of) := hv 0 _ rfl
      simp [Condition.on, hvalue, temporal_filter, has_of]

theorem lang_filter_clause_means (row_lang : Row → String) :
    (lang_filter_clause row_lang body.lang : Filter Row (Argument K)).Means fun r =>
      lang_filter body (row_lang r) := by
  unfold lang_filter_clause
  split
  · rename_i hnone
    exact absent_means fun r => by simp [lang_filter, hnone]
  · rename_i lang hlang
    by_cases hempty : lang = ""
    · simp only [hempty, if_true]
      exact absent_means fun r => by simp [lang_filter, hlang, hempty]
    · simp only [hempty, if_false]
      constructor
      · intro b n
        simp [Condition.on]
        omega
      · intro b v hv r
        have hvalue : v b = some (.text lang) := hv 0 _ rfl
        simp [Condition.on, hvalue, holds_text, lang_filter, hlang, hempty]

end

/-! ## What the statements ask for -/

/-- The database takes the statement with its arguments, and selects the rows with the property. -/
structure AsksFor {Row : Type} (s : Statement Row (Argument K)) (P : Row → Bool) : Prop where
  complete : s.Complete
  selects : ∀ r, s.selects r = P r

/-- The searches of the private memories. -/
inductive PrivateSearch where
  | decisions
  | lessons
  | episodic
  | short_term
  | bm25
  | vector

section
variable (o : Outside K) (cfg : Settings) (now : Timestamp) (query_embedding : List K)
  (body : RecallRequest) (agent : AgentIdentity) (db : Db K)

/-- The statement of the search. -/
def PrivateSearch.query : PrivateSearch → Statement (HindsightMemory K) (Argument K)
  | .decisions => recall_decisions_query o now body agent
  | .lessons => recall_lessons_query now body agent query_embedding
  | .episodic => recall_episodic_query o now body agent
  | .short_term => recall_short_term_query o now body agent
  | .bm25 => bm25_private_query o now body agent cfg
  | .vector => vector_private_query now body agent cfg query_embedding

/-- The memories that the search picks. -/
def PrivateSearch.picks (r : HindsightMemory K) : PrivateSearch → Bool
  | .decisions => routed_where now body agent .decision (tier_clause body) r &&
      o.ts_match body.query r.content
  | .lessons => routed_where now body agent .lesson (tier_clause body) r && r.embedding.isSome
  | .episodic => routed_where now body agent .episodic (tier_clause body) r &&
      (o.ts_match body.query r.content || now - 7 * DAY < r.created_at)
  | .short_term => routed_where now body agent .short_term .active r &&
      o.ts_match body.query r.content
  | .bm25 => bm25_private_where o now body agent r
  | .vector => vector_private_where now body agent r

/-- The filters of the private searches of the pipeline. -/
def private_filters : List (Filter (HindsightMemory K) (Argument K)) :=
  [type_filter_clause body.type, entity_filter_clause HindsightMemory.entities body.entities,
    temporal_filter_clause body.as_of, lang_filter_clause HindsightMemory.lang body.lang]

end

/-! ## The four shapes -/

/-- A statement of the searches is what its own conditions and its filters ask for. -/
theorem asks_of_extends {Row : Type} {s : Statement Row (Argument K)}
    {own : List (Condition Row (Argument K))} {args : List (Argument K)}
    {fs : List (Filter Row (Argument K))} {Ps : List (Row → Bool)} {P : Row → Bool}
    (h : s.Extends own args fs) (hfs : List.Forall₂ Filter.Means fs Ps)
    (hown : ∀ n, n ∈ placeholders.numbers (s.head ++ own.flatMap Condition.pieces ++ s.tail) ↔
      1 ≤ n ∧ n ≤ args.length)
    (hP : ∀ r, ((own.all fun c => c.holds (placeholders.bound args) r) && Ps.all fun P => P r) =
      P r) : AsksFor s P :=
  ⟨h.complete hfs hown, fun r => (h.selects hfs hown r).trans (hP r)⟩

/-- The condition of the search names no argument but the first, and with it holds of these rows. -/
structure OnFirst {Row : Type} (condition : Condition Row (Argument K)) (first : Argument K)
    (P : Row → Bool) : Prop where
  numbered : ∀ n ∈ placeholders.numbers condition.pieces, n = 1
  holds : ∀ args r, condition.holds (placeholders.bound (first :: args)) r = P r

section
variable {now : Timestamp} {body : RecallRequest} {agent : AgentIdentity} {db : Db K}
  {cfg : Settings} {column order : List Piece} {first : Argument K}

theorem routed_query_extends {type : MemoryType} {tier : Tier}
    {condition : Condition (HindsightMemory K) (Argument K)} :
    (routed_query now body agent column type condition tier order first).Extends
      [agent_is, type_is type, condition, tier_is tier, not_expired now,
        valid_now now HindsightMemory.valid_until] [first, .uuid agent.agent_id]
      [entity_filter_clause HindsightMemory.entities body.entities] :=
  ⟨rfl, by simp [routed_query, placeholders.assemble]⟩

theorem routed_query_asks {type : MemoryType} {tier : Tier}
    {condition : Condition (HindsightMemory K) (Argument K)} {P : HindsightMemory K → Bool}
    (hcondition : OnFirst condition first P) (hcolumn : placeholders.numbers column = [1])
    (horder : ∀ n ∈ placeholders.numbers order, n = 1) :
    AsksFor (routed_query now body agent column type condition tier order first)
      (fun r => routed_where now body agent type tier r && P r) := by
  refine asks_of_extends routed_query_extends (.cons (entity_filter_clause_means body _) .nil)
    (fun n => ?_) (fun r => ?_)
  · have hc := hcondition.numbered n
    have ho := horder n
    simp [routed_query, hcolumn, agent_is, type_is, tier_is, not_expired, valid_now, Condition.on,
      Condition.fixed]
    constructor
    · intro hn
      have hone : n = 1 ∨ n = 2 := by tauto
      omega
    · intro hn
      have hone : n = 1 ∨ n = 2 := by omega
      tauto
  · simp only [List.all_cons, List.all_nil, hcondition.holds, agent_is, type_is, tier_is,
      not_expired, valid_now, Condition.on, Condition.fixed, routed_where]
    simp [placeholders.bound, is_uuid]
    ac_rfl

theorem private_query_extends {condition : Condition (HindsightMemory K) (Argument K)}
    {more : List (Condition (HindsightMemory K) (Argument K))} :
    (private_query now body agent cfg column condition more order first).Extends
      ([agent_is, condition, not_short_term, tier_is (tier_clause body), not_expired now] ++ more)
      [first, .uuid agent.agent_id] (private_filters body) :=
  ⟨rfl, by simp [private_query, private_filters, placeholders.assemble]⟩

theorem private_query_asks {condition : Condition (HindsightMemory K) (Argument K)}
    {more : List (Condition (HindsightMemory K) (Argument K))} {P Q : HindsightMemory K → Bool}
    (hcondition : OnFirst condition first P) (hcolumn : placeholders.numbers column = [1])
    (horder : ∀ n ∈ placeholders.numbers order, n = 1)
    (hmore : placeholders.numbers (more.flatMap Condition.pieces) = [])
    (hQ : ∀ args r, (more.all fun c => c.holds (placeholders.bound args) r) = Q r) :
    AsksFor (private_query now body agent cfg column condition more order first)
      (fun r => P r && (Q r && private_where now body agent r)) := by
  refine asks_of_extends private_query_extends (.cons (type_filter_clause_means body)
    (.cons (entity_filter_clause_means body _) (.cons (temporal_filter_clause_means body)
      (.cons (lang_filter_clause_means body _) .nil)))) (fun n => ?_) (fun r => ?_)
  · have hc := hcondition.numbered n
    have ho := horder n
    simp [private_query, hcolumn, hmore, agent_is, not_short_term, tier_is, not_expired, limit,
      Condition.on, Condition.fixed]
    constructor
    · intro hn
      have hone : n = 1 ∨ n = 2 := by tauto
      omega
    · intro hn
      have hone : n = 1 ∨ n = 2 := by omega
      tauto
  · rw [List.all_append, hQ]
    simp only [List.all_cons, List.all_nil, hcondition.holds, agent_is, not_short_term, tier_is,
      not_expired, Condition.on, Condition.fixed, private_where, tier_clause]
    simp [placeholders.bound, is_uuid]
    ac_rfl

theorem org_query_extends {condition : Condition (OrgMemory K) (Argument K)} :
    (org_query now body agent db cfg column condition order first).Extends
      [tenant_is OrgMemory.tenant_id, condition,
        clearance_holds db "org_memory" OrgMemory.min_clearance, in_audience OrgMemory.audience,
        valid_now now OrgMemory.valid_until]
      [first, .uuid agent.tenant_id, .order agent.clearance_order, .text agent.division]
      [entity_filter_clause OrgMemory.entities body.entities,
        lang_filter_clause OrgMemory.lang body.lang] :=
  ⟨rfl, by simp [org_query, placeholders.assemble]⟩

theorem org_query_asks {condition : Condition (OrgMemory K) (Argument K)}
    {P : OrgMemory K → Bool} (hcondition : OnFirst condition first P)
    (hcolumn : placeholders.numbers column = [1])
    (horder : ∀ n ∈ placeholders.numbers order, n = 1) :
    AsksFor (org_query now body agent db cfg column condition order first)
      (fun r => P r && org_where now body agent db r) := by
  refine asks_of_extends org_query_extends (.cons (entity_filter_clause_means body _)
    (.cons (lang_filter_clause_means body _) .nil)) (fun n => ?_) (fun r => ?_)
  · have hc := hcondition.numbered n
    have ho := horder n
    simp [org_query, hcolumn, tenant_is, clearance_holds, in_audience, valid_now, limit,
      Condition.on, Condition.fixed]
    constructor
    · intro hn
      have hfour : n = 1 ∨ n = 2 ∨ n = 3 ∨ n = 4 := by tauto
      omega
    · intro hn
      have hfour : n = 1 ∨ n = 2 ∨ n = 3 ∨ n = 4 := by omega
      tauto
  · simp only [List.all_cons, List.all_nil, hcondition.holds, tenant_is, clearance_holds,
      in_audience, valid_now, Condition.on, Condition.fixed, org_where, org_visible]
    simp [placeholders.bound, is_uuid]
    ac_rfl

theorem knowledge_query_asks
    {condition : Condition (OrgKnowledge K) (Argument K)}
    {P : OrgKnowledge K → Bool} (hcondition : OnFirst condition first P)
    (hcolumn : placeholders.numbers column = [1])
    (horder : ∀ n ∈ placeholders.numbers order, n = 1) :
    AsksFor (knowledge_query agent db cfg column condition order first)
      (fun r => P r && knowledge_visible db agent r) := by
  have hextends : (knowledge_query agent db cfg column condition order first).Extends
      [tenant_is OrgKnowledge.tenant_id, condition,
        clearance_holds db "org_knowledge" OrgKnowledge.min_clearance,
        in_audience OrgKnowledge.audience]
      [first, .uuid agent.tenant_id, .order agent.clearance_order, .text agent.division] [] :=
    ⟨rfl, rfl⟩
  refine asks_of_extends hextends .nil (fun n => ?_) (fun r => ?_)
  · have hc := hcondition.numbered n
    have ho := horder n
    simp [knowledge_query, hcolumn, tenant_is, clearance_holds, in_audience, limit, Condition.on]
    constructor
    · intro hn
      have hfour : n = 1 ∨ n = 2 ∨ n = 3 ∨ n = 4 := by tauto
      omega
    · intro hn
      have hfour : n = 1 ∨ n = 2 ∨ n = 3 ∨ n = 4 := by omega
      tauto
  · simp only [List.all_cons, List.all_nil, hcondition.holds, tenant_is, clearance_holds,
      in_audience, Condition.on, knowledge_visible]
    simp [placeholders.bound, is_uuid]
    ac_rfl

end

/-! ## Each search -/

theorem ts_matches_on_first {Row : Type} (o : Outside K) (before behind column query : String)
    (tsv : Row → String) (otherwise : Row → Bool) :
    OnFirst (ts_matches o before behind column tsv otherwise) (.text query)
      (fun r => o.ts_match query (tsv r) || otherwise r) where
  numbered n hn := by simpa [ts_matches, Condition.on] using hn
  holds _ _ := rfl

theorem embedded_on_first {Row : Type} (embedding : Row → Option (List K)) (first : Argument K) :
    OnFirst (embedded embedding) first (fun r => (embedding r).isSome) where
  numbered n hn := by simp [embedded, Condition.fixed] at hn
  holds _ _ := rfl

theorem AsksFor.congr {Row : Type} {s : Statement Row (Argument K)} {P Q : Row → Bool}
    (h : AsksFor s P) (hPQ : ∀ r, P r = Q r) : AsksFor s Q :=
  ⟨h.complete, fun r => (h.selects r).trans (hPQ r)⟩

theorem private_search_asks (o : Outside K) (cfg : Settings) (now : Timestamp)
    (query_embedding : List K) (body : RecallRequest) (agent : AgentIdentity)
    (search : PrivateSearch) :
    AsksFor (search.query o cfg now query_embedding body agent)
      (fun r => search.picks o now body agent r) := by
  have hmatch := ts_matches_on_first o "AND " "" "content_tsv" body.query
    (HindsightMemory.content (K := K)) (fun _ => false)
  have hembedded := embedded_on_first (HindsightMemory.embedding (K := K)) (.vector query_embedding)
  cases search with
  | decisions =>
    refine (routed_query_asks hmatch rfl (by simp)).congr fun r => ?_
    simp [PrivateSearch.picks]
  | lessons => exact routed_query_asks hembedded rfl (by simp [by_distance])
  | episodic => exact routed_query_asks (ts_matches_on_first ..) rfl (by simp)
  | short_term =>
    refine (routed_query_asks hmatch rfl (by simp)).congr fun r => ?_
    simp [PrivateSearch.picks]
  | bm25 =>
    refine (private_query_asks hmatch rfl (by simp) rfl fun _ _ => rfl).congr fun r => ?_
    simp [PrivateSearch.picks, bm25_private_where]
  | vector =>
    refine (private_query_asks hembedded rfl (by simp [by_distance]) rfl
      (Q := fun r => r.valid_until.all (now < ·)) fun _ r => ?_).congr fun r => ?_
    · simp [valid_now, Condition.fixed]
    · rfl

/-- Every search sends a statement that names each of its arguments and no others, and that
selects the rows which the search picks. -/
theorem the_statements_ask_for_the_filters (o : Outside K) (cfg : Settings) (now : Timestamp)
    (query_embedding : List K) (body : RecallRequest) (agent : AgentIdentity) (db : Db K) :
    (∀ search : PrivateSearch, AsksFor (search.query o cfg now query_embedding body agent)
      fun r => search.picks o now body agent r) ∧
    AsksFor (bm25_org_query o now body agent db cfg) (fun r =>
      o.ts_match body.query (r.title ++ " " ++ r.content) && org_where now body agent db r) ∧
    AsksFor (vector_org_query now body agent db cfg query_embedding) (fun r =>
      r.embedding.isSome && org_where now body agent db r) ∧
    AsksFor (bm25_knowledge_query o body agent db cfg) (fun r =>
      o.ts_match body.query (index_text o r) && knowledge_visible db agent r) ∧
    AsksFor (vector_knowledge_query agent db cfg query_embedding) (fun r =>
      r.embedding.isSome && knowledge_visible db agent r) := by
  refine ⟨private_search_asks o cfg now query_embedding body agent, ?_, ?_, ?_, ?_⟩
  · refine (org_query_asks (ts_matches_on_first ..) rfl (by simp)).congr fun r => ?_
    simp
  · exact org_query_asks (embedded_on_first ..) rfl (by simp [by_distance])
  · refine (knowledge_query_asks (ts_matches_on_first ..) rfl (by simp)).congr fun r => ?_
    simp
  · exact knowledge_query_asks (embedded_on_first ..) rfl (by simp [by_distance])

/-! ## What the texts tell -/

/-- The requests differ in what they say, but have the same filters, the same kind of scope and
queries that are both short or both long. -/
structure RecallRequest.SameShape (body body' : RecallRequest) : Prop where
  tier : tier_clause body = tier_clause body'
  words : bm25_normalization body.query = bm25_normalization body'.query
  type : body.type.isSome = body'.type.isSome
  entities : body.entities.getD [] = [] ↔ body'.entities.getD [] = []
  as_of : body.as_of.isSome = body'.as_of.isSome
  lang : body.lang.getD "" = "" ↔ body'.lang.getD "" = ""

section
variable {Row : Type} {body body' : RecallRequest}

theorem entity_filter_clause_text (h : body.SameShape body')
    (row_entities : Row → List (String × String)) :
    Filter.SameText (entity_filter_clause row_entities body.entities : Filter Row (Argument K))
      (entity_filter_clause row_entities body'.entities) := by
  have hentities := h.entities
  intro b
  unfold entity_filter_clause
  split
  all_goals
    split
    all_goals first
      | exact ⟨rfl, rfl⟩
      | simp_all

theorem type_filter_clause_text (h : body.SameShape body') :
    Filter.SameText (type_filter_clause body.type : Filter (HindsightMemory K) (Argument K))
      (type_filter_clause body'.type) := by
  have htype := h.type
  intro b
  unfold type_filter_clause
  split
  all_goals
    split
    all_goals first
      | exact ⟨rfl, rfl⟩
      | simp_all

theorem temporal_filter_clause_text (h : body.SameShape body') :
    Filter.SameText (temporal_filter_clause body.as_of : Filter (HindsightMemory K) (Argument K))
      (temporal_filter_clause body'.as_of) := by
  have has_of := h.as_of
  intro b
  unfold temporal_filter_clause
  split
  all_goals
    split
    all_goals first
      | exact ⟨rfl, rfl⟩
      | simp_all

theorem lang_filter_clause_text (h : body.SameShape body') (row_lang : Row → String) :
    Filter.SameText (lang_filter_clause row_lang body.lang : Filter Row (Argument K))
      (lang_filter_clause row_lang body'.lang) := by
  have hlang := h.lang
  intro b
  unfold lang_filter_clause
  cases hbody : body.lang with
  | none =>
    cases hbody' : body'.lang with
    | none => exact ⟨rfl, rfl⟩
    | some lang' =>
      have hempty : lang' = "" := by simpa [hbody, hbody'] using hlang
      simp [hempty]
  | some lang =>
    cases hbody' : body'.lang with
    | none =>
      have hempty : lang = "" := by simpa [hbody, hbody'] using hlang
      simp [hempty]
    | some lang' =>
      have hboth : lang = "" ↔ lang' = "" := by simpa [hbody, hbody'] using hlang
      by_cases hempty : lang = ""
      · simp [hempty, hboth.mp hempty]
      · have hempty' : lang' ≠ "" := fun h => hempty (hboth.mpr h)
        simp [hempty, hempty', Condition.on]

theorem rank_column_text (h : body.SameShape body') (column : String) :
    rank_column body column = rank_column body' column := by
  unfold rank_column
  rw [h.words]

/-- The statements of the type-routed searches with conditions of the same text. -/
theorem routed_query_text (h : body.SameShape body') {now now' : Timestamp}
    {agent agent' : AgentIdentity} {column column' : List Piece} (type : MemoryType)
    {condition condition' : Condition (HindsightMemory K) (Argument K)} {tier tier' : Tier}
    {order : List Piece} {first first' : Argument K} (hcolumn : column = column')
    (hcondition : condition.pieces = condition'.pieces) (htier : tier = tier') :
    (routed_query now body agent column type condition tier order first).sql =
      (routed_query now' body' agent' column' type condition' tier' order first').sql := by
  subst hcolumn htier
  refine routed_query_extends.sql_eq routed_query_extends rfl ?_ rfl rfl
    (.cons (entity_filter_clause_text h _) .nil)
  simp only [List.map_cons, hcondition]
  rfl

theorem private_query_text (h : body.SameShape body') (cfg : Settings) {now now' : Timestamp}
    {agent agent' : AgentIdentity} {column column' : List Piece}
    {condition condition' : Condition (HindsightMemory K) (Argument K)}
    {more more' : List (Condition (HindsightMemory K) (Argument K))} {order : List Piece}
    {first first' : Argument K} (hcolumn : column = column')
    (hcondition : condition.pieces = condition'.pieces)
    (hmore : more.map Condition.pieces = more'.map Condition.pieces) :
    (private_query now body agent cfg column condition more order first).sql =
      (private_query now' body' agent' cfg column' condition' more' order first').sql := by
  subst hcolumn
  refine private_query_extends.sql_eq private_query_extends rfl ?_ rfl rfl
    (.cons (type_filter_clause_text h) (.cons (entity_filter_clause_text h _)
      (.cons (temporal_filter_clause_text h) (.cons (lang_filter_clause_text h _) .nil))))
  simp only [List.map_append, List.map_cons, hcondition, hmore, h.tier]
  rfl

theorem org_query_text (h : body.SameShape body') (cfg : Settings) {now now' : Timestamp}
    {agent agent' : AgentIdentity} {db db' : Db K} {column column' : List Piece}
    {condition condition' : Condition (OrgMemory K) (Argument K)} {order : List Piece}
    {first first' : Argument K} (hcolumn : column = column')
    (hcondition : condition.pieces = condition'.pieces) :
    (org_query now body agent db cfg column condition order first).sql =
      (org_query now' body' agent' db' cfg column' condition' order first').sql := by
  subst hcolumn
  refine org_query_extends.sql_eq org_query_extends rfl ?_ rfl rfl
    (.cons (entity_filter_clause_text h _) (.cons (lang_filter_clause_text h _) .nil))
  simp only [List.map_cons, hcondition]
  rfl

end

/-- Two requests of the same shape send the same texts, whatever their queries, entities, types,
languages and times, and whoever the agents are. All that differs is in the arguments. -/
theorem the_texts_do_not_tell_the_request (o o' : Outside K) (cfg : Settings)
    (now now' : Timestamp) (query_embedding query_embedding' : List K)
    (body body' : RecallRequest) (agent agent' : AgentIdentity) (db db' : Db K)
    (h : body.SameShape body') :
    (∀ search : PrivateSearch, (search.query o cfg now query_embedding body agent).sql =
      (search.query o' cfg now' query_embedding' body' agent').sql) ∧
    (bm25_org_query o now body agent db cfg).sql =
      (bm25_org_query o' now' body' agent' db' cfg).sql ∧
    (vector_org_query now body agent db cfg query_embedding).sql =
      (vector_org_query now' body' agent' db' cfg query_embedding').sql ∧
    (bm25_knowledge_query o body agent db cfg).sql =
      (bm25_knowledge_query o' body' agent' db' cfg).sql ∧
    (vector_knowledge_query agent db cfg query_embedding).sql =
      (vector_knowledge_query agent' db' cfg query_embedding').sql := by
  refine ⟨fun search => ?_, ?_, ?_, ?_, ?_⟩
  · cases search with
    | decisions => exact routed_query_text h .decision (rank_column_text h _) rfl h.tier
    | lessons => exact routed_query_text h .lesson rfl rfl h.tier
    | episodic => exact routed_query_text h .episodic (rank_column_text h _) rfl h.tier
    | short_term => exact routed_query_text h .short_term (rank_column_text h _) rfl rfl
    | bm25 => exact private_query_text h cfg (rank_column_text h _) rfl rfl
    | vector => exact private_query_text h cfg rfl rfl rfl
  · exact org_query_text h cfg (rank_column_text h _) rfl
  · exact org_query_text h cfg rfl rfl
  · unfold bm25_knowledge_query
    rw [rank_column_text h]
    rfl
  · rfl

/-- A query that ends the text of a statement, if it gets there. -/
def ends_a_statement : RecallRequest :=
  { query := "x');DROP TABLE hindsight_memories", entities := some ["CI", "'"] }

/-- An agent of another organisation. -/
def outsider : AgentIdentity := { analyst with agent_id := 99, tenant_id := 98 }

theorem the_texts_do_not_tell_a_hostile_request :
    (∀ search : PrivateSearch,
      (search.query no_models {} 0 [] { query := "lexer", entities := some ["Lex"] } analyst).sql =
        (search.query no_models {} 5 [mkRat 3 1] ends_a_statement outsider).sql) ∧
    (bm25_org_query no_models 0 { query := "lexer", entities := some ["Lex"] } analyst lexer_db
        {}).sql = (bm25_org_query no_models 5 ends_a_statement outsider lexer_db {}).sql ∧
    (vector_org_query 0 { query := "lexer", entities := some ["Lex"] } analyst lexer_db {} []).sql =
      (vector_org_query 5 ends_a_statement outsider lexer_db {} [mkRat 3 1]).sql ∧
    (bm25_knowledge_query no_models { query := "lexer", entities := some ["Lex"] } analyst lexer_db
        {}).sql = (bm25_knowledge_query no_models ends_a_statement outsider lexer_db {}).sql ∧
    (vector_knowledge_query analyst lexer_db {} []).sql =
      (vector_knowledge_query outsider lexer_db {} [mkRat 3 1]).sql :=
  the_texts_do_not_tell_the_request no_models no_models {} 0 5 [] [mkRat 3 1]
    { query := "lexer", entities := some ["Lex"] } ends_a_statement analyst outsider lexer_db
    lexer_db ⟨rfl, by decide, rfl, by decide, rfl, by decide⟩

end qortia
