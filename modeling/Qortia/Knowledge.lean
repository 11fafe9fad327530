-- `qortia.knowledge`: ingesting and deleting a document. The laws compare what an ingest leaves
-- with what the same ingest leaves in a tenant that never had the document. They part on the
-- fast path, which looks at the hashes of the sections and at nothing else.
import Qortia.Sections

namespace qortia

variable {K : Type}

/-! ## The requests -/

structure KnowledgeIngestRequest where
  source_type : SourceType
  source_path : String
  content : String
  metadata : Option json.Object := none
  lang : String := "en"
  min_clearance : String := "internal"
  audience : List String := ["all"]

/-- PostgreSQL takes the row of a section. The index fields are parts of the heading and of the
text. -/
def KnowledgeIngestRequest.storable (body : KnowledgeIngestRequest) (s : Section) : Bool :=
  json.no_nul s.heading && json.no_nul s.text &&
    (json.Json.object (body.metadata.getD [])).is_jsonb && json.no_nul body.lang &&
    json.no_nul body.min_clearance && body.audience.all json.no_nul

structure IngestResponse where
  sections_created : Nat
  sections_deduped : Nat
  source_path : String
  deriving DecidableEq

/-- The first transaction of the requests on knowledge. -/
def assert_chief (agent : AgentIdentity) (detail : String) (db : Db K) : Except Failure Unit := do
  assert_agent_active agent.agent_id agent.tenant_id db
  if db.role agent.agent_id agent.tenant_id ≠ some "chief" then
    throw (.HTTPException 403 detail)

/-- `sha256(s["text"].encode()).hexdigest()`. -/
def section_hash (o : Outside K) (s : Section) : String := o.sha256 s.text

/-- `WHERE tenant_id = $1 AND source_path = $2`. -/
def of_document (tenant_id : UUID) (source_path : String) (r : OrgKnowledge K) : Bool :=
  r.tenant_id = tenant_id && r.source_path = source_path

/-- The rows of a document, `ORDER BY chunk_index ASC`. -/
def select_document (tenant_id : UUID) (source_path : String) (db : Db K) :
    List (OrgKnowledge K) :=
  rows.order_asc (·.chunk_index) (db.org_knowledge.filter (of_document tenant_id source_path))

/-- `SELECT embedding .. WHERE tenant_id = $1 AND content_hash = $2 LIMIT 1`. There is no ORDER
BY, so that any of the rows may be the one. -/
def existing_embedding (choice : Nat) (tenant_id : UUID) (content_hash : String) (db : Db K) :
    Option (List K) :=
  let found := db.org_knowledge.filter fun r =>
    r.tenant_id = tenant_id && r.content_hash = content_hash
  (found[choice % found.length]?).bind (·.embedding)

/-- The row that is inserted for a section. -/
def knowledge_row (o : Outside K) (agent : AgentIdentity) (now : Timestamp)
    (body : KnowledgeIngestRequest) (id : UUID) (idx : Nat) (s : Section)
    (embedding : Option (List K)) : OrgKnowledge K :=
  let index_fields := extract_index_fields o s.heading s.text body.lang
  { id, tenant_id := agent.tenant_id, source_type := body.source_type
    source_path := body.source_path, chunk_index := idx, content := s.text
    content_hash := section_hash o s, index_summary := index_fields.index_summary
    index_questions := index_fields.index_questions
    index_entities := index_fields.index_entities, embedding, author_id := some agent.agent_id
    metadata := body.metadata.getD [], lang := body.lang, min_clearance := body.min_clearance
    audience := body.audience, created_at := now }

/-- The loop over the sections. The counters are `sections_created` and `sections_deduped`. -/
def insert_sections (o : Outside K) (agent : AgentIdentity) (now : Timestamp)
    (choice : Nat → Nat) (body : KnowledgeIngestRequest) :
    (idx : Nat) → List Section → Db K × Nat × Nat → Db K × Nat × Nat
  | _, [], acc => acc
  | idx, s :: rest, (db, created, deduped) =>
    let embedding := existing_embedding (choice idx) agent.tenant_id (section_hash o s) db
    let db' :=
      { db with
        org_knowledge := db.org_knowledge ++
          [knowledge_row o agent now body db.next_id idx s embedding]
        next_id := db.next_id + 1 }
    insert_sections o agent now choice body (idx + 1) rest
      (if embedding.isSome then (db', created, deduped + 1) else (db', created + 1, deduped))

/-- `DELETE FROM org_knowledge WHERE tenant_id = $1 AND source_path = $2`. -/
def delete_document (tenant_id : UUID) (source_path : String) (db : Db K) : Db K :=
  { db with org_knowledge := rows.delete (of_document tenant_id source_path) db.org_knowledge }

def knowledge_history (agent : AgentIdentity) (operation : Operation) : MemoryHistory :=
  { tenant_id := agent.tenant_id, agent_id := agent.agent_id, operation
    target_table := .org_knowledge, target_id := none }

/-- `ingest_knowledge`. -/
def ingest_knowledge (o : Outside K) (agent : AgentIdentity) (now : Timestamp)
    (choice : Nat → Nat) (body : KnowledgeIngestRequest) (db : Db K) :
    Except Failure (Db K × IngestResponse) := do
  assert_chief agent "Only chief agent can ingest knowledge" db
  let sections := split_into_sections body.content
  let incoming_hashes := sections.map (section_hash o)
  check_storable (json.no_nul body.source_path)
  let existing := select_document agent.tenant_id body.source_path db
  if existing.map (·.content_hash) = incoming_hashes then
    return (db, ⟨0, sections.length, body.source_path⟩)
  let db₁ :=
    if existing ≠ [] then delete_document agent.tenant_id body.source_path db else db
  -- an INSERT that raises takes the whole transaction back
  check_storable (sections.all body.storable)
  let (db₂, created, deduped) := insert_sections o agent now choice body 0 sections (db₁, 0, 0)
  return ({ db₂ with
    memory_history := db₂.memory_history ++ [knowledge_history agent .knowledge_ingest] },
    ⟨created, deduped, body.source_path⟩)

/-- `delete_knowledge`, with the number of chunks deleted. -/
def delete_knowledge (agent : AgentIdentity) (source_path : String) (db : Db K) :
    Except Failure (Db K × Nat) := do
  assert_chief agent "Only chief agent can delete knowledge" db
  check_storable (json.no_nul source_path)
  let chunks_deleted := (db.org_knowledge.filter (of_document agent.tenant_id source_path)).length
  let db₁ := delete_document agent.tenant_id source_path db
  return ({ db₁ with
    memory_history := db₁.memory_history ++ [knowledge_history agent .knowledge_delete] },
    chunks_deleted)

theorem delete_knowledge_ok {agent : AgentIdentity} {source_path : String} {db : Db K}
    {result : Db K × Nat} (h : delete_knowledge agent source_path db = .ok result) :
    assert_chief agent "Only chief agent can delete knowledge" db = .ok () ∧
      result.1 = { delete_document agent.tenant_id source_path db with
        memory_history := db.memory_history ++ [knowledge_history agent .knowledge_delete] } := by
  unfold delete_knowledge at h
  obtain ⟨u, hchief, h⟩ := bind_ok h
  obtain ⟨v, -, h⟩ := bind_ok h
  cases h
  exact ⟨hchief, rfl⟩

/-! ## What an ingest stores -/

/-- A row without its id, time, author, embedding and counters. -/
def OrgKnowledge.stored (r : OrgKnowledge K) : OrgKnowledge K :=
  { r with
    id := 0, created_at := 0, author_id := none, embedding := none, embedding_attempts := 0
    recall_count := 0, last_recalled_at := none }

/-- The stored document, by chunk index. -/
def document (tenant_id : UUID) (source_path : String) (db : Db K) : List (OrgKnowledge K) :=
  (select_document tenant_id source_path db).map OrgKnowledge.stored

/-- The rows that the sections of a request stand for, from an index on. -/
def sections_stored (o : Outside K) (agent : AgentIdentity) (body : KnowledgeIngestRequest) :
    (idx : Nat) → List Section → List (OrgKnowledge K)
  | _, [] => []
  | idx, s :: rest =>
    (knowledge_row o agent 0 body 0 idx s none).stored ::
      sections_stored o agent body (idx + 1) rest

/-- A stored row carries what the request says about a section. -/
structure Carries (o : Outside K) (body : KnowledgeIngestRequest) (idx : Nat) (s : Section)
    (r : OrgKnowledge K) : Prop where
  chunk_index : r.chunk_index = idx
  content : r.content = s.text
  index : (⟨r.index_summary, r.index_entities, r.index_questions⟩ : IndexFields) =
    extract_index_fields o s.heading s.text body.lang
  source_type : r.source_type = body.source_type
  metadata : r.metadata = body.metadata.getD []
  lang : r.lang = body.lang
  min_clearance : r.min_clearance = body.min_clearance
  audience : r.audience = body.audience

/-! ## The rows after an ingest -/

theorem insert_sections_rows (o : Outside K) (agent : AgentIdentity) (now : Timestamp)
    (choice : Nat → Nat) (body : KnowledgeIngestRequest) (sections : List Section) (idx : Nat)
    (acc : Db K × Nat × Nat) :
    ∃ new, (insert_sections o agent now choice body idx sections acc).1.org_knowledge =
        acc.1.org_knowledge ++ new ∧
      new.map OrgKnowledge.stored = sections_stored o agent body idx sections ∧
      (∀ r ∈ new, of_document agent.tenant_id body.source_path r = true) ∧
      new.map (·.chunk_index) = List.range' idx sections.length := by
  induction sections generalizing idx acc with
  | nil => exact ⟨[], by simp [insert_sections], rfl, by simp, rfl⟩
  | cons s rest ih =>
    obtain ⟨db, created, deduped⟩ := acc
    unfold insert_sections
    simp only
    split
    all_goals
      obtain ⟨new, hrows, hstored, hof, hidx⟩ := ih (idx + 1) _
      refine ⟨knowledge_row o agent now body db.next_id idx s
        (existing_embedding (choice idx) agent.tenant_id (section_hash o s) db) :: new,
        ?_, ?_, ?_, ?_⟩
      · rw [hrows]
        simp
      · rw [List.map_cons, hstored]
        rfl
      · intro r hr
        rcases List.mem_cons.mp hr with rfl | hr
        · simp [of_document, knowledge_row]
        · exact hof r hr
      · rw [List.map_cons, hidx]
        rfl

/-- Rows inserted in the order of their indexes are the document, when nothing else is. -/
theorem document_of_inserted {o : Outside K} {agent : AgentIdentity}
    {body : KnowledgeIngestRequest} {sections : List Section} {db : Db K}
    {old new : List (OrgKnowledge K)} (hdb : db.org_knowledge = old ++ new)
    (hold : ∀ r ∈ old, of_document agent.tenant_id body.source_path r = false)
    (hstored : new.map OrgKnowledge.stored = sections_stored o agent body 0 sections)
    (hof : ∀ r ∈ new, of_document agent.tenant_id body.source_path r = true)
    (hidx : new.map (·.chunk_index) = List.range' 0 sections.length) :
    document agent.tenant_id body.source_path db = sections_stored o agent body 0 sections := by
  have hfilter : db.org_knowledge.filter (of_document agent.tenant_id body.source_path) = new := by
    rw [hdb, List.filter_append, List.filter_eq_self.mpr hof, List.filter_eq_nil_iff.mpr]
    · rfl
    · intro r hr
      rw [hold r hr]
      simp
  have hsorted : new.Pairwise fun a b => a.chunk_index ≤ b.chunk_index := by
    have hrange : (new.map (·.chunk_index)).Pairwise (· ≤ ·) := by
      rw [hidx]
      exact (List.pairwise_lt_range' 1).imp fun h => Nat.le_of_lt h
    exact List.pairwise_map.mp hrange
  unfold document select_document rows.order_asc
  rw [hfilter, hsorted.insertionSort_eq, hstored]

theorem select_document_of {tenant_id : UUID} {source_path : String} {db : Db K}
    {r : OrgKnowledge K} (h : r ∈ select_document tenant_id source_path db) :
    of_document tenant_id source_path r = true := by
  unfold select_document at h
  rw [rows.mem_order_asc, List.mem_filter] at h
  exact h.2

theorem select_document_deleted (tenant_id : UUID) (source_path : String) (db : Db K) :
    select_document tenant_id source_path (delete_document tenant_id source_path db) = [] := by
  have hnone : (delete_document tenant_id source_path db).org_knowledge.filter
      (of_document tenant_id source_path) = [] := by
    rw [List.filter_eq_nil_iff]
    intro r hr
    have hmem := rows.mem_delete.mp hr
    simp [hmem.2]
  unfold select_document
  rw [hnone]
  rfl

theorem old_of_select_nil {tenant_id : UUID} {source_path : String} {db : Db K}
    (h : select_document tenant_id source_path db = []) :
    ∀ r ∈ db.org_knowledge, of_document tenant_id source_path r = false := by
  intro r hr
  by_contra hof
  rw [Bool.not_eq_false] at hof
  have hmem : r ∈ select_document tenant_id source_path db := by
    unfold select_document
    rw [rows.mem_order_asc, List.mem_filter]
    exact ⟨hr, hof⟩
  rw [h] at hmem
  cases hmem

theorem assert_chief_frame {agent : AgentIdentity} {detail : String} {db db' : Db K}
    (h : db'.qortia_agents = db.qortia_agents) :
    assert_chief agent detail db' = assert_chief agent detail db := by
  unfold assert_chief assert_agent_active Db.role
  rw [h]

theorem delete_document_of_nil {tenant_id : UUID} {source_path : String} {db : Db K}
    (h : select_document tenant_id source_path db = []) :
    delete_document tenant_id source_path db = db := by
  have hkeep : rows.delete (of_document tenant_id source_path) db.org_knowledge =
      db.org_knowledge := by
    unfold rows.delete
    rw [List.filter_eq_self]
    intro r hr
    simp [old_of_select_nil h r hr]
  unfold delete_document
  rw [hkeep]

theorem ingest_path {o : Outside K} {agent : AgentIdentity} {now : Timestamp}
    {choice : Nat → Nat} {body : KnowledgeIngestRequest} {db : Db K}
    {result : Db K × IngestResponse}
    (h : ingest_knowledge o agent now choice body db = .ok result) :
    json.no_nul body.source_path = true := by
  unfold ingest_knowledge at h
  obtain ⟨u, -, h⟩ := bind_ok h
  obtain ⟨v, hpath, -⟩ := bind_ok h
  exact check_storable_ok.mp hpath

/-- The fast path leaves everything as it is. Elsewhere PostgreSQL takes the rows, the document goes
and its sections are inserted. -/
theorem ingest_cases {o : Outside K} {agent : AgentIdentity} {now : Timestamp}
    {choice : Nat → Nat} {body : KnowledgeIngestRequest} {db db' : Db K} {resp : IngestResponse}
    (h : ingest_knowledge o agent now choice body db = .ok (db', resp)) :
    assert_chief agent "Only chief agent can ingest knowledge" db = .ok () ∧
      (((select_document agent.tenant_id body.source_path db).map (·.content_hash) =
          (split_into_sections body.content).map (section_hash o) ∧ db' = db) ∨
        ((select_document agent.tenant_id body.source_path db).map (·.content_hash) ≠
          (split_into_sections body.content).map (section_hash o) ∧
        (∀ s ∈ split_into_sections body.content, body.storable s = true) ∧
        ∃ db₂, db₂ = (insert_sections o agent now choice body 0 (split_into_sections body.content)
            (delete_document agent.tenant_id body.source_path db, 0, 0)).1 ∧
          db' = { db₂ with
            memory_history :=
              db₂.memory_history ++ [knowledge_history agent .knowledge_ingest] })) := by
  unfold ingest_knowledge at h
  obtain ⟨u, hchief, h⟩ := bind_ok h
  refine ⟨hchief, ?_⟩
  obtain ⟨v, hpath, h⟩ := bind_ok h
  simp only at h
  split at h
  · rename_i heq
    cases h
    exact Or.inl ⟨heq, rfl⟩
  · rename_i hne
    obtain ⟨w, hstorable, h⟩ := bind_ok h
    refine Or.inr ⟨hne, List.all_eq_true.mp (check_storable_ok.mp hstorable), _, rfl, ?_⟩
    by_cases hnil : select_document agent.tenant_id body.source_path db = []
    · rw [hnil] at h
      rw [delete_document_of_nil hnil]
      cases h
      rfl
    · rw [if_pos hnil] at h
      cases h
      rfl

/-- Away from the fast path, an ingest stores its sections. -/
theorem ingest_stores_sections {o : Outside K} {agent : AgentIdentity} {now : Timestamp}
    {choice : Nat → Nat} {body : KnowledgeIngestRequest} {db db' : Db K} {resp : IngestResponse}
    (h : ingest_knowledge o agent now choice body db = .ok (db', resp))
    (hne : (select_document agent.tenant_id body.source_path db).map (·.content_hash) ≠
      (split_into_sections body.content).map (section_hash o)) :
    document agent.tenant_id body.source_path db' =
      sections_stored o agent body 0 (split_into_sections body.content) := by
  obtain ⟨-, ⟨heq, -⟩ | ⟨-, -, db₂, hdb₂, rfl⟩⟩ := ingest_cases h
  · exact absurd heq hne
  · obtain ⟨new, hrows, hstored, hof, hidx⟩ := insert_sections_rows o agent now choice body
      (split_into_sections body.content) 0
      (delete_document agent.tenant_id body.source_path db, 0, 0)
    rw [← hdb₂] at hrows
    exact document_of_inserted hrows
      (old_of_select_nil (select_document_deleted agent.tenant_id body.source_path db))
      hstored hof hidx

/-- A tenant without the document gets the sections of the request. -/
theorem fresh_ingest (o : Outside K) {agent : AgentIdentity} (now : Timestamp)
    (choice : Nat → Nat) {body : KnowledgeIngestRequest} {db : Db K}
    (hchief : assert_chief agent "Only chief agent can ingest knowledge" db = .ok ())
    (hpath : json.no_nul body.source_path = true)
    (hstorable : ∀ s ∈ split_into_sections body.content, body.storable s = true)
    (hnil : select_document agent.tenant_id body.source_path db = []) :
    ∃ db' resp, ingest_knowledge o agent now choice body db = .ok (db', resp) ∧
      document agent.tenant_id body.source_path db' =
        sections_stored o agent body 0 (split_into_sections body.content) := by
  have hpath' : check_storable (json.no_nul body.source_path) = .ok () :=
    check_storable_ok.mpr hpath
  have hrows : check_storable ((split_into_sections body.content).all body.storable) = .ok () :=
    check_storable_ok.mpr (List.all_eq_true.mpr hstorable)
  by_cases hsec : split_into_sections body.content = []
  · refine ⟨db, ⟨0, 0, body.source_path⟩, ?_, ?_⟩
    · unfold ingest_knowledge
      rw [hchief, hnil, hsec, hpath']
      rfl
    · unfold document
      rw [hnil, hsec]
      rfl
  · have hok : ∃ db' resp, ingest_knowledge o agent now choice body db = .ok (db', resp) := by
      unfold ingest_knowledge
      rw [hchief, hpath']
      simp only [hnil, List.map_nil, hrows, bind, Except.bind]
      rw [if_neg (by simpa using hsec)]
      exact ⟨_, _, rfl⟩
    obtain ⟨db', resp, h⟩ := hok
    refine ⟨db', resp, h, ingest_stores_sections h ?_⟩
    rw [hnil]
    simpa using hsec

/-- An ingest into a tenant without the document stores the sections of the request, all of which
PostgreSQL takes. -/
theorem fresh_ingest_ok {o : Outside K} {agent : AgentIdentity} {now : Timestamp}
    {choice : Nat → Nat} {body : KnowledgeIngestRequest} {db db' : Db K} {resp : IngestResponse}
    (h : ingest_knowledge o agent now choice body db = .ok (db', resp))
    (hnil : select_document agent.tenant_id body.source_path db = []) :
    (∀ s ∈ split_into_sections body.content, body.storable s = true) ∧
      document agent.tenant_id body.source_path db' =
        sections_stored o agent body 0 (split_into_sections body.content) := by
  obtain ⟨-, ⟨heq, rfl⟩ | ⟨hne, hstorable, -⟩⟩ := ingest_cases h
  · have hsec : split_into_sections body.content = [] := by
      rw [hnil] at heq
      exact List.map_eq_nil_iff.mp heq.symm
    rw [hsec]
    refine ⟨fun s hs => absurd hs List.not_mem_nil, ?_⟩
    unfold document
    rw [hnil]
    rfl
  · exact ⟨hstorable, ingest_stores_sections h hne⟩

/-! ## A document that is ingested again -/

theorem stored_eq_iff {o : Outside K} {agent : AgentIdentity} {body : KnowledgeIngestRequest}
    {idx : Nat} {s : Section} {r : OrgKnowledge K}
    (hof : of_document agent.tenant_id body.source_path r = true)
    (hhash : r.content_hash = section_hash o s) :
    r.stored = (knowledge_row o agent 0 body 0 idx s none).stored ↔ Carries o body idx s r := by
  unfold of_document at hof
  simp only [Bool.and_eq_true, decide_eq_true_eq] at hof
  unfold OrgKnowledge.stored knowledge_row
  rw [OrgKnowledge.mk.injEq]
  constructor
  · rintro ⟨-, -, h3, -, h5, h6, -, h8, h9, h10, -, -, -, h14, -, -, h17, h18, h19, -⟩
    refine ⟨h5, h6, ?_, h3, h14, h17, h18, h19⟩
    rw [h8, h9, h10]
  · rintro ⟨h1, h2, h3, h4, h5, h6, h7, h8⟩
    simp only at h1 h2 h3 h4 h5 h6 h7 h8 ⊢
    rw [← h3]
    exact ⟨trivial, hof.1, h4, hof.2, h1, h2, hhash, rfl, rfl, rfl, trivial, trivial, trivial, h5,
      trivial, trivial, h6, h7, h8, trivial⟩

/-- The stored rows are those of the sections exactly when each row carries what the request
says about its section. -/
theorem stored_sections_iff (o : Outside K) (agent : AgentIdentity)
    (body : KnowledgeIngestRequest) {sections : List Section} {stored : List (OrgKnowledge K)}
    (idx : Nat)
    (hof : ∀ r ∈ stored, of_document agent.tenant_id body.source_path r = true)
    (hhash : stored.map (·.content_hash) = sections.map (section_hash o)) :
    stored.map OrgKnowledge.stored = sections_stored o agent body idx sections ↔
      ∀ i s r, sections[i]? = some s → stored[i]? = some r → Carries o body (idx + i) s r := by
  induction sections generalizing idx stored with
  | nil =>
    rw [List.map_nil, List.map_eq_nil_iff] at hhash
    rw [hhash]
    simp [sections_stored]
  | cons s rest ih =>
    cases stored with
    | nil => cases hhash
    | cons r others =>
      rw [List.map_cons, List.map_cons, List.cons.injEq] at hhash
      have hothers : ∀ q ∈ others, of_document agent.tenant_id body.source_path q = true :=
        fun q hq => hof q (List.mem_cons_of_mem _ hq)
      unfold sections_stored
      rw [List.map_cons, List.cons.injEq, stored_eq_iff (hof r List.mem_cons_self) hhash.1,
        ih (idx + 1) hothers hhash.2]
      constructor
      · rintro ⟨hr, hrest⟩ i s' r' hs' hr'
        cases i with
        | zero =>
          cases hs'
          cases hr'
          exact hr
        | succ i =>
          have hcarries := hrest i s' r' hs' hr'
          rw [Nat.add_right_comm, Nat.add_assoc] at hcarries
          exact hcarries
      · intro hall
        refine ⟨hall 0 s r rfl rfl, fun i s' r' hs' hr' => ?_⟩
        have hcarries := hall (i + 1) s' r' hs' hr'
        rw [← Nat.add_assoc, Nat.add_right_comm] at hcarries
        exact hcarries

/-- What an ingest leaves is what the same ingest leaves in a tenant without the document,
exactly when the hashes of the sections differ from the stored ones, or PostgreSQL takes the rows
of the request and each stored row already carries all that it says: index, heading, language,
clearance, audience and the rest. -/
theorem an_ingest_stores_the_request_iff (o : Outside K) (agent : AgentIdentity)
    (now now' : Timestamp) (choice choice' : Nat → Nat) (body : KnowledgeIngestRequest)
    (db db' : Db K) (resp : IngestResponse)
    (h : ingest_knowledge o agent now choice body db = .ok (db', resp)) :
    (∃ fresh resp', ingest_knowledge o agent now' choice' body
        (delete_document agent.tenant_id body.source_path db) = .ok (fresh, resp') ∧
      document agent.tenant_id body.source_path db' =
        document agent.tenant_id body.source_path fresh) ↔
      ((select_document agent.tenant_id body.source_path db).map (·.content_hash) =
          (split_into_sections body.content).map (section_hash o) →
        (∀ s ∈ split_into_sections body.content, body.storable s = true) ∧
        ∀ idx s r, (split_into_sections body.content)[idx]? = some s →
          (select_document agent.tenant_id body.source_path db)[idx]? = some r →
            Carries o body idx s r) := by
  have hchief : assert_chief agent "Only chief agent can ingest knowledge"
      (delete_document agent.tenant_id body.source_path db) = .ok () :=
    (assert_chief_frame rfl).trans (ingest_cases h).1
  have hgone := select_document_deleted agent.tenant_id body.source_path db
  have hunchanged (hhash : (select_document agent.tenant_id body.source_path db).map
        (·.content_hash) = (split_into_sections body.content).map (section_hash o)) :
      db' = db ∧ (document agent.tenant_id body.source_path db =
          sections_stored o agent body 0 (split_into_sections body.content) ↔
        ∀ idx s r, (split_into_sections body.content)[idx]? = some s →
          (select_document agent.tenant_id body.source_path db)[idx]? = some r →
            Carries o body idx s r) := by
    obtain ⟨-, ⟨-, rfl⟩ | ⟨hne, -⟩⟩ := ingest_cases h
    · have hiff := stored_sections_iff o agent body 0 (fun r hr => select_document_of hr) hhash
      simp only [Nat.zero_add] at hiff
      exact ⟨rfl, hiff⟩
    · exact absurd hhash hne
  constructor
  · rintro ⟨fresh, resp', hok, hsame⟩ hhash
    obtain ⟨rfl, hiff⟩ := hunchanged hhash
    obtain ⟨hstorable, hfresh⟩ := fresh_ingest_ok hok hgone
    rw [hfresh] at hsame
    exact ⟨hstorable, hiff.mp hsame⟩
  · intro himp
    by_cases hhash : (select_document agent.tenant_id body.source_path db).map (·.content_hash) =
        (split_into_sections body.content).map (section_hash o)
    · obtain ⟨rfl, hiff⟩ := hunchanged hhash
      obtain ⟨hstorable, hcarries⟩ := himp hhash
      obtain ⟨fresh, resp', hok, hfresh⟩ :=
        fresh_ingest o now' choice' hchief (ingest_path h) hstorable hgone
      exact ⟨fresh, resp', hok, (hiff.mpr hcarries).trans hfresh.symm⟩
    · obtain ⟨-, ⟨heq, -⟩ | ⟨-, hstorable, -⟩⟩ := ingest_cases h
      · exact absurd heq hhash
      · obtain ⟨fresh, resp', hok, hfresh⟩ :=
          fresh_ingest o now' choice' hchief (ingest_path h) hstorable hgone
        exact ⟨fresh, resp', hok, (ingest_stores_sections h hhash).trans hfresh.symm⟩

/-- A text of 40 words, which is one section. -/
def runbook : String := " ".intercalate (List.replicate 40 "x")

/-- The runbook, ingested by agent 20 for all of tenant 1. -/
def runbook_row : OrgKnowledge ℚ :=
  { id := 1, tenant_id := 1, source_type := .note, source_path := "runbook.md", chunk_index := 0,
    content := runbook, content_hash := runbook, index_summary := runbook ++ ".",
    index_questions := [], index_entities := [], author_id := some 20, created_at := 0 }

def runbook_db : Db ℚ :=
  { qortia_agents := [{ id := 20, tenant_id := 1, role := "chief", updated_at := 0 }]
    org_knowledge := [runbook_row]
    next_id := 2 }

/-- The same text, for restricted readers only. -/
def restrict_runbook : KnowledgeIngestRequest :=
  { source_type := .note, source_path := "runbook.md", content := runbook,
    min_clearance := "restricted" }

/-- The row that the request stands for. -/
def restricted_row : OrgKnowledge ℚ := { runbook_row with id := 2, min_clearance := "restricted" }

theorem restrict_runbook_is_fast :
    ingest_knowledge no_models ⟨20, 1, 2, "all"⟩ 5 (fun _ => 0) restrict_runbook runbook_db =
      .ok (runbook_db, ⟨0, 1, "runbook.md"⟩) := by
  decide +kernel

theorem an_ingest_stores_the_request_iff_runbook :
    (∃ fresh resp', ingest_knowledge no_models ⟨20, 1, 2, "all"⟩ 0 (fun _ => 0) restrict_runbook
        (delete_document 1 "runbook.md" runbook_db) = .ok (fresh, resp') ∧
      document 1 "runbook.md" runbook_db = document 1 "runbook.md" fresh) ↔
      ((select_document 1 "runbook.md" runbook_db).map (·.content_hash) =
          (split_into_sections runbook).map (section_hash no_models) →
        (∀ s ∈ split_into_sections runbook, restrict_runbook.storable s = true) ∧
        ∀ idx s r, (split_into_sections runbook)[idx]? = some s →
          (select_document 1 "runbook.md" runbook_db)[idx]? = some r →
            Carries no_models restrict_runbook idx s r) :=
  an_ingest_stores_the_request_iff no_models ⟨20, 1, 2, "all"⟩ 5 0 (fun _ => 0) (fun _ => 0)
    restrict_runbook runbook_db runbook_db ⟨0, 1, "runbook.md"⟩ restrict_runbook_is_fast

/-- The runbook stays open to internal readers. -/
theorem a_restricted_runbook_stays_internal :
    ingest_knowledge no_models ⟨20, 1, 2, "all"⟩ 5 (fun _ => 0) restrict_runbook runbook_db =
        .ok (runbook_db, ⟨0, 1, "runbook.md"⟩) ∧
      ingest_knowledge no_models ⟨20, 1, 2, "all"⟩ 0 (fun _ => 0) restrict_runbook
          (delete_document 1 "runbook.md" runbook_db) =
        .ok ({ runbook_db with
          org_knowledge := [restricted_row]
          memory_history := [knowledge_history ⟨20, 1, 2, "all"⟩ .knowledge_ingest]
          next_id := 3 }, ⟨1, 0, "runbook.md"⟩) ∧
      document 1 "runbook.md" runbook_db = [runbook_row.stored] ∧
      runbook_row.stored ≠ restricted_row.stored := by
  refine ⟨restrict_runbook_is_fast, by decide +kernel, by decide +kernel, by decide +kernel⟩

end qortia
