-- The rows that an ingest inserts, one for each section. Each section looks for an embedding among
-- the rows that are there when its turn comes, the ones of the sections before it included.
import Qortia.Knowledge

namespace qortia

variable {K : Type}

/-- `table` has the rows of the organisation's knowledge when the turn of a section comes. -/
def section_row (o : Outside K) (agent : AgentIdentity) (now : Timestamp) (choice : Nat → Nat)
    (body : KnowledgeIngestRequest) (idx : Nat) (id : UUID) (table : List (OrgKnowledge K))
    (s : Section) : OrgKnowledge K :=
  knowledge_row o agent now body id idx s
    (existing_embedding (choice idx) agent.tenant_id (section_hash o s) { org_knowledge := table })

/-- The rows that the loop over the sections inserts. -/
def ingested_rows (o : Outside K) (agent : AgentIdentity) (now : Timestamp) (choice : Nat → Nat)
    (body : KnowledgeIngestRequest) :
    (idx : Nat) → (id : UUID) → (table : List (OrgKnowledge K)) → List Section →
      List (OrgKnowledge K)
  | _, _, _, [] => []
  | idx, id, table, s :: rest =>
    let row := section_row o agent now choice body idx id table s
    row :: ingested_rows o agent now choice body (idx + 1) (id + 1) (table ++ [row]) rest

variable {o : Outside K} {agent : AgentIdentity} {now : Timestamp} {choice : Nat → Nat}
  {body : KnowledgeIngestRequest}

@[simp] theorem section_row_id (idx : Nat) (id : UUID) (table : List (OrgKnowledge K))
    (s : Section) : (section_row o agent now choice body idx id table s).id = id := rfl

@[simp] theorem section_row_content_hash (idx : Nat) (id : UUID) (table : List (OrgKnowledge K))
    (s : Section) :
    (section_row o agent now choice body idx id table s).content_hash = section_hash o s := rfl

@[simp] theorem section_row_embedding (idx : Nat) (id : UUID) (table : List (OrgKnowledge K))
    (s : Section) :
    (section_row o agent now choice body idx id table s).embedding =
      existing_embedding (choice idx) agent.tenant_id (section_hash o s)
        { org_knowledge := table } := rfl

@[simp] theorem length_ingested_rows (idx : Nat) (id : UUID) (table : List (OrgKnowledge K))
    (sections : List Section) :
    (ingested_rows o agent now choice body idx id table sections).length = sections.length := by
  induction sections generalizing idx id table with
  | nil => rfl
  | cons s rest ih => simp [ingested_rows, ih]

/-- What every row of the ingest carries. -/
structure Ingested (agent : AgentIdentity) (body : KnowledgeIngestRequest) (r : OrgKnowledge K) :
    Prop where
  tenant_id : r.tenant_id = agent.tenant_id
  min_clearance : r.min_clearance = body.min_clearance
  audience : r.audience = body.audience

theorem section_row_ingested (idx : Nat) (id : UUID) (table : List (OrgKnowledge K))
    (s : Section) : Ingested agent body (section_row o agent now choice body idx id table s) :=
  ⟨rfl, rfl, rfl⟩

/-- The ids are drawn one after the other. -/
theorem ingested_rows_id_ge {idx : Nat} {id : UUID} {table : List (OrgKnowledge K)}
    {sections : List Section} {r : OrgKnowledge K}
    (h : r ∈ ingested_rows o agent now choice body idx id table sections) :
    Ingested agent body r ∧ id ≤ r.id := by
  induction sections generalizing idx id table with
  | nil => cases h
  | cons s rest ih =>
    rcases List.mem_cons.mp h with rfl | h
    · exact ⟨section_row_ingested idx id table s, le_refl id⟩
    · obtain ⟨hcarries, hid⟩ := ih h
      exact ⟨hcarries, Nat.le_of_succ_le hid⟩

/-- The loop appends these rows and counts those without and with an embedding. -/
theorem insert_sections_eq (sections : List Section) (idx : Nat) (db : Db K)
    (created deduped : Nat) :
    insert_sections o agent now choice body idx sections (db, created, deduped) =
      ({ db with
          org_knowledge := db.org_knowledge ++
            ingested_rows o agent now choice body idx db.next_id db.org_knowledge sections
          next_id := db.next_id + sections.length },
        created + (ingested_rows o agent now choice body idx db.next_id db.org_knowledge
          sections).countP (·.embedding.isNone),
        deduped + (ingested_rows o agent now choice body idx db.next_id db.org_knowledge
          sections).countP (·.embedding.isSome)) := by
  induction sections generalizing idx db created deduped with
  | nil => simp [insert_sections, ingested_rows]
  | cons s rest ih =>
    have hlookup : existing_embedding (choice idx) agent.tenant_id (section_hash o s) db =
        existing_embedding (choice idx) agent.tenant_id (section_hash o s)
          { org_knowledge := db.org_knowledge } := rfl
    unfold insert_sections ingested_rows
    simp only [List.countP_cons, section_row_embedding, ← hlookup]
    cases hembedding : existing_embedding (choice idx) agent.tenant_id (section_hash o s) db with
    | none =>
      simp [ih, section_row, ← hlookup, hembedding]
      exact ⟨Nat.add_right_comm _ _ _, Nat.add_right_comm _ _ _⟩
    | some v =>
      simp [ih, section_row, ← hlookup, hembedding]
      exact ⟨Nat.add_right_comm _ _ _, Nat.add_right_comm _ _ _⟩

/-! ## The whole ingest -/

/-- The rows of the document and the sections have the same hashes in the same order. -/
def unchanged_document (o : Outside K) (agent : AgentIdentity) (body : KnowledgeIngestRequest)
    (db : Db K) : Prop :=
  (select_document agent.tenant_id body.source_path db).map (·.content_hash) =
    (split_into_sections body.content).map (section_hash o)

/-- The rows of the other documents and the other tenants. -/
def other_documents (agent : AgentIdentity) (body : KnowledgeIngestRequest) (db : Db K) :
    List (OrgKnowledge K) :=
  (delete_document agent.tenant_id body.source_path db).org_knowledge

/-- The rows that an ingest inserts where it does insert. -/
def new_rows_of (o : Outside K) (agent : AgentIdentity) (now : Timestamp) (choice : Nat → Nat)
    (body : KnowledgeIngestRequest) (db : Db K) : List (OrgKnowledge K) :=
  ingested_rows o agent now choice body 0 db.next_id (other_documents agent body db)
    (split_into_sections body.content)

/-- The tables after an ingest that inserts. -/
def ingested_db (o : Outside K) (agent : AgentIdentity) (now : Timestamp) (choice : Nat → Nat)
    (body : KnowledgeIngestRequest) (db : Db K) : Db K :=
  { db with
    org_knowledge := other_documents agent body db ++ new_rows_of o agent now choice body db
    memory_history := db.memory_history ++ [knowledge_history agent .knowledge_ingest]
    next_id := db.next_id + (split_into_sections body.content).length }

instance (db : Db K) : Decidable (unchanged_document o agent body db) :=
  inferInstanceAs (Decidable (_ = _))

/-- What the chief's ingest does to the tables, and how it counts the sections. -/
theorem ingest_eq {db : Db K}
    (hchief : assert_chief agent "Only chief agent can ingest knowledge" db = .ok ())
    (hpath : json.no_nul body.source_path = true) :
    ingest_knowledge o agent now choice body db =
      if unchanged_document o agent body db then
        .ok (db, ⟨0, (split_into_sections body.content).length, body.source_path⟩)
      else (check_storable ((split_into_sections body.content).all body.storable)).map fun _ =>
        (ingested_db o agent now choice body db,
          ⟨(new_rows_of o agent now choice body db).countP (·.embedding.isNone),
            (new_rows_of o agent now choice body db).countP (·.embedding.isSome),
            body.source_path⟩) := by
  have hdelete : (if select_document agent.tenant_id body.source_path db ≠ [] then
      delete_document agent.tenant_id body.source_path db else db) =
      delete_document agent.tenant_id body.source_path db := by
    by_cases hnil : select_document agent.tenant_id body.source_path db = []
    · rw [if_neg (not_not.mpr hnil), delete_document_of_nil hnil]
    · rw [if_pos hnil]
  have hpath' : check_storable (json.no_nul body.source_path) = .ok () :=
    check_storable_ok.mpr hpath
  unfold ingest_knowledge
  rw [hchief, hpath']
  simp only [bind, Except.bind]
  by_cases hsame : unchanged_document o agent body db
  · rw [if_pos hsame]
    unfold unchanged_document at hsame
    rw [if_pos hsame]
    rfl
  · rw [if_neg hsame]
    unfold unchanged_document at hsame
    rw [if_neg hsame, hdelete, insert_sections_eq]
    simp only [Nat.zero_add]
    cases check_storable ((split_into_sections body.content).all body.storable) <;> rfl

/-- Where something changed and PostgreSQL takes the rows, they are inserted. -/
theorem ingest_inserts {db : Db K}
    (hchief : assert_chief agent "Only chief agent can ingest knowledge" db = .ok ())
    (hpath : json.no_nul body.source_path = true)
    (hstorable : ∀ s ∈ split_into_sections body.content, body.storable s = true)
    (hchanged : ¬ unchanged_document o agent body db) :
    ingest_knowledge o agent now choice body db = .ok (ingested_db o agent now choice body db,
      ⟨(new_rows_of o agent now choice body db).countP (·.embedding.isNone),
        (new_rows_of o agent now choice body db).countP (·.embedding.isSome),
        body.source_path⟩) := by
  have hcheck : check_storable ((split_into_sections body.content).all body.storable) = .ok () :=
    check_storable_ok.mpr (List.all_eq_true.mpr hstorable)
  rw [ingest_eq hchief hpath, if_neg hchanged, hcheck]
  rfl

/-- An ingest is the chief's, and it leaves the tables or inserts its rows. -/
theorem ingest_committed {db db' : Db K} {resp : IngestResponse}
    (h : ingest_knowledge o agent now choice body db = .ok (db', resp)) :
    assert_chief agent "Only chief agent can ingest knowledge" db = .ok () ∧
      (db' = db ∨ db' = ingested_db o agent now choice body db) := by
  obtain ⟨hchief, -⟩ := ingest_cases h
  refine ⟨hchief, ?_⟩
  rw [ingest_eq hchief (ingest_path h)] at h
  split at h
  · cases h
    exact Or.inl rfl
  · obtain ⟨u, -, hresult⟩ := map_ok h
    cases hresult
    exact Or.inr rfl

end qortia
