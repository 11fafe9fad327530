-- What happens to the embeddings of a document that is ingested again. The sections look for an
-- embedding to copy after the rows of the document are gone, so that only the rows of other
-- documents can give one.
import Qortia.IngestRows
import Qortia.Lib.Copying

namespace qortia

open copying (copied AllHave)

variable {K : Type}

/-! ## What has to hold -/

/-- What a section is looked up by. -/
def section_key (r : OrgKnowledge K) : UUID × String := (r.tenant_id, r.content_hash)

/-- A row of the tenant has the hash. -/
def stored_before (tenant_id : UUID) (hash : String) (db : Db K) : Prop :=
  ∃ r ∈ db.org_knowledge, section_key r = (tenant_id, hash)

/-- A row of the tenant has the hash and an embedding. -/
def embedded_before (tenant_id : UUID) (hash : String) (db : Db K) : Prop :=
  ∃ r ∈ db.org_knowledge, section_key r = (tenant_id, hash) ∧ r.embedding.isSome = true

/-- The rows that a call stores are the ones whose ids it draws. -/
def rows_stored (db db' : Db K) : List (OrgKnowledge K) :=
  db'.org_knowledge.filter fun r => db.next_id ≤ r.id

/-- A section whose hash was the one of an embedded row is stored with the embedding of such a
row. -/
def KeepsEmbeddings (tenant_id : UUID) (db db' : Db K) : Prop :=
  ∀ r ∈ rows_stored db db', embedded_before tenant_id r.content_hash db →
    ∃ q ∈ db.org_knowledge, section_key q = (tenant_id, r.content_hash) ∧
      q.embedding.isSome = true ∧ r.embedding = q.embedding

/-- Only a section with a new hash is stored without an embedding. -/
def OnlyNewUnembedded (tenant_id : UUID) (db db' : Db K) : Prop :=
  ∀ r ∈ rows_stored db db', r.embedding = none → ¬ stored_before tenant_id r.content_hash db

/-- The sections that are stored without an embedding are counted as created, and the others as
deduped. -/
def CountsEmbeddings (sections : Nat) (db db' : Db K) (resp : IngestResponse) : Prop :=
  resp.sections_created = (rows_stored db db').countP (·.embedding.isNone) ∧
    resp.sections_created + resp.sections_deduped = sections

/-- The other documents of the tenant have rows of the hash, and all of them are embedded. -/
def embedded_elsewhere (agent : AgentIdentity) (body : KnowledgeIngestRequest) (hash : String)
    (db : Db K) : Prop :=
  AllHave section_key (·.embedding) (agent.tenant_id, hash) (other_documents agent body db)

/-! ## The rows of one hash -/

variable {o : Outside K} {agent : AgentIdentity} {now : Timestamp} {choice : Nat → Nat}
  {body : KnowledgeIngestRequest}

theorem existing_embedding_eq (choice : Nat) (tenant_id : UUID) (hash : String) (db : Db K) :
    existing_embedding choice tenant_id hash db =
      copied section_key (·.embedding) choice (tenant_id, hash) db.org_knowledge := by
  have hfilter : (db.org_knowledge.filter fun r =>
      decide (r.tenant_id = tenant_id) && decide (r.content_hash = hash)) =
      db.org_knowledge.filter fun r => decide (section_key r = (tenant_id, hash)) := by
    refine List.filter_congr fun r _ => ?_
    simp [section_key]
  unfold existing_embedding copied
  rw [hfilter]

@[simp] theorem section_row_key (idx : Nat) (id : UUID) (table : List (OrgKnowledge K))
    (s : Section) :
    section_key (section_row o agent now choice body idx id table s) =
      (agent.tenant_id, section_hash o s) := rfl

theorem section_row_copied (idx : Nat) (id : UUID) (table : List (OrgKnowledge K))
    (s : Section) :
    (section_row o agent now choice body idx id table s).embedding =
      copied section_key (·.embedding) (choice idx) (agent.tenant_id, section_hash o s) table := by
  rw [section_row_embedding, existing_embedding_eq]

/-- What holds of the embeddings of all rows of a hash, holds of the new ones. -/
theorem ingested_rows_copy {hash : String} {P : Option (List K) → Prop}
    {table : List (OrgKnowledge K)}
    (hsome : ∃ q ∈ table, section_key q = (agent.tenant_id, hash))
    (hall : ∀ q ∈ table, section_key q = (agent.tenant_id, hash) → P q.embedding)
    {sections : List Section} {idx : Nat} {id : UUID} {r : OrgKnowledge K}
    (hr : r ∈ ingested_rows o agent now choice body idx id table sections)
    (hhash : r.content_hash = hash) : P r.embedding := by
  induction sections generalizing idx id table with
  | nil => cases hr
  | cons s rest ih =>
    have hrow : section_hash o s = hash →
        P (section_row o agent now choice body idx id table s).embedding := by
      rintro rfl
      obtain ⟨q, hq, hkey, hcopied⟩ := copying.copied_of_row hsome
      rw [section_row_copied, hcopied]
      exact hall q hq hkey
    rcases List.mem_cons.mp hr with rfl | hr
    · exact hrow hhash
    · apply ih _ _ hr
      · obtain ⟨q, hq, hkey⟩ := hsome
        exact ⟨q, List.mem_append_left _ hq, hkey⟩
      · intro q hq hkey
        rcases List.mem_append.mp hq with hq | hq
        · exact hall q hq hkey
        · rw [List.mem_singleton] at hq
          rw [hq] at hkey ⊢
          exact hrow (Prod.ext_iff.mp hkey).2

/-- When all rows of a hash are embedded, so are the new ones, with embeddings of theirs. -/
theorem ingested_rows_embedded {hash : String} {table : List (OrgKnowledge K)}
    (hall : AllHave section_key (·.embedding) (agent.tenant_id, hash) table)
    {sections : List Section} {idx : Nat} {id : UUID} {r : OrgKnowledge K}
    (hr : r ∈ ingested_rows o agent now choice body idx id table sections)
    (hhash : r.content_hash = hash) :
    ∃ q ∈ table, section_key q = (agent.tenant_id, hash) ∧ q.embedding.isSome = true ∧
      r.embedding = q.embedding := by
  apply ingested_rows_copy (P := fun e => ∃ q ∈ table,
    section_key q = (agent.tenant_id, hash) ∧ q.embedding.isSome = true ∧ e = q.embedding)
    hall.1 _ hr hhash
  intro q hq hkey
  exact ⟨q, hq, hkey, hall.2 q hq hkey, rfl⟩

/-- The first section of a hash looks among the rows that were there before the loop. -/
theorem ingested_rows_first {hash : String} {table : List (OrgKnowledge K)}
    {sections : List Section} {idx : Nat} {id : UUID}
    (hhash : ∃ s ∈ sections, section_hash o s = hash) :
    ∃ r ∈ ingested_rows o agent now choice body idx id table sections, r.content_hash = hash ∧
      ∃ i, r.embedding =
        copied section_key (·.embedding) (choice i) (agent.tenant_id, hash) table := by
  induction sections generalizing idx id table with
  | nil =>
    obtain ⟨s, hs, -⟩ := hhash
    cases hs
  | cons s rest ih =>
    by_cases hs : section_hash o s = hash
    · refine ⟨_, List.mem_cons_self, hs, idx, ?_⟩
      rw [section_row_copied, hs]
    · have hrest : ∃ s' ∈ rest, section_hash o s' = hash := by
        obtain ⟨s', hs', hhash⟩ := hhash
        rcases List.mem_cons.mp hs' with rfl | hs'
        · exact absurd hhash hs
        · exact ⟨s', hs', hhash⟩
      obtain ⟨r, hr, hrhash, i, hcopied⟩ := ih hrest
      refine ⟨r, List.mem_cons_of_mem _ hr, hrhash, i, ?_⟩
      rw [hcopied, copying.copied_append_of_ne]
      intro q hq hkey
      rw [List.mem_singleton.mp hq] at hkey
      exact hs (Prod.ext_iff.mp hkey).2

/-- With the worst choice of rows, a hash that is not embedded elsewhere gets no embedding. -/
theorem exists_unembedded {hash : String} {db : Db K}
    (hhash : ∃ s ∈ split_into_sections body.content, section_hash o s = hash)
    (hnot : ¬ embedded_elsewhere agent body hash db) :
    ∃ choice, ∃ r ∈ new_rows_of o agent now choice body db, r.content_hash = hash ∧
      r.embedding = none := by
  have hchoice : ∃ c, copied section_key (·.embedding) c (agent.tenant_id, hash)
      (other_documents agent body db) = none := by
    by_contra hall
    apply hnot
    apply copying.always_copied_iff.mp
    intro c
    rw [Option.isSome_iff_ne_none]
    intro hc
    exact hall ⟨c, hc⟩
  obtain ⟨c, hc⟩ := hchoice
  obtain ⟨r, hr, hrhash, i, hcopied⟩ := ingested_rows_first (o := o) hhash
  exact ⟨fun _ => c, r, hr, hrhash, hcopied.trans hc⟩

theorem ingested_rows_hash {idx : Nat} {id : UUID} {table : List (OrgKnowledge K)}
    {sections : List Section} {r : OrgKnowledge K}
    (hr : r ∈ ingested_rows o agent now choice body idx id table sections) :
    ∃ s ∈ sections, section_hash o s = r.content_hash := by
  induction sections generalizing idx id table with
  | nil => cases hr
  | cons s rest ih =>
    rcases List.mem_cons.mp hr with rfl | hr
    · exact ⟨s, List.mem_cons_self, rfl⟩
    · obtain ⟨s', hs', hhash⟩ := ih hr
      exact ⟨s', List.mem_cons_of_mem _ hs', hhash⟩

/-! ## The rows that a call stores -/

theorem rows_stored_self {db : Db K} (hids : ∀ r ∈ db.org_knowledge, r.id < db.next_id) :
    rows_stored db db = [] := by
  unfold rows_stored
  rw [List.filter_eq_nil_iff]
  intro r hr
  simpa using hids r hr

theorem rows_stored_ingested {db : Db K} (hids : ∀ r ∈ db.org_knowledge, r.id < db.next_id) :
    rows_stored db (ingested_db o agent now choice body db) =
      new_rows_of o agent now choice body db := by
  have hold : (other_documents agent body db).filter (fun r => db.next_id ≤ r.id) = [] := by
    rw [List.filter_eq_nil_iff]
    intro r hr
    simpa using hids r (List.mem_of_mem_filter hr)
  have hnew : (new_rows_of o agent now choice body db).filter (fun r => db.next_id ≤ r.id) =
      new_rows_of o agent now choice body db := by
    rw [List.filter_eq_self]
    intro r hr
    exact decide_eq_true (ingested_rows_id_ge hr).2
  unfold rows_stored ingested_db
  rw [List.filter_append, hold, hnew, List.nil_append]

theorem ingest_counts {db db' : Db K} {resp : IngestResponse}
    (hids : ∀ r ∈ db.org_knowledge, r.id < db.next_id)
    (h : ingest_knowledge o agent now choice body db = .ok (db', resp)) :
    CountsEmbeddings (split_into_sections body.content).length db db' resp := by
  rw [ingest_eq (ingest_cases h).1 (ingest_path h)] at h
  by_cases hsame : unchanged_document o agent body db
  · rw [if_pos hsame] at h
    cases h
    unfold CountsEmbeddings
    rw [rows_stored_self hids]
    simp
  · rw [if_neg hsame] at h
    obtain ⟨u, -, hresult⟩ := map_ok h
    cases hresult
    unfold CountsEmbeddings
    rw [rows_stored_ingested hids]
    refine ⟨rfl, ?_⟩
    have hlength : (new_rows_of o agent now choice body db).length =
        (split_into_sections body.content).length :=
      length_ingested_rows 0 db.next_id (other_documents agent body db) _
    have hsplit := List.length_eq_countP_add_countP (fun r : OrgKnowledge K => r.embedding.isNone)
      (l := new_rows_of o agent now choice body db)
    have hsome : (new_rows_of o agent now choice body db).countP (fun r => r.embedding.isSome) =
        (new_rows_of o agent now choice body db).countP fun r => ¬ r.embedding.isNone = true := by
      refine List.countP_congr fun r _ => ?_
      cases r.embedding <;> simp
    rw [hsome, ← hsplit, hlength]

/-- The sections with a hash of `known` are embedded elsewhere, unless nothing is inserted. -/
def KnownElsewhere (o : Outside K) (agent : AgentIdentity) (body : KnowledgeIngestRequest)
    (db : Db K) (known : String → Prop) : Prop :=
  unchanged_document o agent body db ∨
    ∀ s ∈ split_into_sections body.content, known (section_hash o s) →
      embedded_elsewhere agent body (section_hash o s) db

/-- Then they are stored with an embedding of a row of the tenant. -/
theorem KnownElsewhere.copies {db db' : Db K} {resp : IngestResponse} {known : String → Prop}
    (hids : ∀ r ∈ db.org_knowledge, r.id < db.next_id)
    (hknown : KnownElsewhere o agent body db known)
    (h : ingest_knowledge o agent now choice body db = .ok (db', resp)) :
    ∀ r ∈ rows_stored db db', known r.content_hash →
      ∃ q ∈ db.org_knowledge, section_key q = (agent.tenant_id, r.content_hash) ∧
        q.embedding.isSome = true ∧ r.embedding = q.embedding := by
  rw [ingest_eq (ingest_cases h).1 (ingest_path h)] at h
  intro r hr hrknown
  by_cases hsame : unchanged_document o agent body db
  · rw [if_pos hsame] at h
    cases h
    rw [rows_stored_self hids] at hr
    cases hr
  · rw [if_neg hsame] at h
    obtain ⟨u, -, hresult⟩ := map_ok h
    cases hresult
    rw [rows_stored_ingested hids] at hr
    obtain ⟨s, hs, hhash⟩ := ingested_rows_hash hr
    have helsewhere := hknown.resolve_left hsame s hs (by rw [hhash]; exact hrknown)
    rw [hhash] at helsewhere
    obtain ⟨q, hq, hcopy⟩ := ingested_rows_embedded helsewhere hr rfl
    exact ⟨q, List.mem_of_mem_filter hq, hcopy⟩

/-- Otherwise some choice of rows leaves one of them without an embedding. -/
theorem known_elsewhere_of_always {db : Db K} {known : String → Prop}
    (hids : ∀ r ∈ db.org_knowledge, r.id < db.next_id)
    (hcommits : ∃ choice db' resp, ingest_knowledge o agent now choice body db = .ok (db', resp))
    (h : ∀ choice db' resp, ingest_knowledge o agent now choice body db = .ok (db', resp) →
      ∀ r ∈ rows_stored db db', known r.content_hash → r.embedding ≠ none) :
    KnownElsewhere o agent body db known := by
  by_cases hsame : unchanged_document o agent body db
  · exact .inl hsame
  · refine .inr fun s hs hknown => ?_
    by_contra hnot
    obtain ⟨choice, r, hr, hhash, hnone⟩ :=
      @exists_unembedded K o agent now body _ db ⟨s, hs, rfl⟩ hnot
    obtain ⟨choice', db', resp, hcommit⟩ := hcommits
    obtain ⟨hchief, ⟨heq, -⟩ | ⟨-, hstorable, -⟩⟩ := ingest_cases hcommit
    · exact hsame heq
    have hok := @ingest_inserts K o agent now choice body db hchief (ingest_path hcommit) hstorable
      hsame
    refine h choice _ _ hok r ?_ (by rw [hhash]; exact hknown) hnone
    rw [rows_stored_ingested hids]
    exact hr

/-- The ingest keeps the embeddings of the sections whose hash was the one of an embedded row,
whichever rows `LIMIT 1` gives, if and only if other documents have rows of each such hash and all
of them are embedded, or nothing is inserted. It also leaves no section without an embedding but
those of a hash that was not there, if and only if this holds for every hash that was there. -/
theorem ingest_keeps_embeddings_iff (o : Outside K) (agent : AgentIdentity) (now : Timestamp)
    (body : KnowledgeIngestRequest) (db : Db K)
    (hids : ∀ r ∈ db.org_knowledge, r.id < db.next_id)
    (hcommits : ∃ choice db' resp,
      ingest_knowledge o agent now choice body db = .ok (db', resp)) :
    ((∀ choice db' resp, ingest_knowledge o agent now choice body db = .ok (db', resp) →
        KeepsEmbeddings agent.tenant_id db db' ∧
        CountsEmbeddings (split_into_sections body.content).length db db' resp) ↔
      KnownElsewhere o agent body db fun hash => embedded_before agent.tenant_id hash db) ∧
    ((∀ choice db' resp, ingest_knowledge o agent now choice body db = .ok (db', resp) →
        KeepsEmbeddings agent.tenant_id db db' ∧ OnlyNewUnembedded agent.tenant_id db db' ∧
        CountsEmbeddings (split_into_sections body.content).length db db' resp) ↔
      KnownElsewhere o agent body db fun hash => stored_before agent.tenant_id hash db) := by
  constructor
  · constructor
    · intro h
      apply known_elsewhere_of_always hids hcommits
      intro choice db' resp hok r hr hknown
      obtain ⟨q, -, -, hsome, hcopy⟩ := (h choice db' resp hok).1 r hr hknown
      rw [hcopy]
      exact Option.isSome_iff_ne_none.mp hsome
    · intro h choice db' resp hok
      exact ⟨h.copies hids hok, ingest_counts hids hok⟩
  · constructor
    · intro h
      apply known_elsewhere_of_always hids hcommits
      intro choice db' resp hok r hr hknown hnone
      exact (h choice db' resp hok).2.1 r hr hnone hknown
    · intro h choice db' resp hok
      refine ⟨?_, ?_, ingest_counts hids hok⟩
      · rintro r hr ⟨q, hq, hkey, -⟩
        exact h.copies hids hok r hr ⟨q, hq, hkey⟩
      · intro r hr hnone hknown
        obtain ⟨q, -, -, hsome, hcopy⟩ := h.copies hids hok r hr hknown
        rw [← hcopy, hnone] at hsome
        cases hsome

def rollback : String := " ".intercalate (List.replicate 40 "y")

/-- The runbook with a second section. -/
def longer_runbook : KnowledgeIngestRequest :=
  { source_type := .note, source_path := "runbook.md"
    content := runbook ++ "\n\n## rollback\n\n" ++ rollback }

theorem longer_runbook_sections :
    split_into_sections longer_runbook.content =
      [⟨"Introduction", runbook⟩, ⟨"rollback", rollback⟩] := by
  decide +kernel

/-- The runbook is stored and has its embedding. -/
def embedded_runbook_db : Db ℚ :=
  { runbook_db with org_knowledge := [{ runbook_row with embedding := some [1] }] }

def runbook_chief : AgentIdentity := ⟨20, 1, 2, "all"⟩

theorem longer_runbook_changed :
    ¬ unchanged_document no_models runbook_chief longer_runbook embedded_runbook_db := by
  unfold unchanged_document
  rw [longer_runbook_sections]
  decide

theorem longer_runbook_storable :
    ∀ s ∈ split_into_sections longer_runbook.content, longer_runbook.storable s = true := by
  rw [longer_runbook_sections]
  decide +kernel

theorem longer_runbook_commits :
    ∃ choice db' resp, ingest_knowledge no_models runbook_chief 5 choice longer_runbook
      embedded_runbook_db = .ok (db', resp) :=
  ⟨fun _ => 0, _, _, ingest_inserts rfl rfl longer_runbook_storable longer_runbook_changed⟩

theorem ingest_keeps_embeddings_iff_runbook :
    ((∀ choice db' resp, ingest_knowledge no_models runbook_chief 5 choice longer_runbook
          embedded_runbook_db = .ok (db', resp) →
        KeepsEmbeddings 1 embedded_runbook_db db' ∧
        CountsEmbeddings (split_into_sections longer_runbook.content).length embedded_runbook_db db'
          resp) ↔
      KnownElsewhere no_models runbook_chief longer_runbook embedded_runbook_db
        fun hash => embedded_before 1 hash embedded_runbook_db) ∧
    ((∀ choice db' resp, ingest_knowledge no_models runbook_chief 5 choice longer_runbook
          embedded_runbook_db = .ok (db', resp) →
        KeepsEmbeddings 1 embedded_runbook_db db' ∧ OnlyNewUnembedded 1 embedded_runbook_db db' ∧
        CountsEmbeddings (split_into_sections longer_runbook.content).length embedded_runbook_db db'
          resp) ↔
      KnownElsewhere no_models runbook_chief longer_runbook embedded_runbook_db
        fun hash => stored_before 1 hash embedded_runbook_db) :=
  ingest_keeps_embeddings_iff no_models runbook_chief 5 longer_runbook embedded_runbook_db
    (by decide) longer_runbook_commits

/-- The first section is as it was, and it is stored without the embedding that it had and counted
as created. -/
theorem an_unchanged_section_loses_its_embedding :
    ∃ db' resp, ingest_knowledge no_models runbook_chief 5 (fun _ => 0) longer_runbook
        embedded_runbook_db = .ok (db', resp) ∧
      resp = ⟨2, 0, "runbook.md"⟩ ∧ ¬ KeepsEmbeddings 1 embedded_runbook_db db' := by
  have hnew : (new_rows_of no_models runbook_chief 5 (fun _ => 0) longer_runbook
      embedded_runbook_db).map (fun r => (r.content_hash, r.embedding)) =
      [(runbook, none), (rollback, none)] := by
    unfold new_rows_of
    rw [longer_runbook_sections]
    rfl
  have hcreated := congrArg (List.countP fun p => p.2.isNone) hnew
  have hdeduped := congrArg (List.countP fun p => p.2.isSome) hnew
  rw [List.countP_map] at hcreated hdeduped
  refine ⟨_, _, ingest_inserts rfl rfl longer_runbook_storable longer_runbook_changed, ?_,
    fun hkeeps => ?_⟩
  · exact congrArg₂ (fun created deduped => IngestResponse.mk created deduped "runbook.md")
      hcreated hdeduped
  · have hlost : (runbook, none) ∈ (new_rows_of no_models runbook_chief 5 (fun _ => 0)
        longer_runbook embedded_runbook_db).map fun r => (r.content_hash, r.embedding) := by
      rw [hnew]
      exact List.mem_cons_self
    obtain ⟨r, hr, hkey⟩ := List.mem_map.mp hlost
    obtain ⟨hhash, hnone⟩ := Prod.ext_iff.mp hkey
    simp only at hhash hnone
    have hstored : r ∈ rows_stored embedded_runbook_db (ingested_db no_models runbook_chief 5
        (fun _ => 0) longer_runbook embedded_runbook_db) := by
      rw [rows_stored_ingested (by decide)]
      exact hr
    obtain ⟨q, -, -, hsome, hcopy⟩ := hkeeps r hstored
      ⟨_, List.mem_singleton.mpr rfl, by rw [hhash]; rfl, rfl⟩
    rw [← hcopy, hnone] at hsome
    cases hsome

end qortia
