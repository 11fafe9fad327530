-- Who may read what an organisation write stores. The writers take any clearance label and any
-- audience, and the searches read both through a subquery and an array test that hide the row
-- when they find nothing.
import Qortia.IngestRows
import Qortia.Recall
import Qortia.Remember

namespace qortia

variable {K : Type}

/-! ## What has to hold -/

/-- An agent of some clearance order of the table, in any division. -/
def Db.has_order (db : Db K) (agent : AgentIdentity) : Prop :=
  ∃ l ∈ db.qortia_clearance_levels, l.level_order = agent.clearance_order

/-- Some agent of the tenant sees the organisation memory. -/
def OrgMemory.readable (db : Db K) (r : OrgMemory K) : Prop :=
  ∃ reader, db.has_order reader ∧ org_visible db reader r = true

/-- Some agent of the tenant sees the knowledge row. -/
def OrgKnowledge.readable (db : Db K) (r : OrgKnowledge K) : Prop :=
  ∃ reader, db.has_order reader ∧ knowledge_visible db reader r = true

/-- The clearance is a level of the table, and the audience names someone. -/
def Db.knows_labels (db : Db K) (min_clearance : String) (audience : List String) : Prop :=
  (db.level_order min_clearance).isSome = true ∧ audience ≠ []

/-! ## The labels of a row -/

/-- Somebody passes the conditions on a row if and only if its labels are known. -/
theorem labels_reach_someone_iff (db : Db K) (tenant_id : UUID) (min_clearance : String)
    (audience : List String) :
    (∃ reader : AgentIdentity, db.has_order reader ∧ (tenant_id = reader.tenant_id &&
        clearance_reaches db.level_order reader.clearance_order min_clearance &&
        audience_holds audience reader.division) = true) ↔
      db.knows_labels min_clearance audience := by
  unfold Db.knows_labels
  constructor
  · rintro ⟨reader, -, h⟩
    simp only [Bool.and_eq_true] at h
    obtain ⟨⟨-, hclearance⟩, haudience⟩ := h
    constructor
    · unfold clearance_reaches at hclearance
      split at hclearance
      · rename_i order horder
        rw [horder]
        rfl
      · cases hclearance
    · rintro rfl
      cases haudience
  · rintro ⟨hlevel, haudience⟩
    obtain ⟨order, horder⟩ := Option.isSome_iff_exists.mp hlevel
    obtain ⟨level, hfind, rfl⟩ := Option.map_eq_some_iff.mp horder
    obtain ⟨division, hdivision⟩ := List.exists_mem_of_ne_nil audience haudience
    refine ⟨⟨0, tenant_id, level.level_order, division⟩,
      ⟨level, List.mem_of_find?_eq_some hfind, rfl⟩, ?_⟩
    simp [clearance_reaches, horder, audience_holds, hdivision]

theorem OrgMemory.readable_iff (db : Db K) (r : OrgMemory K) :
    r.readable db ↔ db.knows_labels r.min_clearance r.audience :=
  labels_reach_someone_iff db r.tenant_id r.min_clearance r.audience

theorem OrgKnowledge.readable_iff (db : Db K) (r : OrgKnowledge K) :
    r.readable db ↔ db.knows_labels r.min_clearance r.audience :=
  labels_reach_someone_iff db r.tenant_id r.min_clearance r.audience

/-! ## The writers -/

variable {o : Outside K} {agent : AgentIdentity} {now : Timestamp} {db db' : Db K}

/-- The row that the request stores has the labels of the request. -/
theorem remember_org_stored {body : RememberOrgRequest} {row_id : UUID} (hkeyed : db.Keyed)
    (h : remember_org o agent now body db = .ok (db', row_id)) :
    (∃ r ∈ db'.org_memory, r.id = row_id) ∧
      ∀ r ∈ db'.org_memory, r.id = row_id →
        r.min_clearance = body.min_clearance ∧ r.audience = body.audience := by
  obtain ⟨-, -, hid, rfl⟩ := remember_org_eq h
  cases hfind : db.org_memory.find? (org_conflict agent body) with
  | some q =>
    have hq := List.mem_of_find?_eq_some hfind
    have hconflict := List.find?_some hfind
    simp only [hfind, Option.map_some, Option.getD_some] at hid
    simp only [rows.upsert_some hfind]
    constructor
    · exact ⟨org_excluded o agent now body q, rows.mem_update.mpr ⟨q, hq, .inl ⟨hconflict, rfl⟩⟩,
        hid.symm⟩
    · intro r hr hrid
      obtain ⟨q', hq', ⟨-, rfl⟩ | ⟨hnot, rfl⟩⟩ := rows.mem_update.mp hr
      · exact ⟨rfl, rfl⟩
      · have hsame : r = q :=
          List.inj_on_of_nodup_map hkeyed.org_nodup hq' hq (hrid.trans hid)
        rw [hsame, hconflict] at hnot
        cases hnot
  | none =>
    simp only [hfind, Option.map_none, Option.getD_none] at hid
    simp only [rows.upsert_none hfind]
    constructor
    · exact ⟨_, List.mem_append_right _ List.mem_cons_self, hid.symm⟩
    · intro r hr hrid
      rcases List.mem_append.mp hr with hr | hr
      · have hlt := hkeyed.org_lt r hr
        rw [hrid, hid] at hlt
        exact absurd hlt (lt_irrefl _)
      · rw [List.mem_singleton.mp hr]
        exact ⟨rfl, rfl⟩

/-- The rows that the request stores have its labels, and there are some unless nothing is
inserted. -/
theorem ingest_stored {choice : Nat → Nat} {body : KnowledgeIngestRequest} {resp : IngestResponse}
    (hids : ∀ r ∈ db.org_knowledge, r.id < db.next_id)
    (h : ingest_knowledge o agent now choice body db = .ok (db', resp)) :
    db'.qortia_clearance_levels = db.qortia_clearance_levels ∧
      (∀ r ∈ db'.org_knowledge, db.next_id ≤ r.id →
        r.min_clearance = body.min_clearance ∧ r.audience = body.audience) ∧
      ((∃ r ∈ db'.org_knowledge, db.next_id ≤ r.id) ↔
        ¬ (unchanged_document o agent body db ∨ split_into_sections body.content = [])) := by
  have hold : ∀ r ∈ db.org_knowledge, ¬ db.next_id ≤ r.id := by
    intro r hr
    exact Nat.not_le.mpr (hids r hr)
  rw [ingest_eq (ingest_cases h).1 (ingest_path h)] at h
  by_cases hsame : unchanged_document o agent body db
  · rw [if_pos hsame] at h
    cases h
    refine ⟨rfl, fun r hr hid => absurd hid (hold r hr), ?_⟩
    refine iff_of_false ?_ (not_not.mpr (.inl hsame))
    rintro ⟨r, hr, hid⟩
    exact hold r hr hid
  · rw [if_neg hsame] at h
    obtain ⟨u, -, hresult⟩ := map_ok h
    cases hresult
    have hkept : ∀ r ∈ other_documents agent body db, ¬ db.next_id ≤ r.id := by
      intro r hr
      exact hold r (List.mem_of_mem_filter hr)
    refine ⟨rfl, ?_, ?_⟩
    · intro r hr hid
      rcases List.mem_append.mp hr with hr | hr
      · exact absurd hid (hkept r hr)
      · obtain ⟨hcarries, -⟩ := ingested_rows_id_ge hr
        exact ⟨hcarries.min_clearance, hcarries.audience⟩
    · have hlength : (new_rows_of o agent now choice body db).length =
          (split_into_sections body.content).length :=
        length_ingested_rows 0 db.next_id (other_documents agent body db) _
      rw [or_iff_right hsame, ← ne_eq, ← List.length_pos_iff, ← hlength]
      constructor
      · rintro ⟨r, hr, hid⟩
        rcases List.mem_append.mp hr with hr | hr
        · exact absurd hid (hkept r hr)
        · exact List.length_pos_of_mem hr
      · intro hpos
        obtain ⟨r, hr⟩ := List.exists_mem_of_length_pos hpos
        exact ⟨r, List.mem_append_right _ hr, (ingested_rows_id_ge hr).2⟩

/-- The row of a committed `remember_org` is readable by someone if and only if the clearance of
the request is a level of the table and its audience is not empty. So are the rows of a committed
`ingest_knowledge`, unless it inserts none. -/
theorem stored_rows_are_readable_iff (o : Outside K) (agent : AgentIdentity) (now : Timestamp) :
    (∀ (body : RememberOrgRequest) (db db' : Db K) (row_id : UUID), db.Keyed →
      remember_org o agent now body db = .ok (db', row_id) →
      ((∀ r ∈ db'.org_memory, r.id = row_id → r.readable db') ↔
        db.knows_labels body.min_clearance body.audience)) ∧
    ∀ (choice : Nat → Nat) (body : KnowledgeIngestRequest) (db db' : Db K) (resp : IngestResponse),
      (∀ r ∈ db.org_knowledge, r.id < db.next_id) →
      ingest_knowledge o agent now choice body db = .ok (db', resp) →
      ((∀ r ∈ db'.org_knowledge, db.next_id ≤ r.id → r.readable db') ↔
        db.knows_labels body.min_clearance body.audience ∨
          unchanged_document o agent body db ∨ split_into_sections body.content = []) := by
  constructor
  · intro body db db' row_id hkeyed h
    obtain ⟨⟨r, hr, hid⟩, hlabels⟩ := remember_org_stored hkeyed h
    have hlevels : db'.level_order = db.level_order := by
      obtain ⟨-, -, -, rfl⟩ := remember_org_eq h
      rfl
    simp only [OrgMemory.readable_iff, Db.knows_labels, hlevels]
    constructor
    · intro hreadable
      have hknown := hreadable r hr hid
      rw [(hlabels r hr hid).1, (hlabels r hr hid).2] at hknown
      exact hknown
    · intro hknown q hq hqid
      rw [(hlabels q hq hqid).1, (hlabels q hq hqid).2]
      exact hknown
  · intro choice body db db' resp hids h
    obtain ⟨hlevels, hlabels, hsome⟩ := ingest_stored hids h
    have horder : db'.level_order = db.level_order := by
      unfold Db.level_order
      rw [hlevels]
    simp only [OrgKnowledge.readable_iff, Db.knows_labels, horder]
    by_cases hnone : unchanged_document o agent body db ∨ split_into_sections body.content = []
    · refine iff_of_true (fun r hr hid => ?_) (.inr hnone)
      exact absurd hnone (hsome.mp ⟨r, hr, hid⟩)
    · obtain ⟨r, hr, hid⟩ := hsome.mpr hnone
      rw [or_iff_left hnone]
      constructor
      · intro hreadable
        have hknown := hreadable r hr hid
        rw [(hlabels r hr hid).1, (hlabels r hr hid).2] at hknown
        exact hknown
      · intro hknown q hq hqid
        rw [(hlabels q hq hqid).1, (hlabels q hq hqid).2]
        exact hknown

/-- A process for a clearance that is written with a capital letter. -/
def capital_process : RememberOrgRequest :=
  { deploy_once with min_clearance := "Internal" }

/-- A document for nobody. -/
def unread_notes : KnowledgeIngestRequest :=
  { source_type := .note, source_path := "notes.md", content := runbook, audience := [] }

/-- The row of the document. -/
def unread_row : OrgKnowledge ℚ :=
  { runbook_row with id := 0, source_path := "notes.md", audience := [] }

def unread_db : Db ℚ :=
  { chief_db with
    org_knowledge := [unread_row]
    memory_history := [knowledge_history chief .knowledge_ingest]
    next_id := 1 }

theorem unread_notes_commit :
    ingest_knowledge no_models chief 0 (fun _ => 0) unread_notes chief_db =
      .ok (unread_db, ⟨1, 0, "notes.md"⟩) := by
  decide +kernel

theorem capital_process_commits :
    ∃ db' row_id, remember_org no_models chief 0 capital_process chief_db = .ok (db', row_id) :=
  remember_org_commits ⟨rfl, .inr rfl⟩ (by decide)

theorem chief_db_keyed : chief_db.Keyed := by
  refine ⟨by decide, by decide, ?_, ?_, ?_⟩ <;> decide

theorem stored_rows_are_readable_iff_capital :
    (∃ db' row_id, remember_org no_models chief 0 capital_process chief_db = .ok (db', row_id) ∧
      ((∀ r ∈ db'.org_memory, r.id = row_id → r.readable db') ↔
        chief_db.knows_labels "Internal" ["all"])) ∧
    ((∀ r ∈ unread_db.org_knowledge, chief_db.next_id ≤ r.id → r.readable unread_db) ↔
      chief_db.knows_labels "internal" [] ∨
        unchanged_document no_models chief unread_notes chief_db ∨
        split_into_sections runbook = []) := by
  obtain ⟨horg, hknowledge⟩ := stored_rows_are_readable_iff no_models chief 0
  obtain ⟨db', row_id, h⟩ := capital_process_commits
  exact ⟨⟨db', row_id, h, horg capital_process chief_db db' row_id chief_db_keyed h⟩,
    hknowledge (fun _ => 0) unread_notes chief_db unread_db _ (fun r hr => nomatch hr)
      unread_notes_commit⟩

/-- Both requests commit, and no agent of any clearance or division reads what they store. -/
theorem nobody_reads_what_was_written :
    (∃ db' row_id, remember_org no_models chief 0 capital_process chief_db = .ok (db', row_id) ∧
      ∃ r ∈ db'.org_memory, r.id = row_id ∧ ¬ r.readable db') ∧
    ingest_knowledge no_models chief 0 (fun _ => 0) unread_notes chief_db =
        .ok (unread_db, ⟨1, 0, "notes.md"⟩) ∧
      ∀ r ∈ unread_db.org_knowledge, ¬ r.readable unread_db := by
  obtain ⟨db', row_id, h⟩ := capital_process_commits
  obtain ⟨⟨r, hr, hid⟩, hlabels⟩ := remember_org_stored chief_db_keyed h
  refine ⟨⟨db', row_id, h, r, hr, hid, ?_⟩, unread_notes_commit, ?_⟩
  · have hlevel : db'.level_order "Internal" = none := by
      obtain ⟨-, -, -, rfl⟩ := remember_org_eq h
      rfl
    rw [OrgMemory.readable_iff, (hlabels r hr hid).1]
    rintro ⟨hknown, -⟩
    simp only [capital_process, hlevel] at hknown
    cases hknown
  · intro r hr
    rw [List.mem_singleton.mp hr, OrgKnowledge.readable_iff]
    rintro ⟨-, hsomeone⟩
    exact hsomeone rfl

end qortia
