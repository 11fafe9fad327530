-- The laws of clearance and audience in a recall: what an agent may not read does not change what
-- it is given. The searches keep to that, and the entity graph does not: it is built from all
-- organisation memories, and nothing sets `max_clearance_order`.
import Qortia.GraphMirror
import Qortia.Lib.Runs
import Qortia.Recall
import Qortia.Remember

namespace qortia

variable {K : Type}

/-! ## What an agent may not read -/

/-- The clearance and the audience let the agent read. -/
def may_read (level_order : String → Option Int) (reader : AgentIdentity) (min_clearance : String)
    (audience : List String) : Bool :=
  clearance_reaches level_order reader.clearance_order min_clearance &&
    audience_holds audience reader.division

/-- The row without its content and entities, where the agent may not read it. -/
def OrgMemory.redact (level_order : String → Option Int) (reader : AgentIdentity)
    (q : OrgMemory K) : OrgMemory K :=
  if may_read level_order reader q.min_clearance q.audience then q
  else { q with content := "", entities := [] }

/-- The database without the content and entities of the rows that the agent may not read. The
history, which has hashes of the contents, is left out. -/
def Db.redact (level_order : String → Option Int) (reader : AgentIdentity) (db : Db K) : Db K :=
  { db with
    org_memory := db.org_memory.map (OrgMemory.redact level_order reader), memory_history := [] }

/-! ## The runs -/

inductive OrgAction where
  | remember_org (agent : AgentIdentity) (now : Timestamp) (body : RememberOrgRequest)
  | populate_graph (now : Timestamp) (private_ids org_ids : List UUID)
  deriving DecidableEq

/-- A request that raises changes nothing. -/
def org_step (o : Outside K) (cfg : Settings) (db : Db K) : OrgAction → Option (Db K)
  | .remember_org agent now body =>
    match remember_org o agent now body db with
    | .ok (db', _) => some db'
    | .error _ => some db
  | .populate_graph now private_ids org_ids =>
    some (populate_graph_batch o cfg now private_ids org_ids db)

/-- A text in place of a content, which PostgreSQL takes where it takes the content. -/
def redacted_content (content : String) : String :=
  if json.no_nul content then "x x x x x x x x x x" else "x x x x x x x x x \x00"

theorem no_nul_redacted (content : String) :
    json.no_nul (redacted_content content) = json.no_nul content := by
  unfold redacted_content
  cases json.no_nul content <;> decide

theorem redacted_content_floor (content : String) :
    10 ≤ (text.words (redacted_content content).toList).length := by
  unfold redacted_content
  cases json.no_nul content <;> decide

/-- The request without its content, where the agent may not read the row that it writes. -/
def RememberOrgRequest.redact (level_order : String → Option Int) (reader : AgentIdentity)
    (body : RememberOrgRequest) : RememberOrgRequest :=
  if may_read level_order reader body.min_clearance body.audience then body
  else
    { body with
      content := redacted_content body.content
      content_floor := redacted_content_floor body.content }

def OrgAction.redact (level_order : String → Option Int) (reader : AgentIdentity) :
    OrgAction → OrgAction
  | .remember_org agent now body => .remember_org agent now (body.redact level_order reader)
  | .populate_graph now private_ids org_ids => .populate_graph now private_ids org_ids

/-- The graph batch picks no row that the agent may not read. -/
def GraphsReadable (level_order : String → Option Int) (reader : AgentIdentity) (db : Db K) :
    OrgAction → Prop
  | .remember_org .. => True
  | .populate_graph _ _ org_ids =>
    ∀ q ∈ db.org_memory, q.is_graphed = false → q.entities ≠ [] → q.id ∈ org_ids →
      may_read level_order reader q.min_clearance q.audience = true

instance (level_order : String → Option Int) (reader : AgentIdentity) (db : Db K) :
    DecidablePred (GraphsReadable level_order reader db)
  | .remember_org .. => isTrue trivial
  | .populate_graph _ _ _ => by
    unfold GraphsReadable
    infer_instance

/-! ## A recall reads nothing else -/

section
variable {level_order : String → Option Int} {reader : AgentIdentity}

theorem redact_readable {q : OrgMemory K}
    (h : may_read level_order reader q.min_clearance q.audience = true) :
    q.redact level_order reader = q := if_pos h

theorem redact_hidden {q : OrgMemory K}
    (h : ¬ may_read level_order reader q.min_clearance q.audience = true) :
    q.redact level_order reader = { q with content := "", entities := [] } := if_neg h

theorem redact_redact (q : OrgMemory K) :
    (q.redact level_order reader).redact level_order reader = q.redact level_order reader := by
  by_cases h : may_read level_order reader q.min_clearance q.audience = true
  · rw [redact_readable h, redact_readable h]
  · rw [redact_hidden h]
    exact redact_hidden h

theorem Db.redact_redact (db : Db K) :
    (db.redact level_order reader).redact level_order reader = db.redact level_order reader := by
  unfold Db.redact
  simp only [List.map_map]
  congr 1
  exact List.map_congr_left fun q _ => qortia.redact_redact q

/-- A query that finds only rows that the agent may read. -/
theorem filterMap_redact {α : Type} {pick : OrgMemory K → Option α}
    (hpick : ∀ q, ¬ may_read level_order reader q.min_clearance q.audience = true → pick q = none)
    (t : List (OrgMemory K)) :
    (t.map (OrgMemory.redact level_order reader)).filterMap pick = t.filterMap pick := by
  rw [List.filterMap_map]
  refine List.filterMap_congr fun q _ => ?_
  simp only [Function.comp]
  by_cases h : may_read level_order reader q.min_clearance q.audience = true
  · rw [redact_readable h]
  · rw [hpick q h]
    refine hpick _ ?_
    rw [redact_hidden h]
    exact h

theorem not_org_where {now : Timestamp} {body : RecallRequest} {db : Db K} {q : OrgMemory K}
    (h : ¬ may_read db.level_order reader q.min_clearance q.audience = true) :
    org_where now body reader db q = false := by
  unfold org_where org_visible
  unfold may_read at h
  rw [Bool.and_assoc (q.tenant_id = reader.tenant_id), eq_false_of_ne_true h]
  simp

end

section
variable [Field K] [LinearOrder K] {reader : AgentIdentity}

theorem search_redact (o : Outside K) (cfg : Settings) (env : RecallEnv K) (body : RecallRequest)
    (db : Db K) :
    search o cfg env body reader (db.redact db.level_order reader) =
      search o cfg env body reader db := by
  have hbm25 : bm25_org o cfg env.now body reader (db.redact db.level_order reader) =
      bm25_org o cfg env.now body reader db := by
    unfold bm25_org
    refine congrArg (top_rows _ _) (filterMap_redact (fun q h => ?_) db.org_memory)
    have hwhere : org_where env.now body reader (db.redact db.level_order reader) q = false :=
      not_org_where h
    simp [hwhere]
  have hvector : ∀ qe, vector_org o cfg env.now body reader qe (db.redact db.level_order reader) =
      vector_org o cfg env.now body reader qe db := by
    intro qe
    unfold vector_org
    refine congrArg (top_rows _ _) (filterMap_redact (fun q h => ?_) db.org_memory)
    have hwhere : org_where env.now body reader (db.redact db.level_order reader) q = false :=
      not_org_where h
    simp [hwhere]
  unfold search
  refine congrArg (List.flatMap · _) (funext fun leg => ?_)
  cases leg with
  | bm25_org => exact hbm25
  | vector_org => exact hvector _
  | bm25_private => rfl
  | vector_private => rfl
  | bm25_knowledge => rfl
  | vector_knowledge => rfl

theorem recall_redact [HasSqrt K] (o : Outside K) (cfg : Settings) (env : RecallEnv K)
    (body : RecallRequest) (db : Db K) :
    hybrid_recall_pipeline o cfg env body reader (db.redact db.level_order reader) =
      hybrid_recall_pipeline o cfg env body reader db := by
  unfold hybrid_recall_pipeline
  rw [search_redact]
  rfl

end

/-! ## A request keeps what is hidden apart -/

section
variable {level_order : String → Option Int} {reader : AgentIdentity} {o : Outside K}
  {agent : AgentIdentity} {now : Timestamp} {body : RememberOrgRequest}

/-- The database after the commit of `remember_org`. -/
def org_written (o : Outside K) (agent : AgentIdentity) (now : Timestamp)
    (body : RememberOrgRequest) (history : List MemoryHistory) (db : Db K) : Db K :=
  { db with
    org_memory := rows.upsert (org_conflict agent body) (org_excluded o agent now body)
      (org_row o agent now body db.next_id) db.org_memory
    memory_history := history
    next_id := db.next_id + 1 }

/-- The request is let in, and PostgreSQL takes its row. -/
def accepted (db : Db K) (agent : AgentIdentity) (body : RememberOrgRequest) : Prop :=
  may_write db agent body.type ∧ body.storable = true

theorem org_step_written (o : Outside K) (cfg : Settings) (now : Timestamp) {db : Db K}
    (h : accepted db agent body) :
    ∃ history, org_step o cfg db (.remember_org agent now body) =
      some (org_written o agent now body history db) := by
  have hcommit : ∃ db' row_id, remember_org o agent now body db = .ok (db', row_id) :=
    remember_org_commits h.1 h.2
  obtain ⟨db', row_id, hreq⟩ := hcommit
  obtain ⟨-, history, rfl⟩ := remember_org_ok hreq
  refine ⟨history, ?_⟩
  simp only [org_step, hreq]
  rfl

theorem org_step_refused {cfg : Settings} {db : Db K} (h : ¬ accepted db agent body) :
    org_step o cfg db (.remember_org agent now body) = some db := by
  cases hreq : remember_org o agent now body db with
  | ok x =>
    obtain ⟨hmay, hstorable, -, -⟩ := remember_org_eq hreq
    exact absurd ⟨hmay, hstorable⟩ h
  | error e => simp only [org_step, hreq]

theorem redact_body_type : (body.redact level_order reader).type = body.type := by
  unfold RememberOrgRequest.redact
  split <;> rfl

theorem redact_storable : (body.redact level_order reader).storable = body.storable := by
  unfold RememberOrgRequest.redact
  split
  · rfl
  · unfold RememberOrgRequest.storable
    rw [no_nul_redacted]

theorem redact_conflict (q : OrgMemory K) :
    org_conflict agent (body.redact level_order reader) (q.redact level_order reader) =
      org_conflict agent body q := by
  unfold RememberOrgRequest.redact OrgMemory.redact
  split <;> split <;> rfl

/-- What the agent may not read of a written row depends on what it may not read before. -/
theorem redact_excluded (q : OrgMemory K) :
    (org_excluded o agent now (body.redact level_order reader)
        (q.redact level_order reader)).redact level_order reader =
      (org_excluded o agent now body q).redact level_order reader := by
  by_cases hbody : may_read level_order reader body.min_clearance body.audience = true
  · have hb : body.redact level_order reader = body := if_pos hbody
    rw [hb]
    unfold OrgMemory.redact
    split <;> rfl
  · have hb : body.redact level_order reader =
        { body with
          content := redacted_content body.content
          content_floor := redacted_content_floor body.content } := if_neg hbody
    rw [hb, redact_hidden (q := org_excluded o agent now body q) hbody, redact_hidden]
    swap
    · exact hbody
    unfold OrgMemory.redact
    split <;> rfl

theorem redact_org_row (id : UUID) :
    (org_row o agent now (body.redact level_order reader) id).redact level_order reader =
      (org_row o agent now body id).redact level_order reader := by
  by_cases hbody : may_read level_order reader body.min_clearance body.audience = true
  · have hb : body.redact level_order reader = body := if_pos hbody
    rw [hb]
  · have hb : body.redact level_order reader =
        { body with
          content := redacted_content body.content
          content_floor := redacted_content_floor body.content } := if_neg hbody
    rw [hb]
    unfold OrgMemory.redact
    rw [if_neg, if_neg]
    · rfl
    · exact hbody
    · exact hbody

theorem redact_written (history history' : List MemoryHistory) (db : Db K) :
    (org_written o agent now (body.redact level_order reader) history'
        (db.redact level_order reader)).redact level_order reader =
      (org_written o agent now body history db).redact level_order reader := by
  have horg : (rows.upsert (org_conflict agent (body.redact level_order reader))
        (org_excluded o agent now (body.redact level_order reader))
        (org_row o agent now (body.redact level_order reader) db.next_id)
        (db.org_memory.map (OrgMemory.redact level_order reader))).map
          (OrgMemory.redact level_order reader) =
      (rows.upsert (org_conflict agent body) (org_excluded o agent now body)
        (org_row o agent now body db.next_id) db.org_memory).map
          (OrgMemory.redact level_order reader) :=
    rows.map_upsert redact_conflict redact_excluded redact_redact (redact_org_row _) _
  unfold Db.redact org_written
  simp only
  rw [horg]

/-! ## The graph batch reads what it picks -/

theorem redact_graph_entity (cfg : Settings) (row : GraphRow) (db : Db K)
    (ent : String × String) :
    graph_entity o cfg now row (db.redact level_order reader) ent =
      (graph_entity o cfg now row db ent).redact level_order reader := by
  unfold graph_entity maybe_update_entity_summary
  have hentities : (upsert_entity row ent now (db.redact level_order reader)).qortia_entities =
      (upsert_entity row ent now db).qortia_entities := rfl
  rw [hentities]
  split <;> rfl

theorem redact_set_graphed (row : GraphRow) (db : Db K) :
    set_graphed row (db.redact level_order reader) =
      (set_graphed row db).redact level_order reader := by
  unfold set_graphed
  split
  · rfl
  · have horg : rows.update (fun q => q.id = row.id) (fun q => { q with is_graphed := true })
          (db.org_memory.map (OrgMemory.redact level_order reader)) =
        (rows.update (fun q => q.id = row.id) (fun q => { q with is_graphed := true })
          db.org_memory).map (OrgMemory.redact level_order reader) := by
      refine rows.update_map (fun q => ?_) (fun q => ?_) _
      · unfold OrgMemory.redact
        split <;> rfl
      · unfold OrgMemory.redact
        split <;> rfl
    unfold Db.redact
    simp only
    rw [horg]

theorem redact_transactions (cfg : Settings) (picked : List GraphRow) (db : Db K) :
    picked.foldl (graph_transaction o cfg now) (db.redact level_order reader) =
      (picked.foldl (graph_transaction o cfg now) db).redact level_order reader := by
  have hentities : ∀ (row : GraphRow) (ents : List (String × String)) (db : Db K),
      ents.foldl (graph_entity o cfg now row) (db.redact level_order reader) =
        (ents.foldl (graph_entity o cfg now row) db).redact level_order reader := by
    intro row ents
    induction ents with
    | nil => exact fun _ => rfl
    | cons ent ents ih =>
      intro db
      rw [List.foldl_cons, List.foldl_cons, redact_graph_entity]
      exact ih _
  induction picked generalizing db with
  | nil => rfl
  | cons row picked ih =>
    rw [List.foldl_cons, List.foldl_cons, ← ih]
    unfold graph_transaction
    rw [hentities, redact_set_graphed]

/-- The row that a batch picks for an id is the same, if the agent may read it. -/
theorem find_ungraphed_redact {id : UUID} {t : List (OrgMemory K)}
    (hok : ∀ q ∈ t, q.is_graphed = false → q.entities ≠ [] → q.id = id →
      may_read level_order reader q.min_clearance q.audience = true) :
    (((t.map (OrgMemory.redact level_order reader)).filter fun q =>
        !q.is_graphed && q.entities ≠ []).map (·.graph_row)).find? (fun row => row.id = id) =
      ((t.filter fun q => !q.is_graphed && q.entities ≠ []).map (·.graph_row)).find?
        (fun row => row.id = id) := by
  induction t with
  | nil => rfl
  | cons q t ih =>
    have htail := ih fun x hx => hok x (List.mem_cons_of_mem _ hx)
    rw [List.map_cons]
    by_cases hread : may_read level_order reader q.min_clearance q.audience = true
    · rw [redact_readable hread, List.filter_cons, List.filter_cons]
      split
      · rw [List.map_cons, List.map_cons, List.find?_cons, List.find?_cons, htail]
      · exact htail
    · rw [redact_hidden hread]
      rw [List.filter_cons_of_neg (by simp), htail, List.filter_cons]
      split
      · rename_i heligible
        simp only [Bool.and_eq_true, Bool.not_eq_true', decide_eq_true_eq] at heligible
        have hne : ¬ q.graph_row.id = id := fun hid =>
          hread (hok q List.mem_cons_self heligible.1 heligible.2 hid)
        rw [List.map_cons, List.find?_cons]
        simp only [hne, decide_false]
      · rfl

/-- The private rows of a batch leave the organisation memory alone. -/
theorem private_transactions_org (cfg : Settings) {picked : List GraphRow}
    (hpicked : ∀ row ∈ picked, row.agent_id ≠ none) (db : Db K) :
    (picked.foldl (graph_transaction o cfg now) db).org_memory = db.org_memory := by
  induction picked generalizing db with
  | nil => rfl
  | cons row picked ih =>
    rw [List.foldl_cons, ih fun x hx => hpicked x (List.mem_cons_of_mem _ hx)]
    unfold graph_transaction
    rw [graph_entities_frame]
    unfold set_graphed
    split
    · rfl
    · rename_i hnone
      exact absurd hnone (hpicked row List.mem_cons_self)

theorem pick_rows_congr {ids : List UUID} {t t' : List GraphRow}
    (h : ∀ id ∈ ids, t.find? (fun row => row.id = id) = t'.find? fun row => row.id = id) :
    pick_rows ids t = pick_rows ids t' := by
  unfold pick_rows
  exact List.filterMap_congr fun id hid => h id (List.mem_dedup.mp hid)

theorem redact_batch {cfg : Settings} {private_ids org_ids : List UUID} {db : Db K}
    (hok : GraphsReadable level_order reader db (.populate_graph now private_ids org_ids)) :
    populate_graph_batch o cfg now private_ids org_ids (db.redact level_order reader) =
      (populate_graph_batch o cfg now private_ids org_ids db).redact level_order reader := by
  unfold populate_graph_batch
  simp only
  have hprivate : ungraphed_private (db.redact level_order reader) = ungraphed_private db := rfl
  rw [hprivate, redact_transactions]
  have hagents : ∀ row ∈ pick_rows private_ids (ungraphed_private db), row.agent_id ≠ none := by
    intro row hrow
    obtain ⟨r, -, rfl⟩ := List.mem_map.mp (mem_pick_rows hrow)
    exact Option.some_ne_none _
  have horg : ((pick_rows private_ids (ungraphed_private db)).foldl (graph_transaction o cfg now)
      db).org_memory = db.org_memory := private_transactions_org cfg hagents db
  have hpick : pick_rows org_ids (ungraphed_org
        (((pick_rows private_ids (ungraphed_private db)).foldl (graph_transaction o cfg now)
          db).redact level_order reader)) =
      pick_rows org_ids (ungraphed_org
        ((pick_rows private_ids (ungraphed_private db)).foldl
          (graph_transaction o cfg now) db)) := by
    refine pick_rows_congr fun id hid => find_ungraphed_redact fun q hq hflag hents hqid => ?_
    rw [horg] at hq
    exact hok q hq hflag hents (hqid ▸ hid)
  rw [hpick, redact_transactions]

/-! ## Followed without what is hidden -/

theorem accepted_redacted {db : Db K} : accepted (db.redact level_order reader) agent
    (body.redact level_order reader) ↔ accepted db agent body := by
  unfold accepted
  rw [redact_body_type, redact_storable]
  exact Iff.rfl

/-- What a step leaves to be read comes from what may be read. -/
theorem followed_redacted {cfg : Settings} {db db' : Db K} {a : OrgAction}
    (hok : GraphsReadable level_order reader db a) (h : org_step o cfg db a = some db') :
    ∃ t, org_step o cfg (db.redact level_order reader) (a.redact level_order reader) = some t ∧
      t.redact level_order reader = db'.redact level_order reader := by
  cases a with
  | populate_graph now private_ids org_ids =>
    cases h
    refine ⟨_, rfl, ?_⟩
    rw [redact_batch hok]
    exact Db.redact_redact _
  | remember_org agent now body =>
    by_cases hmay : accepted db agent body
    · obtain ⟨history, hstep⟩ := org_step_written o cfg now hmay
      obtain ⟨history', hstep'⟩ := org_step_written o cfg now
        (accepted_redacted.mpr hmay)
      rw [hstep] at h
      cases h
      exact ⟨_, hstep', redact_written history history' db⟩
    · have hmay' : ¬ accepted (db.redact level_order reader) agent
          (body.redact level_order reader) := mt accepted_redacted.mp hmay
      rw [org_step_refused hmay] at h
      cases h
      exact ⟨_, org_step_refused hmay', Db.redact_redact _⟩

/-! ## Followed without the graph -/

def HindsightMemory.unflag (r : HindsightMemory K) : HindsightMemory K :=
  { r with is_graphed := false }

def OrgMemory.unflag (q : OrgMemory K) : OrgMemory K := { q with is_graphed := false }

/-- The database without what the graph batch writes. -/
def Db.ungraphed (db : Db K) : Db K :=
  { db with
    hindsight_memories := db.hindsight_memories.map HindsightMemory.unflag
    org_memory := db.org_memory.map OrgMemory.unflag
    qortia_entities := [], next_entity_id := 0 }

/-- What holds before the batch and is kept by each of its statements holds after it. -/
theorem batch_preserves {P : Db K → Prop} {cfg : Settings} {private_ids org_ids : List UUID}
    (hentity : ∀ row db ent, P db → P (graph_entity o cfg now row db ent))
    (hflag : ∀ row db, P db → P (set_graphed row db)) {db : Db K} (hdb : P db) :
    P (populate_graph_batch o cfg now private_ids org_ids db) := by
  have hentities : ∀ (row : GraphRow) (ents : List (String × String)) (db : Db K), P db →
      P (ents.foldl (graph_entity o cfg now row) db) := by
    intro row ents
    induction ents with
    | nil => exact fun _ hdb => hdb
    | cons ent ents ih => exact fun db hdb => ih _ (hentity row db ent hdb)
  have hrows : ∀ (picked : List GraphRow) (db : Db K), P db →
      P (picked.foldl (graph_transaction o cfg now) db) := by
    intro picked
    induction picked with
    | nil => exact fun _ hdb => hdb
    | cons row picked ih => exact fun db hdb => ih _ (hflag row _ (hentities row _ db hdb))
  exact hrows _ _ (hrows _ _ hdb)

theorem ungraphed_batch (cfg : Settings) (private_ids org_ids : List UUID) (db : Db K) :
    (populate_graph_batch o cfg now private_ids org_ids db).ungraphed = db.ungraphed := by
  refine batch_preserves (P := fun db' => db'.ungraphed = db.ungraphed) (fun row db' ent h => ?_)
    (fun row db' h => ?_) rfl
  · rw [graph_entity_frame]
    exact h
  · refine Eq.trans ?_ h
    unfold set_graphed
    split
    · have hflags : (rows.update (fun r => r.id = row.id) (fun r => { r with is_graphed := true })
          db'.hindsight_memories).map HindsightMemory.unflag =
            db'.hindsight_memories.map HindsightMemory.unflag :=
        rows.map_update (g := HindsightMemory.unflag) (by intro r; rfl) _ _
      unfold Db.ungraphed
      simp only
      rw [hflags]
    · have hflags : (rows.update (fun q => q.id = row.id) (fun q => { q with is_graphed := true })
          db'.org_memory).map OrgMemory.unflag = db'.org_memory.map OrgMemory.unflag :=
        rows.map_update (g := OrgMemory.unflag) (by intro q; rfl) _ _
      unfold Db.ungraphed
      simp only
      rw [hflags]

theorem ungraphed_ungraphed (db : Db K) : db.ungraphed.ungraphed = db.ungraphed := by
  unfold Db.ungraphed
  simp only [List.map_map]
  rfl

theorem ungraphed_written (history : List MemoryHistory) (db : Db K) :
    (org_written o agent now body history db.ungraphed).ungraphed =
      (org_written o agent now body history db).ungraphed := by
  have horg : (rows.upsert (org_conflict agent body) (org_excluded o agent now body)
        (org_row o agent now body db.next_id) (db.org_memory.map OrgMemory.unflag)).map
          OrgMemory.unflag =
      (rows.upsert (org_conflict agent body) (org_excluded o agent now body)
        (org_row o agent now body db.next_id) db.org_memory).map OrgMemory.unflag :=
    rows.map_upsert (by intro q; rfl) (by intro q; rfl) (by intro q; rfl) rfl _
  have hprivate : (db.hindsight_memories.map HindsightMemory.unflag).map HindsightMemory.unflag =
      db.hindsight_memories.map HindsightMemory.unflag := by
    rw [List.map_map]
    rfl
  unfold Db.ungraphed org_written
  simp only
  rw [horg, hprivate]

theorem redact_ungraphed (db : Db K) :
    (db.redact level_order reader).ungraphed = db.ungraphed.redact level_order reader := by
  unfold Db.redact Db.ungraphed
  simp only [List.map_map]
  congr 1
  refine List.map_congr_left fun q _ => ?_
  simp only [Function.comp]
  unfold OrgMemory.redact
  split
  · exact (if_pos (by assumption)).symm
  · exact (if_neg (by assumption)).symm

/-- Apart from the graph, a step needs no condition. -/
theorem followed_ungraphed {cfg : Settings} {db db' : Db K} {a : OrgAction}
    (h : org_step o cfg db a = some db') :
    ∃ t, org_step o cfg (db.redact level_order reader).ungraphed (a.redact level_order reader) =
        some t ∧
      (t.redact level_order reader).ungraphed = (db'.redact level_order reader).ungraphed := by
  have hidem : ((db.redact level_order reader).ungraphed.redact level_order reader).ungraphed =
      (db.redact level_order reader).ungraphed := by
    rw [← redact_ungraphed, Db.redact_redact, ungraphed_ungraphed]
  cases a with
  | populate_graph now private_ids org_ids =>
    cases h
    refine ⟨_, rfl, ?_⟩
    rw [redact_ungraphed, ungraphed_batch, ← redact_ungraphed, hidem, redact_ungraphed,
      redact_ungraphed, ungraphed_batch]
  | remember_org agent now body =>
    by_cases hmay : accepted db agent body
    · obtain ⟨history, hstep⟩ := org_step_written o cfg now hmay
      have hmay' : accepted (db.redact level_order reader).ungraphed agent
          (body.redact level_order reader) := accepted_redacted.mpr hmay
      obtain ⟨history', hstep'⟩ := org_step_written o cfg now hmay'
      rw [hstep] at h
      cases h
      refine ⟨_, hstep', ?_⟩
      rw [redact_ungraphed, ungraphed_written, ← redact_ungraphed, redact_written history]
    · have hmay' : ¬ accepted (db.redact level_order reader).ungraphed agent
          (body.redact level_order reader) := mt accepted_redacted.mp hmay
      rw [org_step_refused hmay] at h
      cases h
      exact ⟨_, org_step_refused hmay', hidem⟩

/-! ## The clearance of the entities -/

/-- Every entity has the default of `max_clearance_order`. -/
def Db.DefaultClearance (db : Db K) : Prop := ∀ e ∈ db.qortia_entities, e.max_clearance_order = 2

theorem graph_entity_default {cfg : Settings} {row : GraphRow} {db : Db K} {ent : String × String}
    (h : db.DefaultClearance) : (graph_entity o cfg now row db ent).DefaultClearance := by
  have hupsert : (upsert_entity row ent now db).DefaultClearance := by
    intro e he
    unfold upsert_entity rows.upsert at he
    simp only at he
    split at he
    · obtain ⟨e', he', ⟨-, rfl⟩ | ⟨-, rfl⟩⟩ := rows.mem_update.mp he
      · unfold link_entity
        split
        · exact h e' he'
        · exact h e' he'
      · exact h e he'
    · rcases List.mem_append.mp he with he | he
      · exact h e he
      · rw [List.mem_singleton.mp he]
  unfold graph_entity maybe_update_entity_summary
  split
  · exact hupsert
  · intro e he
    obtain ⟨e', he', ⟨-, rfl⟩ | ⟨-, rfl⟩⟩ := rows.mem_update.mp he
    · exact hupsert e' he'
    · exact hupsert e he'

/-- What a run keeps: the levels, and the default of the entities. -/
structure Db.Leveled (levels : List ClearanceLevel) (db : Db K) : Prop where
  levels : db.qortia_clearance_levels = levels
  default : db.DefaultClearance

theorem org_step_leveled {cfg : Settings} {levels : List ClearanceLevel} {db db' : Db K}
    {a : OrgAction} (h : db.Leveled levels) (hstep : org_step o cfg db a = some db') :
    db'.Leveled levels := by
  cases a with
  | populate_graph now private_ids org_ids =>
    cases hstep
    refine batch_preserves (fun row db ent h => ?_) (fun row db h => ?_) h
    · refine ⟨?_, graph_entity_default h.default⟩
      rw [graph_entity_frame]
      exact h.levels
    · unfold set_graphed
      split
      · exact ⟨h.levels, h.default⟩
      · exact ⟨h.levels, h.default⟩
  | remember_org agent now body =>
    by_cases hmay : accepted db agent body
    · obtain ⟨history, hcommit⟩ := org_step_written o cfg now hmay
      rw [hcommit] at hstep
      cases hstep
      exact ⟨h.levels, h.default⟩
    · rw [org_step_refused hmay] at hstep
      cases hstep
      exact h

theorem org_run_leveled {cfg : Settings} {levels : List ClearanceLevel} {db db' : Db K}
    {actions : List OrgAction} (h : db.Leveled levels)
    (hrun : runs.run (org_step o cfg) db actions = some db') : db'.Leveled levels := by
  have halways : runs.Always (org_step o cfg) (Db.Leveled levels) db actions :=
    runs.always_of_invariant (fun _ h => h) (fun _ _ _ h _ hstep => org_step_leveled h hstep) h
      (runs.guarded_of_forall _ (fun _ _ => trivial) db actions)
  exact halways.last hrun

theorem org_step_total (cfg : Settings) (db : Db K) (a : OrgAction) :
    ∃ db', org_step o cfg db a = some db' := by
  cases a with
  | populate_graph now private_ids org_ids => exact ⟨_, rfl⟩
  | remember_org agent now body =>
    cases hreq : remember_org o agent now body db with
    | ok x => exact ⟨x.1, by simp only [org_step, hreq]⟩
    | error e => exact ⟨db, by simp only [org_step, hreq]⟩

end

/-! ## Below the default clearance -/

section
variable {reader : AgentIdentity}

theorem linked_rows_below {env : RecallEnv K} {names : List String} {db : Db K}
    (h : ∀ e ∈ db.qortia_entities, reader.clearance_order < e.max_clearance_order) :
    linked_rows env reader names db = [] := by
  have hnone : db.qortia_entities.filter (entity_where reader names) = [] := by
    rw [List.filter_eq_nil_iff]
    intro e he hwhere
    unfold entity_where at hwhere
    rw [Bool.and_eq_true, decide_eq_true_eq] at hwhere
    exact absurd hwhere.2 (not_le.mpr (h e he))
  unfold linked_rows
  rw [hnone]
  exact List.perm_nil.mp (env.unordered_perm [])

variable [Field K] [LinearOrder K]

theorem search_ungraphed (o : Outside K) (cfg : Settings) (env : RecallEnv K)
    (body : RecallRequest) (db : Db K) :
    search o cfg env body reader db.ungraphed = search o cfg env body reader db := by
  unfold search
  refine congrArg (List.flatMap · _) (funext fun leg => ?_)
  cases leg with
  | bm25_private => exact congrArg (top_rows _ _) List.filterMap_map
  | vector_private => exact congrArg (top_rows _ _) List.filterMap_map
  | bm25_org => exact congrArg (top_rows _ _) List.filterMap_map
  | vector_org => exact congrArg (top_rows _ _) List.filterMap_map
  | bm25_knowledge => rfl
  | vector_knowledge => rfl

theorem expand_ungraphed (now : Timestamp) (tenant_id agent_id : UUID) (failed : Bool)
    (unordered : ∀ {α : Type}, List α → List α) (results : List (RecallResult K)) (db : Db K) :
    expand_with_links now tenant_id agent_id failed unordered results db.ungraphed =
      expand_with_links now tenant_id agent_id failed unordered results db := by
  unfold expand_with_links Db.ungraphed
  simp only [List.filter_map, List.map_map]
  rfl

theorem fuse_unlinked [HasSqrt K] (o : Outside K) (cfg : Settings)
    (env : RecallEnv K) (names : List String) (results : List (RecallResult K)) (db : Db K) :
    fuse_memories o cfg env reader names [] results db = rrf_fuse o cfg env.now results [] := by
  unfold fuse_memories
  simp only
  split
  · rfl
  · exact if_pos (Or.inl trivial)

/-- Where no entity reaches the agent, the recall does not depend on the graph. -/
theorem recall_ungraphed [HasSqrt K] (o : Outside K) (cfg : Settings) (env : RecallEnv K)
    (body : RecallRequest) {db : Db K}
    (h : ∀ e ∈ db.qortia_entities, reader.clearance_order < e.max_clearance_order) :
    hybrid_recall_pipeline o cfg env body reader db.ungraphed =
      hybrid_recall_pipeline o cfg env body reader db := by
  have hnone : ∀ names, linked_rows env reader names db = [] := fun _ => linked_rows_below h
  have hnone' : ∀ names, linked_rows env reader names db.ungraphed = [] :=
    fun _ => linked_rows_below (fun e he => nomatch he)
  unfold hybrid_recall_pipeline
  rw [search_ungraphed]
  simp only [hnone, hnone', ite_self, List.map_nil, fuse_unlinked, expand_ungraphed]

end

/-! ## Two runs -/

section
variable [Field K] [LinearOrder K] [HasSqrt K] {reader : AgentIdentity}

/-- The levels are those that the rows were redacted with. -/
theorem recall_redact_leveled (o : Outside K) (cfg : Settings) (env : RecallEnv K)
    (body : RecallRequest) {db db' : Db K} (h : db'.Leveled db.qortia_clearance_levels) :
    hybrid_recall_pipeline o cfg env body reader (db'.redact db.level_order reader) =
      hybrid_recall_pipeline o cfg env body reader db' := by
  have hlevels : db.level_order = db'.level_order := by
    funext name
    unfold Db.level_order
    rw [h.levels]
  rw [hlevels, recall_redact]

/-- Two runs that differ in the content and entities of organisation memories that the agent may
not read give it the same results, if no entity reaches its clearance or the graph batches pick
no such memory. -/
theorem recall_is_blind_to_hidden_rows (o : Outside K) (cfg : Settings) (reader : AgentIdentity)
    {db₁ db₂ : Db K} {actions₁ actions₂ : List OrgAction} (hgraph : db₁.qortia_entities = [])
    (hdb : db₁.redact db₁.level_order reader = db₂.redact db₁.level_order reader)
    (hactions : actions₁.map (OrgAction.redact db₁.level_order reader) =
      actions₂.map (OrgAction.redact db₁.level_order reader))
    (hok : reader.clearance_order < 2 ∨
      (runs.Guarded (org_step o cfg) (GraphsReadable db₁.level_order reader) db₁ actions₁ ∧
        runs.Guarded (org_step o cfg) (GraphsReadable db₁.level_order reader) db₂ actions₂))
    (env : RecallEnv K) (body : RecallRequest) :
    (runs.run (org_step o cfg) db₁ actions₁).map (hybrid_recall_pipeline o cfg env body reader) =
      (runs.run (org_step o cfg) db₂ actions₂).map
        (hybrid_recall_pipeline o cfg env body reader) := by
  obtain ⟨db₁', hrun₁⟩ := runs.run_total (org_step_total (o := o) cfg) db₁ actions₁
  obtain ⟨db₂', hrun₂⟩ := runs.run_total (org_step_total (o := o) cfg) db₂ actions₂
  have hlevels : db₂.qortia_clearance_levels = db₁.qortia_clearance_levels :=
    (congrArg Db.qortia_clearance_levels hdb).symm
  have hgraph₂ : db₂.qortia_entities = [] := (congrArg Db.qortia_entities hdb).symm.trans hgraph
  have hend₁ := org_run_leveled ⟨rfl, by intro e he; rw [hgraph] at he; cases he⟩ hrun₁
  have hend₂ := org_run_leveled ⟨hlevels, by intro e he; rw [hgraph₂] at he; cases he⟩ hrun₂
  rw [hrun₁, hrun₂, Option.map_some, Option.map_some, ← recall_redact_leveled o cfg env body hend₁,
    ← recall_redact_leveled o cfg env body hend₂]
  rcases hok with hlow | ⟨hok₁, hok₂⟩
  · have hbelow : ∀ {db' : Db K}, db'.DefaultClearance →
        ∀ e ∈ (db'.redact db₁.level_order reader).qortia_entities,
          reader.clearance_order < e.max_clearance_order :=
      fun hdefault e he => (hdefault e he).symm ▸ hlow
    have hfree : ∀ db actions, runs.Guarded (org_step o cfg) (fun _ _ => True) db actions :=
      runs.guarded_of_forall _ fun _ _ => trivial
    have hview : (db₁'.redact db₁.level_order reader).ungraphed =
        (db₂'.redact db₁.level_order reader).ungraphed :=
      runs.views_agree_of_followed (fun _ h => followed_ungraphed h) (congrArg Db.ungraphed hdb)
        hactions (hfree db₁ actions₁) (hfree db₂ actions₂) hrun₁ hrun₂
    rw [← recall_ungraphed o cfg env body (hbelow hend₁.default), hview,
      recall_ungraphed o cfg env body (hbelow hend₂.default)]
  · have hview := runs.views_agree_of_followed followed_redacted hdb hactions hok₁ hok₂ hrun₁ hrun₂
    rw [hview]

end

/-! ## A decision about a vendor -/

/-- A model that knows two names, and a search that finds every text. -/
def vendor_models : Outside ℚ :=
  { no_models with
    en_core_web_sm := some fun text =>
      some { ents := (["CI", "QA"].filter fun name => name.toList <:+: text.toList).map (·, "ORG") }
    ts_match := fun _ _ => true }

/-- No vector, no failed search, and the order of the table. -/
def plain_env : RecallEnv ℚ where
  now := 10
  query_embedding := none
  failed _ := false
  expand_failed := false
  unordered l := l
  unordered_perm := List.Perm.refl

def engineer : AgentIdentity := { agent_id := 21, tenant_id := 1 }

def team_db : Db ℚ :=
  { qortia_agents := [{ id := 20, tenant_id := 1, role := "chief", updated_at := 0 },
      { id := 21, tenant_id := 1, updated_at := 0 }] }

def nightly_green : String := "the QA queue is green and the nightly builds all passed"

theorem nightly_green_floor : 10 ≤ (text.words nightly_green.toList).length := by decide

def shift_handoff : RememberOrgRequest :=
  { type := .handoff, title := "shift", content := nightly_green
    content_floor := nightly_green_floor }

def keep_vendor : String := "we keep the CI vendor for one more year from now"

def drop_vendor : String := "we drop the CI vendor and tell nobody until the summer"

theorem keep_vendor_floor : 10 ≤ (text.words keep_vendor.toList).length := by decide

theorem drop_vendor_floor : 10 ≤ (text.words drop_vendor.toList).length := by decide

/-- A decision that the engineer may not read, and the opposite one. -/
def vendor_kept : RememberOrgRequest :=
  { type := .decision_log, title := "vendor", content := keep_vendor
    min_clearance := "restricted", content_floor := keep_vendor_floor }

def vendor_dropped : RememberOrgRequest :=
  { vendor_kept with content := drop_vendor, content_floor := drop_vendor_floor }

def vendor_question : RecallRequest := { query := "what is the state of CI" }

/-- The graph batch runs before the decision is written. -/
def graphed_before (decision : RememberOrgRequest) : List OrgAction :=
  [.remember_org chief 1 shift_handoff, .populate_graph 2 [] [0],
    .remember_org chief 3 decision]

theorem recall_is_blind_to_hidden_rows_vendor :
    graphed_before vendor_kept ≠ graphed_before vendor_dropped ∧
      (runs.run (org_step vendor_models {}) team_db (graphed_before vendor_kept)).map
          (hybrid_recall_pipeline vendor_models {} plain_env vendor_question engineer) =
        (runs.run (org_step vendor_models {}) team_db (graphed_before vendor_dropped)).map
          (hybrid_recall_pipeline vendor_models {} plain_env vendor_question engineer) := by
  refine ⟨by decide +kernel, ?_⟩
  refine recall_is_blind_to_hidden_rows vendor_models {} engineer rfl rfl (by decide +kernel)
    (Or.inr ⟨?_, ?_⟩) plain_env vendor_question
  · decide +kernel
  · decide +kernel

def graphed_after (decision : RememberOrgRequest) : List OrgAction :=
  [.remember_org chief 1 shift_handoff, .remember_org chief 2 decision,
    .populate_graph 3 [] [0, 1]]

/-- The contents and the summaries that the engineer is given. -/
def told (db : Db ℚ) : List (String × Option String) :=
  (hybrid_recall_pipeline vendor_models {} plain_env vendor_question engineer db).map
    fun r => (r.content, r.entity_summary)

/-- The decision is graphed, and it is the summary that the engineer is given. -/
theorem a_recall_gives_a_hidden_decision_away :
    (graphed_after vendor_kept).map (OrgAction.redact team_db.level_order engineer) =
        (graphed_after vendor_dropped).map (OrgAction.redact team_db.level_order engineer) ∧
      (runs.run (org_step vendor_models {}) team_db (graphed_after vendor_kept)).map told =
        some [(shift_handoff.content, some keep_vendor)] ∧
      (runs.run (org_step vendor_models {}) team_db (graphed_after vendor_dropped)).map told =
        some [(shift_handoff.content, some drop_vendor)] := by
  refine ⟨?_, ?_, ?_⟩
  · decide +kernel
  · decide +kernel
  · decide +kernel

end qortia
