-- `qortia.remember`: the requests that write and delete memories. Each one is a transaction, and
-- an exception in it leaves the database as it was.
import Qortia.Lib.Text
import Qortia.Ner

namespace qortia

variable {K : Type}

/-! ## remember -/

/-- `models.IMPORTANCE`. -/
def IMPORTANCE : MemoryType → ℚ
  | .episodic => 3 / 10
  | .experiential => 6 / 10
  | .mental_model => 8 / 10
  | .decision => 9 / 10
  | .lesson => 95 / 100
  | .short_term => 1 / 10

/-- `models.MemoryItem`, with the conditions of its validators on `content` and `ttl_seconds`. A
content of five words is not empty. -/
structure MemoryItem where
  type : MemoryType
  content : String
  source_task_id : Option UUID := none
  metadata : Option json.Object := none
  ttl_seconds : Option Int := none
  lang : String := "en"
  content_floor : 5 ≤ (text.words content.toList).length
  ttl_only_short_term : ttl_seconds ≠ none → type = .short_term := by simp
  short_term_ttl : type = .short_term → ∃ n, ttl_seconds = some n ∧ 0 < n := by simp

theorem no_ttl (type : MemoryType) : (none : Option Int) ≠ none → type = .short_term := by simp

theorem episodic_needs_no_ttl :
    MemoryType.episodic = .short_term → ∃ n : Int, none = some n ∧ 0 < n := by simp

theorem decision_needs_no_ttl :
    MemoryType.decision = .short_term → ∃ n : Int, none = some n ∧ 0 < n := by simp

/-- `detected.split("-")[0].lower()`. -/
def detect_lang (o : Outside K) (content : String) : String :=
  match o.detect content with
  | none => "en"
  | some detected => o.lower (String.ofList (detected.toList.takeWhile (· ≠ '-')))

/-- The language that a memory is stored with. -/
def effective_lang (o : Outside K) (content lang : String) : String :=
  if lang = "en" ∧ content.toList.length ≥ 20 then detect_lang o content else lang

/-- `_extract_valid_from`. -/
def extract_valid_from (o : Outside K) (metadata : Option json.Object) : Option Timestamp :=
  match json.get (metadata.getD []) "valid_from" with
  | some raw => if raw.truthy then o.fromisoformat raw else none
  | none => none

/-- The last microsecond of the year 9999. -/
def MAX_TIMESTAMP : Timestamp := 253402300799999999

/-- `datetime.now(UTC) + timedelta(seconds=ttl_seconds)`. -/
def expires_at (now : Timestamp) (mem : MemoryItem) : Except Failure (Option Timestamp) :=
  match mem.ttl_seconds with
  | some ttl =>
    if mem.type = .short_term ∧ ttl ≠ 0 then
      if now + ttl * 1000000 > MAX_TIMESTAMP then .error .OverflowError
      else .ok (some (now + ttl * 1000000))
    else .ok none
  | none => .ok none

/-- The memories with the same content of the last 24 hours. -/
def recent_duplicates (agent_id : UUID) (content_hash : String) (now : Timestamp) (db : Db K) :
    List (HindsightMemory K) :=
  db.hindsight_memories.filter fun r =>
    r.agent_id = agent_id && r.content_hash = some content_hash && r.tier = .active &&
      r.created_at > now - DAY

/-- The row that is inserted for a memory. -/
def memory_row (o : Outside K) (agent : AgentIdentity) (now : Timestamp) (mem : MemoryItem)
    (expires_at : Option Timestamp) (id : UUID) : HindsightMemory K :=
  let lang := effective_lang o mem.content mem.lang
  { id, tenant_id := agent.tenant_id, agent_id := agent.agent_id, type := mem.type
    content := mem.content, importance := IMPORTANCE mem.type
    source_task_id := mem.source_task_id
    metadata := json.pop (mem.metadata.getD []) "valid_from"
    entities := (extract_entities_with_types o mem.content lang).getD []
    expires_at, lang, content_hash := some (o.sha256 mem.content)
    valid_from := (extract_valid_from o mem.metadata).getD now, created_at := now }

/-- PostgreSQL takes the texts and the metadata of the row. The entities are parts of the
content. -/
def MemoryItem.storable (mem : MemoryItem) : Bool :=
  json.no_nul mem.content && json.no_nul mem.lang &&
    (json.Json.object (json.pop (mem.metadata.getD []) "valid_from")).is_jsonb

/-- What the loop over the memories carries: the database, the ids and `episodic_count`. -/
structure Remembering (K : Type) where
  db : Db K
  ids : List UUID := []
  episodic_count : Nat := 0

/-- One turn of the loop. `choice` says which duplicate `LIMIT 1` gives. -/
def remember_one (o : Outside K) (agent : AgentIdentity) (now : Timestamp) (choice : Nat)
    (s : Remembering K) (mem : MemoryItem) : Except Failure (Remembering K) := do
  let expires_at ← expires_at now mem
  let content_hash := o.sha256 mem.content
  let duplicates :=
    if mem.type = .episodic ∨ mem.type = .experiential
    then recent_duplicates agent.agent_id content_hash now s.db else []
  match duplicates[choice % duplicates.length]? with
  | some existing => return { s with ids := s.ids ++ [existing.id] }
  | none =>
    let db := s.db
    check_storable mem.storable
    return {
      db := { db with
        hindsight_memories := db.hindsight_memories ++
          [memory_row o agent now mem expires_at db.next_id]
        memory_history := db.memory_history ++
          [{ tenant_id := agent.tenant_id, agent_id := agent.agent_id, operation := .remember
             target_table := .hindsight_memories, target_id := some db.next_id
             content_hash := some content_hash }]
        next_id := db.next_id + 1 }
      ids := s.ids ++ [db.next_id]
      episodic_count := s.episodic_count + if mem.type = .episodic then 1 else 0 }

/-- `UPDATE qortia_agents SET reflection_counter = reflection_counter + $1`. -/
def count_episodic (agent_id : UUID) (now : Timestamp) (n : Nat) (db : Db K) : Db K :=
  { db with
    qortia_agents := rows.update (fun a => a.id = agent_id)
      (fun a => { a with reflection_counter := a.reflection_counter + n, updated_at := now })
      db.qortia_agents }

/-- `remember`, of a list of memories that is not empty. -/
def remember (o : Outside K) (agent : AgentIdentity) (now : Timestamp) (choice : Nat)
    (memories : List MemoryItem) (db : Db K) : Except Failure (Db K × List UUID) := do
  assert_agent_active agent.agent_id agent.tenant_id db
  let s ← memories.foldlM (remember_one o agent now choice) { db }
  return (if s.episodic_count > 0 then count_episodic agent.agent_id now s.episodic_count s.db
    else s.db, s.ids)

/-- The row of a memory is added under the next id. -/
def insert_memory (r : HindsightMemory K) (history : List MemoryHistory) (db : Db K) : Db K :=
  { db with
    hindsight_memories := db.hindsight_memories ++ [r], memory_history := history
    next_id := db.next_id + 1 }

/-- The row of a memory in `memory_history`. -/
def remember_record (o : Outside K) (agent : AgentIdentity) (mem : MemoryItem) (id : UUID) :
    MemoryHistory :=
  { tenant_id := agent.tenant_id, agent_id := agent.agent_id, operation := .remember
    target_table := .hindsight_memories, target_id := some id
    content_hash := some (o.sha256 mem.content) }

/-- The types whose duplicates are looked up. -/
def MemoryItem.deduplicated (mem : MemoryItem) : Prop :=
  mem.type = .episodic ∨ mem.type = .experiential

instance (mem : MemoryItem) : Decidable mem.deduplicated :=
  inferInstanceAs (Decidable (_ ∨ _))

/-- The state after the INSERTs of a memory. -/
def remembered (o : Outside K) (agent : AgentIdentity) (now : Timestamp) (mem : MemoryItem)
    (expires_at : Option Timestamp) (s : Remembering K) : Remembering K :=
  { db := insert_memory (memory_row o agent now mem expires_at s.db.next_id)
      (s.db.memory_history ++ [remember_record o agent mem s.db.next_id]) s.db
    ids := s.ids ++ [s.db.next_id]
    episodic_count := s.episodic_count + if mem.type = .episodic then 1 else 0 }

/-- The duplicate that `LIMIT 1` gives. -/
def pick (choice : Nat) (duplicates : List (HindsightMemory K)) : Option (HindsightMemory K) :=
  duplicates[choice % duplicates.length]?

theorem pick_mem {choice : Nat} {duplicates : List (HindsightMemory K)} {r : HindsightMemory K}
    (h : pick choice duplicates = some r) : r ∈ duplicates :=
  List.mem_of_getElem? h

theorem pick_none_iff {choice : Nat} {duplicates : List (HindsightMemory K)} :
    pick choice duplicates = none ↔ duplicates = [] := by
  unfold pick
  rw [List.getElem?_eq_none_iff]
  constructor
  · intro hle
    by_contra hne
    have hlt := Nat.mod_lt choice (List.length_pos_iff.mpr hne)
    omega
  · intro hnil
    simp [hnil]

/-- One turn of the loop gives the id of a recent duplicate, or inserts the memory. -/
theorem remember_one_cases {o : Outside K} {agent : AgentIdentity} {now : Timestamp} {choice : Nat}
    {s s' : Remembering K} {mem : MemoryItem}
    (h : remember_one o agent now choice s mem = .ok s') :
    ∃ expires, expires_at now mem = .ok expires ∧
      ((mem.deduplicated ∧ ∃ existing,
          pick choice (recent_duplicates agent.agent_id (o.sha256 mem.content) now s.db) =
            some existing ∧ s' = { s with ids := s.ids ++ [existing.id] }) ∨
        ((mem.deduplicated →
            recent_duplicates agent.agent_id (o.sha256 mem.content) now s.db = []) ∧
          mem.storable = true ∧ s' = remembered o agent now mem expires s)) := by
  unfold remember_one at h
  obtain ⟨expires, hexpires, h⟩ := bind_ok h
  refine ⟨expires, hexpires, ?_⟩
  simp only at h
  by_cases hdedup : mem.type = .episodic ∨ mem.type = .experiential
  · rw [if_pos hdedup] at h
    split at h
    · rename_i existing hexisting
      cases h
      exact .inl ⟨hdedup, existing, hexisting, rfl⟩
    · rename_i hnone
      obtain ⟨u, hstorable, h⟩ := bind_ok h
      cases h
      exact .inr ⟨fun _ => pick_none_iff.mp hnone, check_storable_ok.mp hstorable, rfl⟩
  · rw [if_neg hdedup] at h
    obtain ⟨u, hstorable, h⟩ := bind_ok h
    cases h
    exact .inr ⟨fun hd => absurd hd hdedup, check_storable_ok.mp hstorable, rfl⟩

theorem remember_one_duplicate {o : Outside K} {agent : AgentIdentity} {now : Timestamp}
    {choice : Nat} {s : Remembering K} {mem : MemoryItem} {expires : Option Timestamp}
    {existing : HindsightMemory K} (hexpires : expires_at now mem = .ok expires)
    (hdedup : mem.deduplicated)
    (hpick : pick choice (recent_duplicates agent.agent_id (o.sha256 mem.content) now s.db) =
      some existing) :
    remember_one o agent now choice s mem = .ok { s with ids := s.ids ++ [existing.id] } := by
  unfold MemoryItem.deduplicated at hdedup
  unfold pick at hpick
  unfold remember_one
  simp only [hexpires, bind, Except.bind, if_pos hdedup, hpick]
  rfl

/-- A memory without a duplicate is inserted, if PostgreSQL takes its row. -/
theorem remember_one_new {o : Outside K} {agent : AgentIdentity} {now : Timestamp}
    (choice : Nat) {s : Remembering K} {mem : MemoryItem} {expires : Option Timestamp}
    (hexpires : expires_at now mem = .ok expires)
    (hnew : mem.deduplicated →
      recent_duplicates agent.agent_id (o.sha256 mem.content) now s.db = []) :
    remember_one o agent now choice s mem =
      (check_storable mem.storable).map fun _ => remembered o agent now mem expires s := by
  unfold MemoryItem.deduplicated at hnew
  unfold remember_one
  simp only [hexpires, bind, Except.bind]
  by_cases hdedup : mem.type = .episodic ∨ mem.type = .experiential
  · simp only [if_pos hdedup, hnew hdedup, List.getElem?_nil]
    cases check_storable mem.storable <;> rfl
  · simp only [if_neg hdedup, List.getElem?_nil]
    cases check_storable mem.storable <;> rfl

theorem remember_one_insert {o : Outside K} {agent : AgentIdentity} {now : Timestamp}
    (choice : Nat) {s : Remembering K} {mem : MemoryItem} {expires : Option Timestamp}
    (hexpires : expires_at now mem = .ok expires)
    (hnew : mem.deduplicated →
      recent_duplicates agent.agent_id (o.sha256 mem.content) now s.db = [])
    (hstorable : mem.storable = true) :
    remember_one o agent now choice s mem = .ok (remembered o agent now mem expires s) := by
  have hcheck : check_storable mem.storable = .ok () := check_storable_ok.mpr hstorable
  rw [remember_one_new choice hexpires hnew, hcheck]
  rfl

/-- What each INSERT of one of the memories and the counter keep, the request keeps. -/
theorem remember_preserves_items {P : Db K → Prop} {o : Outside K} {agent : AgentIdentity}
    {now : Timestamp} {choice : Nat} {memories : List MemoryItem} {db db' : Db K} {ids : List UUID}
    (h : remember o agent now choice memories db = .ok (db', ids))
    (hinsert : ∀ db, ∀ mem ∈ memories, ∀ expires, expires_at now mem = .ok expires → P db →
      P (insert_memory (memory_row o agent now mem expires db.next_id)
        (db.memory_history ++ [remember_record o agent mem db.next_id]) db))
    (hcount : ∀ db n, P db → P (count_episodic agent.agent_id now n db)) (hdb : P db) : P db' := by
  unfold remember at h
  obtain ⟨u, -, h⟩ := bind_ok h
  obtain ⟨s, hs, h⟩ := bind_ok h
  have hloop : ∀ (rest : List MemoryItem) (s s' : Remembering K), rest ⊆ memories →
      rest.foldlM (remember_one o agent now choice) s = .ok s' → P s.db → P s'.db := by
    intro rest
    induction rest with
    | nil =>
      intro s s' _ h hs
      cases h
      exact hs
    | cons mem rest ih =>
      intro s s' hsub h hs
      rw [List.foldlM_cons] at h
      obtain ⟨s₁, hs₁, h⟩ := bind_ok h
      refine ih s₁ s' (List.subset_of_cons_subset hsub) h ?_
      obtain ⟨expires, hexpires, ⟨-, existing, -, rfl⟩ | ⟨-, -, rfl⟩⟩ := remember_one_cases hs₁
      · exact hs
      · exact hinsert s.db mem (hsub List.mem_cons_self) expires hexpires hs
  have hend := hloop memories { db } s (List.Subset.refl _) hs hdb
  cases h
  split
  · exact hcount _ _ hend
  · exact hend

/-- The same for a property that every INSERT keeps. -/
theorem remember_preserves {P : Db K → Prop} {o : Outside K} {agent : AgentIdentity}
    {now : Timestamp} {choice : Nat} {memories : List MemoryItem} {db db' : Db K} {ids : List UUID}
    (h : remember o agent now choice memories db = .ok (db', ids))
    (hinsert : ∀ db mem expires_at, P db →
      P (insert_memory (memory_row o agent now mem expires_at db.next_id)
        (db.memory_history ++ [remember_record o agent mem db.next_id]) db))
    (hcount : ∀ db n, P db → P (count_episodic agent.agent_id now n db)) (hdb : P db) : P db' :=
  remember_preserves_items h (fun db mem _ expires _ => hinsert db mem expires) hcount hdb

/-! ## remember-org -/

/-- The types that a request may write. -/
inductive WritableOrgType where
  | handoff
  | process
  | decision_log
  deriving DecidableEq, Repr

def WritableOrgType.org_type : WritableOrgType → OrgType
  | .handoff => .handoff
  | .process => .process
  | .decision_log => .decision_log

def WritableOrgType.name : WritableOrgType → String
  | .handoff => "handoff"
  | .process => "process"
  | .decision_log => "decision_log"

/-- `models.RememberOrgRequest`, with the condition of its validator on `content`. -/
structure RememberOrgRequest where
  type : WritableOrgType
  title : String
  content : String
  lang : String := "en"
  min_clearance : String := "internal"
  audience : List String := ["all"]
  content_floor : 10 ≤ (text.words content.toList).length
  deriving DecidableEq

/-- PostgreSQL takes the texts of the row. -/
def RememberOrgRequest.storable (body : RememberOrgRequest) : Bool :=
  json.no_nul body.title && json.no_nul body.content && json.no_nul body.lang &&
    json.no_nul body.min_clearance && body.audience.all json.no_nul

def org_entities (o : Outside K) (body : RememberOrgRequest) : List (String × String) :=
  (extract_entities_with_types o body.content body.lang).getD []

/-- The row that the request inserts. -/
def org_row (o : Outside K) (agent : AgentIdentity) (now : Timestamp) (body : RememberOrgRequest)
    (id : UUID) : OrgMemory K :=
  { id, tenant_id := agent.tenant_id, type := body.type.org_type, title := body.title
    content := body.content, author_id := some agent.agent_id, entities := org_entities o body
    lang := body.lang, min_clearance := body.min_clearance, audience := body.audience
    valid_from := now, created_at := now, updated_at := now }

/-- `ON CONFLICT (tenant_id, type, title) WHERE type IN ('process', 'decision_log')`. A handoff
has no such clause. -/
def org_conflict (agent : AgentIdentity) (body : RememberOrgRequest) (r : OrgMemory K) : Bool :=
  body.type ≠ .handoff && r.tenant_id = agent.tenant_id && r.type = body.type.org_type &&
    r.title = body.title

/-- `DO UPDATE SET ..`. -/
def org_excluded (o : Outside K) (agent : AgentIdentity) (now : Timestamp)
    (body : RememberOrgRequest) (r : OrgMemory K) : OrgMemory K :=
  { r with
    content := body.content, author_id := some agent.agent_id, entities := org_entities o body
    lang := body.lang, min_clearance := body.min_clearance, audience := body.audience
    updated_at := now }

/-- `remember_org`. -/
def remember_org (o : Outside K) (agent : AgentIdentity) (now : Timestamp)
    (body : RememberOrgRequest) (db : Db K) : Except Failure (Db K × UUID) := do
  assert_agent_active agent.agent_id agent.tenant_id db
  if body.type ≠ .handoff ∧ db.role agent.agent_id agent.tenant_id ≠ some "chief" then
    throw (.HTTPException 403 ("Only chief agent can write type '" ++ body.type.name ++ "'"))
  check_storable body.storable
  let row_id := ((db.org_memory.find? (org_conflict agent body)).map (·.id)).getD db.next_id
  return ({ db with
    org_memory := rows.upsert (org_conflict agent body) (org_excluded o agent now body)
      (org_row o agent now body db.next_id) db.org_memory
    memory_history := db.memory_history ++
      [{ tenant_id := agent.tenant_id, agent_id := agent.agent_id, operation := .remember_org
         target_table := .org_memory, target_id := some row_id
         content_hash := some (o.sha256 body.content) }]
    next_id := db.next_id + 1 }, row_id)

/-- Whether the checks of the request let it write. -/
def may_write (db : Db K) (agent : AgentIdentity) (type : WritableOrgType) : Prop :=
  assert_agent_active agent.agent_id agent.tenant_id db = .ok () ∧
    (type = .handoff ∨ db.role agent.agent_id agent.tenant_id = some "chief")

theorem remember_org_commits {o : Outside K} {agent : AgentIdentity} {now : Timestamp}
    {body : RememberOrgRequest} {db : Db K} (h : may_write db agent body.type)
    (hstorable : body.storable = true) :
    ∃ db' row_id, remember_org o agent now body db = .ok (db', row_id) := by
  obtain ⟨hactive, hchief⟩ := h
  have hcheck : check_storable body.storable = .ok () := check_storable_ok.mpr hstorable
  unfold remember_org
  rw [hactive, hcheck]
  simp only [bind, Except.bind]
  split
  · rename_i hnot
    exact absurd hchief (by rw [not_or]; exact hnot)
  · exact ⟨_, _, rfl⟩

/-- The row of the request in `memory_history`. -/
def org_record (o : Outside K) (agent : AgentIdentity) (body : RememberOrgRequest)
    (row_id : UUID) : MemoryHistory :=
  { tenant_id := agent.tenant_id, agent_id := agent.agent_id, operation := .remember_org
    target_table := .org_memory, target_id := some row_id
    content_hash := some (o.sha256 body.content) }

/-- Who may write, and the tables after the commit. -/
theorem remember_org_eq {o : Outside K} {agent : AgentIdentity} {now : Timestamp}
    {body : RememberOrgRequest} {db db' : Db K} {row_id : UUID}
    (h : remember_org o agent now body db = .ok (db', row_id)) :
    may_write db agent body.type ∧ body.storable = true ∧
      row_id = ((db.org_memory.find? (org_conflict agent body)).map (·.id)).getD db.next_id ∧
      db' = { db with
        org_memory := rows.upsert (org_conflict agent body) (org_excluded o agent now body)
          (org_row o agent now body db.next_id) db.org_memory
        memory_history := db.memory_history ++ [org_record o agent body row_id]
        next_id := db.next_id + 1 } := by
  unfold remember_org at h
  obtain ⟨u, hu, h⟩ := bind_ok h
  split at h
  · cases h
  · rename_i hmay
    obtain ⟨u, hstorable, h⟩ := bind_ok h
    cases h
    refine ⟨⟨hu, ?_⟩, check_storable_ok.mp hstorable, rfl, rfl⟩
    by_contra hnot
    rw [not_or] at hnot
    exact hmay hnot

theorem remember_org_ok {o : Outside K} {agent : AgentIdentity} {now : Timestamp}
    {body : RememberOrgRequest} {db db' : Db K} {row_id : UUID}
    (h : remember_org o agent now body db = .ok (db', row_id)) :
    may_write db agent body.type ∧ ∃ history, db' = { db with
        org_memory := rows.upsert (org_conflict agent body) (org_excluded o agent now body)
          (org_row o agent now body db.next_id) db.org_memory
        memory_history := history
        next_id := db.next_id + 1 } := by
  obtain ⟨hmay, -, -, hdb'⟩ := remember_org_eq h
  exact ⟨hmay, _, hdb'⟩

/-! ## forget -/

def OrgType.name : OrgType → String
  | .org_chart => "org_chart"
  | .process => "process"
  | .handoff => "handoff"
  | .weekly_summary => "weekly_summary"
  | .decision_log => "decision_log"

/-- The checks before an organisation memory is deleted. -/
def may_forget_org (agent : AgentIdentity) (om : OrgMemory K) (db : Db K) :
    Except Failure Unit := do
  if om.type = .org_chart ∨ om.type = .weekly_summary then
    throw (.HTTPException 403 ("Cannot delete type '" ++ om.type.name ++ "'"))
  if om.type = .handoff ∧ om.author_id ≠ some agent.agent_id then
    throw (.HTTPException 403 "Cannot delete another agent's handoff")
  if (om.type = .process ∨ om.type = .decision_log) ∧
      db.role agent.agent_id agent.tenant_id ≠ some "chief" then
    throw (.HTTPException 403 ("Only chief can delete type '" ++ om.type.name ++ "'"))

/-- The table and the content of the memory that a request deletes. -/
def find_forgotten (agent : AgentIdentity) (id : UUID) (db : Db K) :
    Except Failure (TargetTable × String) :=
  match db.hindsight_memories.find? fun r => r.id = id ∧ r.agent_id = agent.agent_id with
  | some hm => .ok (.hindsight_memories, hm.content)
  | none =>
    match db.org_memory.find? fun r => r.id = id ∧ r.tenant_id = agent.tenant_id with
    | some om => (may_forget_org agent om db).map fun _ => (.org_memory, om.content)
    | none => .error (.HTTPException 404 "Memory not found")

/-- `DELETE FROM {table} WHERE id = $1`. -/
def delete_memory (table : TargetTable) (id : UUID) (db : Db K) : Db K :=
  match table with
  | .hindsight_memories =>
    { db with hindsight_memories := rows.delete (fun r => r.id = id) db.hindsight_memories }
  | .org_memory => { db with org_memory := rows.delete (fun r => r.id = id) db.org_memory }
  | .org_knowledge => db

/-- The entities and links of the tenant lose the memory. -/
def unlink_memory (tenant_id id : UUID) (now : Timestamp) (db : Db K) : Db K :=
  { db with
    qortia_entities := rows.update
      (fun e => id ∈ e.linked_memory_ids && e.tenant_id = tenant_id)
      (fun e => { e with
        linked_memory_ids := e.linked_memory_ids.filter (· ≠ id), updated_at := now })
      db.qortia_entities
    memory_links := rows.delete
      (fun l => (l.source_id = id || l.target_id = id) && l.tenant_id = tenant_id)
      db.memory_links }

/-- `forget`. -/
def forget (o : Outside K) (agent : AgentIdentity) (now : Timestamp) (id : UUID) (db : Db K) :
    Except Failure (Db K) := do
  assert_agent_active agent.agent_id agent.tenant_id db
  let (table, content) ← find_forgotten agent id db
  let db' := unlink_memory agent.tenant_id id now (delete_memory table id db)
  return { db' with
    memory_history := db'.memory_history ++
      [{ tenant_id := agent.tenant_id, agent_id := agent.agent_id, operation := .forget
         target_table := table, target_id := some id, content_hash := some (o.sha256 content) }] }

/-- The row of the request in `memory_history`. -/
def forget_record (o : Outside K) (agent : AgentIdentity) (table : TargetTable) (id : UUID)
    (content : String) : MemoryHistory :=
  { tenant_id := agent.tenant_id, agent_id := agent.agent_id, operation := .forget
    target_table := table, target_id := some id, content_hash := some (o.sha256 content) }

/-- Whose memory is found. -/
theorem find_forgotten_cases {agent : AgentIdentity} {id : UUID} {db : Db K} {table : TargetTable}
    {content : String} (h : find_forgotten agent id db = .ok (table, content)) :
    (table = .hindsight_memories ∧ ∃ r ∈ db.hindsight_memories,
      r.id = id ∧ r.agent_id = agent.agent_id ∧ r.content = content) ∨
    table = .org_memory ∧ ∃ q ∈ db.org_memory,
      q.id = id ∧ q.tenant_id = agent.tenant_id ∧ q.content = content := by
  unfold find_forgotten at h
  split at h
  · rename_i r hr
    have hkey := List.find?_some hr
    simp only [Bool.decide_and, Bool.and_eq_true, decide_eq_true_eq] at hkey
    cases h
    exact .inl ⟨rfl, r, List.mem_of_find?_eq_some hr, hkey.1, hkey.2, rfl⟩
  · split at h
    · rename_i q hq
      have hkey := List.find?_some hq
      simp only [Bool.decide_and, Bool.and_eq_true, decide_eq_true_eq] at hkey
      unfold Except.map at h
      split at h
      · cases h
      · cases h
        exact .inr ⟨rfl, q, List.mem_of_find?_eq_some hq, hkey.1, hkey.2, rfl⟩
    · cases h

/-- What is deleted, and the tables after the commit. -/
theorem forget_eq {o : Outside K} {agent : AgentIdentity} {now : Timestamp} {id : UUID}
    {db db' : Db K} (h : forget o agent now id db = .ok db') :
    assert_agent_active agent.agent_id agent.tenant_id db = .ok () ∧
      ∃ table content, find_forgotten agent id db = .ok (table, content) ∧
        db' = { unlink_memory agent.tenant_id id now (delete_memory table id db) with
          memory_history := db.memory_history ++ [forget_record o agent table id content] } := by
  unfold forget at h
  obtain ⟨u, hactive, h⟩ := bind_ok h
  obtain ⟨⟨table, content⟩, hfound, h⟩ := bind_ok h
  cases h
  refine ⟨hactive, table, content, hfound, ?_⟩
  cases table with
  | hindsight_memories => rfl
  | org_memory => rfl
  | org_knowledge => rfl

/-! ## The background deletion -/

/-- `_purge_expired_short_term_memories`. -/
def expired_short_term (now : Timestamp) (r : HindsightMemory K) : Bool :=
  r.type = .short_term && r.expires_at.any (· < now)

def purge_expired_short_term_memories (now : Timestamp) (db : Db K) : Db K :=
  { db with
    hindsight_memories := rows.delete (expired_short_term now) db.hindsight_memories }

/-! ## A tenant with a chief -/

def chief_db : Db ℚ :=
  { qortia_agents := [{ id := 20, tenant_id := 1, role := "chief", updated_at := 0 }] }

def chief : AgentIdentity := { agent_id := 20, tenant_id := 1 }

def wait_once : String := "tag the release, push it and wait for the green build"

def wait_twice : String := "tag the release, push it and wait for the green build twice"

theorem wait_once_words : 5 ≤ (text.words wait_once.toList).length := by decide

theorem wait_twice_words : 5 ≤ (text.words wait_twice.toList).length := by decide

theorem wait_once_floor : 10 ≤ (text.words wait_once.toList).length := by decide

theorem wait_twice_floor : 10 ≤ (text.words wait_twice.toList).length := by decide

/-- How a release is deployed. -/
def deploy_once : RememberOrgRequest :=
  { type := .process, title := "deploy", content := wait_once, content_floor := wait_once_floor }

/-- The process is corrected. -/
def deploy_twice : RememberOrgRequest :=
  { deploy_once with content := wait_twice, content_floor := wait_twice_floor }

theorem chief_db_blank : chief_db.Blank := ⟨rfl, rfl, rfl, rfl, rfl⟩

end qortia
