-- The tables of `migrations/V1__initial_schema.sql`, each one a list of rows. A column that
-- no statement of the service reads is left out.
import Mathlib.Data.Rat.Defs
import Qortia.Lib.Json
import Qortia.Lib.Rows

namespace qortia

/-- A `UUID`. Only equality matters, and `gen_random_uuid` draws one that is not in use. -/
abbrev UUID := Nat

/-- A `TIMESTAMPTZ`, in microseconds. -/
abbrev Timestamp := Int

def DAY : Timestamp := 24 * 60 * 60 * 1000000

/-! ## The enumerations of the CHECK constraints -/

inductive MemoryType where
  | episodic
  | experiential
  | mental_model
  | decision
  | lesson
  | short_term
  deriving DecidableEq, Repr

inductive Tier where
  | active
  | archive
  deriving DecidableEq, Repr

inductive OrgType where
  | org_chart
  | process
  | handoff
  | weekly_summary
  | decision_log
  deriving DecidableEq, Repr

inductive SourceType where
  | file
  | url
  | transcript
  | note
  deriving DecidableEq, Repr

/-- The `operation` of a `memory_history` row. -/
inductive Operation where
  | remember
  | remember_org
  | forget
  | knowledge_ingest
  | knowledge_delete
  | reflect
  deriving DecidableEq, Repr

/-- The tables that a `memory_history` row names as its `target_table`. -/
inductive TargetTable where
  | hindsight_memories
  | org_memory
  | org_knowledge
  deriving DecidableEq, Repr

/-! ## The rows

`K` is the type of the numbers in a vector. An `entities` column holds the pairs
`[text, label]` that `extract_entities_with_types` gave. -/

structure Tenant where
  id : UUID
  status : String := "active"
  weekly_summary_last_run_at : Option Timestamp := none
  deriving DecidableEq

structure Agent where
  id : UUID
  tenant_id : UUID
  name : Option String := none
  role : String := "engineer"
  status : String := "active"
  clearance_level : String := "internal"
  division : String := "all"
  reflection_counter : Int := 0
  updated_at : Timestamp
  deriving DecidableEq

structure ClearanceLevel where
  level_name : String
  level_order : Int
  deriving DecidableEq

structure HindsightMemory (K : Type) where
  id : UUID
  tenant_id : UUID
  agent_id : UUID
  type : MemoryType
  content : String
  embedding : Option (List K) := none
  embedding_attempts : Nat := 0
  importance : ℚ := 1 / 2
  is_consolidated : Bool := false
  stability_score : Option K := none
  is_graphed : Bool := false
  tier : Tier := .active
  expires_at : Option Timestamp := none
  source_task_id : Option UUID := none
  metadata : json.Object := []
  entities : List (String × String) := []
  recall_count : Nat := 0
  last_recalled_at : Option Timestamp := none
  lang : String := "en"
  content_hash : Option String := none
  valid_from : Timestamp
  valid_until : Option Timestamp := none
  confidence_multiplier : ℚ := 1
  created_at : Timestamp
  deriving DecidableEq

structure OrgMemory (K : Type) where
  id : UUID
  tenant_id : UUID
  type : OrgType
  title : String
  content : String
  embedding : Option (List K) := none
  embedding_attempts : Nat := 0
  author_id : Option UUID := none
  entities : List (String × String) := []
  is_graphed : Bool := false
  recall_count : Nat := 0
  last_recalled_at : Option Timestamp := none
  lang : String := "en"
  min_clearance : String := "internal"
  audience : List String := ["all"]
  confidence_multiplier : ℚ := 1
  valid_from : Timestamp
  valid_until : Option Timestamp := none
  created_at : Timestamp
  updated_at : Timestamp
  deriving DecidableEq

structure OrgKnowledge (K : Type) where
  id : UUID
  tenant_id : UUID
  source_type : SourceType
  source_path : String
  chunk_index : Nat
  content : String
  content_hash : String
  index_summary : String
  index_questions : List String
  index_entities : List String
  embedding : Option (List K) := none
  embedding_attempts : Nat := 0
  author_id : Option UUID := none
  metadata : json.Object := []
  recall_count : Nat := 0
  last_recalled_at : Option Timestamp := none
  lang : String := "en"
  min_clearance : String := "internal"
  audience : List String := ["all"]
  created_at : Timestamp
  deriving DecidableEq

/-- An entity of one agent, or of the tenant when `agent_id` is NULL. -/
structure Entity (K : Type) where
  id : UUID
  tenant_id : UUID
  agent_id : Option UUID
  entity_text : String
  entity_type : String
  embedding : Option (List K) := none
  embedding_attempts : Nat := 0
  linked_memory_ids : List UUID := []
  summary : Option String := none
  max_clearance_order : Int := 2
  created_at : Timestamp
  updated_at : Timestamp
  deriving DecidableEq

structure MemoryLink (K : Type) where
  tenant_id : UUID
  source_id : UUID
  target_id : UUID
  similarity : K
  deriving DecidableEq

structure MemoryHistory where
  tenant_id : UUID
  agent_id : UUID
  operation : Operation
  target_table : TargetTable
  target_id : Option UUID
  content_hash : Option String := none
  deriving DecidableEq

structure SessionRead where
  tenant_id : UUID
  agent_id : UUID
  work_order_id : UUID
  memory_id : UUID
  deriving DecidableEq

inductive Outcome where
  | SUCCESS
  | MINOR_FAILURE
  | CRITICAL_FAILURE
  deriving DecidableEq, Repr

structure OutcomeRecord where
  tenant_id : UUID
  agent_id : UUID
  work_order_id : UUID
  outcome : Outcome
  memory_count : Nat := 0
  deriving DecidableEq

/-! ## The database -/

/-- The tables, and the next id that `gen_random_uuid` draws for a memory (`next_id`) and for
an entity (`next_entity_id`). -/
structure Db (K : Type) where
  qortia_tenants : List Tenant := []
  qortia_agents : List Agent := []
  qortia_clearance_levels : List ClearanceLevel :=
    [⟨"external", 1⟩, ⟨"internal", 2⟩, ⟨"restricted", 3⟩]
  hindsight_memories : List (HindsightMemory K) := []
  org_memory : List (OrgMemory K) := []
  org_knowledge : List (OrgKnowledge K) := []
  qortia_entities : List (Entity K) := []
  memory_links : List (MemoryLink K) := []
  memory_history : List MemoryHistory := []
  qortia_session_reads : List SessionRead := []
  qortia_outcome_records : List OutcomeRecord := []
  next_id : UUID := 0
  next_entity_id : UUID := 0
  deriving DecidableEq

/-- `SELECT level_order FROM qortia_clearance_levels WHERE level_name = name`. -/
def Db.level_order {K : Type} (db : Db K) (name : String) : Option Int :=
  (db.qortia_clearance_levels.find? fun l => l.level_name = name).map (·.level_order)

/-- The primary keys, and that `gen_random_uuid` draws an id that no memory has. -/
structure Db.Keyed {K : Type} (db : Db K) : Prop where
  hindsight_nodup : (db.hindsight_memories.map (·.id)).Nodup
  org_nodup : (db.org_memory.map (·.id)).Nodup
  disjoint : ∀ r ∈ db.hindsight_memories, ∀ q ∈ db.org_memory, r.id ≠ q.id
  hindsight_lt : ∀ r ∈ db.hindsight_memories, r.id < db.next_id
  org_lt : ∀ q ∈ db.org_memory, q.id < db.next_id

/-- Before the first memory. -/
structure Db.Blank {K : Type} (db : Db K) : Prop where
  hindsight_memories : db.hindsight_memories = []
  org_memory : db.org_memory = []
  org_knowledge : db.org_knowledge = []
  qortia_entities : db.qortia_entities = []
  memory_links : db.memory_links = []

/-! ## What a request carries and how it fails -/

/-- `qortia.auth.AgentIdentity`. -/
structure AgentIdentity where
  agent_id : UUID
  tenant_id : UUID
  clearance_order : Int := 2
  division : String := "all"
  deriving DecidableEq

/-- The exceptions that end a request. An exception inside `conn.transaction()` rolls the
transaction back. -/
inductive Failure where
  | HTTPException (status : Nat) (detail : String)
  | ValueError
  | TypeError
  | KeyError
  | AttributeError
  | OverflowError
  | PostgresError
  deriving DecidableEq, Repr

theorem bind_ok {α β : Type} {x : Except Failure α} {f : α → Except Failure β} {b : β}
    (h : x >>= f = .ok b) : ∃ a, x = .ok a ∧ f a = .ok b := by
  cases x with
  | error e => cases h
  | ok a => exact ⟨a, rfl, h⟩

/-- PostgreSQL takes the texts and the JSONB of a statement, or raises. -/
def check_storable (storable : Bool) : Except Failure Unit :=
  if storable then .ok () else .error .PostgresError

theorem check_storable_ok {storable : Bool} {u : Unit} :
    check_storable storable = .ok u ↔ storable = true := by
  cases storable <;> simp [check_storable]

theorem map_ok {α β : Type} {x : Except Failure α} {f : α → β} {b : β} (h : x.map f = .ok b) :
    ∃ a, x = .ok a ∧ f a = b := by
  cases x with
  | error e => cases h
  | ok a => exact ⟨a, rfl, Except.ok.inj h⟩

theorem mem_of_mapM_ok {α β : Type} {f : α → Except Failure β} {xs : List α} {ys : List β}
    (h : xs.mapM f = .ok ys) {x : α} (hx : x ∈ xs) : ∃ y ∈ ys, f x = .ok y := by
  induction xs generalizing ys with
  | nil => cases hx
  | cons a xs ih =>
    rw [List.mapM_cons] at h
    obtain ⟨b, hb, h⟩ := bind_ok h
    obtain ⟨bs, hbs, h⟩ := bind_ok h
    cases h
    rcases List.mem_cons.mp hx with rfl | hx
    · exact ⟨b, List.mem_cons_self, hb⟩
    · obtain ⟨y, hy, hfy⟩ := ih hbs hx
      exact ⟨y, List.mem_cons_of_mem _ hy, hfy⟩

theorem of_mem_mapM_ok {α β : Type} {f : α → Except Failure β} {xs : List α} {ys : List β}
    (h : xs.mapM f = .ok ys) {y : β} (hy : y ∈ ys) : ∃ x ∈ xs, f x = .ok y := by
  induction xs generalizing ys with
  | nil =>
    cases h
    cases hy
  | cons a xs ih =>
    rw [List.mapM_cons] at h
    obtain ⟨b, hb, h⟩ := bind_ok h
    obtain ⟨bs, hbs, h⟩ := bind_ok h
    cases h
    rcases List.mem_cons.mp hy with rfl | hy
    · exact ⟨a, List.mem_cons_self, hb⟩
    · obtain ⟨x, hx, hfx⟩ := ih hbs hy
      exact ⟨x, List.mem_cons_of_mem _ hx, hfx⟩

/-- `qortia.common.assert_agent_active`. -/
def assert_agent_active {K : Type} (agent_id tenant_id : UUID) (db : Db K) :
    Except Failure Unit :=
  match db.qortia_agents.find? fun a => a.id = agent_id ∧ a.tenant_id = tenant_id with
  | none => .error (.HTTPException 403 "Agent is not active")
  | some a =>
    if a.status ≠ "active" then .error (.HTTPException 403 "Agent is not active") else .ok ()

/-- `SELECT role FROM qortia_agents WHERE id = $1 AND tenant_id = $2`. -/
def Db.role {K : Type} (db : Db K) (agent_id tenant_id : UUID) : Option String :=
  (db.qortia_agents.find? fun a => a.id = agent_id ∧ a.tenant_id = tenant_id).map (·.role)

end qortia
