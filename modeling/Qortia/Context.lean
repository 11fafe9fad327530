-- `GET /v1/context` (`qortia.remember.get_context`): the organisation memory and the private
-- memory that an agent starts from.
import Mathlib.Data.Rat.Defs
import Mathlib.Algebra.Order.Ring.Unbundled.Rat
import Qortia.Policies

namespace qortia

variable {K : Type}

structure MemoryEntry where
  title : Option String := none
  content : String
  importance : Option ℚ := none
  deriving DecidableEq

structure ContextMemories where
  mental_models : List MemoryEntry
  decisions : List MemoryEntry
  lessons : List MemoryEntry
  deriving DecidableEq

structure ContextResponse where
  org_chart : List MemoryEntry
  processes : List MemoryEntry
  handoffs : List MemoryEntry
  weekly_summary : Option MemoryEntry
  memories : ContextMemories
  reflection_counter : Int
  deriving DecidableEq

/-! ## The character budget -/

inductive Bucket where
  | mental_models
  | decisions
  | lessons
  deriving DecidableEq, Repr

/-- An entry with its place: the bucket and the index in it. The place stands for the identity
of the Python object. -/
structure Tagged where
  entry : MemoryEntry
  bucket : Bucket
  index : Nat
  deriving DecidableEq

def tag (bucket : Bucket) (entries : List MemoryEntry) : List Tagged :=
  entries.zipIdx.map fun e => ⟨e.1, bucket, e.2⟩

/-- The selection loop: entries in order of importance until one no longer fits. -/
def budget_loop (budget : Int) : List Tagged → (used : Int) → List Tagged
  | [], _ => []
  | e :: rest, used =>
    let cost : Int := e.entry.content.length
    if used + cost > budget ∧ used > 0 then []
    else e :: budget_loop budget rest (used + cost)

/-- The survivors of one bucket, in the order of the bucket. -/
def restore_order (original kept : List Tagged) : List MemoryEntry :=
  (original.filter (· ∈ kept)).map (·.entry)

/-- `_budget_memories`. -/
def budget_memories (mental_models decisions lessons : List MemoryEntry) (budget : Option Int) :
    ContextMemories :=
  match budget with
  | none => { mental_models, decisions, lessons }
  | some budget =>
    if budget ≤ 0 then { mental_models, decisions, lessons }
    else
      let m := tag .mental_models mental_models
      let d := tag .decisions decisions
      let l := tag .lessons lessons
      let tagged := rows.order_desc (fun t => t.entry.importance.getD 0) (m ++ d ++ l)
      let kept := budget_loop budget tagged 0
      { mental_models := restore_order m kept
        decisions := restore_order d kept
        lessons := restore_order l kept }

/-! ## The queries -/

/-- What the statements of the transaction fetch. -/
structure ContextRows (K : Type) where
  org_chart : List (OrgMemory K)
  processes : List (OrgMemory K)
  handoffs : List (OrgMemory K)
  weekly_summary : Option (OrgMemory K)
  mental_models : List (HindsightMemory K)
  decisions : List (HindsightMemory K)
  lessons : List (HindsightMemory K)
  reflection_counter : Option Int

/-- `SELECT .. FROM org_memory WHERE type = ty`, in the session of the transaction. -/
def select_org (s : Session) (db : Db K) (ty : OrgType) : List (OrgMemory K) :=
  row_security.select (org_memory_policies K) s.current_user s (fun r => r.type = ty) db.org_memory

/-- `SELECT .. FROM hindsight_memories WHERE agent_id = $1 AND w`, in the session of the
transaction. -/
def select_private (s : Session) (db : Db K) (agent_id : UUID) (w : HindsightMemory K → Bool) :
    List (HindsightMemory K) :=
  row_security.select (hindsight_memories_policies K) s.current_user s
    (fun r => r.agent_id = agent_id && w r) db.hindsight_memories

/-- The transaction of `get_context`. -/
def fetch_context (db : Db K) (agent : AgentIdentity) : Except Failure (ContextRows K) := do
  let s := tenant_transaction db .qortia_platform agent.tenant_id agent.agent_id
    agent.clearance_order agent.division
  assert_agent_active agent.agent_id agent.tenant_id db
  return {
    org_chart := rows.order_asc (·.created_at) (select_org s db .org_chart)
    processes := rows.order_asc (·.created_at) (select_org s db .process)
    handoffs := (rows.order_desc (·.created_at) (select_org s db .handoff)).take 5
    weekly_summary := (rows.order_desc (·.created_at) (select_org s db .weekly_summary)).head?
    mental_models := (rows.order_desc (·.importance)
      (select_private s db agent.agent_id fun r =>
        r.type = .mental_model && r.is_consolidated)).take 20
    -- ORDER BY importance DESC, created_at DESC
    decisions := (rows.order_desc (·.importance) (rows.order_desc (·.created_at)
      (select_private s db agent.agent_id fun r => r.type = .decision))).take 15
    lessons := (rows.order_desc (·.importance)
      (select_private s db agent.agent_id fun r => r.type = .lesson && r.is_consolidated)).take 20
    reflection_counter :=
      (db.qortia_agents.find? fun a => a.id = agent.agent_id).map (·.reflection_counter) }

/-- `MemoryEntry(title=r["title"], content=r["content"])`. -/
def org_entry (r : OrgMemory K) : MemoryEntry := { title := some r.title, content := r.content }

/-- `MemoryEntry(content=r["content"], importance=r["importance"])`. -/
def private_entry (r : HindsightMemory K) : MemoryEntry :=
  { content := r.content, importance := some r.importance }

/-- The response that `get_context` builds from the rows. -/
def ContextRows.response (f : ContextRows K) (budget : Option Int) : ContextResponse where
  org_chart := f.org_chart.map org_entry
  processes := f.processes.map org_entry
  handoffs := f.handoffs.map org_entry
  weekly_summary := f.weekly_summary.map org_entry
  memories := budget_memories (f.mental_models.map private_entry) (f.decisions.map private_entry)
    (f.lessons.map private_entry) budget
  reflection_counter := f.reflection_counter.getD 0

/-- `get_context`. -/
def get_context (db : Db K) (agent : AgentIdentity) (budget : Option Int) :
    Except Failure ContextResponse := do
  return (← fetch_context db agent).response budget

/-- The organisation rows that the response shows. -/
def ContextRows.org (f : ContextRows K) : List (OrgMemory K) :=
  f.org_chart ++ f.processes ++ f.handoffs ++ f.weekly_summary.toList

/-! ## Who may see the organisation rows -/

/-- `SELECT .. WHERE type = ty ORDER BY created_at DESC LIMIT n` over the whole table, whatever
the tenant. -/
def newest (n : Nat) (ty : OrgType) (db : Db K) : List (OrgMemory K) :=
  (rows.order_desc (·.created_at) (db.org_memory.filter fun r => r.type = ty)).take n

/-- Every organisation row of the response is one that the agent may see. -/
def ShowsOnlyVisible (db : Db K) (agent : AgentIdentity) (f : ContextRows K) : Prop :=
  ∀ r ∈ f.org, org_visible db agent r = true

/-- No row that the agent may not see is in the way: no organisation chart and no process of
any tenant, none of the five newest handoffs, and not the newest weekly summary. -/
structure NothingHiddenInReach (db : Db K) (agent : AgentIdentity) : Prop where
  charts : ∀ r ∈ db.org_memory, r.type = .org_chart ∨ r.type = .process →
    org_visible db agent r = true
  handoffs : ∀ r ∈ newest 5 .handoff db, org_visible db agent r = true
  weekly_summary : ∀ r ∈ newest 1 .weekly_summary db, org_visible db agent r = true

/-- Row security takes nothing away from a query of the service. -/
theorem select_org_eq (s : Session) (hs : s.current_user = .qortia_platform) (db : Db K)
    (ty : OrgType) : select_org s db ty = db.org_memory.filter fun r => r.type = ty := by
  unfold select_org row_security.select
  refine List.filter_congr fun r _ => ?_
  rw [show row_security.visible (org_memory_policies K) s.current_user s .select r = true from
    platform_visible .org_memory s hs .select r, Bool.true_and]

theorem fetch_context_ok {db : Db K} {agent : AgentIdentity} {f : ContextRows K}
    (h : fetch_context db agent = .ok f) :
    f.org_chart = rows.order_asc (·.created_at)
        (db.org_memory.filter fun r => r.type = .org_chart) ∧
      f.processes = rows.order_asc (·.created_at)
        (db.org_memory.filter fun r => r.type = .process) ∧
      f.handoffs = newest 5 .handoff db ∧
      f.weekly_summary = (newest 1 .weekly_summary db).head? := by
  unfold fetch_context at h
  cases ha : assert_agent_active agent.agent_id agent.tenant_id db with
  | error e => rw [ha] at h; cases h
  | ok u =>
    rw [ha] at h
    cases h
    refine ⟨?_, ?_, ?_, ?_⟩ <;> simp only [newest]
    all_goals rw [select_org_eq _ rfl]
    rw [List.head?_take]
    rfl

theorem shows_only_visible_iff {db : Db K} {agent : AgentIdentity} {f : ContextRows K}
    (h : fetch_context db agent = .ok f) :
    ShowsOnlyVisible db agent f ↔ NothingHiddenInReach db agent := by
  obtain ⟨hc, hp, hh, hw⟩ := fetch_context_ok h
  have hw' : f.weekly_summary.toList = newest 1 .weekly_summary db := by
    rw [hw]
    rw [← List.take_one]
    simp [newest, List.take_take]
  unfold ShowsOnlyVisible ContextRows.org
  rw [hc, hp, hh, hw']
  simp only [List.mem_append, rows.mem_order_asc, List.mem_filter, decide_eq_true_eq]
  constructor
  · intro hall
    refine ⟨fun r hr ht => ?_, fun r hr => ?_, fun r hr => ?_⟩
    · rcases ht with ht | ht
      · exact hall r (Or.inl (Or.inl (Or.inl ⟨hr, ht⟩)))
      · exact hall r (Or.inl (Or.inl (Or.inr ⟨hr, ht⟩)))
    · exact hall r (Or.inl (Or.inr hr))
    · exact hall r (Or.inr hr)
  · rintro ⟨h1, h2, h3⟩ r (((hr | hr) | hr) | hr)
    · exact h1 r hr.1 (Or.inl hr.2)
    · exact h1 r hr.1 (Or.inr hr.2)
    · exact h2 r hr
    · exact h3 r hr

/-- The response shows the rows that the transaction fetched, and they are all rows that the
agent may see exactly when no other row is in reach of the queries. -/
theorem context_shows_only_visible_rows_iff (db : Db K) (agent : AgentIdentity)
    (budget : Option Int) (resp : ContextResponse) (h : get_context db agent budget = .ok resp) :
    ∃ f, fetch_context db agent = .ok f ∧ resp = f.response budget ∧
      (ShowsOnlyVisible db agent f ↔ NothingHiddenInReach db agent) := by
  unfold get_context at h
  cases hf : fetch_context db agent with
  | error e => rw [hf] at h; cases h
  | ok f =>
    rw [hf] at h
    cases h
    exact ⟨f, rfl, rfl, shows_only_visible_iff hf⟩

/-- A handoff of tenant 2. -/
def night_shift : OrgMemory ℚ :=
  { id := 11, tenant_id := 2, type := .handoff, title := "night shift",
    content := "the ledger job is stuck since midnight and waits for a restart",
    valid_from := 0, created_at := 0, updated_at := 0 }

/-- Agent 20 is of tenant 1. -/
def two_tenants : Db ℚ :=
  { qortia_agents := [{ id := 20, tenant_id := 1, updated_at := 0 }]
    org_memory := [night_shift] }

def two_tenants_response : ContextResponse :=
  { org_chart := [], processes := [], handoffs := [org_entry night_shift]
    weekly_summary := none, memories := ⟨[], [], []⟩, reflection_counter := 0 }

theorem context_shows_only_visible_rows_iff_two_tenants :
    ∃ f, fetch_context two_tenants ⟨20, 1, 2, "all"⟩ = .ok f ∧
      two_tenants_response = f.response none ∧
      (ShowsOnlyVisible two_tenants ⟨20, 1, 2, "all"⟩ f ↔
        NothingHiddenInReach two_tenants ⟨20, 1, 2, "all"⟩) :=
  context_shows_only_visible_rows_iff two_tenants ⟨20, 1, 2, "all"⟩ none two_tenants_response
    (by decide +kernel)

/-- The agent of tenant 1 is shown the handoff of tenant 2, and no row that it may see has that
title and text. -/
theorem context_shows_a_handoff_of_another_tenant :
    ∃ f, fetch_context two_tenants ⟨20, 1, 2, "all"⟩ = .ok f ∧
      ¬ ShowsOnlyVisible two_tenants ⟨20, 1, 2, "all"⟩ f ∧
      org_entry night_shift ∈ (f.response none).handoffs ∧
      ∀ r ∈ two_tenants.org_memory, org_visible two_tenants ⟨20, 1, 2, "all"⟩ r = true →
        org_entry r ≠ org_entry night_shift := by
  refine ⟨_, rfl, fun h => ?_, by decide +kernel, by decide +kernel⟩
  have hv := h night_shift (by decide +kernel)
  exact absurd hv (by decide +kernel)

end qortia
