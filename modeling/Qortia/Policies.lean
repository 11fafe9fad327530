-- The row-security policies of `migrations/V1__initial_schema.sql` and the session that
-- `tenant_transaction` opens. The role `qortia_platform` is the one that the service connects
-- as.
import Qortia.Lib.RowSecurity
import Qortia.Schema

namespace qortia

open row_security

inductive Role where
  | qortia_platform
  | other (name : String)
  deriving DecidableEq

/-- What a policy expression reads: the user, the settings `app.*` (`none` when unset or
empty), and the table `qortia_clearance_levels`. -/
structure Session where
  current_user : Role
  tenant_id : Option UUID := none
  agent_id : Option UUID := none
  memory_clearance_order : Option Int := none
  agent_division : Option String := none
  level_order : String → Option Int

/-- `qortia.db.tenant_transaction`. The setting `app.agent_id` stays unset when no agent is
given, and an empty division counts as `all`. -/
def tenant_transaction {K : Type} (db : Db K) (current_user : Role) (tenant_id : UUID)
    (agent_id : Option UUID := none) (memory_clearance_order : Option Int := none)
    (agent_division : Option String := none) : Session where
  current_user := current_user
  tenant_id := some tenant_id
  agent_id := agent_id
  memory_clearance_order := some (memory_clearance_order.getD 2)
  agent_division :=
    some (if agent_division.getD "" = "" then "all" else agent_division.getD "")
  level_order := db.level_order

/-! ## The policies -/

/-- `tenant_isolation ... FOR ALL USING (..) WITH CHECK (..)`. -/
def tenant_isolation {Row : Type} (tenant_id : Row → UUID) : Policy Role Session Row where
  using_ s r := s.tenant_id = some (tenant_id r)
  with_check := some fun s r => s.tenant_id = some (tenant_id r)

/-- `platform_write ... FOR ALL TO qortia_platform USING (true) WITH CHECK (true)`. -/
def platform_write {Row : Type} : Policy Role Session Row where
  role := some .qortia_platform
  using_ _ _ := true
  with_check := some fun _ _ => true

/-- `min_clearance` is a level that the order reaches. A level that is not in the table gives
NULL, which lets nothing through. -/
def clearance_reaches (level_order : String → Option Int) (order : Int) (min_clearance : String) :
    Bool :=
  match level_order min_clearance with
  | some o => decide (o ≤ order)
  | none => false

/-- `division = ANY(audience) OR 'all' = ANY(audience)`. -/
def audience_holds (audience : List String) (division : String) : Bool :=
  division ∈ audience || "all" ∈ audience

/-- `tenant_visibility_read ... FOR SELECT USING (..)`. -/
def tenant_visibility_read {Row : Type} (tenant_id : Row → UUID) (min_clearance : Row → String)
    (audience : Row → List String) : Policy Role Session Row where
  command := some .select
  using_ s r :=
    s.tenant_id = some (tenant_id r) &&
      clearance_reaches s.level_order (s.memory_clearance_order.getD 2) (min_clearance r) &&
      audience_holds (audience r) (s.agent_division.getD "all")

/-- The visibility predicate on `org_memory` that `_bm25_org` and `_vector_org` spell out: the
tenant, the clearance and the audience. -/
def org_visible {K : Type} (db : Db K) (agent : AgentIdentity) (r : OrgMemory K) : Bool :=
  r.tenant_id = agent.tenant_id &&
    clearance_reaches db.level_order agent.clearance_order r.min_clearance &&
    audience_holds r.audience agent.division

section
variable (K : Type)

def hindsight_memories_policies : List (Policy Role Session (HindsightMemory K)) :=
  [tenant_isolation (·.tenant_id),
   -- agent_read_isolation
   { restrictive := true
     command := some .select
     using_ := fun s r => s.current_user = .qortia_platform || s.agent_id = some r.agent_id },
   platform_write]

def org_memory_policies : List (Policy Role Session (OrgMemory K)) :=
  [tenant_visibility_read (·.tenant_id) (·.min_clearance) (·.audience), platform_write]

def org_knowledge_policies : List (Policy Role Session (OrgKnowledge K)) :=
  [tenant_visibility_read (·.tenant_id) (·.min_clearance) (·.audience), platform_write]

def qortia_entities_policies : List (Policy Role Session (Entity K)) :=
  [tenant_isolation (·.tenant_id),
   -- agent_read_isolation
   { restrictive := true
     command := some .select
     using_ := fun s r =>
       s.current_user = .qortia_platform || r.agent_id.isNone || s.agent_id = r.agent_id },
   platform_write]

def memory_links_policies : List (Policy Role Session (MemoryLink K)) :=
  [tenant_isolation (·.tenant_id), platform_write]

def memory_history_policies : List (Policy Role Session MemoryHistory) :=
  [tenant_isolation (·.tenant_id), platform_write]

def qortia_session_reads_policies : List (Policy Role Session SessionRead) :=
  [tenant_isolation (·.tenant_id), platform_write]

def qortia_outcome_records_policies : List (Policy Role Session OutcomeRecord) :=
  [tenant_isolation (·.tenant_id), platform_write]

end

/-! ## The eight tables under row security -/

/-- The tables with `ENABLE ROW LEVEL SECURITY` and `FORCE ROW LEVEL SECURITY`. -/
inductive TenantTable where
  | hindsight_memories
  | org_memory
  | org_knowledge
  | qortia_entities
  | memory_links
  | memory_history
  | qortia_session_reads
  | qortia_outcome_records
  deriving DecidableEq, Repr

namespace TenantTable

abbrev Row (K : Type) : TenantTable → Type
  | hindsight_memories => HindsightMemory K
  | org_memory => OrgMemory K
  | org_knowledge => OrgKnowledge K
  | qortia_entities => Entity K
  | memory_links => MemoryLink K
  | memory_history => MemoryHistory
  | qortia_session_reads => SessionRead
  | qortia_outcome_records => OutcomeRecord

variable {K : Type}

def tenant_id : (T : TenantTable) → T.Row K → UUID
  | hindsight_memories => HindsightMemory.tenant_id
  | org_memory => OrgMemory.tenant_id
  | org_knowledge => OrgKnowledge.tenant_id
  | qortia_entities => Entity.tenant_id
  | memory_links => MemoryLink.tenant_id
  | memory_history => MemoryHistory.tenant_id
  | qortia_session_reads => SessionRead.tenant_id
  | qortia_outcome_records => OutcomeRecord.tenant_id

def policies : (T : TenantTable) → List (Policy Role Session (T.Row K))
  | hindsight_memories => hindsight_memories_policies K
  | org_memory => org_memory_policies K
  | org_knowledge => org_knowledge_policies K
  | qortia_entities => qortia_entities_policies K
  | memory_links => memory_links_policies K
  | memory_history => memory_history_policies
  | qortia_session_reads => qortia_session_reads_policies
  | qortia_outcome_records => qortia_outcome_records_policies

/-- `GRANT .. TO qortia_platform`. The audit trail has no UPDATE and no DELETE grant. -/
def granted : TenantTable → Command → Bool
  | memory_history, .update | memory_history, .delete => false
  | _, _ => true

/-- The rows that one statement of the service reads or writes. -/
def platform_touches (T : TenantTable) (s : Session) (stmt : Statement (T.Row K))
    (contents : List (T.Row K)) : List (T.Row K) :=
  if T.granted stmt.command then touched T.policies s.current_user s stmt contents else []

end TenantTable

/-! ## Who the policies let through -/

variable {K : Type}

theorem combine_platform (T : TenantTable) (expr : Policy Role Session (T.Row K) → T.Row K → Bool)
    (cmd : Command) (r : T.Row K) (hplat : expr platform_write r = true)
    (hres : ∀ p ∈ T.policies, p.restrictive = true → expr p r = true) :
    combine T.policies expr .qortia_platform cmd r = true := by
  rw [combine_eq_true]
  refine ⟨⟨platform_write, ?_, by simp [Policy.applies, platform_write], rfl, hplat⟩,
    fun p hp _ hr => hres p hp hr⟩
  cases T <;> simp [TenantTable.policies, hindsight_memories_policies, org_memory_policies,
    org_knowledge_policies, qortia_entities_policies, memory_links_policies,
    memory_history_policies, qortia_session_reads_policies, qortia_outcome_records_policies]

/-- A restrictive policy of the schema exempts `qortia_platform`. -/
theorem restrictive_exempts_platform (T : TenantTable) (p : Policy Role Session (T.Row K))
    (hp : p ∈ T.policies) (hr : p.restrictive = true) (s : Session) (r : T.Row K)
    (hs : s.current_user = .qortia_platform) : p.using_ s r = true ∧ p.check s r = true := by
  cases T <;> simp only [TenantTable.policies, hindsight_memories_policies, org_memory_policies,
    org_knowledge_policies, qortia_entities_policies, memory_links_policies,
    memory_history_policies, qortia_session_reads_policies, qortia_outcome_records_policies,
    List.mem_cons, List.not_mem_nil, or_false] at hp
  all_goals rcases hp with rfl | rfl | rfl | rfl
  all_goals simp_all [tenant_isolation, tenant_visibility_read, platform_write, Policy.check]

theorem platform_visible (T : TenantTable) (s : Session) (hs : s.current_user = .qortia_platform)
    (cmd : Command) (r : T.Row K) : visible T.policies s.current_user s cmd r = true := by
  have h (c : Command) : combine T.policies (fun p => p.using_ s) .qortia_platform c r = true :=
    combine_platform T _ c r rfl fun p hp hr => (restrictive_exempts_platform T p hp hr s r hs).1
  unfold visible
  rw [hs, h cmd, h .select]
  rfl

theorem platform_writable (T : TenantTable) (s : Session) (hs : s.current_user = .qortia_platform)
    (cmd : Command) (r : T.Row K) : writable T.policies s.current_user s cmd r = true := by
  have hc : combine T.policies (fun p => p.check s) .qortia_platform cmd r = true :=
    combine_platform T _ cmd r rfl fun p hp hr => (restrictive_exempts_platform T p hp hr s r hs).2
  have hu : combine T.policies (fun p => p.using_ s) .qortia_platform .select r = true :=
    combine_platform T _ .select r rfl fun p hp hr =>
      (restrictive_exempts_platform T p hp hr s r hs).1
  unfold writable
  rw [hs, hc, hu]
  simp

/-- `platform_write` lets the service through on every row, so a statement of the service
touches what its own WHERE clause picks. -/
theorem platform_touches_eq (T : TenantTable) (s : Session)
    (hs : s.current_user = .qortia_platform) (stmt : Statement (T.Row K))
    (contents : List (T.Row K)) :
    T.platform_touches s stmt contents =
      if T.granted stmt.command then stmt.targets contents else [] := by
  unfold TenantTable.platform_touches
  rw [touched_eq_targets (platform_visible T s hs) (platform_writable T s hs)]

/-- Any other role is held to its tenant by every policy that applies to it. -/
theorem other_role_demands_tenant (T : TenantTable) (s : Session) (name : String)
    (hs : s.current_user = .other name) (expr : Policy Role Session (T.Row K) → T.Row K → Bool)
    (hexpr : ∀ p r, expr p r = p.using_ s r ∨ expr p r = p.check s r) (cmd : Command)
    (r : T.Row K) (h : combine T.policies expr s.current_user cmd r = true) :
    s.tenant_id = some (T.tenant_id r) := by
  refine combine_of_permissive (P := fun r => s.tenant_id = some (T.tenant_id r)) ?_ h
  intro p hp ha hr he
  have hp' : p = tenant_isolation T.tenant_id ∨ p.restrictive = true ∨ p = platform_write ∨
      ∃ min_clearance audience,
        p = tenant_visibility_read T.tenant_id min_clearance audience := by
    cases T <;> simp only [TenantTable.policies, hindsight_memories_policies, org_memory_policies,
      org_knowledge_policies, qortia_entities_policies, memory_links_policies,
      memory_history_policies, qortia_session_reads_policies, qortia_outcome_records_policies,
      List.mem_cons, List.not_mem_nil, or_false] at hp
    all_goals rcases hp with rfl | rfl | rfl
    all_goals simp [TenantTable.tenant_id]
  rcases hp' with rfl | hp' | rfl | ⟨mc, au, rfl⟩
  · rcases hexpr (tenant_isolation T.tenant_id) r with h1 | h1
    · rw [h1] at he
      simpa [tenant_isolation] using he
    · rw [h1] at he
      simpa [tenant_isolation, Policy.check] using he
  · rw [hr] at hp'; cases hp'
  · simp [Policy.applies, platform_write, hs] at ha
  · have h1 : (tenant_visibility_read T.tenant_id mc au).using_ s r = true := by
      rcases hexpr (tenant_visibility_read T.tenant_id mc au) r with h1 | h1
      · rw [← h1]; exact he
      · rw [h1] at he; exact he
    simp only [tenant_visibility_read, Bool.and_eq_true, decide_eq_true_eq] at h1
    exact h1.1.1

end qortia
