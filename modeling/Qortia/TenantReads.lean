-- What an organisation is answered. A recall reads the rows of the organisation alone, so that it
-- finds the same whatever the agents of other organisations have asked, reported and written.
import Qortia.RecallView
import Qortia.TenantWrites

namespace qortia

variable {K : Type}

/-! ## The tables of one organisation -/

/-- The rows of the tenant that a recall can read. -/
def Db.of_tenant (t : UUID) (db : Db K) : Db K where
  qortia_agents := db.qortia_agents.filter fun r => r.tenant_id = t
  hindsight_memories := db.hindsight_memories.filter fun r => r.tenant_id = t
  org_memory := db.org_memory.filter fun r => r.tenant_id = t
  org_knowledge := db.org_knowledge.filter fun r => r.tenant_id = t
  qortia_entities := db.qortia_entities.filter fun r => r.tenant_id = t
  memory_links := db.memory_links.filter fun r => r.tenant_id = t
  qortia_clearance_levels := db.qortia_clearance_levels

theorem Db.SameFor.of_tenant {t : UUID} {db db' : Db K} (h : db.SameFor t db') :
    db'.of_tenant t = db.of_tenant t := by
  unfold Db.of_tenant
  rw [h.qortia_agents, h.hindsight_memories, h.org_memory, h.org_knowledge, h.qortia_entities,
    h.memory_links, h.qortia_clearance_levels]

/-- The memories of an agent are of its tenant. -/
def Db.InTenant (agent : AgentIdentity) (db : Db K) : Prop :=
  ∀ r ∈ db.hindsight_memories, r.agent_id = agent.agent_id → r.tenant_id = agent.tenant_id

theorem Db.Owned.in_tenant {db : Db K} (h : db.Owned) {agent : AgentIdentity}
    (hkey : (agent.agent_id, agent.tenant_id) ∈ db.agent_keys) : db.InTenant agent :=
  fun _ hr hid => h.tenant_of_memory hkey hr hid

section
variable {agent : AgentIdentity} {db : Db K}

theorem assert_agent_active_of_tenant (agent : AgentIdentity) (db : Db K) :
    assert_agent_active agent.agent_id agent.tenant_id (db.of_tenant agent.tenant_id) =
      assert_agent_active agent.agent_id agent.tenant_id db := by
  have hagent : (db.of_tenant agent.tenant_id).qortia_agents.find?
        (fun a => a.id = agent.agent_id ∧ a.tenant_id = agent.tenant_id) =
      db.qortia_agents.find? (fun a => a.id = agent.agent_id ∧ a.tenant_id = agent.tenant_id) := by
    apply rows.find?_filter_of
    intro a ha
    exact decide_eq_true (of_decide_eq_true ha).2
  unfold assert_agent_active
  rw [hagent]

/-! ## The searches -/

variable [Field K] [LinearOrder K]

theorem run_leg_of_tenant (h : db.InTenant agent) (o : Outside K) (cfg : Settings)
    (env : RecallEnv K) (body : RecallRequest) (l : Leg) :
    run_leg o cfg env body agent (db.of_tenant agent.tenant_id) l =
      run_leg o cfg env body agent db l := by
  have hprivate : ∀ r ∈ db.hindsight_memories, private_where env.now body agent r = true →
      decide (r.tenant_id = agent.tenant_id) = true := by
    intro r hr hwhere
    unfold private_where at hwhere
    simp only [Bool.and_eq_true] at hwhere
    exact decide_eq_true (h r hr (of_decide_eq_true hwhere.1.1.1.1.1.1.1))
  have horg : ∀ r : OrgMemory K, org_where env.now body agent db r = true →
      decide (r.tenant_id = agent.tenant_id) = true := by
    intro r hwhere
    unfold org_where org_visible at hwhere
    simp only [Bool.and_eq_true] at hwhere
    exact hwhere.1.1.1.1.1
  have hknowledge : ∀ r : OrgKnowledge K, knowledge_visible db agent r = true →
      decide (r.tenant_id = agent.tenant_id) = true := by
    intro r hwhere
    unfold knowledge_visible at hwhere
    simp only [Bool.and_eq_true] at hwhere
    exact hwhere.1.1
  cases l with
  | bm25_private =>
    apply congrArg (top_rows _ _)
    apply rows.filterMap_filter_of
    intro r hr x hpick
    obtain ⟨hwhere, -⟩ := Option.ite_none_right_eq_some.mp hpick
    exact hprivate r hr (Bool.and_eq_true_iff.mp hwhere).2
  | vector_private =>
    apply congrArg (top_rows _ _)
    apply rows.filterMap_filter_of
    intro r hr x hpick
    obtain ⟨v, -, hpick⟩ := Option.bind_eq_some_iff.mp hpick
    obtain ⟨hwhere, -⟩ := Option.ite_none_right_eq_some.mp hpick
    exact hprivate r hr (Bool.and_eq_true_iff.mp hwhere).2
  | bm25_org =>
    apply congrArg (top_rows _ _)
    apply rows.filterMap_filter_of
    intro r _ x hpick
    obtain ⟨hwhere, -⟩ := Option.ite_none_right_eq_some.mp hpick
    exact horg r (Bool.and_eq_true_iff.mp hwhere).2
  | vector_org =>
    apply congrArg (top_rows _ _)
    apply rows.filterMap_filter_of
    intro r _ x hpick
    obtain ⟨v, -, hpick⟩ := Option.bind_eq_some_iff.mp hpick
    obtain ⟨hwhere, -⟩ := Option.ite_none_right_eq_some.mp hpick
    exact horg r hwhere
  | bm25_knowledge =>
    apply congrArg (top_rows _ _)
    apply rows.filterMap_filter_of
    intro r _ x hpick
    obtain ⟨hwhere, -⟩ := Option.ite_none_right_eq_some.mp hpick
    exact hknowledge r (Bool.and_eq_true_iff.mp hwhere).2
  | vector_knowledge =>
    apply congrArg (fun found => (top_rows _ _ found).map _)
    apply rows.filterMap_filter_of
    intro r _ x hpick
    obtain ⟨v, -, hpick⟩ := Option.bind_eq_some_iff.mp hpick
    obtain ⟨hwhere, -⟩ := Option.ite_none_right_eq_some.mp hpick
    exact hknowledge r hwhere

theorem search_of_tenant (h : db.InTenant agent) (o : Outside K) (cfg : Settings)
    (env : RecallEnv K) (body : RecallRequest) :
    search o cfg env body agent (db.of_tenant agent.tenant_id) =
      search o cfg env body agent db := by
  unfold search
  rw [funext (run_leg_of_tenant h o cfg env body)]

/-! ## The entities -/

omit [Field K] [LinearOrder K] in
theorem seeds_of_tenant (agent : AgentIdentity) (query_entities : List String) (db : Db K) :
    (db.of_tenant agent.tenant_id).qortia_entities.filter (entity_where agent query_entities) =
      db.qortia_entities.filter (entity_where agent query_entities) := by
  apply rows.filter_filter_of
  intro e _ hwhere
  unfold entity_where at hwhere
  simp only [Bool.and_eq_true] at hwhere
  exact hwhere.1.1.1

omit [Field K] [LinearOrder K] in
theorem query_links_of_tenant (o : Outside K) (env : RecallEnv K) (body : RecallRequest)
    (agent : AgentIdentity) (db : Db K) :
    query_links o env body agent (db.of_tenant agent.tenant_id) =
      query_links o env body agent db := by
  unfold query_links linked_rows
  simp only [seeds_of_tenant]

theorem next_entities_of_tenant (o : Outside K) (unordered : ∀ {α : Type}, List α → List α)
    (query_embedding : List K) (visited : List UUID) (tenant_id : UUID) (db : Db K) :
    next_entities o unordered query_embedding visited tenant_id (db.of_tenant tenant_id) =
      next_entities o unordered query_embedding visited tenant_id db := by
  unfold next_entities
  apply congrArg (fun found => (unordered found).take 10)
  have hfirst : (db.of_tenant tenant_id).qortia_entities.filter
        (fun e₁ => e₁.id ∈ visited && e₁.tenant_id = tenant_id) =
      db.qortia_entities.filter (fun e₁ => e₁.id ∈ visited && e₁.tenant_id = tenant_id) := by
    apply rows.filter_filter_of
    intro e₁ _ hwhere
    rw [Bool.and_eq_true] at hwhere
    exact hwhere.2
  rw [hfirst]
  apply List.flatMap_congr
  intro e₁ _
  apply rows.filterMap_filter_of
  intro e₂ _ x hpick
  obtain ⟨v, -, hpick⟩ := Option.bind_eq_some_iff.mp hpick
  obtain ⟨hjoin, -⟩ := Option.ite_none_right_eq_some.mp hpick
  simp only [Bool.and_eq_true] at hjoin
  exact hjoin.1.2

theorem bfs_hops_of_tenant (o : Outside K) (unordered : ∀ {α : Type}, List α → List α)
    (query_embedding : List K) (tenant_id : UUID) (decay : K) (db : Db K) (max_depth : Nat)
    (t : Traversal K) :
    bfs_hops o unordered query_embedding tenant_id decay (db.of_tenant tenant_id) max_depth t =
      bfs_hops o unordered query_embedding tenant_id decay db max_depth t := by
  induction max_depth generalizing t with
  | zero => rfl
  | succ depth ih =>
    unfold bfs_hops
    rw [next_entities_of_tenant]
    split
    · rfl
    · exact ih _

theorem fuse_memories_of_tenant (o : Outside K) (cfg : Settings) (env : RecallEnv K)
    (agent : AgentIdentity) (query_entities : List String) (entity_links : List UUID)
    (memory_results : List (RecallResult K)) (db : Db K) :
    fuse_memories o cfg env agent query_entities entity_links memory_results
        (db.of_tenant agent.tenant_id) =
      fuse_memories o cfg env agent query_entities entity_links memory_results db := by
  unfold fuse_memories bfs_entity_traversal
  simp only [seeds_of_tenant, bfs_hops_of_tenant]

/-! ## The pipeline -/

theorem fused_part_of_tenant (h : db.InTenant agent) (o : Outside K) (cfg : Settings)
    (env : RecallEnv K) (body : RecallRequest) :
    fused_part o cfg env body agent (db.of_tenant agent.tenant_id) =
      fused_part o cfg env body agent db := by
  unfold fused_part
  rw [fuse_memories_of_tenant, query_links_of_tenant, search_of_tenant h]

theorem expand_with_links_of_tenant (now : Timestamp) (tenant_id agent_id : UUID) (failed : Bool)
    (unordered : ∀ {α : Type}, List α → List α) (results : List (RecallResult K)) (db : Db K) :
    expand_with_links now tenant_id agent_id failed unordered results (db.of_tenant tenant_id) =
      expand_with_links now tenant_id agent_id failed unordered results db := by
  have hlinks : (db.of_tenant tenant_id).memory_links.filter (fun l =>
        l.source_id ∈ (results.take EXPAND_TOP_RESULTS).map (·.id) && l.tenant_id = tenant_id) =
      db.memory_links.filter (fun l =>
        l.source_id ∈ (results.take EXPAND_TOP_RESULTS).map (·.id) && l.tenant_id = tenant_id) := by
    apply rows.filter_filter_of
    intro l _ hwhere
    rw [Bool.and_eq_true] at hwhere
    exact hwhere.2
  have hmemories : ∀ new_ids : List UUID,
      (db.of_tenant tenant_id).hindsight_memories.filter (fun r => r.id ∈ new_ids &&
        r.tenant_id = tenant_id && r.agent_id = agent_id && r.tier = .active &&
        r.expires_at.all (now < ·) && r.valid_until.all (now < ·)) =
      db.hindsight_memories.filter (fun r => r.id ∈ new_ids &&
        r.tenant_id = tenant_id && r.agent_id = agent_id && r.tier = .active &&
        r.expires_at.all (now < ·) && r.valid_until.all (now < ·)) := by
    intro new_ids
    apply rows.filter_filter_of
    intro r _ hwhere
    simp only [Bool.and_eq_true] at hwhere
    exact hwhere.1.1.1.1.2
  unfold expand_with_links
  simp only [hlinks, hmemories]

theorem hybrid_of_tenant [HasSqrt K] (h : db.InTenant agent) (o : Outside K) (cfg : Settings)
    (env : RecallEnv K) (body : RecallRequest) :
    hybrid_recall_pipeline o cfg env body agent (db.of_tenant agent.tenant_id) =
      hybrid_recall_pipeline o cfg env body agent db := by
  have hlinked : linked_part o cfg env body agent (db.of_tenant agent.tenant_id) =
      linked_part o cfg env body agent db := by
    unfold linked_part linked_memories
    rw [fused_part_of_tenant h, expand_with_links_of_tenant]
  rw [hybrid_eq, hybrid_eq, fused_part_of_tenant h, hlinked]
  unfold top_entity_summary knowledge_part
  rw [query_links_of_tenant, search_of_tenant h]

/-! ## The routes -/

theorem recall_routed_of_tenant (h : db.InTenant agent) (o : Outside K) (now : Timestamp)
    (body : RecallRequest) (type : MemoryType) (tier : Tier)
    (condition : HindsightMemory K → Bool)
    (order : List (HindsightMemory K) → List (HindsightMemory K))
    (columns : HindsightMemory K → FetchedRow K) (keep : FetchedRow K → Bool) :
    recall_routed o now body agent type tier condition order columns keep
        (db.of_tenant agent.tenant_id) =
      recall_routed o now body agent type tier condition order columns keep db := by
  have hpicked : (db.of_tenant agent.tenant_id).hindsight_memories.filter
        (fun r => routed_where now body agent type tier r && condition r) =
      db.hindsight_memories.filter
        (fun r => routed_where now body agent type tier r && condition r) := by
    apply rows.filter_filter_of
    intro r hr hwhere
    unfold routed_where at hwhere
    simp only [Bool.and_eq_true] at hwhere
    exact decide_eq_true (h r hr (of_decide_eq_true hwhere.1.1.1.1.1.1))
  unfold recall_routed
  simp only [hpicked]

variable [HasSqrt K]

theorem route_of_tenant (h : db.InTenant agent) (o : Outside K) (cfg : Settings)
    (env : RecallEnv K) (body : RecallRequest) :
    route o cfg env body agent (db.of_tenant agent.tenant_id) =
      route o cfg env body agent db := by
  unfold route recall_decisions recall_lessons recall_episodic recall_short_term
  simp only [recall_routed_of_tenant h, hybrid_of_tenant h]

theorem recall_of_tenant (h : db.InTenant agent) (o : Outside K) (cfg : Settings)
    (env : RecallEnv K) (answer : Option json.Json) (body : RecallRequest) :
    «recall» o cfg env answer body agent (db.of_tenant agent.tenant_id) =
      «recall» o cfg env answer body agent db := by
  unfold «recall»
  rw [assert_agent_active_of_tenant, route_of_tenant h]

end

/-! ## The lookups of a forget -/

section
variable {agent : AgentIdentity} {db : Db K}

theorem role_of_tenant (agent : AgentIdentity) (db : Db K) :
    (db.of_tenant agent.tenant_id).role agent.agent_id agent.tenant_id =
      db.role agent.agent_id agent.tenant_id := by
  unfold Db.role
  apply congrArg (Option.map _)
  apply rows.find?_filter_of
  intro a ha
  exact decide_eq_true (of_decide_eq_true ha).2

theorem find_forgotten_of_tenant (h : db.InTenant agent) (id : UUID) :
    find_forgotten agent id (db.of_tenant agent.tenant_id) = find_forgotten agent id db := by
  have hprivate : (db.of_tenant agent.tenant_id).hindsight_memories.find?
        (fun r => r.id = id ∧ r.agent_id = agent.agent_id) =
      db.hindsight_memories.find? (fun r => r.id = id ∧ r.agent_id = agent.agent_id) := by
    rw [← List.head?_filter, ← List.head?_filter]
    apply congrArg List.head?
    apply rows.filter_filter_of
    intro r hr hwhere
    exact decide_eq_true (h r hr (of_decide_eq_true hwhere).2)
  have horg : (db.of_tenant agent.tenant_id).org_memory.find?
        (fun r => r.id = id ∧ r.tenant_id = agent.tenant_id) =
      db.org_memory.find? (fun r => r.id = id ∧ r.tenant_id = agent.tenant_id) := by
    apply rows.find?_filter_of
    intro q hq
    exact decide_eq_true (of_decide_eq_true hq).2
  unfold find_forgotten may_forget_org
  rw [hprivate, horg]
  simp only [role_of_tenant]

/-- Whether the agent may forget a memory. -/
def may_forget (agent : AgentIdentity) (id : UUID) (db : Db K) : Except Failure Unit := do
  assert_agent_active agent.agent_id agent.tenant_id db
  let _ ← find_forgotten agent id db

/-- It is what a forget answers. -/
theorem forget_answers (o : Outside K) (agent : AgentIdentity) (now : Timestamp) (id : UUID)
    (db : Db K) : (forget o agent now id db).map (fun _ => ()) = may_forget agent id db := by
  unfold forget may_forget
  cases assert_agent_active agent.agent_id agent.tenant_id db with
  | error e => rfl
  | ok u =>
    cases find_forgotten agent id db with
    | error e => rfl
    | ok found => rfl

theorem may_forget_of_tenant (h : db.InTenant agent) (id : UUID) :
    may_forget agent id (db.of_tenant agent.tenant_id) = may_forget agent id db := by
  unfold may_forget
  rw [assert_agent_active_of_tenant, find_forgotten_of_tenant h]

end

/-! ## Every run -/

section
variable [Field K] [LinearOrder K] [HasSqrt K]

/-- From any state that the service reaches: however many requests, tasks and reports of the agents
of other organisations follow, every recall of the agent answers what it would have answered
before, and so does every request to forget. -/
theorem other_organisations_are_not_noticed (o o' : Outside K) (cfg cfg' : Settings)
    (cal : Calendar) (db : Db K) (hblank : db.Blank)
    (hagents : (db.qortia_agents.map (·.id)).Nodup) (earlier later : List (DeploymentAction K))
    (s s' : Deployment K) (agent : AgentIdentity)
    (hagent : (agent.agent_id, agent.tenant_id) ∈ db.agent_keys)
    (hearlier : runs.run (deployment_step o cfg cal) db.deployed earlier = some s)
    (hlater : runs.run (deployment_step o cfg cal) s later = some s')
    (helsewhere : ∀ a ∈ later, a.elsewhere agent.tenant_id) :
    (∀ env answer body, «recall» o' cfg' env answer body agent s'.db =
      «recall» o' cfg' env answer body agent s.db) ∧
    ∀ now id, (forget o' agent now id s'.db).map (fun _ => ()) =
      (forget o' agent now id s.db).map fun _ => () := by
  have hstart : GoodDeployment db.deployed := ⟨hblank.owned hagents, fun _ h => by cases h⟩
  obtain ⟨hgood, hkeys⟩ := run_good hstart hearlier
  obtain ⟨hgood', hkeys'⟩ := run_good hgood hlater
  have hkey : (agent.agent_id, agent.tenant_id) ∈ s.db.agent_keys := by
    rw [hkeys]
    exact hagent
  have hin : s.db.InTenant agent := hgood.owned.in_tenant hkey
  have hin' : s'.db.InTenant agent := hgood'.owned.in_tenant (hkeys' ▸ hkey)
  have hsame := (run_same_for hgood helsewhere hlater).of_tenant
  constructor
  · intro env answer body
    rw [← recall_of_tenant hin', hsame, recall_of_tenant hin]
  · intro now id
    rw [forget_answers, forget_answers, ← may_forget_of_tenant hin', hsame,
      may_forget_of_tenant hin]

end

/-! ## Two organisations -/

/-- The neighbour stores the text that the reporter has stored, and recalls it. -/
def neighbour_stores_the_same : List (DeploymentAction ℚ) :=
  .memory (.remember neighbour 1 0 [standup_moved]) ::
    (recall_and_report neighbour 7 .SUCCESS).map .request

theorem other_organisations_are_not_noticed_by_the_reporter :
    ∃ s s' : Deployment ℚ, s.db.hindsight_memories.map (·.content) = [moved_to_ten] ∧
      s'.db.hindsight_memories.map (·.content) =
        [moved_to_ten, moved_to_ten] ∧
      (∀ env answer body, «recall» no_models {} env answer body reporter s'.db =
        «recall» no_models {} env answer body reporter s.db) ∧
      ∀ now id, (forget no_models reporter now id s'.db).map (fun _ => ()) =
        (forget no_models reporter now id s.db).map fun _ => () := by
  have hend : ((runs.run (deployment_step no_models {} no_calendar) tenants_db.deployed
      reporter_remembers).bind fun s => (runs.run (deployment_step no_models {} no_calendar) s
        neighbour_stores_the_same).map fun s' => (s.db.hindsight_memories.map (·.content),
          s'.db.hindsight_memories.map (·.content))) =
      some ([moved_to_ten], [moved_to_ten, moved_to_ten]) := by
    decide +kernel
  obtain ⟨s, hs, hend⟩ := Option.bind_eq_some_iff.mp hend
  obtain ⟨s', hs', hend⟩ := Option.map_eq_some_iff.mp hend
  obtain ⟨hbefore, hafter⟩ := Prod.mk.inj hend
  refine ⟨s, s', hbefore, hafter, other_organisations_are_not_noticed no_models no_models {} {}
    no_calendar tenants_db ⟨rfl, rfl, rfl, rfl, rfl⟩ (by decide) reporter_remembers
    neighbour_stores_the_same s s' reporter (by decide) hs hs' ?_⟩
  have hagent : ∀ a ∈ neighbour_stores_the_same, a.agent = some neighbour := by decide
  exact fun a ha => ⟨neighbour, hagent a ha, by decide⟩

end qortia
