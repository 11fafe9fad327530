-- What every provisioned deployment is like. Its tables refer to each other, and no command makes
-- a chief: the processes, the decisions and the knowledge of an organisation stay empty until an
-- agent is promoted by other means.
import Qortia.Authentication

namespace qortia.provisioning

variable {K : Type}

/-! ## References -/

section
variable {o : Outside K} {s : Logged K}

theorem Agrees.keys_tenants (h : Agrees o s) :
    ∀ k ∈ s.platform.qortia_api_keys, k.tenant_id ∈ s.log.tenants := by
  intro k hk
  have hstored : stored k ∈ s.platform.qortia_api_keys.map stored := List.mem_map_of_mem hk
  rw [h.keys.stored] at hstored
  obtain ⟨c, hc, hsame⟩ := List.mem_map.mp hstored
  have howner : c.owner = k.tenant_id := congrArg credentials.Stored.owner hsame
  rw [← howner]
  exact h.key_tenants c hc

theorem Agrees.agents_tenants (h : Agrees o s) :
    ∀ a ∈ s.platform.db.qortia_agents, a.tenant_id ∈ s.log.tenants := by
  intro a ha
  have hlabels : labels a ∈ s.log.agents := by
    rw [← h.agents]
    exact List.mem_map_of_mem ha
  exact h.agent_tenants _ hlabels

end

section
variable [Field K] [LinearOrder K] [HasSqrt K]

/-- In every run of provisioning and of the service: the ids of the tenants, of the agents and of
the keys are different, and so are the hashes. An agent and a key belong to a tenant of the table,
and a memory belongs to an agent of its tenant. -/
theorem the_tables_refer_to_each_other (o : Outside K) (cfg : Settings) (cal : Calendar)
    (admin_token : String) (actions : List (PlatformAction K)) (s : Logged K)
    (hrun : runs.run (platform_step o cfg cal admin_token) {} actions = some s) :
    (s.platform.db.qortia_tenants.map (·.id)).Nodup ∧
    (s.platform.db.qortia_agents.map (·.id)).Nodup ∧
    (s.platform.qortia_api_keys.map (·.id)).Nodup ∧
    (s.platform.qortia_api_keys.map (·.key_hash)).Nodup ∧
    (∀ a ∈ s.platform.db.qortia_agents,
      a.tenant_id ∈ s.platform.db.qortia_tenants.map (·.id)) ∧
    (∀ k ∈ s.platform.qortia_api_keys,
      k.tenant_id ∈ s.platform.db.qortia_tenants.map (·.id)) ∧
    ∀ r ∈ s.platform.db.hindsight_memories,
      ∃ a ∈ s.platform.db.qortia_agents, a.id = r.agent_id ∧ a.tenant_id = r.tenant_id := by
  have h : Agrees o s := agrees_of_run (agrees_start o) hrun
  have hagents := h.agents_nodup
  rw [← h.agents, List.map_map] at hagents
  have hids := h.keys.ids_nodup
  rw [List.map_map] at hids
  have hhashes := h.keys.hashes_nodup
  rw [List.map_map] at hhashes
  rw [h.tenants]
  refine ⟨h.tenants_nodup, hagents, hids, hhashes, h.agents_tenants, h.keys_tenants,
    fun r hr => ?_⟩
  have howner := h.good.owned.owned r hr
  obtain ⟨a, ha, hkey⟩ := List.mem_map.mp howner
  exact ⟨a, ha, congrArg Prod.fst hkey, congrArg Prod.snd hkey⟩

end

/-! ## The roles -/

/-- Every agent is an engineer, and what the organisation has is what engineers write. -/
structure Engineered (db : Db K) : Prop where
  engineers : ∀ a ∈ db.qortia_agents, a.role = "engineer"
  authored : ∀ q ∈ db.org_memory, q.authored db.role
  no_chunks : db.org_knowledge = []

section
variable {db db' : Db K}

theorem role_not_chief (hengineers : ∀ a ∈ db.qortia_agents, a.role = "engineer")
    (agent_id tenant_id : UUID) : db.role agent_id tenant_id ≠ some "chief" := by
  intro hrole
  unfold Db.role at hrole
  obtain ⟨a, ha, hchief⟩ := Option.map_eq_some_iff.mp hrole
  rw [hengineers a (List.mem_of_find?_eq_some ha)] at hchief
  exact absurd hchief (by decide)

/-- An agent of the table keeps its role when another one is made. -/
theorem role_create_agent {now : Timestamp} {agent_id tenant_id : UUID} {name : Option String}
    {clearance_level division : String} {author tenant : UUID}
    (h : (db.role author tenant).isSome = true) :
    ((qortia.create_agent now agent_id tenant_id name clearance_level division db).role author
      tenant).isSome = true := by
  unfold Db.role qortia.create_agent at *
  rw [Option.isSome_map] at h ⊢
  rw [List.find?_append, Option.isSome_or, h]
  rfl

theorem Engineered.create_agent (h : Engineered db) {now : Timestamp} {agent_id tenant_id : UUID}
    {name : Option String} {clearance_level division : String} :
    Engineered (qortia.create_agent now agent_id tenant_id name clearance_level division db) where
  engineers := fun a ha => by
    rcases List.mem_append.mp ha with hold | hlast
    · exact h.engineers a hold
    · rw [List.mem_singleton.mp hlast]
  authored := fun q hq => by
    have hauthored := h.authored q hq
    unfold OrgMemory.authored at hauthored ⊢
    split at hauthored
    · obtain ⟨author, -, hchief⟩ := hauthored
      exact absurd hchief (role_not_chief h.engineers _ _)
    · obtain ⟨author, -, hchief⟩ := hauthored
      exact absurd hchief (role_not_chief h.engineers _ _)
    · obtain ⟨author, hauthor, hrole⟩ := hauthored
      exact ⟨author, hauthor, role_create_agent hrole⟩
    · exact hauthored
    · exact hauthored
  no_chunks := h.no_chunks

theorem engineers_of_identities (h : db'.identities = db.identities)
    (hengineers : ∀ a ∈ db.qortia_agents, a.role = "engineer") :
    ∀ a ∈ db'.qortia_agents, a.role = "engineer" := by
  intro a ha
  have hmem : a.identity ∈ db'.identities := List.mem_map_of_mem ha
  rw [h] at hmem
  obtain ⟨b, hb, hsame⟩ := List.mem_map.mp hmem
  have hrole : b.role = a.role := (congrArg Agent.role hsame :)
  rw [← hrole]
  exact hengineers b hb

variable [Field K] [LinearOrder K] [HasSqrt K] {o : Outside K} {cfg : Settings} {cal : Calendar}

theorem Engineered.service (h : Engineered db) (hkeyed : db.Keyed) {a : DeploymentAction K}
    {open_agents : List (UUID × UUID)} (hwrite : DeploymentWrite o cfg cal open_agents db a db') :
    Engineered db' := by
  have hengineers := engineers_of_identities (write_identities hwrite) h.engineers
  have hrole : db'.role = db.role := by
    funext agent_id tenant_id
    exact role_of_identities (write_identities hwrite) agent_id tenant_id
  refine ⟨hengineers, fun q' hq' => ?_, ?_⟩
  · rw [hrole]
    rcases (write_evolves_org hkeyed (List.mem_singleton_self a) hwrite).grown q' hq' with
      ⟨q, hq, hbecomes⟩ | ⟨q, hmakes, -, hbecomes⟩
    · exact hbecomes.authored (h.authored q hq)
    · exact hbecomes.authored (made_org_authored hmakes)
  · refine List.eq_nil_iff_forall_not_mem.mpr fun r' hr' => ?_
    rcases (write_evolves_knowledge hwrite).grown r' hr' with ⟨r, hr, -⟩ | ⟨r, hmakes, -, -⟩
    · rw [h.no_chunks] at hr
      cases hr
    · obtain ⟨author, -, hchief⟩ := made_chunk_authored hmakes
      exact role_not_chief h.engineers _ _ hchief

/-- The state of a run: the tables agree with the log, and every agent is an engineer. -/
structure Provisioned (o : Outside K) (s : Logged K) : Prop where
  agrees : Agrees o s
  engineered : Engineered s.platform.db

omit [Field K] [LinearOrder K] [HasSqrt K] in
theorem cli_engineered {c : Command} {p : Platform K} {result : Platform K × Response}
    (h : Engineered p.db) (hc : c.cli o p = .ok result) : Engineered result.1.db := by
  unfold Command.cli at hc
  cases c with
  | create_tenant tenant_id name =>
    obtain ⟨db, hdb, rfl⟩ := map_ok hc
    obtain ⟨-, rfl⟩ := create_tenant_ok hdb
    exact ⟨h.engineers, h.authored, h.no_chunks⟩
  | create_agent now agent_id tenant_id name clearance_level division =>
    obtain ⟨db, hdb, rfl⟩ := map_ok hc
    obtain ⟨-, -, rfl⟩ := create_agent_ok hdb
    exact h.create_agent
  | issue_api_key key_id tenant_id token =>
    obtain ⟨issued, hissue, rfl⟩ := map_ok hc
    obtain ⟨-, -, -, -, hresult⟩ := issue_api_key_ok hissue
    rw [hresult]
    exact h

omit [Field K] [LinearOrder K] [HasSqrt K] in
theorem answer_engineered {s : Logged K} {c : Command}
    {answer : Except Failure (Platform K × Response)} (h : Engineered s.platform.db)
    (hanswer : ∀ result, answer = .ok result → c.cli o s.platform = .ok result) :
    Engineered (s.answer c answer).platform.db := by
  unfold Logged.answer
  split
  · exact cli_engineered h (hanswer _ rfl)
  · exact h

theorem Provisioned.step {s s' : Logged K} (h : Provisioned o s) {admin_token : String}
    {a : PlatformAction K} (hstep : platform_step o cfg cal admin_token s a = some s') :
    Provisioned o s' := by
  refine ⟨h.agrees.step hstep, ?_⟩
  cases a with
  | admin authorization c =>
    cases hstep
    exact answer_engineered h.engineered fun result hc => (admin_ok hc).2
  | cli c =>
    cases hstep
    exact answer_engineered h.engineered fun result hc => hc
  | revoke_api_key now key_id =>
    cases hstep
    exact h.engineered
  | service a =>
    obtain ⟨service, hservice, rfl⟩ := Option.map_eq_some_iff.mp hstep
    exact h.engineered.service h.agrees.good.owned.keyed (deployment_step_writes hservice)

theorem provisioned_of_run {admin_token : String} {actions : List (PlatformAction K)}
    {s s' : Logged K} (h : Provisioned o s)
    (hrun : runs.run (platform_step o cfg cal admin_token) s actions = some s') :
    Provisioned o s' := by
  have hok : runs.Guarded (platform_step o cfg cal admin_token) (fun _ _ => True) s actions :=
    runs.guarded_of_forall _ (fun _ _ => trivial) _ _
  have halways : runs.Always (platform_step o cfg cal admin_token) (Provisioned o) s actions :=
    runs.always_of_invariant (fun _ h => h) (fun _ _ _ h _ => h.step) h hok
  exact halways.last hrun

/-- In every run of provisioning and of the service: every agent is an engineer, so that no request
passes for a chief's. The organisation has no knowledge, and its memories are the handoffs of its
agents and the summaries of its weeks. -/
theorem no_chief_is_provisioned (o : Outside K) (cfg : Settings) (cal : Calendar)
    (admin_token : String) (actions : List (PlatformAction K)) (s : Logged K)
    (hrun : runs.run (platform_step o cfg cal admin_token) {} actions = some s) :
    (∀ a ∈ s.platform.db.qortia_agents, a.role = "engineer") ∧
    (∀ agent detail, assert_chief agent detail s.platform.db ≠ .ok ()) ∧
    s.platform.db.org_knowledge = [] ∧
    ∀ q ∈ s.platform.db.org_memory,
      (q.type = .handoff ∧ ∃ a ∈ s.platform.db.qortia_agents,
        q.author_id = some a.id ∧ a.tenant_id = q.tenant_id) ∨
      (q.type = .weekly_summary ∧ q.author_id = none) := by
  have hstart : Provisioned o ({} : Logged K) :=
    ⟨agrees_start o, ⟨fun a ha => (by cases ha), fun q hq => (by cases hq), rfl⟩⟩
  have h := (provisioned_of_run hstart hrun).engineered
  refine ⟨h.engineers, fun agent detail hassert => ?_, h.no_chunks, fun q hq => ?_⟩
  · exact role_not_chief h.engineers _ _ (role_of_assert_chief hassert)
  · have hauthored := h.authored q hq
    unfold OrgMemory.authored at hauthored
    split at hauthored
    · obtain ⟨author, -, hchief⟩ := hauthored
      exact absurd hchief (role_not_chief h.engineers _ _)
    · obtain ⟨author, -, hchief⟩ := hauthored
      exact absurd hchief (role_not_chief h.engineers _ _)
    · rename_i htype
      obtain ⟨author, hauthor, hrole⟩ := hauthored
      unfold Db.role at hrole
      rw [Option.isSome_map, Option.isSome_iff_exists] at hrole
      obtain ⟨a, ha⟩ := hrole
      have hkey := List.find?_some ha
      rw [decide_eq_true_eq] at hkey
      exact Or.inl ⟨htype, a, List.mem_of_find?_eq_some ha, by rw [hkey.1, hauthor], hkey.2⟩
    · rename_i htype
      exact Or.inr ⟨htype, hauthored⟩
    · exact hauthored.elim

end

/-! ## An agent at work -/

def ada : AgentIdentity :=
  { agent_id := 7, tenant_id := 1, clearance_order := 3, division := "sales" }

/-- Ada remembers and hands over. Her process and her document are refused. -/
def ada_works : List (PlatformAction ℚ) :=
  provisioning_run ++
    [.service (.memory (.remember ada 2 0 [standup_moved])),
     .service (.memory (.remember_org ada 3 shift_handoff)),
     .service (.memory (.remember_org ada 4 deploy_once)),
     .service (.request (.service (.ingest_knowledge ada 5 (fun _ => 0) unread_notes)))]

theorem ada_works_runs :
    ∃ s : Logged ℚ,
      runs.run (platform_step no_models {} no_calendar "s3cret") {} ada_works = some s ∧
      s.platform.db.hindsight_memories.map (fun r => (r.agent_id, r.content)) =
        [(7, moved_to_ten)] ∧
      s.platform.db.org_memory.map (fun q => (q.type, q.author_id)) =
        [(.handoff, some 7)] := by
  have hend : (runs.run (platform_step no_models {} no_calendar "s3cret") {} ada_works).map
      (fun s => (s.platform.db.hindsight_memories.map (fun r => (r.agent_id, r.content)),
        s.platform.db.org_memory.map fun q => (q.type, q.author_id))) =
      some ([(7, moved_to_ten)], [(.handoff, some 7)]) := by
    decide +kernel
  obtain ⟨s, hs, hend⟩ := Option.map_eq_some_iff.mp hend
  obtain ⟨hmemories, horg⟩ := Prod.mk.inj hend
  exact ⟨s, hs, hmemories, horg⟩

theorem the_tables_refer_to_each_other_at_work :
    ∃ s : Logged ℚ,
      s.platform.db.hindsight_memories.map (fun r => (r.agent_id, r.content)) =
        [(7, moved_to_ten)] ∧
      ∀ r ∈ s.platform.db.hindsight_memories,
        ∃ a ∈ s.platform.db.qortia_agents, a.id = r.agent_id ∧ a.tenant_id = r.tenant_id := by
  obtain ⟨s, hs, hmemories, -⟩ := ada_works_runs
  obtain ⟨-, -, -, -, -, -, howned⟩ :=
    the_tables_refer_to_each_other no_models {} no_calendar "s3cret" ada_works s hs
  exact ⟨s, hmemories, howned⟩

theorem no_chief_is_provisioned_at_work :
    ∃ s : Logged ℚ,
      s.platform.db.org_memory.map (fun q => (q.type, q.author_id)) = [(.handoff, some 7)] ∧
      (∀ a ∈ s.platform.db.qortia_agents, a.role = "engineer") ∧
      s.platform.db.org_knowledge = [] := by
  obtain ⟨s, hs, -, horg⟩ := ada_works_runs
  obtain ⟨hengineers, -, hchunks, -⟩ :=
    no_chief_is_provisioned no_models {} no_calendar "s3cret" ada_works s hs
  exact ⟨s, horg, hengineers, hchunks⟩

end qortia.provisioning
