-- Whom `require_agent` lets in. The tables of the keys and agents agree with the log of what was
-- provisioned, in every run of commands and of the service, so that a request is let in exactly
-- with a key that was issued and not revoked, for an agent of the tenant of the key.
import Qortia.Provisioning

namespace qortia.provisioning

open credentials (Keeps)

variable {K : Type}

/-! ## The tables and the log -/

/-- What `create_agent` writes. -/
def labels (a : Agent) : UUID × UUID × String × String :=
  (a.id, a.tenant_id, a.clearance_level, a.division)

/-- The row as the credentials have it. -/
def stored (k : ApiKeyRow) : credentials.Stored UUID UUID String :=
  ⟨k.id, k.tenant_id, k.key_hash, k.revoked_at.isSome⟩

/-- The tables agree with the log, and their references hold. -/
structure Agrees (o : Outside K) (s : Logged K) : Prop where
  tenants : s.platform.db.qortia_tenants.map (·.id) = s.log.tenants
  tenants_nodup : s.log.tenants.Nodup
  agents : s.platform.db.qortia_agents.map labels = s.log.agents
  agent_tenants : ∀ a ∈ s.log.agents, a.2.1 ∈ s.log.tenants
  keys : Keeps o.sha256 s.log.keys (s.platform.qortia_api_keys.map stored)
  key_tenants : ∀ c ∈ s.log.keys.issued, c.owner ∈ s.log.tenants
  good : GoodDeployment s.platform.service

theorem tenant_exists_iff {tenant_id : UUID} {db : Db K} :
    tenant_exists tenant_id db = true ↔ tenant_id ∈ db.qortia_tenants.map (·.id) := by
  unfold tenant_exists
  rw [List.any_eq_true, List.mem_map]
  constructor
  · rintro ⟨t, ht, hid⟩
    exact ⟨t, ht, of_decide_eq_true hid⟩
  · rintro ⟨t, ht, hid⟩
    exact ⟨t, ht, decide_eq_true hid⟩

/-! ## The commands -/

section
variable {o : Outside K} {s : Logged K} {p : Platform K} {r : Response}

theorem create_tenant_ok {tenant_id : UUID} {name : Option String} {db db' : Db K}
    (h : create_tenant tenant_id name db = .ok db') :
    tenant_id ∉ db.qortia_tenants.map (·.id) ∧
      db' = { db with qortia_tenants := db.qortia_tenants ++ [{ id := tenant_id }] } := by
  unfold create_tenant at h
  split at h
  · cases h
  · rename_i hchecks
    simp only [Bool.or_eq_true, not_or] at hchecks
    cases h
    exact ⟨fun hmem => hchecks.1 (tenant_exists_iff.mpr hmem), rfl⟩

theorem create_agent_ok {now : Timestamp} {agent_id tenant_id : UUID} {name : Option String}
    {clearance_level division : String} {db db' : Db K}
    (h : create_agent now agent_id tenant_id name clearance_level division db = .ok db') :
    agent_id ∉ db.qortia_agents.map (·.id) ∧ tenant_id ∈ db.qortia_tenants.map (·.id) ∧
      db' = qortia.create_agent now agent_id tenant_id name clearance_level division db := by
  unfold create_agent at h
  split at h
  · cases h
  · rename_i hchecks
    simp only [Bool.or_eq_true, not_or, Bool.not_eq_true, Bool.not_eq_false',
      List.any_eq_false, decide_eq_true_eq] at hchecks
    cases h
    refine ⟨fun hmem => ?_, tenant_exists_iff.mp hchecks.1.2, rfl⟩
    obtain ⟨a, ha, hid⟩ := List.mem_map.mp hmem
    exact hchecks.1.1 a ha hid

theorem issue_api_key_ok {key_id tenant_id : UUID} {token : Token} {s : Platform K}
    {result : Platform K × String} (h : issue_api_key o key_id tenant_id token s = .ok result) :
    result.2 = "qortia_sk_" ++ token.1 ∧ tenant_id ∈ s.db.qortia_tenants.map (·.id) ∧
      key_id ∉ s.qortia_api_keys.map (·.id) ∧
      o.sha256 result.2 ∉ s.qortia_api_keys.map (·.key_hash) ∧
      result.1 = { s with
        qortia_api_keys := s.qortia_api_keys ++
          [{ id := key_id, tenant_id, key_hash := o.sha256 result.2 }] } := by
  unfold issue_api_key at h
  simp only at h
  split at h
  · cases h
  · rename_i hchecks
    simp only [Bool.or_eq_true, not_or, Bool.not_eq_true, Bool.not_eq_false', List.any_eq_false,
      decide_eq_true_eq] at hchecks
    obtain ⟨hkeys, htenant⟩ := hchecks
    cases h
    refine ⟨rfl, tenant_exists_iff.mp htenant, fun hmem => ?_, fun hmem => ?_, rfl⟩
    · obtain ⟨k, hk, hid⟩ := List.mem_map.mp hmem
      exact (hkeys k hk).1 hid
    · obtain ⟨k, hk, hhash⟩ := List.mem_map.mp hmem
      exact (hkeys k hk).2 hhash

/-- A request of the admin API that goes through has the token, and it does what the CLI does. -/
theorem admin_ok {admin_token : String} {authorization : Option String} {c : Command}
    {s : Platform K} {result : Platform K × Response}
    (h : c.admin o admin_token authorization s = .ok result) :
    require_admin admin_token authorization = .ok () ∧ c.cli o s = .ok result := by
  unfold Command.admin at h
  obtain ⟨u, hadmin, h⟩ := bind_ok h
  refine ⟨hadmin, ?_⟩
  cases c with
  | create_tenant tenant_id name => exact h
  | create_agent | issue_api_key =>
    obtain ⟨u, -, h⟩ := bind_ok h
    exact h

end

/-! ## The service between the commands -/

section
variable [Field K] [LinearOrder K] [HasSqrt K] {o : Outside K} {cfg : Settings} {cal : Calendar}
  {open_agents : List (UUID × UUID)}

/-- No step of the service makes or removes a tenant. -/
theorem write_tenants {db db' : Db K} {a : DeploymentAction K}
    (hwrite : DeploymentWrite o cfg cal open_agents db a db') :
    db'.qortia_tenants.map (·.id) = db.qortia_tenants.map (·.id) := by
  cases hwrite with
  | none => rfl
  | remember hreq =>
    exact remember_preserves
      (P := fun d => d.qortia_tenants.map (·.id) = db.qortia_tenants.map (·.id)) hreq
      (fun _ _ _ hd => hd) (fun _ _ hd => hd) rfl
  | remember_org hreq =>
    obtain ⟨-, history, hdb'⟩ := remember_org_ok hreq
    rw [hdb']
  | reflect hreq =>
    refine reflect_preserves
      (P := fun d => d.qortia_tenants.map (·.id) = db.qortia_tenants.map (·.id)) hreq
      (fun d ids st hd => ?_) (fun _ hd => hd) (fun _ _ hd => hd) rfl
    cases st with
    | prune | supersede | insert => exact hd
  | forget hreq =>
    obtain ⟨-, table, content, -, rfl⟩ := forget_eq hreq
    cases table with
    | hindsight_memories | org_memory | org_knowledge => rfl
  | ingest hreq =>
    obtain ⟨-, hsame | hinserted⟩ := ingest_committed hreq
    · rw [hsame]
    · rw [hinserted]
      rfl
  | delete hreq =>
    obtain ⟨-, hresult⟩ := delete_knowledge_ok hreq
    rw [hresult]
    rfl
  | access id now results =>
    unfold record_recall_access
    dsimp only
    split
    · rfl
    · rfl
  | session_reads => rfl
  | outcome memory_ids =>
    unfold commit_outcome
    split
    · rfl
    · rfl
  | purge => rfl
  | graph ha now row =>
    unfold graph_transaction
    rw [graph_entities_frame]
    unfold set_graphed
    split
    · rfl
    · rfl
  | link => rfl
  | embedding ha tbl id v =>
    cases tbl with
    | hindsight_memories | org_memory | org_knowledge | qortia_entities => rfl
  | attempt ha tbl id =>
    cases tbl with
    | hindsight_memories | org_memory | org_knowledge | qortia_entities => rfl
  | reflection hopen hreq =>
    refine write_reflections_preserves
      (P := fun d => d.qortia_tenants.map (·.id) = db.qortia_tenants.map (·.id)) hreq
      (fun d ids st hd => ?_) (fun _ hd => hd) (fun _ _ hd => hd) rfl
    cases st with
    | prune | supersede | insert => exact hd
  | archive => rfl
  | summary => exact rows.map_update (by intro t; rfl) _ _

end

/-! ## Every step -/

section
variable {o : Outside K} {s : Logged K}

theorem labels_identities (db : Db K) :
    db.qortia_agents.map labels = db.identities.map labels := by
  unfold Db.identities
  rw [List.map_map]
  rfl

theorem Agrees.agents_nodup (h : Agrees o s) : (s.log.agents.map (·.1)).Nodup := by
  have hnodup := h.good.owned.agents_nodup
  have hids : s.platform.db.agent_keys.map (·.1) = s.log.agents.map (·.1) := by
    rw [← h.agents]
    unfold Db.agent_keys
    rw [List.map_map, List.map_map]
    rfl
  rw [← hids]
  exact hnodup

theorem agrees_start (o : Outside K) : Agrees o {} where
  tenants := rfl
  tenants_nodup := List.nodup_nil
  agents := rfl
  agent_tenants a ha := by cases ha
  keys := Keeps.nil o.sha256
  key_tenants c hc := by cases hc
  good := ⟨Db.Blank.owned ⟨rfl, rfl, rfl, rfl, rfl⟩ List.nodup_nil, fun _ h => by cases h⟩

/-- The deployment is as good over tables that own the same memories. -/
theorem good_with_db {d : Deployment K} (h : GoodDeployment d) {db : Db K} (howned : db.Owned)
    (hkeys : d.db.agent_keys ⊆ db.agent_keys) : GoodDeployment (d.with_db db) :=
  ⟨howned, fun key hkey => hkeys (h.open_agents key hkey)⟩

theorem Agrees.create_tenant (h : Agrees o s) {tenant_id : UUID} {name : Option String}
    {db : Db K} (hdb : create_tenant tenant_id name s.platform.db = .ok db) :
    Agrees o ⟨s.platform.with_db db, s.log.record (.create_tenant tenant_id name)
      (.tenant_id tenant_id)⟩ := by
  obtain ⟨hnew, rfl⟩ := create_tenant_ok hdb
  rw [h.tenants] at hnew
  exact {
    tenants := by
      simp only [Platform.with_db_db, Log.record, List.map_append, List.map_singleton, h.tenants]
    tenants_nodup := by
      simp only [Log.record, ← List.concat_eq_append, List.nodup_concat]
      exact ⟨hnew, h.tenants_nodup⟩
    agents := h.agents
    agent_tenants := fun a ha => List.mem_append_left _ (h.agent_tenants a ha)
    keys := h.keys
    key_tenants := fun c hc => List.mem_append_left _ (h.key_tenants c hc)
    good := good_with_db h.good (h.good.owned.of_sublist (le_refl _) rfl (List.Sublist.refl _)
      (List.Sublist.refl _)) (List.Subset.refl _) }

theorem create_agent_owned {db : Db K} (h : db.Owned) (now : Timestamp)
    {agent_id tenant_id : UUID} (hnew : agent_id ∉ db.qortia_agents.map (·.id))
    (name : Option String) (clearance_level division : String) :
    (qortia.create_agent now agent_id tenant_id name clearance_level division db).Owned ∧
      db.agent_keys ⊆ (qortia.create_agent now agent_id tenant_id name clearance_level division
        db).agent_keys := by
  have hkeys : (qortia.create_agent now agent_id tenant_id name clearance_level division
      db).agent_keys = db.agent_keys ++ [(agent_id, tenant_id)] := by
    unfold Db.agent_keys qortia.create_agent
    rw [List.map_append]
    rfl
  have hsub : db.agent_keys ⊆ db.agent_keys ++ [(agent_id, tenant_id)] :=
    List.subset_append_left _ _
  have hids : db.agent_keys.map (·.1) = db.qortia_agents.map (·.id) := by
    unfold Db.agent_keys
    rw [List.map_map]
    rfl
  refine ⟨⟨⟨h.keyed.hindsight_nodup, h.keyed.org_nodup, h.keyed.disjoint, h.keyed.hindsight_lt,
    h.keyed.org_lt⟩, ?_, fun r hr => ?_⟩, ?_⟩
  · rw [hkeys, List.map_append, List.map_singleton, ← List.concat_eq_append, List.nodup_concat]
    rw [← hids] at hnew
    exact ⟨hnew, h.agents_nodup⟩
  · rw [hkeys]
    exact hsub (h.owned r hr)
  · rw [hkeys]
    exact hsub

theorem Agrees.create_agent (h : Agrees o s) {now : Timestamp} {agent_id tenant_id : UUID}
    {name : Option String} {clearance_level division : String} {db : Db K}
    (hdb : create_agent now agent_id tenant_id name clearance_level division s.platform.db =
      .ok db) :
    Agrees o ⟨s.platform.with_db db,
      s.log.record (.create_agent now agent_id tenant_id name clearance_level division)
        (.agent_id agent_id)⟩ := by
  obtain ⟨hnew, htenant, rfl⟩ := create_agent_ok hdb
  rw [h.tenants] at htenant
  obtain ⟨howned, hkeys⟩ :=
    create_agent_owned h.good.owned now hnew name clearance_level division
  exact {
    tenants := h.tenants
    tenants_nodup := h.tenants_nodup
    agents := by
      simp only [Platform.with_db_db, Log.record, qortia.create_agent, List.map_append,
        List.map_singleton, h.agents]
      rfl
    agent_tenants := fun a ha => by
      rcases List.mem_append.mp ha with hold | hlast
      · exact h.agent_tenants a hold
      · rw [List.mem_singleton.mp hlast]
        exact htenant
    keys := h.keys
    key_tenants := h.key_tenants
    good := good_with_db h.good howned hkeys }

theorem Agrees.issue_api_key (h : Agrees o s) {key_id tenant_id : UUID} {token : Token}
    {result : Platform K × String}
    (hissue : issue_api_key o key_id tenant_id token s.platform = .ok result) :
    Agrees o ⟨result.1, s.log.record (.issue_api_key key_id tenant_id token)
      (.api_key result.2)⟩ := by
  obtain ⟨-, htenant, hid, hhash, hresult⟩ := issue_api_key_ok hissue
  rw [h.tenants] at htenant
  have hids : (s.platform.qortia_api_keys.map stored).map (·.id) =
      s.platform.qortia_api_keys.map (·.id) := by
    rw [List.map_map]
    rfl
  have hhashes : (s.platform.qortia_api_keys.map stored).map (·.hash) =
      s.platform.qortia_api_keys.map (·.key_hash) := by
    rw [List.map_map]
    rfl
  rw [← hids] at hid
  rw [← hhashes] at hhash
  have hkeys := h.keys.issue (c := ⟨key_id, tenant_id, result.2⟩) hid hhash
  rw [hresult]
  exact {
    tenants := h.tenants
    tenants_nodup := h.tenants_nodup
    agents := h.agents
    agent_tenants := h.agent_tenants
    keys := by
      simp only [List.map_append, List.map_singleton]
      exact hkeys
    key_tenants := fun c hc => by
      rcases List.mem_append.mp hc with hold | hlast
      · exact h.key_tenants c hold
      · rw [List.mem_singleton.mp hlast]
        exact htenant
    good := h.good }

theorem Agrees.cli (h : Agrees o s) {c : Command} {result : Platform K × Response}
    (hc : c.cli o s.platform = .ok result) : Agrees o ⟨result.1, s.log.record c result.2⟩ := by
  unfold Command.cli at hc
  cases c with
  | create_tenant tenant_id name =>
    obtain ⟨db, hdb, rfl⟩ := map_ok hc
    exact h.create_tenant hdb
  | create_agent now agent_id tenant_id name clearance_level division =>
    obtain ⟨db, hdb, rfl⟩ := map_ok hc
    exact h.create_agent hdb
  | issue_api_key key_id tenant_id token =>
    obtain ⟨issued, hissue, rfl⟩ := map_ok hc
    exact h.issue_api_key hissue

theorem Agrees.answer (h : Agrees o s) {c : Command}
    {answer : Except Failure (Platform K × Response)}
    (hanswer : ∀ result, answer = .ok result → c.cli o s.platform = .ok result) :
    Agrees o (s.answer c answer) := by
  unfold Logged.answer
  split
  · exact h.cli (hanswer _ rfl)
  · exact h

theorem Agrees.revoke_api_key (h : Agrees o s) (now : Timestamp) (key_id : UUID) :
    Agrees o { platform := revoke_api_key now key_id s.platform
               log := { s.log with keys := s.log.keys.revoke key_id } } where
  tenants := h.tenants
  tenants_nodup := h.tenants_nodup
  agents := h.agents
  agent_tenants := h.agent_tenants
  keys := by
    have hmark : (rows.update (fun k => k.id = key_id)
        (fun k : ApiKeyRow => { k with revoked_at := some now }) s.platform.qortia_api_keys).map
          stored = (s.platform.qortia_api_keys.map stored).map (credentials.mark key_id) := by
      unfold rows.update
      rw [List.map_map, List.map_map]
      refine List.map_congr_left fun k _ => ?_
      by_cases hk : k.id = key_id
      · simp [stored, credentials.mark, hk]
      · simp [stored, credentials.mark, hk]
    have hkeys := h.keys.revoke key_id
    rw [← hmark] at hkeys
    exact hkeys
  key_tenants := by
    have hsame : (s.log.keys.revoke key_id).issued = s.log.keys.issued := by
      unfold credentials.Ledger.revoke
      split
      · rfl
      · rfl
    rw [hsame]
    exact h.key_tenants
  good := h.good

variable [Field K] [LinearOrder K] [HasSqrt K] {cfg : Settings} {cal : Calendar}

theorem Agrees.service (h : Agrees o s) {a : DeploymentAction K} {service : Deployment K}
    (hstep : deployment_step o cfg cal s.platform.service a = some service) :
    Agrees o { s with platform := { s.platform with service } } where
  tenants := (write_tenants (deployment_step_writes hstep)).trans h.tenants
  tenants_nodup := h.tenants_nodup
  agents := by
    have hsame : service.db.identities = s.platform.db.identities :=
      write_identities (deployment_step_writes hstep)
    rw [labels_identities]
    change service.db.identities.map labels = _
    rw [hsame, ← labels_identities]
    exact h.agents
  agent_tenants := h.agent_tenants
  keys := h.keys
  key_tenants := h.key_tenants
  good := deployment_step_good h.good hstep

theorem Agrees.step (h : Agrees o s) {admin_token : String} {a : PlatformAction K} {s' : Logged K}
    (hstep : platform_step o cfg cal admin_token s a = some s') : Agrees o s' := by
  cases a with
  | admin authorization c =>
    cases hstep
    exact h.answer fun result hc => (admin_ok hc).2
  | cli c =>
    cases hstep
    exact h.answer fun result hc => hc
  | revoke_api_key now key_id =>
    cases hstep
    exact h.revoke_api_key now key_id
  | service a =>
    obtain ⟨service, hservice, rfl⟩ := Option.map_eq_some_iff.mp hstep
    exact h.service hservice

theorem agrees_of_run {admin_token : String} {actions : List (PlatformAction K)} {s s' : Logged K}
    (h : Agrees o s)
    (hrun : runs.run (platform_step o cfg cal admin_token) s actions = some s') : Agrees o s' := by
  have hok : runs.Guarded (platform_step o cfg cal admin_token) (fun _ _ => True) s actions :=
    runs.guarded_of_forall _ (fun _ _ => trivial) _ _
  have halways : runs.Always (platform_step o cfg cal admin_token) (Agrees o) s actions :=
    runs.always_of_invariant (fun _ h => h) (fun _ _ _ h _ => h.step) h hok
  exact halways.last hrun

end

/-! ## Who is let in -/

section
variable {o : Outside K} {s : Logged K}

/-- The keys as `require_agent` reads them. -/
def api_keys (p : Platform K) : List ApiKey := p.qortia_api_keys.map (·.toApiKey)

/-- The lookup of `require_agent`. -/
def find_key (key_hash : String) (keys : List ApiKey) : Option ApiKey :=
  keys.find? fun k => k.key_hash = key_hash && k.revoked_at.isNone

theorem find_key_eq (key_hash : String) (p : Platform K) :
    (find_key key_hash (api_keys p)).map (·.tenant_id) =
      (credentials.present key_hash (p.qortia_api_keys.map stored)).map (·.owner) := by
  unfold find_key api_keys credentials.present
  rw [List.find?_map, List.find?_map, Option.map_map, Option.map_map]
  have hsame : ∀ k : ApiKeyRow, (decide (k.key_hash = key_hash) && k.revoked_at.isNone) =
      (decide ((stored k).hash = key_hash) && !(stored k).revoked) := by
    intro k
    unfold stored
    cases k.revoked_at with
    | none => rfl
    | some now => rfl
  congr 1
  exact congrArg (fun q => List.find? q p.qortia_api_keys) (funext hsame)

/-- The row of an agent is the one of the log. -/
theorem agent_row_iff (h : Agrees o s) {agent_id tenant_id : UUID}
    {clearance_level division : String} :
    (∃ a, agent_row s.platform.db agent_id tenant_id = some a ∧
        a.clearance_level = clearance_level ∧ a.division = division) ↔
      (agent_id, tenant_id, clearance_level, division) ∈ s.log.agents := by
  rw [← h.agents, List.mem_map]
  constructor
  · rintro ⟨a, ha, rfl, rfl⟩
    have hkey := List.find?_some ha
    simp only [Bool.and_eq_true, decide_eq_true_eq] at hkey
    exact ⟨a, List.mem_of_find?_eq_some ha, by rw [← hkey.1, ← hkey.2]; rfl⟩
  · rintro ⟨a, ha, hlabels⟩
    obtain ⟨hid, hrest⟩ := Prod.mk.inj hlabels
    obtain ⟨htenant, hrest⟩ := Prod.mk.inj hrest
    obtain ⟨hclearance, hdivision⟩ := Prod.mk.inj hrest
    have hnodup : (s.platform.db.qortia_agents.map (·.id)).Nodup := by
      have hids := h.agents_nodup
      rw [← h.agents, List.map_map] at hids
      exact hids
    cases hrow : agent_row s.platform.db agent_id tenant_id with
    | none =>
      have hno := List.find?_eq_none.mp hrow a ha
      simp [hid, htenant] at hno
    | some r =>
      have hsame : r = a := agent_row_eq hnodup ha hid hrow
      rw [hsame]
      exact ⟨a, rfl, hclearance, hdivision⟩

theorem require_agent_eq {authorization x_agent_id : Option String} {db : Db K}
    {keys : List ApiKey} {agent : AgentIdentity} :
    require_agent o keys db authorization x_agent_id = .ok agent ↔
      ∃ api_key agent_id key, bearer_key authorization = .ok api_key ∧
        requested_agent x_agent_id = .ok agent_id ∧
        find_key (o.sha256 (String.ofList api_key)) keys = some key ∧
        resolve_agent db agent_id key.tenant_id = .ok agent := by
  unfold require_agent find_key
  constructor
  · intro h
    obtain ⟨api_key, hbearer, h⟩ := bind_ok h
    obtain ⟨agent_id, hrequested, h⟩ := bind_ok h
    simp only at h
    split at h
    · cases h
    · rename_i key hkey
      exact ⟨api_key, agent_id, key, hbearer, hrequested, hkey, h⟩
  · rintro ⟨api_key, agent_id, key, hbearer, hrequested, hkey, hresolve⟩
    rw [hbearer, hrequested]
    simp only [bind, Except.bind, hkey]
    exact hresolve

theorem resolve_agent_iff (h : Agrees o s) {agent_id tenant_id : UUID} {agent : AgentIdentity} :
    resolve_agent s.platform.db agent_id tenant_id = .ok agent ↔
      agent.agent_id = agent_id ∧ agent.tenant_id = tenant_id ∧
        ∃ clearance_level division,
          (agent_id, tenant_id, clearance_level, division) ∈ s.log.agents ∧
          agent.clearance_order = (s.platform.db.level_order clearance_level).getD 2 ∧
          agent.division = if division = "" then "all" else division := by
  unfold resolve_agent
  constructor
  · intro hresolve
    split at hresolve
    · cases hresolve
    · rename_i a ha
      cases hresolve
      exact ⟨rfl, rfl, a.clearance_level, a.division, (agent_row_iff h).mp ⟨a, ha, rfl, rfl⟩, rfl,
        rfl⟩
  · rintro ⟨rfl, rfl, clearance_level, division, hmem, hclearance, hdivision⟩
    obtain ⟨a, ha, rfl, rfl⟩ := (agent_row_iff h).mpr hmem
    rw [ha]
    obtain ⟨agent_id, tenant_id, clearance_order, agent_division⟩ := agent
    simp only at hclearance hdivision
    rw [hclearance, hdivision]

variable [Field K] [LinearOrder K] [HasSqrt K]

/-- In every run of provisioning and of the service, from the empty database: `require_agent` lets a
request in exactly when its key was issued to a tenant and is not revoked, and its agent was made
for that tenant. The identity has the labels that the agent was made with. No other key that was
issued may have the hash of the request's. -/
theorem a_request_is_let_in_iff (o : Outside K) (cfg : Settings) (cal : Calendar)
    (admin_token : String) (actions : List (PlatformAction K)) (s : Logged K)
    (hrun : runs.run (platform_step o cfg cal admin_token) {} actions = some s)
    (authorization x_agent_id : Option String)
    (hsha : ∀ api_key, bearer_key authorization = .ok api_key → ∀ c ∈ s.log.keys.issued,
      o.sha256 c.secret = o.sha256 (String.ofList api_key) → c.secret = String.ofList api_key)
    (agent : AgentIdentity) :
    require_agent o (api_keys s.platform) s.platform.db authorization x_agent_id =
        .ok agent ↔
      ∃ api_key clearance_level division, bearer_key authorization = .ok api_key ∧
        requested_agent x_agent_id = .ok agent.agent_id ∧
        s.log.keys.Live (String.ofList api_key) agent.tenant_id ∧
        (agent.agent_id, agent.tenant_id, clearance_level, division) ∈ s.log.agents ∧
        agent.clearance_order = (s.platform.db.level_order clearance_level).getD 2 ∧
        agent.division = if division = "" then "all" else division := by
  have h : Agrees o s := agrees_of_run (agrees_start o) hrun
  rw [require_agent_eq]
  constructor
  · rintro ⟨api_key, agent_id, key, hbearer, hrequested, hkey, hresolve⟩
    obtain ⟨rfl, htenant, clearance_level, division, hmem, hclearance, hdivision⟩ :=
      (resolve_agent_iff h).mp hresolve
    rw [← htenant] at hmem
    refine ⟨api_key, clearance_level, division, hbearer, hrequested, ?_, hmem, hclearance,
      hdivision⟩
    have hpresent := find_key_eq (o.sha256 (String.ofList api_key)) s.platform
    rw [hkey, Option.map_some, ← htenant] at hpresent
    exact (h.keys.present_iff (hsha api_key hbearer)).mp
      (Option.map_eq_some_iff.mp hpresent.symm)
  · rintro ⟨api_key, clearance_level, division, hbearer, hrequested, hlive, hmem, hclearance,
      hdivision⟩
    have hpresent := find_key_eq (o.sha256 (String.ofList api_key)) s.platform
    rw [Option.map_eq_some_iff.mpr
      ((h.keys.present_iff (hsha api_key hbearer)).mpr hlive)] at hpresent
    obtain ⟨key, hkey, htenant⟩ := Option.map_eq_some_iff.mp hpresent
    refine ⟨api_key, agent.agent_id, key, hbearer, hrequested, hkey, ?_⟩
    rw [htenant]
    exact (resolve_agent_iff h).mpr ⟨rfl, rfl, clearance_level, division, hmem, hclearance,
      hdivision⟩

def ada_token : Token := ⟨"0123456789abcdefghijklmnopqrstuvwxyz_-ABCDE", by decide +kernel⟩

def ada_key : String := "qortia_sk_" ++ ada_token.1

/-- A tenant with an agent and a key. -/
def provisioning_run : List (PlatformAction ℚ) :=
  [.cli (.create_tenant 1 (some "Brook")),
   .admin (some "Bearer s3cret") (.create_agent 0 7 1 (some "Ada") "restricted" "sales"),
   .cli (.issue_api_key 100 1 ada_token)]

def provisioned : Logged ℚ :=
  (runs.run (platform_step no_models {} no_calendar "s3cret") {} provisioning_run).getD {}

theorem provisioning_runs :
    runs.run (platform_step no_models {} no_calendar "s3cret") {} provisioning_run =
      some provisioned := by
  rfl

theorem a_request_is_let_in_to_sales :
    require_agent no_models (api_keys provisioned.platform) provisioned.platform.db
        (some ("Bearer " ++ ada_key)) (some (text.ofUuid 7)) =
      .ok { agent_id := 7, tenant_id := 1, clearance_order := 3, division := "sales" } :=
  (a_request_is_let_in_iff no_models {} no_calendar "s3cret" provisioning_run provisioned
    provisioning_runs (some ("Bearer " ++ ada_key)) (some (text.ofUuid 7))
    (fun _ _ _ _ hsame => hsame) _).mpr
    ⟨ada_key.toList, "restricted", "sales", by decide +kernel, by decide +kernel,
      ⟨⟨100, 1, ada_key⟩, List.mem_singleton.mpr rfl, by decide +kernel, rfl,
        by decide +kernel⟩, by decide +kernel, by decide +kernel, by decide +kernel⟩

/-! ## A revoked key -/

omit [Field K] [LinearOrder K] [HasSqrt K] in
theorem record_grows (l : Log) (c : Command) (r : Response) : l.keys.Grows (l.record c r).keys := by
  cases c with
  | create_tenant =>
    cases r with
    | tenant_id | agent_id | api_key => exact .refl _
  | create_agent =>
    cases r with
    | tenant_id | agent_id | api_key => exact .refl _
  | issue_api_key =>
    cases r with
    | tenant_id | agent_id => exact .refl _
    | api_key => exact .issue _ _

omit [Field K] [LinearOrder K] [HasSqrt K] in
theorem answer_grows (s : Logged K) (c : Command)
    (answer : Except Failure (Platform K × Response)) :
    s.log.keys.Grows (s.answer c answer).log.keys := by
  unfold Logged.answer
  split
  · exact record_grows _ _ _
  · exact .refl _

theorem step_grows {cfg : Settings} {cal : Calendar} {admin_token : String} {a : PlatformAction K}
    {s' : Logged K} (hstep : platform_step o cfg cal admin_token s a = some s') :
    s.log.keys.Grows s'.log.keys := by
  cases a with
  | admin authorization c =>
    cases hstep
    exact answer_grows s c _
  | cli c =>
    cases hstep
    exact answer_grows s c _
  | revoke_api_key now key_id =>
    cases hstep
    exact .revoke _ _
  | service a =>
    obtain ⟨service, -, rfl⟩ := Option.map_eq_some_iff.mp hstep
    exact .refl _

theorem run_grows {cfg : Settings} {cal : Calendar} {admin_token : String}
    {actions : List (PlatformAction K)} {s' : Logged K}
    (hrun : runs.run (platform_step o cfg cal admin_token) s actions = some s') :
    s.log.keys.Grows s'.log.keys := by
  induction actions generalizing s with
  | nil =>
    cases hrun
    exact .refl _
  | cons a actions ih =>
    obtain ⟨s₁, hs₁, hrun⟩ := Option.bind_eq_some_iff.mp hrun
    exact (step_grows hs₁).trans (ih hrun)

omit [Field K] [LinearOrder K] [HasSqrt K] in
/-- No row answers to a secret that is revoked. -/
theorem find_revoked (h : Agrees o s) {secret : String} (hrevoked : s.log.keys.Revoked secret) :
    find_key (o.sha256 secret) (api_keys s.platform) = none := by
  rw [← Option.map_eq_none_iff, find_key_eq, Option.map_eq_none_iff]
  exact h.keys.present_revoked hrevoked

/-- After a key was revoked, whatever is provisioned and served next: a request with the key and an
`X-Agent-Id` is refused, whoever the agent is. -/
theorem a_revoked_key_stays_out (o : Outside K) (cfg : Settings) (cal : Calendar)
    (admin_token : String) (earlier later : List (PlatformAction K)) (s s' : Logged K)
    (hearlier : runs.run (platform_step o cfg cal admin_token) {} earlier = some s)
    (c : credentials.Credential UUID UUID String) (hissued : c ∈ s.log.keys.issued)
    (now : Timestamp)
    (hlater : runs.run (platform_step o cfg cal admin_token) s
      (.revoke_api_key now c.id :: later) = some s')
    (authorization x_agent_id : Option String) (agent_id : UUID)
    (hbearer : bearer_key authorization = .ok c.secret.toList)
    (hagent : requested_agent x_agent_id = .ok agent_id) :
    require_agent o (api_keys s'.platform) s'.platform.db authorization x_agent_id =
      .error (.HTTPException 401 "Invalid or revoked API key") := by
  have h' : Agrees o s' := agrees_of_run (agrees_of_run (agrees_start o) hearlier) hlater
  obtain ⟨s₁, hs₁, hlater⟩ := Option.bind_eq_some_iff.mp hlater
  have hrevoked : s₁.log.keys.Revoked c.secret := by
    cases hs₁
    exact s.log.keys.revoke_revokes hissued
  have hstill := (run_grows hlater).still_revoked hrevoked
  have hnone := find_revoked h' hstill
  unfold find_key at hnone
  unfold require_agent
  rw [hbearer, hagent]
  simp only [bind, Except.bind, String.ofList_toList, hnone]

/-- The plaintext of the revoked key is drawn again, and its INSERT raises. -/
def issue_again : List (PlatformAction ℚ) := [.cli (.issue_api_key 101 1 ada_token)]

def revoked : Logged ℚ :=
  (runs.run (platform_step no_models {} no_calendar "s3cret") provisioned
    (.revoke_api_key 5 100 :: issue_again)).getD {}

theorem a_revoked_key_stays_out_of_sales :
    require_agent no_models (api_keys revoked.platform) revoked.platform.db
        (some ("Bearer " ++ ada_key)) (some (text.ofUuid 7)) =
      .error (.HTTPException 401 "Invalid or revoked API key") :=
  a_revoked_key_stays_out no_models {} no_calendar "s3cret" provisioning_run issue_again
    provisioned revoked provisioning_runs ⟨100, 1, ada_key⟩ (List.mem_singleton.mpr rfl) 5 rfl
    (some ("Bearer " ++ ada_key)) (some (text.ofUuid 7)) 7 (by decide +kernel) (by decide +kernel)

/-! ## The admin token -/

omit [Field K] [LinearOrder K] [HasSqrt K] in
theorem compare_digest_ok {a b : String} :
    compare_digest a b = .ok true ↔ a = b ∧ b.toList.all (·.toNat < 128) = true := by
  unfold compare_digest
  split
  · rename_i hascii
    rw [Bool.and_eq_true] at hascii
    simp only [Except.ok.injEq, decide_eq_true_eq]
    exact ⟨fun heq => ⟨heq, hascii.2⟩, fun heq => heq.1⟩
  · rename_i hascii
    refine iff_of_false (fun h => by cases h) ?_
    rintro ⟨rfl, hb⟩
    exact hascii (by rw [hb]; rfl)

omit [Field K] [LinearOrder K] [HasSqrt K] in
/-- `require_admin` accepts the bearer of the token, which has to be ASCII and without a blank at
its ends. -/
theorem require_admin_iff {admin_token : String} {authorization : Option String} :
    require_admin admin_token authorization = .ok () ↔
      admin_token ≠ "" ∧ admin_token.toList.all (·.toNat < 128) = true ∧
        bearer_key authorization = .ok admin_token.toList := by
  have hthrow : ∀ (status : Nat) (detail : String),
      (throw (.HTTPException status detail) : Except Failure Unit) ≠ .ok () :=
    fun _ _ h => by cases h
  unfold require_admin bearer_key
  by_cases htoken : admin_token = ""
  · rw [if_pos htoken]
    exact iff_of_false (fun h => by cases h) fun h => h.1 htoken
  · rw [if_neg htoken]
    cases authorization with
    | none => exact iff_of_false (hthrow _ _) fun h => by cases h.2.2
    | some header =>
      simp only
      split
      · generalize text.strip (text.dropPrefix "Bearer ".toList header.toList) = provided
        by_cases hprovided : provided = []
        · rw [if_pos hprovided, if_pos hprovided]
          exact iff_of_false (fun h => by cases h) fun h => by cases h.2.2
        · rw [if_neg hprovided, if_neg hprovided]
          have hsame : String.ofList provided = admin_token ↔ provided = admin_token.toList := by
            rw [← String.ofList_toList (s := admin_token), String.ofList_inj, String.ofList_toList]
          have hcompare := compare_digest_ok (a := String.ofList provided) (b := admin_token)
          rw [hsame] at hcompare
          constructor
          · intro h
            obtain ⟨same, hdigest, h⟩ := bind_ok h
            cases same with
            | true => exact ⟨htoken, (hcompare.mp hdigest).2, by rw [(hcompare.mp hdigest).1]⟩
            | false => cases h
          · rintro ⟨-, hascii, hprovided⟩
            have hdigest := hcompare.mpr ⟨Except.ok.inj hprovided, hascii⟩
            rw [hdigest]
            rfl
      · exact iff_of_false (hthrow _ _) fun h => by cases h.2.2

/-- A command that the admin API lets through. Nothing else asks for the token. -/
def PlatformAction.authorised (admin_token : String) (a : PlatformAction K) : Bool :=
  match a with
  | .admin authorization _ => decide (require_admin admin_token authorization = .ok ())
  | .cli _ | .revoke_api_key _ _ | .service _ => true

/-- A request of the admin API without the token is refused. -/
theorem unauthorised_step {cfg : Settings} {cal : Calendar} {admin_token : String}
    {a : PlatformAction K} (h : a.authorised admin_token = false) :
    platform_step o cfg cal admin_token s a = some s := by
  cases a with
  | admin authorization c =>
    have hrefused : require_admin admin_token authorization ≠ .ok () := of_decide_eq_false h
    simp only [platform_step, Option.some.injEq]
    unfold Logged.answer
    split
    · rename_i platform r hanswer
      exact absurd (admin_ok hanswer).1 hrefused
    · rfl
  | cli | revoke_api_key | service => cases h

/-- In every run, the requests of the admin API without the token change nothing: the run without
them ends in the same state. The API lets a header through exactly when it bears the token, and
without a token in the settings it lets none through. -/
theorem unauthorised_requests_change_nothing (o : Outside K) (cfg : Settings) (cal : Calendar)
    (admin_token : String) (actions : List (PlatformAction K)) (s : Logged K) :
    runs.run (platform_step o cfg cal admin_token) s actions =
      runs.run (platform_step o cfg cal admin_token) s
        (actions.filter (·.authorised admin_token)) ∧
    ∀ authorization c, (PlatformAction.admin authorization c : PlatformAction K).authorised
        admin_token = true ↔ admin_token ≠ "" ∧ admin_token.toList.all (·.toNat < 128) = true ∧
          bearer_key authorization = .ok admin_token.toList := by
  refine ⟨?_, fun authorization c => ?_⟩
  · induction actions generalizing s with
    | nil => rfl
    | cons a actions ih =>
      cases ha : a.authorised admin_token with
      | true =>
        rw [List.filter_cons_of_pos ha]
        simp only [runs.run]
        congr 1
        funext s₁
        exact ih s₁
      | false =>
        rw [List.filter_cons_of_neg (by rw [ha]; exact Bool.false_ne_true), ← ih s]
        simp only [runs.run, unauthorised_step ha]
        rfl
  · rw [← require_admin_iff]
    exact decide_eq_true_iff

end

end qortia.provisioning
