-- Where the requests of an organisation write. In every state that the service reaches, a request,
-- a task and a report of an agent leave every row of every other organisation as it was.
import Qortia.MemoryEvolution

namespace qortia

variable {K : Type}

/-! ## The rows of one organisation -/

/-- The rows of the tenant are the same in every table. -/
structure Db.SameFor (t : UUID) (db db' : Db K) : Prop where
  qortia_tenants :
    db'.qortia_tenants.filter (fun r => r.id = t) = db.qortia_tenants.filter fun r => r.id = t
  qortia_agents : db'.qortia_agents.filter (fun r => r.tenant_id = t) =
    db.qortia_agents.filter fun r => r.tenant_id = t
  hindsight_memories : db'.hindsight_memories.filter (fun r => r.tenant_id = t) =
    db.hindsight_memories.filter fun r => r.tenant_id = t
  org_memory : db'.org_memory.filter (fun r => r.tenant_id = t) =
    db.org_memory.filter fun r => r.tenant_id = t
  org_knowledge : db'.org_knowledge.filter (fun r => r.tenant_id = t) =
    db.org_knowledge.filter fun r => r.tenant_id = t
  qortia_entities : db'.qortia_entities.filter (fun r => r.tenant_id = t) =
    db.qortia_entities.filter fun r => r.tenant_id = t
  memory_links : db'.memory_links.filter (fun r => r.tenant_id = t) =
    db.memory_links.filter fun r => r.tenant_id = t
  memory_history : db'.memory_history.filter (fun r => r.tenant_id = t) =
    db.memory_history.filter fun r => r.tenant_id = t
  qortia_session_reads : db'.qortia_session_reads.filter (fun r => r.tenant_id = t) =
    db.qortia_session_reads.filter fun r => r.tenant_id = t
  qortia_outcome_records : db'.qortia_outcome_records.filter (fun r => r.tenant_id = t) =
    db.qortia_outcome_records.filter fun r => r.tenant_id = t
  qortia_clearance_levels : db'.qortia_clearance_levels = db.qortia_clearance_levels

namespace Db.SameFor

variable {t : UUID} {db db' db'' : Db K}

theorem refl (t : UUID) (db : Db K) : db.SameFor t db :=
  ⟨rfl, rfl, rfl, rfl, rfl, rfl, rfl, rfl, rfl, rfl, rfl⟩

theorem trans (h : db.SameFor t db') (h' : db'.SameFor t db'') : db.SameFor t db'' where
  qortia_tenants := h'.qortia_tenants.trans h.qortia_tenants
  qortia_agents := h'.qortia_agents.trans h.qortia_agents
  hindsight_memories := h'.hindsight_memories.trans h.hindsight_memories
  org_memory := h'.org_memory.trans h.org_memory
  org_knowledge := h'.org_knowledge.trans h.org_knowledge
  qortia_entities := h'.qortia_entities.trans h.qortia_entities
  memory_links := h'.memory_links.trans h.memory_links
  memory_history := h'.memory_history.trans h.memory_history
  qortia_session_reads := h'.qortia_session_reads.trans h.qortia_session_reads
  qortia_outcome_records := h'.qortia_outcome_records.trans h.qortia_outcome_records
  qortia_clearance_levels := h'.qortia_clearance_levels.trans h.qortia_clearance_levels

/-- Rows of another tenant are added to the history. -/
theorem history {new : List MemoryHistory} (h : ∀ r ∈ new, r.tenant_id ≠ t) (db : Db K) :
    db.SameFor t { db with memory_history := db.memory_history ++ new } :=
  { refl t db with
    memory_history := rows.filter_append_outside (fun r hr => decide_eq_false (h r hr)) _ }

end Db.SameFor

/-! ## Whose rows they are -/

/-- An agent is of one tenant. -/
theorem Db.Owned.tenant_unique {db : Db K} (h : db.Owned) {agent_id t t' : UUID}
    (ht : (agent_id, t) ∈ db.agent_keys) (ht' : (agent_id, t') ∈ db.agent_keys) : t = t' :=
  congrArg Prod.snd (List.inj_on_of_nodup_map h.agents_nodup ht ht' rfl)

theorem Db.Owned.tenant_of_agent {db : Db K} (h : db.Owned) {agent_id tenant_id : UUID}
    (hkey : (agent_id, tenant_id) ∈ db.agent_keys) {a : Agent} (ha : a ∈ db.qortia_agents)
    (hid : a.id = agent_id) : a.tenant_id = tenant_id := by
  have hmem : (a.id, a.tenant_id) ∈ db.agent_keys :=
    List.mem_map.mpr ⟨a, ha, rfl⟩
  rw [hid] at hmem
  exact h.tenant_unique hmem hkey

theorem Db.Owned.tenant_of_memory {db : Db K} (h : db.Owned) {agent_id tenant_id : UUID}
    (hkey : (agent_id, tenant_id) ∈ db.agent_keys) {r : HindsightMemory K}
    (hr : r ∈ db.hindsight_memories) (hid : r.agent_id = agent_id) : r.tenant_id = tenant_id := by
  have hmem := h.owned r hr
  rw [hid] at hmem
  exact h.tenant_unique hmem hkey

/-! ## The requests -/

section
variable {o : Outside K} {agent : AgentIdentity} {now : Timestamp} {t : UUID} {db db' : Db K}

/-- The counter of an agent of another tenant. -/
theorem count_same_for {agent_id tenant_id : UUID} {f : Agent → Agent} (h : db.Owned)
    (hkey : (agent_id, tenant_id) ∈ db.agent_keys) (ht : tenant_id ≠ t)
    (hf : ∀ a, (f a).tenant_id = a.tenant_id) :
    db.SameFor t { db with
      qortia_agents := rows.update (fun a => a.id = agent_id) f db.qortia_agents } := by
  refine { Db.SameFor.refl t db with qortia_agents := ?_ }
  apply rows.filter_update_outside
  · intro a
    simp only [hf]
  · intro a ha hid
    rw [h.tenant_of_agent hkey ha (of_decide_eq_true hid)]
    exact decide_eq_false ht

theorem insert_memory_same_for {r : HindsightMemory K} {new : MemoryHistory}
    (hr : r.tenant_id ≠ t) (hnew : new.tenant_id ≠ t) (db : Db K) :
    db.SameFor t (insert_memory r (db.memory_history ++ [new]) db) :=
  { Db.SameFor.refl t db with
    hindsight_memories := by
      apply rows.filter_append_outside
      intro x hx
      rw [List.mem_singleton.mp hx]
      exact decide_eq_false hr
    memory_history := by
      apply rows.filter_append_outside
      intro x hx
      rw [List.mem_singleton.mp hx]
      exact decide_eq_false hnew }

theorem remember_same_for {choice : Nat} {memories : List MemoryItem} {result : Db K × List UUID}
    (h : db.Owned) (ht : agent.tenant_id ≠ t)
    (hreq : remember o agent now choice memories db = .ok result) : db.SameFor t result.1 := by
  obtain ⟨db', ids⟩ := result
  have hkey := assert_agent_active_key (remember_active hreq)
  have hkeep := remember_preserves
    (P := fun d => d.Owned ∧ d.agent_keys = db.agent_keys ∧ db.SameFor t d) hreq
    (fun d mem expires ⟨howned, hkeys, hsame⟩ => ?_) (fun d n ⟨howned, hkeys, hsame⟩ => ?_)
    ⟨h, rfl, .refl t db⟩
  · exact hkeep.2.2
  · rw [← hkeys] at hkey
    exact ⟨howned.insert_memory rfl hkey _, hkeys, hsame.trans (insert_memory_same_for ht ht d)⟩
  · rw [← hkeys] at hkey
    have hcount : (count_episodic agent.agent_id now n d).agent_keys = d.agent_keys :=
      agent_keys_update (by intro a; rfl)
    refine ⟨?_, hcount.trans hkeys, hsame.trans (count_same_for howned hkey ht fun a => rfl)⟩
    exact howned.of_sublist (le_refl _) hcount (List.Sublist.refl _) (List.Sublist.refl _)

theorem remember_org_same_for {body : RememberOrgRequest} {result : Db K × UUID}
    (ht : agent.tenant_id ≠ t) (hreq : remember_org o agent now body db = .ok result) :
    db.SameFor t result.1 := by
  obtain ⟨db', row_id⟩ := result
  obtain ⟨-, -, -, rfl⟩ := remember_org_eq hreq
  refine { Db.SameFor.refl t db with
    org_memory := rows.filter_upsert_outside (fun q => rfl) (fun q _ hq => ?_) (decide_eq_false ht)
    memory_history := rows.filter_append_outside (fun r hr => ?_) _ }
  · simp only [org_conflict, Bool.and_eq_true, decide_eq_true_eq] at hq
    rw [hq.1.1.2]
    exact decide_eq_false ht
  · rw [List.mem_singleton.mp hr]
    exact decide_eq_false ht

theorem forget_same_for {id : UUID} (h : db.Owned) (ht : agent.tenant_id ≠ t)
    (hreq : forget o agent now id db = .ok db') : db.SameFor t db' := by
  obtain ⟨hactive, table, content, hfound, rfl⟩ := forget_eq hreq
  have hkey := assert_agent_active_key hactive
  have hdelete : db.SameFor t (delete_memory table id db) := by
    rcases find_forgotten_cases hfound with ⟨rfl, r₀, hr₀, hid₀, howner, -⟩ |
      ⟨rfl, q₀, hq₀, hid₀, htenant, -⟩
    · refine { Db.SameFor.refl t db with
        hindsight_memories := rows.filter_delete_outside fun r hr hp => ?_ }
      have hid : r.id = id := of_decide_eq_true hp
      have hsame := List.inj_on_of_nodup_map h.keyed.hindsight_nodup hr hr₀ (hid.trans hid₀.symm)
      rw [hsame, h.tenant_of_memory hkey hr₀ howner]
      exact decide_eq_false ht
    · refine { Db.SameFor.refl t db with
        org_memory := rows.filter_delete_outside fun q hq hp => ?_ }
      have hid : q.id = id := of_decide_eq_true hp
      have hsame := List.inj_on_of_nodup_map h.keyed.org_nodup hq hq₀ (hid.trans hid₀.symm)
      rw [hsame, htenant]
      exact decide_eq_false ht
  have hunlink : ∀ d : Db K, d.SameFor t (unlink_memory agent.tenant_id id now d) := by
    intro d
    refine { Db.SameFor.refl t d with
      qortia_entities := rows.filter_update_outside (fun e => rfl) fun e _ he => ?_
      memory_links := rows.filter_delete_outside fun l _ hl => ?_ }
    · rw [of_decide_eq_true (Bool.and_eq_true_iff.mp he).2]
      exact decide_eq_false ht
    · rw [of_decide_eq_true (Bool.and_eq_true_iff.mp hl).2]
      exact decide_eq_false ht
  have hhistory : db.memory_history =
      (unlink_memory agent.tenant_id id now (delete_memory table id db)).memory_history := by
    cases table with
    | hindsight_memories | org_memory | org_knowledge => rfl
  rw [hhistory]
  refine (hdelete.trans (hunlink _)).trans (.history (fun r hr => ?_) _)
  rw [List.mem_singleton.mp hr]
  exact ht

theorem delete_document_same_for {tenant_id : UUID} (ht : tenant_id ≠ t) (source_path : String)
    (db : Db K) : db.SameFor t (delete_document tenant_id source_path db) := by
  refine { Db.SameFor.refl t db with
    org_knowledge := rows.filter_delete_outside fun r _ hr => ?_ }
  simp only [of_document, Bool.and_eq_true, decide_eq_true_eq] at hr
  rw [hr.1]
  exact decide_eq_false ht

theorem ingest_same_for {choice : Nat → Nat} {body : KnowledgeIngestRequest}
    {result : Db K × IngestResponse} (ht : agent.tenant_id ≠ t)
    (hreq : ingest_knowledge o agent now choice body db = .ok result) : db.SameFor t result.1 := by
  obtain ⟨-, hsame | hinserted⟩ := ingest_committed hreq
  · rw [hsame]
    exact .refl t db
  · rw [hinserted]
    refine (delete_document_same_for ht body.source_path db).trans
      { Db.SameFor.refl t (delete_document agent.tenant_id body.source_path db) with
        org_knowledge := rows.filter_append_outside (fun r hr => ?_) _
        memory_history := rows.filter_append_outside (fun r hr => ?_) _ }
    · rw [(ingested_rows_id_ge hr).1.tenant_id]
      exact decide_eq_false ht
    · rw [List.mem_singleton.mp hr]
      exact decide_eq_false ht

theorem delete_knowledge_same_for {source_path : String} {result : Db K × Nat}
    (ht : agent.tenant_id ≠ t) (hreq : delete_knowledge agent source_path db = .ok result) :
    db.SameFor t result.1 := by
  obtain ⟨-, hresult⟩ := delete_knowledge_ok hreq
  rw [hresult]
  refine (delete_document_same_for ht source_path db).trans (.history (fun r hr => ?_) _)
  rw [List.mem_singleton.mp hr]
  exact ht

theorem record_recall_access_same_for {tenant_id : UUID} (ht : tenant_id ≠ t)
    (results : List (RecallResult K)) (now : Timestamp) (db : Db K) :
    db.SameFor t (record_recall_access results tenant_id now db) := by
  unfold record_recall_access
  dsimp only
  split
  · exact .refl t db
  · refine { Db.SameFor.refl t db with
      hindsight_memories := rows.filter_update_outside (fun r => rfl) fun r _ hr => ?_
      org_memory := rows.filter_update_outside (fun r => rfl) fun r _ hr => ?_
      org_knowledge := rows.filter_update_outside (fun r => rfl) fun r _ hr => ?_ }
    all_goals
      rw [of_decide_eq_true (Bool.and_eq_true_iff.mp hr).2]
      exact decide_eq_false ht

theorem log_session_reads_same_for {w : WorkOrderRecall} (ht : w.id.agent.tenant_id ≠ t)
    (db : Db K) : db.SameFor t (log_session_reads w db) := by
  refine { Db.SameFor.refl t db with
    qortia_session_reads := rows.filter_append_outside (fun r hr => ?_) _ }
  obtain ⟨i, -, rfl⟩ := List.mem_map.mp hr
  exact decide_eq_false ht

theorem insert_outcome_record_same_for {r : OutcomeRecord} (ht : r.tenant_id ≠ t)
    (records : List OutcomeRecord) :
    (insert_outcome_record r records).filter (fun r => r.tenant_id = t) =
      records.filter fun r => r.tenant_id = t := by
  unfold insert_outcome_record
  split
  · rfl
  · apply rows.filter_append_outside
    intro x hx
    rw [List.mem_singleton.mp hx]
    exact decide_eq_false ht

theorem commit_outcome_same_for {p : Report} (ht : p.id.agent.tenant_id ≠ t)
    (memory_ids : List UUID) (db : Db K) : db.SameFor t (commit_outcome p memory_ids db) := by
  unfold commit_outcome
  split
  · exact { Db.SameFor.refl t db with
      qortia_outcome_records := insert_outcome_record_same_for ht _ }
  · refine { Db.SameFor.refl t db with
      hindsight_memories := rows.filter_update_outside (fun r => rfl) fun r _ hr => ?_
      qortia_outcome_records := insert_outcome_record_same_for ht _ }
    rw [of_decide_eq_true (Bool.and_eq_true_iff.mp hr).2]
    exact decide_eq_false ht

end

/-! ## A reflect run -/

section
variable {t : UUID}

theorem statement_same_for {w : Writer} (st : WriteStatement K) {db : Db K} (ids : List UUID)
    (h : db.Owned) (hkey : (w.agent_id, w.tenant_id) ∈ db.agent_keys) (ht : w.tenant_id ≠ t) :
    db.SameFor t (st.exec w (db, ids)).1 := by
  have hother : ∀ r ∈ db.hindsight_memories, r.agent_id = w.agent_id →
      decide (r.tenant_id = t) = false := by
    intro r hr hagent
    rw [h.tenant_of_memory hkey hr hagent]
    exact decide_eq_false ht
  cases st with
  | prune ids' =>
    refine { Db.SameFor.refl t db with
      hindsight_memories := rows.filter_update_outside (fun r => rfl) fun r hr hp => ?_ }
    simp only [consolidated, Bool.and_eq_true, decide_eq_true_eq] at hp
    exact hother r hr hp.1.1.1
  | supersede id =>
    refine { Db.SameFor.refl t db with
      hindsight_memories := rows.filter_update_outside (fun r => rfl) fun r hr hp => ?_ }
    exact hother r hr (of_decide_eq_true (Bool.and_eq_true_iff.mp hp).2)
  | insert =>
    refine { Db.SameFor.refl t db with
      hindsight_memories := rows.filter_append_outside (fun r hr => ?_) _ }
    rw [List.mem_singleton.mp hr]
    exact decide_eq_false ht

/-- The statements of a reflect run, one after the other. -/
theorem statements_same_for {w : Writer} (ht : w.tenant_id ≠ t) (sts : List (WriteStatement K))
    (s : Db K × List UUID) (h : s.1.Owned) (hkey : (w.agent_id, w.tenant_id) ∈ s.1.agent_keys) :
    (sts.foldl (fun s st => st.exec w s) s).1.Owned ∧
      (sts.foldl (fun s st => st.exec w s) s).1.agent_keys = s.1.agent_keys ∧
      s.1.SameFor t (sts.foldl (fun s st => st.exec w s) s).1 := by
  induction sts generalizing s with
  | nil => exact ⟨h, rfl, .refl t s.1⟩
  | cons st sts ih =>
    have hmoves : s.1.Moves [] (st.exec w (s.1, s.2)).1 := statement_moves st h hkey []
    have hkey' : (w.agent_id, w.tenant_id) ∈ (st.exec w s).1.agent_keys := by
      rw [hmoves.agent_keys]
      exact hkey
    obtain ⟨howned, hkeys, hsame⟩ := ih (st.exec w s) hmoves.owned hkey'
    exact ⟨howned, hkeys.trans hmoves.agent_keys,
      (statement_same_for st s.2 h hkey ht).trans hsame⟩

variable [Field K] [LinearOrder K] [HasSqrt K] {o : Outside K} {cfg : Settings} {db : Db K}

theorem write_reflections_same_for {w : Writer} {reflections : List Reflection}
    {new_embeddings : Nat → Option (List K)}
    {existing_embeddings : String → Option (StoredVector K)}
    {existing : List (HindsightMemory K)} {result : Db K × Nat × Option Int} (h : db.Owned)
    (hkey : (w.agent_id, w.tenant_id) ∈ db.agent_keys) (ht : w.tenant_id ≠ t)
    (hreq : write_reflections o cfg w reflections new_embeddings existing_embeddings existing db =
      .ok result) : db.SameFor t result.1 := by
  unfold write_reflections at hreq
  obtain ⟨sts, -, hreq⟩ := bind_ok hreq
  obtain ⟨howned, hkeys, hsame⟩ := statements_same_for ht sts (db, []) h hkey
  rw [← hkeys] at hkey
  have hcounter : ∀ d : Db K, d.Owned → (w.agent_id, w.tenant_id) ∈ d.agent_keys →
      d.SameFor t (decrement_counter cfg.reflection_threshold w d) :=
    fun d hd hd_key => count_same_for hd hd_key ht fun a => rfl
  have hhistory : ∀ (ids : List UUID) (d : Db K), d.SameFor t (write_history w ids d) := by
    intro ids d
    refine .history (fun r hr => ?_) d
    obtain ⟨i, -, rfl⟩ := List.mem_map.mp hr
    exact ht
  cases hreq
  exact (hsame.trans (hcounter _ howned hkey)).trans (hhistory _ _)

theorem reflect_same_for {agent : AgentIdentity} {now : Timestamp}
    {answer : Except Failure (List Reflection)} {failed : List Nat}
    {result : Db K × Nat × Option Int} (h : db.Owned) (ht : agent.tenant_id ≠ t)
    (hreq : reflect o cfg agent now answer failed db = .ok result) : db.SameFor t result.1 := by
  unfold reflect at hreq
  obtain ⟨u, hactive, hreq⟩ := bind_ok hreq
  simp only at hreq
  split at hreq
  · cases hreq
  · obtain ⟨reflections, -, hreq⟩ := bind_ok hreq
    exact write_reflections_same_for h (assert_agent_active_key hactive) ht hreq

end

/-! ## Every run -/

section
variable [Field K] [LinearOrder K] [HasSqrt K] {o : Outside K} {cfg : Settings} {cal : Calendar}
  {open_agents : List (UUID × UUID)} {t : UUID}

/-- A step is of an agent of another tenant. -/
def DeploymentAction.elsewhere (t : UUID) (a : DeploymentAction K) : Prop :=
  ∃ agent, a.agent = some agent ∧ agent.tenant_id ≠ t

omit [Field K] [LinearOrder K] [HasSqrt K] in
theorem tenant_elsewhere {a : DeploymentAction K} (h : a.elsewhere t) {agent : AgentIdentity}
    (hagent : a.agent = some agent) : agent.tenant_id ≠ t := by
  obtain ⟨agent', hagent', ht⟩ := h
  rw [hagent] at hagent'
  cases hagent'
  exact ht

omit [Field K] [LinearOrder K] [HasSqrt K] in
theorem not_elsewhere_of_worker {a : DeploymentAction K} (h : a.agent = none) :
    ¬ a.elsewhere t := by
  rintro ⟨agent, hagent, -⟩
  rw [h] at hagent
  cases hagent

theorem write_same_for {db db' : Db K} {a : DeploymentAction K} (h : db.Owned)
    (helsewhere : a.elsewhere t) (hwrite : DeploymentWrite o cfg cal open_agents db a db') :
    db.SameFor t db' := by
  have ht : ∀ {agent : AgentIdentity}, a.agent = some agent → agent.tenant_id ≠ t :=
    fun hagent => tenant_elsewhere helsewhere hagent
  cases hwrite with
  | none => exact .refl t db
  | remember hreq => exact remember_same_for h (ht rfl) hreq
  | remember_org hreq => exact remember_org_same_for (ht rfl) hreq
  | reflect hreq => exact reflect_same_for h (ht rfl) hreq
  | forget hreq => exact forget_same_for h (ht rfl) hreq
  | ingest hreq => exact ingest_same_for (ht rfl) hreq
  | delete hreq => exact delete_knowledge_same_for (ht rfl) hreq
  | access id now results => exact record_recall_access_same_for (ht rfl) results now db
  | session_reads id w private_ids => exact log_session_reads_same_for (ht rfl) db
  | outcome memory_ids => exact commit_outcome_same_for (ht rfl) memory_ids db
  | purge | archive | summary => exact absurd helsewhere (not_elsewhere_of_worker rfl)
  | graph ha | link ha | embedding ha | attempt ha =>
    exact absurd helsewhere (not_elsewhere_of_worker ha)
  | reflection => exact absurd helsewhere (not_elsewhere_of_worker rfl)

theorem run_same_for {s s' : Deployment K} {actions : List (DeploymentAction K)}
    (h : GoodDeployment s) (helsewhere : ∀ a ∈ actions, a.elsewhere t)
    (hrun : runs.run (deployment_step o cfg cal) s actions = some s') : s.db.SameFor t s'.db := by
  induction actions generalizing s with
  | nil =>
    cases hrun
    exact .refl t _
  | cons a actions ih =>
    obtain ⟨s₁, hs₁, hrun⟩ := Option.bind_eq_some_iff.mp hrun
    have hfirst := write_same_for h.owned (helsewhere a List.mem_cons_self)
      (deployment_step_writes hs₁)
    have hrest := ih (deployment_step_good h hs₁)
      (fun b hb => helsewhere b (List.mem_cons_of_mem a hb)) hrun
    exact hfirst.trans hrest

/-- From any state that the service reaches: however many requests, tasks and reports of the agents
of other organisations follow, every row of the organisation stays as it was, in every table. -/
theorem other_organisations_write_nothing (o : Outside K) (cfg : Settings) (cal : Calendar)
    (db : Db K) (hblank : db.Blank) (hagents : (db.qortia_agents.map (·.id)).Nodup)
    (earlier later : List (DeploymentAction K)) (s s' : Deployment K) (t : UUID)
    (hearlier : runs.run (deployment_step o cfg cal) db.deployed earlier = some s)
    (hlater : runs.run (deployment_step o cfg cal) s later = some s')
    (helsewhere : ∀ a ∈ later, a.elsewhere t) : s.db.SameFor t s'.db :=
  run_same_for (good_deployment_of_run hblank hagents hearlier) helsewhere hlater

end

/-! ## Two organisations -/

def reporter_remembers : List (DeploymentAction ℚ) :=
  [.memory (.remember reporter 0 0 [standup_moved])]

/-- The agent of the organisation 2 remembers, recalls under a work order, reports on it and
forgets. -/
def neighbour_works : List (DeploymentAction ℚ) :=
  .memory (.remember neighbour 1 0 [standup_cancelled]) ::
    (recall_and_report neighbour 7 .SUCCESS).map .request ++ [.memory (.forget neighbour 3 1)]

theorem other_organisations_write_nothing_here :
    ∃ s s' : Deployment ℚ, s.db.hindsight_memories.map (·.id) = [0] ∧
      s'.db.memory_history.length = 3 ∧ s'.db.qortia_outcome_records.length = 1 ∧
      s.db.SameFor 1 s'.db := by
  have hend : ((runs.run (deployment_step no_models {} no_calendar) tenants_db.deployed
      reporter_remembers).bind fun s => (runs.run (deployment_step no_models {} no_calendar) s
        neighbour_works).map fun s' => (s.db.hindsight_memories.map (·.id),
          s'.db.memory_history.length, s'.db.qortia_outcome_records.length)) =
      some ([0], 3, 1) := by
    decide +kernel
  obtain ⟨s, hs, hend⟩ := Option.bind_eq_some_iff.mp hend
  obtain ⟨s', hs', hend⟩ := Option.map_eq_some_iff.mp hend
  obtain ⟨hids, hend⟩ := Prod.mk.inj hend
  obtain ⟨hhistory, hrecords⟩ := Prod.mk.inj hend
  refine ⟨s, s', hids, hhistory, hrecords, other_organisations_write_nothing no_models {}
    no_calendar tenants_db ⟨rfl, rfl, rfl, rfl, rfl⟩ (by decide) reporter_remembers
    neighbour_works s s' 1 hs hs' ?_⟩
  have hagent : ∀ a ∈ neighbour_works, a.agent = some neighbour := by decide
  exact fun a ha => ⟨neighbour, hagent a ha, by decide⟩

end qortia
