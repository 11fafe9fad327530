-- The service as it is deployed: the API with its background tasks, next to the loops of
-- `qortia.workers`. A reflect run reads in one transaction and writes in another, with the rest of
-- the service in between. The embedding loop never comes to `_maybe_dedup_memory`, because its
-- claims select no type.
import Qortia.IdleReflection
import Qortia.OutcomeRuns
import Qortia.WeeklySummary

namespace qortia

variable {K : Type}

/-! ## The archival -/

/-- The WHERE of `_archive_old_episodic_memories`. -/
def old_episodic (now : Timestamp) (r : HindsightMemory K) : Bool :=
  r.type = .episodic && r.tier = .active && r.created_at < now - 30 * DAY &&
    r.importance < 4 / 10 && r.recall_count < 3

/-- `_archive_old_episodic_memories`. -/
def archive_old_episodic_memories (now : Timestamp) (db : Db K) : Db K :=
  { db with
    hindsight_memories := rows.update (old_episodic now) (fun r => { r with tier := .archive })
      db.hindsight_memories }

/-- The two statements of a commit of `_summarise_tenant`. -/
def commit_summary (cal : Calendar) (tenant_id : UUID) (now today : Timestamp)
    (handoffs : List Handoff) (db : Db K) : Db K :=
  { db with
    org_memory := db.org_memory ++ [weekly_row cal tenant_id now today handoffs db.next_id]
    next_id := db.next_id + 1
    qortia_tenants := rows.update (fun t => t.id = tenant_id)
      (fun t => { t with weekly_summary_last_run_at := some now }) db.qortia_tenants }

/-! ## The state and the steps -/

/-- A reflect run between its two transactions, with the rows that it has read. -/
structure OpenReflection (K : Type) where
  agent_id : UUID
  tenant_id : UUID
  existing : List (HindsightMemory K)

/-- The requests, the reflect runs that are open, and the replica that leads the weekly summaries
with the clock that it reads. -/
structure Deployment (K : Type) where
  outcomes : OutcomeState K
  reflections : List (OpenReflection K) := []
  clock : Timestamp := 0
  leader : Option (Nat × SummaryCycle) := none
  summaries : List WeeklySummary := []

/-- The service at its start. -/
def Db.deployed (db : Db K) : Deployment K := { outcomes := { service := { requests := { db } } } }

def Deployment.db (s : Deployment K) : Db K := s.outcomes.db

def Deployment.with_db (s : Deployment K) (db : Db K) : Deployment K :=
  { s with outcomes := s.outcomes.with_db db }

@[simp] theorem Deployment.with_db_db (s : Deployment K) (db : Db K) : (s.with_db db).db = db := rfl

/-- The agents whose reflect runs are open. -/
def Deployment.open_agents (s : Deployment K) : List (UUID × UUID) :=
  s.reflections.map fun r => (r.agent_id, r.tenant_id)

def Deployment.weekly (s : Deployment K) : Weekly K := ⟨s.db, s.clock, s.leader, s.summaries⟩

/-- A step of the clock or of a replica. The handoffs come and go by other requests here. -/
def WeeklyAction.of_replica : WeeklyAction → Bool
  | .remember_org .. | .forget .. => false
  | .tick _ | .lead _ | .begin_tenant _ | .lock_tenant .. | .fetch _ | .commit _ | .release _
  | .crash _ => true

/-- What the service does next. `background` is a reflect run of `_reflect_agent`, and the language
model has answered with the reflections of a `write_reflection`. -/
inductive DeploymentAction (K : Type) where
  | request (a : OutcomeAction K)
  | read_reflection (agent_id tenant_id : UUID) (now : Timestamp) (background : Bool)
  | write_reflection (i : Nat) (now : Timestamp) (reflections : List Reflection)
      (failed : List Nat)
  | drop_reflection (i : Nat)
  | archive_old (now : Timestamp)
  | weekly (a : WeeklyAction)

section
variable [Field K] [LinearOrder K] [HasSqrt K]

def deployment_step (o : Outside K) (cfg : Settings) (cal : Calendar) (s : Deployment K) :
    DeploymentAction K → Option (Deployment K)
  | .request a => (outcome_step o cfg s.outcomes a).map fun outcomes => { s with outcomes }
  | .read_reflection agent_id tenant_id now background =>
    match assert_agent_active agent_id tenant_id s.db with
    | .error _ => some s
    | .ok _ =>
      if background ∧ select_recent agent_id now s.db = [] then some s
      else if cfg.rerank_model = "" then some s
      else some { s with
        reflections := s.reflections ++ [⟨agent_id, tenant_id, select_existing agent_id s.db⟩] }
  | .write_reflection i now reflections failed =>
    s.reflections[i]?.map fun r =>
      match write_reflections o cfg ⟨r.agent_id, r.tenant_id, now⟩ reflections
          (new_embeddings o reflections failed) (existing_embeddings o r.existing) r.existing
          s.db with
      | .ok (db, _, _) => { s.with_db db with reflections := s.reflections.eraseIdx i }
      | .error _ => { s with reflections := s.reflections.eraseIdx i }
  | .drop_reflection i => some { s with reflections := s.reflections.eraseIdx i }
  | .archive_old now => some (s.with_db (archive_old_episodic_memories now s.db))
  | .weekly a =>
    if a.of_replica then
      (weekly_step o cal s.weekly a).map fun w =>
        { s.with_db w.db with clock := w.clock, leader := w.leader, summaries := w.summaries }
    else none

end

/-! ## Whose step it is -/

def ForgetAction.agent : ForgetAction → Option AgentIdentity
  | .remember agent .. | .remember_org agent .. | .reflect agent .. | .forget agent .. => some agent
  | .purge_expired _ | .start_graph_batch _ | .start_embedding _ | .advance .. | .stop _ => none

def ServiceAction.agent : ServiceAction → Option AgentIdentity
  | .memory a => a.agent
  | .ingest_knowledge agent .. | .delete_knowledge agent _ => some agent
  | .claim _ | .embed _ | .write _ | .fail _ => none

/-- The agent whose request, task or report it is. -/
def OutcomeAction.agent : OutcomeAction K → Option AgentIdentity
  | .«recall» id .. | .record_access id _ | .log_session_reads id | .report id _ _
  | .select_reads id | .commit_outcome id | .fail id _ => some id.agent
  | .service a => a.agent

/-- No agent stands behind a step of the worker loops. -/
def DeploymentAction.agent : DeploymentAction K → Option AgentIdentity
  | .request a => a.agent
  | .read_reflection .. | .write_reflection .. | .drop_reflection _ | .archive_old _ | .weekly _ =>
    none

/-- A request that writes memories, or a step of the workers that follow them. -/
abbrev DeploymentAction.memory (a : ForgetAction) : DeploymentAction K :=
  .request (.service (.memory a))

/-! ## What a step does to the tables -/

section
variable [Field K] [LinearOrder K] [HasSqrt K]

/-- The transactions and statements of the service, each with the step that runs it. `open_agents`
are the agents whose reflect runs are open. -/
inductive DeploymentWrite (o : Outside K) (cfg : Settings) (cal : Calendar)
    (open_agents : List (UUID × UUID)) (db : Db K) : DeploymentAction K → Db K → Prop
  | none (a : DeploymentAction K) : DeploymentWrite o cfg cal open_agents db a db
  | remember {agent : AgentIdentity} {now : Timestamp} {choice : Nat} {memories : List MemoryItem}
      {result : Db K × List UUID} (hreq : remember o agent now choice memories db = .ok result) :
      DeploymentWrite o cfg cal open_agents db (.memory (.remember agent now choice memories))
        result.1
  | remember_org {agent : AgentIdentity} {now : Timestamp} {body : RememberOrgRequest}
      {result : Db K × UUID} (hreq : remember_org o agent now body db = .ok result) :
      DeploymentWrite o cfg cal open_agents db (.memory (.remember_org agent now body)) result.1
  | reflect {agent : AgentIdentity} {now : Timestamp} {answer : Except Failure (List Reflection)}
      {failed : List Nat} {result : Db K × Nat × Option Int}
      (hreq : reflect o cfg agent now answer failed db = .ok result) :
      DeploymentWrite o cfg cal open_agents db (.memory (.reflect agent now answer failed)) result.1
  | forget {agent : AgentIdentity} {now : Timestamp} {id : UUID} {db' : Db K}
      (hreq : forget o agent now id db = .ok db') :
      DeploymentWrite o cfg cal open_agents db (.memory (.forget agent now id)) db'
  | ingest {agent : AgentIdentity} {now : Timestamp} {choice : Nat → Nat}
      {body : KnowledgeIngestRequest} {result : Db K × IngestResponse}
      (hreq : ingest_knowledge o agent now choice body db = .ok result) :
      DeploymentWrite o cfg cal open_agents db
        (.request (.service (.ingest_knowledge agent now choice body))) result.1
  | delete {agent : AgentIdentity} {source_path : String} {result : Db K × Nat}
      (hreq : delete_knowledge agent source_path db = .ok result) :
      DeploymentWrite o cfg cal open_agents db
        (.request (.service (.delete_knowledge agent source_path))) result.1
  | access (id : RequestId) (now : Timestamp) (results : List (RecallResult K)) :
      DeploymentWrite o cfg cal open_agents db (.request (.record_access id now))
        (record_recall_access results id.agent.tenant_id now db)
  | session_reads (id : RequestId) (w : UUID) (private_ids : List UUID) :
      DeploymentWrite o cfg cal open_agents db (.request (.log_session_reads id))
        (log_session_reads ⟨id, w, private_ids⟩ db)
  | outcome {p : Report} (memory_ids : List UUID) :
      DeploymentWrite o cfg cal open_agents db (.request (.commit_outcome p.id))
        (commit_outcome p memory_ids db)
  | purge (now : Timestamp) :
      DeploymentWrite o cfg cal open_agents db (.memory (.purge_expired now))
        (purge_expired_short_term_memories now db)
  | graph {a : DeploymentAction K} (ha : a.agent = none) (now : Timestamp) (row : GraphRow) :
      DeploymentWrite o cfg cal open_agents db a (graph_transaction o cfg now db row)
  | link {a : DeploymentAction K} (ha : a.agent = none) (memory_id tenant_id : UUID)
      (similar : UUID × K) :
      DeploymentWrite o cfg cal open_agents db a (upsert_memory_link memory_id tenant_id similar db)
  | embedding {a : DeploymentAction K} (ha : a.agent = none) (tbl : EmbeddedTable) (id : UUID)
      (v : List K) : DeploymentWrite o cfg cal open_agents db a (write_embedding tbl id v db)
  | attempt {a : DeploymentAction K} (ha : a.agent = none) (tbl : EmbeddedTable) (id : UUID) :
      DeploymentWrite o cfg cal open_agents db a (count_attempt tbl id db)
  | reflection {i : Nat} {w : Writer} {reflections : List Reflection} {failed : List Nat}
      {existing : List (HindsightMemory K)} {result : Db K × Nat × Option Int}
      (hopen : open_agents[i]? = some (w.agent_id, w.tenant_id))
      (hreq : write_reflections o cfg w reflections (new_embeddings o reflections failed)
        (existing_embeddings o existing) existing db = .ok result) :
      DeploymentWrite o cfg cal open_agents db (.write_reflection i w.now reflections failed)
        result.1
  | archive (now : Timestamp) :
      DeploymentWrite o cfg cal open_agents db (.archive_old now)
        (archive_old_episodic_memories now db)
  | summary {a : WeeklyAction} (tenant_id : UUID) (now today : Timestamp)
      (handoffs : List Handoff) :
      DeploymentWrite o cfg cal open_agents db (.weekly a)
        (commit_summary cal tenant_id now today handoffs db)

variable {o : Outside K} {cfg : Settings} {cal : Calendar} {open_agents : List (UUID × UUID)}

/-- A request writes what it commits. -/
theorem request_writes {α : Type} {s s' : Forgetting K} {f : α → Db K} {result : Except Failure α}
    {a : DeploymentAction K}
    (hok : ∀ x, result = .ok x → DeploymentWrite o cfg cal open_agents s.db a (f x))
    (hs : s.request f result = some s') : DeploymentWrite o cfg cal open_agents s.db a s'.db :=
  request_keeps (P := fun s' => DeploymentWrite o cfg cal open_agents s.db a s'.db) (.none a) hok hs

theorem forget_step_writes {s s' : Forgetting K} {b : ForgetAction}
    (hstep : forget_step o cfg s b = some s') :
    DeploymentWrite o cfg cal open_agents s.db (.memory b) s'.db := by
  cases b with
  | remember agent now choice memories => exact request_writes (fun _ hreq => .remember hreq) hstep
  | remember_org agent now body => exact request_writes (fun _ hreq => .remember_org hreq) hstep
  | reflect agent now answer failed => exact request_writes (fun _ hreq => .reflect hreq) hstep
  | purge_expired now =>
    cases hstep
    exact .purge now
  | forget agent now id =>
    rcases forget_answered hstep with rfl | ⟨db', hreq, rfl⟩
    · exact .none _
    · exact .forget hreq
  | start_graph_batch ids =>
    cases hstep
    exact .none _
  | start_embedding claim =>
    obtain ⟨r, -, -, -, rfl⟩ := embedding_started hstep
    exact .none _
  | advance i now ids =>
    obtain ⟨w, db', w', -, hws, rfl⟩ := worker_advanced hstep
    rcases worker_step_db hws with rfl | ⟨row, rfl⟩ | ⟨id, v, rfl⟩ |
      ⟨memory_id, tenant_id, similar, rfl⟩
    · exact .none _
    · exact .graph rfl now row
    · exact .embedding rfl .hindsight_memories id v
    · exact .link rfl memory_id tenant_id similar
  | stop i =>
    obtain ⟨w, -, rfl⟩ := Option.map_eq_some_iff.mp hstep
    cases w with
    | claimed memory_id => exact .attempt rfl .hindsight_memories memory_id
    | private_rows | org_rows | embedded | linking | finished => exact .none _

theorem committed_writes {α : Type} {e : Embedding K} {f : α → Db K} {result : Except Failure α}
    {a : DeploymentAction K}
    (hok : ∀ x, result = .ok x → DeploymentWrite o cfg cal open_agents e.db a (f x)) :
    DeploymentWrite o cfg cal open_agents e.db a (committed e f result).db := by
  cases result with
  | ok x => exact hok x rfl
  | error e => exact .none a

theorem embedding_step_db {s s' : Service K} {c : EmbeddingAction K}
    (hstep : s.embedding_step o cfg c = some s') :
    ∃ e, embedding_step o cfg ⟨s.requests.db, s.claimed⟩ c = some e ∧ s'.requests.db = e.db := by
  obtain ⟨e, he, rfl⟩ := Option.map_eq_some_iff.mp hstep
  exact ⟨e, he, rfl⟩

theorem service_step_writes {s s' : Service K} {b : ServiceAction}
    (hstep : service_step o cfg s b = some s') :
    DeploymentWrite o cfg cal open_agents s.requests.db (.request (.service b)) s'.requests.db := by
  cases b with
  | memory b =>
    obtain ⟨requests, hforget, rfl⟩ := Option.map_eq_some_iff.mp hstep
    exact forget_step_writes hforget
  | ingest_knowledge agent now choice body =>
    obtain ⟨e, he, hdb⟩ := embedding_step_db hstep
    rw [hdb]
    cases he
    exact committed_writes (e := ⟨s.requests.db, s.claimed⟩) fun _ hreq => .ingest hreq
  | delete_knowledge agent source_path =>
    obtain ⟨e, he, hdb⟩ := embedding_step_db hstep
    rw [hdb]
    cases he
    exact committed_writes (e := ⟨s.requests.db, s.claimed⟩) fun _ hreq => .delete hreq
  | claim picked =>
    obtain ⟨e, he, hdb⟩ := embedding_step_db hstep
    rw [hdb]
    simp only [embedding_step] at he
    split at he
    · cases he
      exact .none _
    · cases he
  | embed i =>
    obtain ⟨e, he, hdb⟩ := embedding_step_db hstep
    rw [hdb]
    simp only [embedding_step] at he
    split at he
    · split at he
      · cases he
        exact .none _
      · cases he
        exact .none _
    · cases he
  | write i =>
    obtain ⟨e, he, hdb⟩ := embedding_step_db hstep
    rw [hdb]
    simp only [embedding_step] at he
    split at he
    · cases he
      exact .embedding rfl _ _ _
    · cases he
  | fail i =>
    obtain ⟨e, he, hdb⟩ := embedding_step_db hstep
    rw [hdb]
    simp only [embedding_step] at he
    split at he
    · cases he
      exact .attempt rfl _ _
    · cases he

theorem outcome_step_writes {s s' : OutcomeState K} {b : OutcomeAction K}
    (hstep : outcome_step o cfg s b = some s') :
    DeploymentWrite o cfg cal open_agents s.db (.request b) s'.db := by
  cases b with
  | «recall» id env answer body w =>
    rcases step_recall hstep with rfl | ⟨results, rfl⟩
    · exact .none _
    · exact .none _
  | record_access id now =>
    obtain ⟨t, -, rfl⟩ := Option.map_eq_some_iff.mp hstep
    exact .access id now t.results
  | log_session_reads id =>
    obtain ⟨t, ht, rfl⟩ := Option.map_eq_some_iff.mp hstep
    have hid : t.id = id := by simpa using List.find?_some ht
    subst hid
    exact .session_reads t.id t.work_order_id t.private_ids
  | report id w outcome =>
    rcases step_report hstep with rfl | ⟨-, rfl⟩
    · exact .none _
    · exact .none _
  | select_reads id =>
    obtain ⟨p, -, -, rfl⟩ := step_select_reads hstep
    exact .none _
  | commit_outcome id =>
    obtain ⟨p, memory_ids, hp, -, rfl⟩ := step_commit_outcome hstep
    obtain ⟨-, rfl⟩ := report_mem hp
    exact .outcome memory_ids
  | fail id task =>
    cases task with
    | record_access | log_session_reads =>
      cases hstep
      exact .none _
    | report =>
      rw [step_fail_report hstep]
      exact .none _
  | service b =>
    obtain ⟨service, hservice, rfl⟩ := Option.map_eq_some_iff.mp hstep
    exact service_step_writes hservice

/-- A step of a replica commits a summary, or it writes nothing. -/
theorem weekly_step_writes {s : Deployment K} {b : WeeklyAction} {w : Weekly K}
    (hreplica : b.of_replica = true)
    (hstep : weekly_step o cal s.weekly b = some w) :
    DeploymentWrite o cfg cal open_agents s.db (.weekly b) w.db := by
  cases b with
  | remember_org | forget => cases hreplica
  | tick now =>
    simp only [weekly_step] at hstep
    split at hstep
    · cases hstep
      exact .none _
    · cases hstep
  | lead replica =>
    simp only [weekly_step] at hstep
    split at hstep
    · cases hstep
      exact .none _
    · cases hstep
  | begin_tenant replica =>
    simp only [weekly_step] at hstep
    split at hstep
    · split_ifs at hstep
      · cases hstep
        exact .none _
      · cases hstep
        exact .none _
    · cases hstep
  | lock_tenant replica skipped =>
    simp only [weekly_step] at hstep
    split at hstep
    · split_ifs at hstep
      · cases hstep
        exact .none _
      · cases hstep
        exact .none _
      · cases hstep
        exact .none _
    · cases hstep
  | fetch replica =>
    simp only [weekly_step] at hstep
    split at hstep
    · split_ifs at hstep
      · cases hstep
        exact .none _
      · cases hstep
        exact .none _
    · cases hstep
  | commit replica =>
    simp only [weekly_step] at hstep
    split at hstep
    · split_ifs at hstep
      cases hstep
      exact .summary _ _ _ _
    · cases hstep
  | release replica =>
    simp only [weekly_step] at hstep
    split at hstep
    · split_ifs at hstep
      cases hstep
      exact .none _
    · cases hstep
  | crash replica =>
    simp only [weekly_step] at hstep
    split at hstep
    · split_ifs at hstep
      cases hstep
      exact .none _
    · cases hstep

/-- What a step can do, said once. -/
theorem deployment_step_writes {s s' : Deployment K} {a : DeploymentAction K}
    (hstep : deployment_step o cfg cal s a = some s') :
    DeploymentWrite o cfg cal s.open_agents s.db a s'.db := by
  cases a with
  | request b =>
    obtain ⟨outcomes, houtcomes, rfl⟩ := Option.map_eq_some_iff.mp hstep
    exact outcome_step_writes houtcomes
  | read_reflection agent_id tenant_id now background =>
    simp only [deployment_step] at hstep
    split at hstep
    · cases hstep
      exact .none _
    · split_ifs at hstep
      · cases hstep
        exact .none _
      · cases hstep
        exact .none _
      · cases hstep
        exact .none _
  | write_reflection i now reflections failed =>
    obtain ⟨r, hr, rfl⟩ := Option.map_eq_some_iff.mp hstep
    have hopen : s.open_agents[i]? = some (r.agent_id, r.tenant_id) := by
      unfold Deployment.open_agents
      rw [List.getElem?_map, hr]
      rfl
    split
    · rename_i db n counter hreq
      exact .reflection (w := ⟨r.agent_id, r.tenant_id, now⟩) hopen hreq
    · exact .none _
  | drop_reflection i =>
    cases hstep
    exact .none _
  | archive_old now =>
    cases hstep
    exact .archive now
  | weekly b =>
    simp only [deployment_step] at hstep
    split at hstep
    · rename_i hreplica
      obtain ⟨w, hw, rfl⟩ := Option.map_eq_some_iff.mp hstep
      exact weekly_step_writes hreplica hw
    · cases hstep

/-! ## Who owns the memories -/

omit [Field K] [LinearOrder K] [HasSqrt K] in
theorem Db.Owned.record_recall_access {db : Db K} (h : db.Owned)
    (results : List (RecallResult K)) (tenant_id : UUID) (now : Timestamp) :
    (record_recall_access results tenant_id now db).Owned := by
  unfold qortia.record_recall_access
  dsimp only
  split
  · exact h
  · refine h.of_sublist (le_refl _) rfl ?_ ?_
    · exact rows.sublist_update (g := HindsightMemory.keys) (by intro r; rfl) _ _
    · exact rows.sublist_update (g := OrgMemory.keys) (by intro q; rfl) _ _

omit [Field K] [LinearOrder K] [HasSqrt K] in
theorem Db.Owned.commit_outcome {db : Db K} (h : db.Owned) (p : Report)
    (memory_ids : List UUID) : (commit_outcome p memory_ids db).Owned := by
  unfold qortia.commit_outcome
  split
  · exact h.of_sublist (le_refl _) rfl (List.Sublist.refl _) (List.Sublist.refl _)
  · refine h.of_sublist (le_refl _) rfl ?_ (List.Sublist.refl _)
    exact rows.sublist_update (g := HindsightMemory.keys) (by intro r; rfl) _ _

theorem write_reflections_owned {w : Writer} {reflections : List Reflection}
    {new_embeddings : Nat → Option (List K)}
    {existing_embeddings : String → Option (StoredVector K)}
    {existing : List (HindsightMemory K)} {db : Db K} {result : Db K × Nat × Option Int}
    (h : db.Owned) (howner : (w.agent_id, w.tenant_id) ∈ db.agent_keys)
    (hreq : write_reflections o cfg w reflections new_embeddings existing_embeddings existing db =
      .ok result) : result.1.Owned ∧ result.1.agent_keys = db.agent_keys := by
  obtain ⟨db', n, counter⟩ := result
  refine write_reflections_preserves (P := fun d => d.Owned ∧ d.agent_keys = db.agent_keys) hreq
    (fun d ids st hd => ?_) (fun d hd => ?_) (fun d history hd => ?_) ⟨h, rfl⟩
  · rw [← hd.2] at howner
    have hmoves : d.Moves [] (st.exec w (d, ids)).1 := statement_moves st hd.1 howner []
    exact ⟨hmoves.owned, hmoves.agent_keys.trans hd.2⟩
  · have hkeys : (decrement_counter cfg.reflection_threshold w d).agent_keys = d.agent_keys :=
      agent_keys_update (by intro a; rfl)
    exact ⟨hd.1.of_sublist (le_refl _) hkeys (List.Sublist.refl _) (List.Sublist.refl _),
      hkeys.trans hd.2⟩
  · exact ⟨hd.1.of_sublist (le_refl _) rfl (List.Sublist.refl _) (List.Sublist.refl _), hd.2⟩

theorem write_owned {db db' : Db K} {a : DeploymentAction K} (h : db.Owned)
    (hopen : ∀ key ∈ open_agents, key ∈ db.agent_keys)
    (hwrite : DeploymentWrite o cfg cal open_agents db a db') :
    db'.Owned ∧ db'.agent_keys = db.agent_keys := by
  have hmoves : ∀ {d : Db K}, db.Moves [] d → d.Owned ∧ d.agent_keys = db.agent_keys :=
    fun hm => ⟨hm.owned, hm.agent_keys⟩
  cases hwrite with
  | none => exact ⟨h, rfl⟩
  | remember hreq => exact hmoves (remember_moves h hreq [])
  | remember_org hreq => exact hmoves (remember_org_moves h hreq [])
  | reflect hreq => exact hmoves (reflect_moves h hreq [])
  | forget hreq => exact hmoves (forget_moves h hreq [])
  | ingest hreq => exact hmoves (ingest_moves h hreq [])
  | delete hreq => exact hmoves (delete_knowledge_moves h hreq [])
  | access id now results =>
    refine ⟨h.record_recall_access results _ now, ?_⟩
    unfold record_recall_access
    dsimp only
    split
    · rfl
    · rfl
  | session_reads =>
    exact ⟨h.of_sublist (le_refl _) rfl (List.Sublist.refl _) (List.Sublist.refl _), rfl⟩
  | outcome memory_ids =>
    refine ⟨h.commit_outcome _ memory_ids, ?_⟩
    unfold commit_outcome
    split
    · rfl
    · rfl
  | purge now => exact hmoves (purge_moves h now [])
  | graph ha now row =>
    exact ⟨transaction_owned h o cfg now row, (transaction_frame o cfg now db row).1⟩
  | link => exact ⟨h.of_sublist (le_refl _) rfl (List.Sublist.refl _) (List.Sublist.refl _), rfl⟩
  | embedding ha tbl id v => exact hmoves (write_embedding_moves h tbl id v [])
  | attempt ha tbl id => exact hmoves (count_attempt_moves h tbl id [])
  | reflection hmem hreq =>
    exact write_reflections_owned h (hopen _ (List.mem_of_getElem? hmem)) hreq
  | archive now => exact hmoves (h.moves_update_private (by intro r; rfl) [])
  | summary tenant_id now today handoffs =>
    have hkeyed := h.keyed.insert_org
      (q := weekly_row cal tenant_id now today handoffs db.next_id) rfl db.memory_history
    exact ⟨⟨⟨hkeyed.hindsight_nodup, hkeyed.org_nodup, hkeyed.disjoint, hkeyed.hindsight_lt,
      hkeyed.org_lt⟩, h.agents_nodup, h.owned⟩, rfl⟩

/-- The ids are keys, and each open reflect run is of an agent. -/
structure GoodDeployment (s : Deployment K) : Prop where
  owned : s.db.Owned
  open_agents : ∀ key ∈ s.open_agents, key ∈ s.db.agent_keys

/-- An open reflect run after a step was open before, or the step opens it and its agent is
active. -/
theorem step_open_agents {s s' : Deployment K} {a : DeploymentAction K}
    (hstep : deployment_step o cfg cal s a = some s') {key : UUID × UUID}
    (hkey : key ∈ s'.open_agents) : key ∈ s.open_agents ∨
      (key ∈ s.db.agent_keys ∧ ∃ now background,
        a = .read_reflection key.1 key.2 now background) := by
  cases a with
  | request b =>
    obtain ⟨outcomes, -, rfl⟩ := Option.map_eq_some_iff.mp hstep
    exact Or.inl hkey
  | read_reflection agent_id tenant_id now background =>
    simp only [deployment_step] at hstep
    split at hstep
    · cases hstep
      exact Or.inl hkey
    · rename_i hactive
      split_ifs at hstep
      · cases hstep
        exact Or.inl hkey
      · cases hstep
        exact Or.inl hkey
      · cases hstep
        unfold Deployment.open_agents at hkey
        rw [List.map_append] at hkey
        rcases List.mem_append.mp hkey with hold | hnew
        · exact Or.inl hold
        · rw [List.mem_singleton.mp hnew]
          exact Or.inr ⟨assert_agent_active_key hactive, now, background, rfl⟩
  | write_reflection i now reflections failed =>
    obtain ⟨r, -, rfl⟩ := Option.map_eq_some_iff.mp hstep
    have hsub := (List.eraseIdx_sublist s.reflections i).map fun r => (r.agent_id, r.tenant_id)
    refine Or.inl (hsub.subset ?_)
    split at hkey
    · exact hkey
    · exact hkey
  | drop_reflection i =>
    cases hstep
    have hsub := (List.eraseIdx_sublist s.reflections i).map fun r => (r.agent_id, r.tenant_id)
    exact Or.inl (hsub.subset hkey)
  | archive_old now =>
    cases hstep
    exact Or.inl hkey
  | weekly b =>
    simp only [deployment_step] at hstep
    split at hstep
    · obtain ⟨w, -, rfl⟩ := Option.map_eq_some_iff.mp hstep
      exact Or.inl hkey
    · cases hstep

theorem deployment_step_good {s s' : Deployment K} {a : DeploymentAction K}
    (h : GoodDeployment s) (hstep : deployment_step o cfg cal s a = some s') :
    GoodDeployment s' := by
  obtain ⟨howned, hkeys⟩ := write_owned h.owned h.open_agents (deployment_step_writes hstep)
  refine ⟨howned, fun key hkey => ?_⟩
  rw [hkeys]
  rcases step_open_agents hstep hkey with hold | ⟨hactive, -⟩
  · exact h.open_agents key hold
  · exact hactive

/-- In a run the agents stay those of the first state. -/
theorem run_good {s s' : Deployment K} {actions : List (DeploymentAction K)}
    (h : GoodDeployment s) (hrun : runs.run (deployment_step o cfg cal) s actions = some s') :
    GoodDeployment s' ∧ s'.db.agent_keys = s.db.agent_keys := by
  induction actions generalizing s with
  | nil =>
    cases hrun
    exact ⟨h, rfl⟩
  | cons a actions ih =>
    obtain ⟨s₁, hs₁, hrun⟩ := Option.bind_eq_some_iff.mp hrun
    obtain ⟨hgood, hkeys⟩ := ih (deployment_step_good h hs₁) hrun
    obtain ⟨-, hfirst⟩ := write_owned h.owned h.open_agents (deployment_step_writes hs₁)
    exact ⟨hgood, hkeys.trans hfirst⟩

/-- An open reflect run was open at first, or it has read in the run. -/
theorem run_open_agents {s s' : Deployment K} {actions : List (DeploymentAction K)}
    (hrun : runs.run (deployment_step o cfg cal) s actions = some s') {key : UUID × UUID}
    (hkey : key ∈ s'.open_agents) : key ∈ s.open_agents ∨
      ∃ now background, .read_reflection key.1 key.2 now background ∈ actions := by
  induction actions generalizing s with
  | nil =>
    cases hrun
    exact Or.inl hkey
  | cons a actions ih =>
    obtain ⟨s₁, hs₁, hrun⟩ := Option.bind_eq_some_iff.mp hrun
    rcases ih hrun with hopen | ⟨now, background, hread⟩
    · rcases step_open_agents hs₁ hopen with hold | ⟨-, now, background, rfl⟩
      · exact Or.inl hold
      · exact Or.inr ⟨now, background, List.mem_cons_self⟩
    · exact Or.inr ⟨now, background, List.mem_cons_of_mem a hread⟩

theorem good_deployment_of_run {db : Db K} (hblank : db.Blank)
    (hagents : (db.qortia_agents.map (·.id)).Nodup) {actions : List (DeploymentAction K)}
    {s : Deployment K} (hrun : runs.run (deployment_step o cfg cal) db.deployed actions = some s) :
    GoodDeployment s := by
  have hstart : GoodDeployment db.deployed := ⟨hblank.owned hagents, fun _ h => by cases h⟩
  exact (run_good hstart hrun).1

end

end qortia
