-- Recalls under work orders and the reports on them, next to the other requests and the workers.
-- A recall answers before its background tasks have run, and a report reads what they have logged.
import Qortia.Outcome
import Qortia.RecallApart

namespace qortia

variable {K : Type}

/-! ## The requests and their tasks -/

/-- A request of an agent, and the tasks that it spawns. -/
structure RequestId where
  agent : AgentIdentity
  number : Nat
  deriving DecidableEq

/-- `_safe_record_recall_access`, not yet run. -/
structure AccessTask (K : Type) where
  id : RequestId
  results : List (RecallResult K)

/-- A recall under a work order that has returned: `wo_uuid` and `private_ids`. The session-read
task has the same content. -/
structure WorkOrderRecall where
  id : RequestId
  work_order_id : UUID
  private_ids : List UUID
  deriving DecidableEq

/-- Where `_record_work_order_outcome` stands: before its SELECT, before its UPDATE with the ids
that it selected, or committed. `recorded` says that its record was inserted. -/
inductive ReportStage where
  | called
  | selected (memory_ids : List UUID)
  | committed (memory_ids : List UUID) (recorded : Bool)
  deriving DecidableEq

/-- A report that has passed its check. `recalled` are the private memories that the recalls of the
agent under the work order had returned when it came. -/
structure Report where
  id : RequestId
  work_order_id : UUID
  outcome : Outcome
  recalled : List UUID
  stage : ReportStage := .called
  deriving DecidableEq

/-- The service, the tasks that have not run, the recalls that have returned, and the reports. -/
structure OutcomeState (K : Type) where
  service : Service K
  accesses : List (AccessTask K) := []
  session_reads : List WorkOrderRecall := []
  returned : List WorkOrderRecall := []
  recall_ids : List RequestId := []
  reports : List Report := []

inductive OutcomeTask where
  | record_access
  | log_session_reads
  | report
  deriving DecidableEq

/-- The requests, their tasks and statements, a task or a report that raises (which is only
logged), and the steps of everything else. `work_order_id` is `UUID(x_work_order_id)`, `none` when
there is no header or it is no UUID. -/
inductive OutcomeAction (K : Type) where
  | «recall» (id : RequestId) (env : RecallEnv K) (answer : Option json.Json) (body : RecallRequest)
      (work_order_id : Option UUID)
  | record_access (id : RequestId) (now : Timestamp)
  | log_session_reads (id : RequestId)
  | report (id : RequestId) (work_order_id : UUID) (outcome : Outcome)
  | select_reads (id : RequestId)
  | commit_outcome (id : RequestId)
  | fail (id : RequestId) (task : OutcomeTask)
  | service (a : ServiceAction)

def OutcomeState.db (s : OutcomeState K) : Db K := s.service.requests.db

def OutcomeState.with_db (s : OutcomeState K) (db : Db K) : OutcomeState K :=
  { s with service := { s.service with requests := { s.service.requests with db } } }

/-! ## The statements -/

/-- `[r.id for r in results if r.scope == scope]`. -/
def ids_of (scope : ResultScope) (results : List (RecallResult K)) : List UUID :=
  (results.filter (·.scope = scope)).map (·.id)

/-- `_record_recall_access`. A `recall_count` at the end of its SMALLINT rolls it back. -/
def record_recall_access (results : List (RecallResult K)) (tenant_id : UUID) (now : Timestamp)
    (db : Db K) : Db K :=
  let memory (r : HindsightMemory K) := r.id ∈ ids_of .private_ results && r.tenant_id = tenant_id
  let org (r : OrgMemory K) := r.id ∈ ids_of .org results && r.tenant_id = tenant_id
  let knowledge (r : OrgKnowledge K) :=
    r.id ∈ ids_of .knowledge results && r.tenant_id = tenant_id
  if db.hindsight_memories.any (fun r => memory r && 32767 ≤ r.recall_count) ||
      db.org_memory.any (fun r => org r && 32767 ≤ r.recall_count) ||
      db.org_knowledge.any (fun r => knowledge r && 32767 ≤ r.recall_count) then db
  else
    { db with
      hindsight_memories := rows.update memory
        (fun r => { r with recall_count := r.recall_count + 1, last_recalled_at := some now })
        db.hindsight_memories
      org_memory := rows.update org
        (fun r => { r with recall_count := r.recall_count + 1, last_recalled_at := some now })
        db.org_memory
      org_knowledge := rows.update knowledge
        (fun r => { r with recall_count := r.recall_count + 1, last_recalled_at := some now })
        db.org_knowledge }

/-- `_log_session_reads`. -/
def log_session_reads (t : WorkOrderRecall) (db : Db K) : Db K :=
  { db with
    qortia_session_reads := db.qortia_session_reads ++ t.private_ids.map fun memory_id =>
      { tenant_id := t.id.agent.tenant_id, agent_id := t.id.agent.agent_id
        work_order_id := t.work_order_id, memory_id } }

def has_record (work_order_id : UUID) (records : List OutcomeRecord) : Bool :=
  records.any fun r => r.work_order_id = work_order_id

/-- The UPDATE, the INSERT and the commit of `_record_work_order_outcome`. The UPDATE locks its
rows until the commit. -/
def commit_outcome (p : Report) (memory_ids : List UUID) (db : Db K) : Db K :=
  let db₁ :=
    if memory_ids = [] then db
    else scale_confidence p.outcome memory_ids p.id.agent.tenant_id db
  { db₁ with
    qortia_outcome_records := insert_outcome_record
      { tenant_id := p.id.agent.tenant_id, agent_id := p.id.agent.agent_id
        work_order_id := p.work_order_id, outcome := p.outcome
        memory_count := memory_ids.length } db₁.qortia_outcome_records }

/-! ## The steps -/

def OutcomeState.report (s : OutcomeState K) (id : RequestId) : Option Report :=
  s.reports.find? (·.id = id)

def OutcomeState.set_stage (s : OutcomeState K) (id : RequestId) (stage : ReportStage) :
    OutcomeState K :=
  { s with reports := rows.update (·.id = id) (fun p => { p with stage }) s.reports }

/-- What the recalls of the agent under the work order have returned. -/
def OutcomeState.recalled (s : OutcomeState K) (agent : AgentIdentity) (work_order_id : UUID) :
    List UUID :=
  (s.returned.filter fun t => t.id.agent = agent && t.work_order_id = work_order_id).flatMap
    (·.private_ids)

/-- The results go to the client, and the tasks are created. -/
def OutcomeState.respond (s : OutcomeState K) (id : RequestId) (work_order_id : Option UUID)
    (results : List (RecallResult K)) : OutcomeState K :=
  let under := work_order_id.toList.map fun w => ⟨id, w, ids_of .private_ results⟩
  { s with
    accesses := s.accesses ++ [⟨id, results⟩]
    session_reads := s.session_reads ++ under
    returned := s.returned ++ under
    recall_ids := s.recall_ids ++ [id] }

section
variable [Field K] [LinearOrder K] [HasSqrt K]

def outcome_step (o : Outside K) (cfg : Settings) (s : OutcomeState K) :
    OutcomeAction K → Option (OutcomeState K)
  | .«recall» id env answer body work_order_id =>
    if id ∈ s.recall_ids then none
    else
      match «recall» o cfg env answer body id.agent s.db with
      | .ok results => some (s.respond id work_order_id results)
      | .error _ => some s
  | .record_access id now =>
    (s.accesses.find? (·.id = id)).map fun t =>
      { s.with_db (record_recall_access t.results id.agent.tenant_id now s.db) with
        accesses := rows.delete (·.id = id) s.accesses }
  | .log_session_reads id =>
    (s.session_reads.find? (·.id = id)).map fun t =>
      { s.with_db (log_session_reads t s.db) with
        session_reads := rows.delete (·.id = id) s.session_reads }
  | .report id work_order_id outcome =>
    if (s.report id).isSome then none
    else
      match assert_agent_active id.agent.agent_id id.agent.tenant_id s.db with
      | .ok _ =>
        let recalled := s.recalled id.agent work_order_id
        some { s with reports := s.reports ++ [{ id, work_order_id, outcome, recalled }] }
      | .error _ => some s
  | .select_reads id =>
    (s.report id).bind fun p =>
      match p.stage with
      | .called =>
        let memory_ids := implicated p.work_order_id p.id.agent.tenant_id s.db
        some (s.set_stage id (.selected memory_ids))
      | _ => none
  | .commit_outcome id =>
    (s.report id).bind fun p =>
      match p.stage with
      | .selected memory_ids =>
        let recorded := !has_record p.work_order_id s.db.qortia_outcome_records
        some ((s.with_db (commit_outcome p memory_ids s.db)).set_stage id
          (.committed memory_ids recorded))
      | _ => none
  | .fail id .record_access => some { s with accesses := rows.delete (·.id = id) s.accesses }
  | .fail id .log_session_reads =>
    some { s with session_reads := rows.delete (·.id = id) s.session_reads }
  | .fail id .report =>
    (s.report id).bind fun p =>
      match p.stage with
      | .committed _ _ => none
      | _ => some { s with reports := rows.delete (·.id = id) s.reports }
  | .service a => (service_step o cfg s.service a).map fun service => { s with service }

end

/-! ## What an outcome reaches -/

def Report.memory_ids (p : Report) : List UUID :=
  match p.stage with
  | .called => []
  | .selected memory_ids | .committed memory_ids _ => memory_ids

/-- The `memory_count` of the record of the work order counts the memory: the report whose record it
is selected it. -/
def Counted (s : OutcomeState K) (work_order_id memory_id : UUID) : Prop :=
  ∃ p ∈ s.reports, p.work_order_id = work_order_id ∧ ∃ memory_ids,
    p.stage = .committed memory_ids true ∧ memory_id ∈ memory_ids

/-- The confidence of the memory is scaled. -/
def Scaled (p : Report) (memory_id : UUID) (db db' : Db K) : Prop :=
  ∃ r ∈ db.hindsight_memories, r.id = memory_id ∧ r.tenant_id = p.id.agent.tenant_id ∧
    { r with confidence_multiplier := p.outcome.scale r.confidence_multiplier } ∈
      db'.hindsight_memories

/-- A report selects every memory that the recalls of its agent had returned, scales its
confidence, and it is counted. -/
def Reaches (s : OutcomeState K) (a : OutcomeAction K) (s' : OutcomeState K) : Prop :=
  match a with
  | .select_reads id => ∀ p, s'.report id = some p → ∀ m ∈ p.recalled, m ∈ p.memory_ids
  | .commit_outcome id => ∀ p, s'.report id = some p → ∀ m ∈ p.recalled,
      Scaled p m s.db s'.db ∧ Counted s' p.work_order_id m
  | _ => True

/-- A session-read task of the tenant has logged the memory under the work order. -/
def Logged (p : Report) (memory_id : UUID) (db : Db K) : Prop :=
  ∃ r ∈ db.qortia_session_reads, r.work_order_id = p.work_order_id ∧
    r.tenant_id = p.id.agent.tenant_id ∧ r.memory_id = memory_id

/-- The SELECT comes after a session-read task with each of the memories, and the UPDATE before
they are forgotten and before another report is recorded that does not count them. -/
def Timely (s : OutcomeState K) (a : OutcomeAction K) : Prop :=
  match a with
  | .select_reads id => ∀ p, s.report id = some p → p.stage = .called →
      ∀ m ∈ p.recalled, Logged p m s.db
  | .commit_outcome id => ∀ p, s.report id = some p →
      ∀ memory_ids, p.stage = .selected memory_ids → ∀ m ∈ p.recalled,
        (∃ r ∈ s.db.hindsight_memories, r.id = m ∧ r.tenant_id = p.id.agent.tenant_id) ∧
        (has_record p.work_order_id s.db.qortia_outcome_records = true →
          Counted s p.work_order_id m)
  | _ => True

/-! ## One statement -/

/-- Run in one go, the statements are `_record_work_order_outcome`. -/
theorem commit_implicated (p : Report) (db : Db K) :
    commit_outcome p (implicated p.work_order_id p.id.agent.tenant_id db) db =
      record_work_order_outcome p.work_order_id p.id.agent.tenant_id p.id.agent.agent_id p.outcome
        false db := rfl

theorem mem_implicated {p : Report} {m : UUID} {db : Db K} :
    m ∈ implicated p.work_order_id p.id.agent.tenant_id db ↔ Logged p m db := by
  simp [implicated, Logged, and_assoc]

theorem report_set_stage (s : OutcomeState K) (id : RequestId) (stage : ReportStage) :
    (s.set_stage id stage).report id = (s.report id).map fun p => { p with stage } := by
  have hid : ∀ p : Report, ({ p with stage } : Report).id = p.id := fun p => rfl
  have hfind := rows.find?_update_key hid id id s.reports
  simpa [OutcomeState.report, OutcomeState.set_stage] using hfind

/-! ## The invariant -/

/-- A report that goes on has selected every memory that it should. -/
structure OutcomeInv (s : OutcomeState K) : Prop where
  ids_nodup : (s.reports.map (·.id)).Nodup
  selected : ∀ p ∈ s.reports, ∀ memory_ids, p.stage = .selected memory_ids →
    ∀ m ∈ p.recalled, m ∈ memory_ids

section
variable {s : OutcomeState K} {id : RequestId} {p : Report}

theorem report_mem (h : s.report id = some p) : p ∈ s.reports ∧ p.id = id := by
  refine ⟨List.mem_of_find?_eq_some h, ?_⟩
  simpa using List.find?_some h

/-- A report is known by its request. -/
theorem OutcomeInv.eq_of_id (h : OutcomeInv s) (hp : s.report id = some p) {q : Report}
    (hq : q ∈ s.reports) (hid : q.id = id) : q = p := by
  obtain ⟨hmem, hpid⟩ := report_mem hp
  exact List.inj_on_of_nodup_map h.ids_nodup hq hmem (hid.trans hpid.symm)

theorem mem_set_stage {stage : ReportStage} {q : Report} :
    q ∈ (s.set_stage id stage).reports ↔
      (∃ p ∈ s.reports, p.id = id ∧ q = { p with stage }) ∨ (q ∈ s.reports ∧ q.id ≠ id) := by
  simp only [OutcomeState.set_stage, rows.mem_update]
  constructor
  · rintro ⟨r, hr, ⟨hid, rfl⟩ | ⟨hid, rfl⟩⟩
    · exact Or.inl ⟨r, hr, by simpa using hid, rfl⟩
    · exact Or.inr ⟨hr, by simpa using hid⟩
  · rintro (⟨r, hr, hid, rfl⟩ | ⟨hq, hid⟩)
    · exact ⟨r, hr, Or.inl ⟨by simpa using hid, rfl⟩⟩
    · exact ⟨q, hq, Or.inr ⟨by simpa using hid, rfl⟩⟩

theorem OutcomeInv.set_stage (h : OutcomeInv s) (hp : s.report id = some p) {stage : ReportStage}
    (hstage : ∀ memory_ids, stage = .selected memory_ids → ∀ m ∈ p.recalled, m ∈ memory_ids) :
    OutcomeInv (s.set_stage id stage) := by
  constructor
  · have hid : ∀ p : Report, ({ p with stage } : Report).id = p.id := fun p => rfl
    have hids := rows.map_update hid (·.id = id) s.reports
    unfold OutcomeState.set_stage
    rw [hids]
    exact h.ids_nodup
  · intro q hq
    rcases mem_set_stage.mp hq with ⟨r, hr, hid, rfl⟩ | ⟨hq, -⟩
    · rw [h.eq_of_id hp hr hid]
      exact hstage
    · exact h.selected q hq

/-- Other records stay counted when a report that was not committed moves on. -/
theorem Counted.set_stage (h : OutcomeInv s) (hp : s.report id = some p)
    (hopen : ∀ memory_ids recorded, p.stage ≠ .committed memory_ids recorded)
    {stage : ReportStage} {w m : UUID} (hc : Counted s w m) :
    Counted (s.set_stage id stage) w m := by
  obtain ⟨q, hq, hw, memory_ids, hstage, hm⟩ := hc
  refine ⟨q, mem_set_stage.mpr (Or.inr ⟨hq, fun hid => ?_⟩), hw, memory_ids, hstage, hm⟩
  rw [h.eq_of_id hp hq hid] at hstage
  exact hopen _ _ hstage

theorem OutcomeInv.of_reports {s' : OutcomeState K} (h : OutcomeInv s)
    (hreports : s'.reports = s.reports) : OutcomeInv s' := by
  constructor
  · rw [hreports]
    exact h.ids_nodup
  · rw [hreports]
    exact h.selected

theorem OutcomeInv.called (h : OutcomeInv s) (hp : p.stage = .called) (hnew : s.report p.id = none)
    {s' : OutcomeState K} (hreports : s'.reports = s.reports ++ [p]) : OutcomeInv s' := by
  constructor
  · rw [hreports, List.map_append, List.nodup_append]
    refine ⟨h.ids_nodup, List.nodup_singleton _, ?_⟩
    intro i hi j hj hij
    obtain ⟨q, hq, rfl⟩ := List.mem_map.mp hi
    rw [List.map_singleton, List.mem_singleton] at hj
    have hfresh := List.find?_eq_none.mp hnew q hq
    simp [hij, hj] at hfresh
  · rw [hreports]
    intro q hq memory_ids hstage
    rcases List.mem_append.mp hq with hq | hq
    · exact h.selected q hq memory_ids hstage
    · rw [List.mem_singleton.mp hq, hp] at hstage
      cases hstage

theorem OutcomeInv.dropped (h : OutcomeInv s) {s' : OutcomeState K}
    (hreports : s'.reports = rows.delete (·.id = id) s.reports) : OutcomeInv s' := by
  constructor
  · rw [hreports]
    exact (List.filter_sublist.map _).nodup h.ids_nodup
  · rw [hreports]
    exact fun q hq => h.selected q (rows.mem_delete.mp hq).1

/-! ## The two statements of a report -/

theorem scaled_iff {memory_ids : List UUID} {m : UUID} (hm : m ∈ memory_ids) (db : Db K) :
    Scaled p m db (commit_outcome p memory_ids db) ↔
      ∃ r ∈ db.hindsight_memories, r.id = m ∧ r.tenant_id = p.id.agent.tenant_id := by
  constructor
  · intro h
    obtain ⟨r, hr, hid, htenant, -⟩ := h
    exact ⟨r, hr, hid, htenant⟩
  · intro h
    obtain ⟨r, hr, rfl, htenant⟩ := h
    refine ⟨r, hr, rfl, htenant, ?_⟩
    have hne : memory_ids ≠ [] := List.ne_nil_of_mem hm
    simp only [commit_outcome, hne, ↓reduceIte, scale_confidence]
    exact rows.mem_update.mpr ⟨r, hr, Or.inl ⟨by simp [hm, htenant], rfl⟩⟩

theorem counted_iff (h : OutcomeInv s) (hp : s.report id = some p) {memory_ids : List UUID}
    (hstage : p.stage = .selected memory_ids) {m : UUID} (hm : m ∈ memory_ids)
    (records : List OutcomeRecord) :
    Counted (s.set_stage id (.committed memory_ids (!has_record p.work_order_id records)))
        p.work_order_id m ↔
      (has_record p.work_order_id records = true → Counted s p.work_order_id m) := by
  obtain ⟨hmem, hid⟩ := report_mem hp
  have hopen : ∀ ids recorded, p.stage ≠ .committed ids recorded := by
    simp [hstage]
  constructor
  · intro hc hrecord
    obtain ⟨q, hq, hw, ids, hcommitted, hin⟩ := hc
    rcases mem_set_stage.mp hq with ⟨r, -, -, rfl⟩ | ⟨hq, -⟩
    · simp [hrecord] at hcommitted
    · exact ⟨q, hq, hw, ids, hcommitted, hin⟩
  · intro hc
    by_cases hrecord : has_record p.work_order_id records = true
    · exact (hc hrecord).set_stage h hp hopen
    · refine ⟨_, mem_set_stage.mpr (Or.inl ⟨p, hmem, hid, rfl⟩), rfl, memory_ids, ?_, hm⟩
      simp [hrecord]

/-- The SELECT finds what it should exactly when it is logged. -/
theorem select_reaches_iff (hp : s.report id = some p) (hstage : p.stage = .called)
    (s' : OutcomeState K) (hs' : s' = s.set_stage id
      (.selected (implicated p.work_order_id p.id.agent.tenant_id s.db))) :
    Reaches s (.select_reads id) s' ↔ Timely s (.select_reads id) := by
  subst hs'
  simp only [Reaches, Timely, report_set_stage, hp, Option.map_some, Option.some.injEq, forall_eq',
    hstage, Report.memory_ids, mem_implicated, forall_const]

/-- The UPDATE and the INSERT do what they should exactly when nothing came in between. -/
theorem commit_reaches_iff (h : OutcomeInv s) (hp : s.report id = some p) {memory_ids : List UUID}
    (hstage : p.stage = .selected memory_ids) (s' : OutcomeState K)
    (hs' : s' = (s.with_db (commit_outcome p memory_ids s.db)).set_stage id
      (.committed memory_ids (!has_record p.work_order_id s.db.qortia_outcome_records))) :
    Reaches s (.commit_outcome id) s' ↔ Timely s (.commit_outcome id) := by
  subst hs'
  have hselected := h.selected p (report_mem hp).1 memory_ids hstage
  have hreport : ((s.with_db (commit_outcome p memory_ids s.db)).set_stage id
      (.committed memory_ids (!has_record p.work_order_id s.db.qortia_outcome_records))).report id =
      some { p with
        stage := .committed memory_ids
          (!has_record p.work_order_id s.db.qortia_outcome_records) } := by
    rw [report_set_stage]
    exact congrArg _ hp
  simp only [Reaches, Timely, hreport, hp, Option.some.injEq, forall_eq', hstage,
    ReportStage.selected.injEq]
  refine forall₂_congr fun m hm => and_congr ?_ ?_
  · exact scaled_iff (hselected m hm) s.db
  · exact counted_iff h hp hstage (hselected m hm) _

/-! ## Every step -/

variable [Field K] [LinearOrder K] [HasSqrt K] {o : Outside K} {cfg : Settings}
  {s' : OutcomeState K}

/-! What a step does, action by action. -/

theorem step_recall {env : RecallEnv K} {answer : Option json.Json} {body : RecallRequest}
    {w : Option UUID} (hstep : outcome_step o cfg s (.«recall» id env answer body w) = some s') :
    s' = s ∨ ∃ results, s' = s.respond id w results := by
  simp only [outcome_step] at hstep
  split at hstep
  · cases hstep
  · split at hstep
    · rename_i results _
      cases hstep
      exact Or.inr ⟨results, rfl⟩
    · cases hstep
      exact Or.inl rfl

theorem step_report {w : UUID} {outcome : Outcome}
    (hstep : outcome_step o cfg s (.report id w outcome) = some s') :
    s' = s ∨ (s.report id = none ∧ s' =
      { s with reports := s.reports ++ [⟨id, w, outcome, s.recalled id.agent w, .called⟩] }) := by
  simp only [outcome_step] at hstep
  split at hstep
  · cases hstep
  · rename_i hnew
    split at hstep
    · cases hstep
      exact Or.inr ⟨by simpa using hnew, rfl⟩
    · cases hstep
      exact Or.inl rfl

theorem step_select_reads (hstep : outcome_step o cfg s (.select_reads id) = some s') :
    ∃ p, s.report id = some p ∧ p.stage = .called ∧
      s' = s.set_stage id (.selected (implicated p.work_order_id p.id.agent.tenant_id s.db)) := by
  obtain ⟨p, hp, hstep⟩ := Option.bind_eq_some_iff.mp hstep
  split at hstep
  · rename_i hstage
    exact ⟨p, hp, hstage, (Option.some.inj hstep).symm⟩
  · cases hstep

theorem step_commit_outcome (hstep : outcome_step o cfg s (.commit_outcome id) = some s') :
    ∃ p memory_ids, s.report id = some p ∧ p.stage = .selected memory_ids ∧
      s' = (s.with_db (commit_outcome p memory_ids s.db)).set_stage id
        (.committed memory_ids (!has_record p.work_order_id s.db.qortia_outcome_records)) := by
  obtain ⟨p, hp, hstep⟩ := Option.bind_eq_some_iff.mp hstep
  split at hstep
  · rename_i memory_ids hstage
    exact ⟨p, memory_ids, hp, hstage, (Option.some.inj hstep).symm⟩
  · cases hstep

theorem step_fail_report (hstep : outcome_step o cfg s (.fail id .report) = some s') :
    s' = { s with reports := rows.delete (·.id = id) s.reports } := by
  obtain ⟨p, hp, hstep⟩ := Option.bind_eq_some_iff.mp hstep
  split at hstep
  · cases hstep
  · exact (Option.some.inj hstep).symm

/-- What a step does to the tables. -/
theorem outcome_step_db {a : OutcomeAction K} (hstep : outcome_step o cfg s a = some s') :
    s'.db = s.db ∨
      (∃ results tenant_id now, s'.db = record_recall_access results tenant_id now s.db) ∨
      (∃ t, s'.db = log_session_reads t s.db) ∨
      (∃ id p memory_ids, a = .commit_outcome id ∧ s.report id = some p ∧
        p.stage = .selected memory_ids ∧ s'.db = commit_outcome p memory_ids s.db) ∨
      ∃ b service, a = .service b ∧ service_step o cfg s.service b = some service ∧
        s'.db = service.requests.db := by
  cases a with
  | «recall» id env answer body w =>
    rcases step_recall hstep with rfl | ⟨results, rfl⟩
    · exact Or.inl rfl
    · exact Or.inl rfl
  | record_access id now =>
    obtain ⟨t, -, rfl⟩ := Option.map_eq_some_iff.mp hstep
    exact Or.inr (Or.inl ⟨t.results, id.agent.tenant_id, now, rfl⟩)
  | log_session_reads id =>
    obtain ⟨t, -, rfl⟩ := Option.map_eq_some_iff.mp hstep
    exact Or.inr (Or.inr (Or.inl ⟨t, rfl⟩))
  | report id w outcome =>
    rcases step_report hstep with rfl | ⟨-, rfl⟩
    · exact Or.inl rfl
    · exact Or.inl rfl
  | select_reads id =>
    obtain ⟨p, -, -, rfl⟩ := step_select_reads hstep
    exact Or.inl rfl
  | commit_outcome id =>
    obtain ⟨p, memory_ids, hp, hstage, rfl⟩ := step_commit_outcome hstep
    exact Or.inr (Or.inr (Or.inr (Or.inl ⟨id, p, memory_ids, rfl, hp, hstage, rfl⟩)))
  | fail id task =>
    cases task with
    | record_access =>
      cases hstep
      exact Or.inl rfl
    | log_session_reads =>
      cases hstep
      exact Or.inl rfl
    | report =>
      rw [step_fail_report hstep]
      exact Or.inl rfl
  | service b =>
    obtain ⟨service, hservice, rfl⟩ := Option.map_eq_some_iff.mp hstep
    exact Or.inr (Or.inr (Or.inr (Or.inr ⟨b, service, rfl, hservice, rfl⟩)))

/-- A statement that no transaction is at does nothing. -/
theorem timely_of_disabled (s : OutcomeState K) (a : OutcomeAction K)
    (h : outcome_step o cfg s a = none) : Timely s a := by
  cases a with
  | select_reads id =>
    intro p hp hstage
    simp [outcome_step, hp, hstage] at h
  | commit_outcome id =>
    intro p hp memory_ids hstage
    simp [outcome_step, hp, hstage] at h
  | _ => trivial

/-- Each step reaches what it should exactly when it is timely. -/
theorem outcome_step_iff {a : OutcomeAction K} (h : OutcomeInv s)
    (hstep : outcome_step o cfg s a = some s') : Reaches s a s' ↔ Timely s a := by
  cases a with
  | select_reads id =>
    obtain ⟨p, hp, hstage, hs'⟩ := step_select_reads hstep
    exact select_reaches_iff hp hstage s' hs'
  | commit_outcome id =>
    obtain ⟨p, memory_ids, hp, hstage, hs'⟩ := step_commit_outcome hstep
    exact commit_reaches_iff h hp hstage s' hs'
  | _ => exact Iff.rfl

theorem outcome_step_inv {a : OutcomeAction K} (h : OutcomeInv s)
    (hok : Timely s a) (hstep : outcome_step o cfg s a = some s') : OutcomeInv s' := by
  cases a with
  | «recall» id env answer body work_order_id =>
    rcases step_recall hstep with rfl | ⟨results, rfl⟩
    · exact h
    · exact h.of_reports rfl
  | record_access id now =>
    obtain ⟨t, -, rfl⟩ := Option.map_eq_some_iff.mp hstep
    exact h.of_reports rfl
  | log_session_reads id =>
    obtain ⟨t, -, rfl⟩ := Option.map_eq_some_iff.mp hstep
    exact h.of_reports rfl
  | report id work_order_id outcome =>
    rcases step_report hstep with rfl | ⟨hnew, rfl⟩
    · exact h
    · exact h.called rfl hnew rfl
  | select_reads id =>
    obtain ⟨p, hp, hstage, rfl⟩ := step_select_reads hstep
    apply h.set_stage hp
    intro memory_ids hselected m hm
    cases hselected
    exact mem_implicated.mpr (hok p hp hstage m hm)
  | commit_outcome id =>
    obtain ⟨p, memory_ids, hp, hstage, rfl⟩ := step_commit_outcome hstep
    have hdb : OutcomeInv (s.with_db (commit_outcome p memory_ids s.db)) := h.of_reports rfl
    apply hdb.set_stage hp
    intro ids hselected
    cases hselected
  | fail id task =>
    cases task with
    | record_access =>
      cases hstep
      exact h.of_reports rfl
    | log_session_reads =>
      cases hstep
      exact h.of_reports rfl
    | report =>
      rw [step_fail_report hstep]
      exact h.dropped rfl
  | service a =>
    obtain ⟨service, -, rfl⟩ := Option.map_eq_some_iff.mp hstep
    exact h.of_reports rfl

/-! ## Every run -/

/-- A report reaches every private memory that the recalls of its agent under the work order have
returned exactly when its statements are timely: each such memory is logged before the SELECT, and
is there and not left out of the record at the commit. -/
theorem outcomes_reach_the_recalled_iff (o : Outside K) (cfg : Settings) (service : Service K)
    (actions : List (OutcomeAction K)) :
    runs.EveryStep (outcome_step o cfg) Reaches { service } actions ↔
      runs.Guarded (outcome_step o cfg) Timely { service } actions := by
  have hstart : OutcomeInv ({ service } : OutcomeState K) := by
    constructor
    · simp
    · simp
  apply runs.every_step_iff_guarded timely_of_disabled _ _ hstart
  · exact fun s a s' h hstep => outcome_step_iff h hstep
  · exact fun s a s' h hok hstep => outcome_step_inv h hok hstep

end

/-! ## A report that comes before the session-read task -/

/-- An agent with one episodic memory. -/
def episode_db : Db ℚ :=
  { qortia_agents := [{ id := 20, tenant_id := 1, updated_at := 0 }]
    hindsight_memories :=
      [{ id := 0, tenant_id := 1, agent_id := 20, type := .episodic
         content := "retry with backoff", valid_from := 0, created_at := 0 }]
    next_id := 1 }

def episode_state : OutcomeState ℚ := { service := { requests := { db := episode_db } } }

/-- The memory is recalled under a work order, and the report comes before the task has run. -/
def report_at_once : List (OutcomeAction ℚ) :=
  [.«recall» ⟨reporter, 0⟩ close_env none { query := "backoff", type := some .episodic } (some 7),
   .report ⟨reporter, 1⟩ 7 .MINOR_FAILURE]

/-- The report and then the task: the record counts no memory, and the confidence stays. -/
def report_overtakes : List (OutcomeAction ℚ) :=
  report_at_once ++ [.select_reads ⟨reporter, 1⟩, .commit_outcome ⟨reporter, 1⟩,
    .log_session_reads ⟨reporter, 0⟩]

theorem report_at_once_misses_the_memory :
    ¬ runs.EveryStep (outcome_step no_models {}) Reaches episode_state report_overtakes ∧
      (runs.run (outcome_step no_models {}) episode_state report_overtakes).map
        (fun s => (s.db.hindsight_memories.map (·.confidence_multiplier),
          s.db.qortia_outcome_records.map (·.memory_count),
          s.db.qortia_session_reads.map (·.memory_id))) = some ([1], [0], [0]) := by
  refine ⟨fun h => ?_, by decide +kernel⟩
  have hread : (runs.run (outcome_step no_models {}) episode_state report_at_once).map
      (fun s => (s.report ⟨reporter, 1⟩, s.db.qortia_session_reads)) =
      some (some ⟨⟨reporter, 1⟩, 7, .MINOR_FAILURE, [0], .called⟩, []) := by
    decide +kernel
  obtain ⟨s, hs, hread⟩ := Option.map_eq_some_iff.mp hread
  obtain ⟨hp, hreads⟩ := Prod.mk.inj hread
  -- The SELECT finds nothing, but the recall has returned the memory.
  have hstep : outcome_step no_models {} s (.select_reads ⟨reporter, 1⟩) =
      some (s.set_stage ⟨reporter, 1⟩ (.selected (implicated 7 reporter.tenant_id s.db))) := by
    simp [outcome_step, hp]
  have hreaches := h.at hs hstep
  rw [select_reaches_iff hp rfl _ rfl] at hreaches
  obtain ⟨r, hr, -⟩ := hreaches _ hp rfl 0 (by simp)
  rw [hreads] at hr
  cases hr

end qortia
