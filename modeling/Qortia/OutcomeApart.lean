-- Two tenants recall and report under work orders, next to the run in which only one of them does.
-- All that a tenant reads and writes is its own, except for the key of the outcome records, which
-- is one for all tenants.
import Qortia.Lib.Conflicts
import Qortia.OutcomePart
import Qortia.RememberBatch

namespace qortia

variable {K : Type}

/-! ## What belongs to a tenant -/

/-- The tenant whose request, task or report it is. -/
def OutcomeAction.tenant_id : OutcomeAction K → Option UUID
  | .«recall» id .. | .record_access id _ | .log_session_reads id | .report id _ _
  | .select_reads id | .commit_outcome id | .fail id _ => some id.agent.tenant_id
  | .service _ => none

def outcome_records_of (tenant_id : UUID) (db : Db K) : List OutcomeRecord :=
  db.qortia_outcome_records.filter (·.tenant_id = tenant_id)

def confidences_of (tenant_id : UUID) (db : Db K) : List (UUID × ℚ) :=
  (db.hindsight_memories.filter (·.tenant_id = tenant_id)).map fun r =>
    (r.id, r.confidence_multiplier)

/-- A report of the tenant is recorded before another tenant has added a record of its work
order. -/
def Unclaimed (before : List OutcomeRecord) (tenant_id : UUID) (s : OutcomeState K)
    (a : OutcomeAction K) : Prop :=
  match a with
  | .commit_outcome id => id.agent.tenant_id = tenant_id → ∀ p, s.report id = some p →
      ∀ memory_ids, p.stage = .selected memory_ids → ∀ r ∈ s.db.qortia_outcome_records,
        r.work_order_id = p.work_order_id → r ∈ before ∨ r.tenant_id = tenant_id
  | _ => True

/-! ## A step of the tenant -/

section
variable [Field K] [LinearOrder K] [HasSqrt K] {o : Outside K} {cfg : Settings}
  {tenant_id : UUID} {s s' t : OutcomeState K} {a : OutcomeAction K}

variable {id : RequestId}

theorem part_recall (h : s.db.Separate) (hid : id.agent.tenant_id = tenant_id) (env : RecallEnv K)
    (answer : Option json.Json) (body : RecallRequest) (w : Option UUID) :
    (outcome_step o cfg s (.«recall» id env answer body w)).map (·.part tenant_id) =
      outcome_step o cfg (s.part tenant_id) (.«recall» id env answer body w) := by
  have hmem : id ∈ (s.part tenant_id).recall_ids ↔ id ∈ s.recall_ids := by
    simp [OutcomeState.part, hid]
  have hrecall : «recall» o cfg env answer body id.agent (s.part tenant_id).db =
      «recall» o cfg env answer body id.agent s.db := by
    rw [← hid]
    exact recall_part h o cfg env answer body
  simp only [outcome_step, hmem, hrecall]
  split
  · rfl
  · split
    · simp [part_respond hid]
    · rfl

theorem part_record_access (hid : id.agent.tenant_id = tenant_id) (now : Timestamp) :
    (outcome_step o cfg s (.record_access id now)).map (·.part tenant_id) =
      outcome_step o cfg (s.part tenant_id) (.record_access id now) := by
  have hfind : (s.part tenant_id).accesses.find? (·.id = id) = s.accesses.find? (·.id = id) :=
    find_part hid s.accesses
  simp only [outcome_step, hfind, Option.map_map]
  congr 1
  funext task
  simp only [Function.comp_apply, part_accesses, part_with_db, hid,
    part_record_recall_access, rows.filter_delete]
  rfl

theorem part_session_reads_task (hid : id.agent.tenant_id = tenant_id) :
    (outcome_step o cfg s (.log_session_reads id)).map (·.part tenant_id) =
      outcome_step o cfg (s.part tenant_id) (.log_session_reads id) := by
  have hfind : (s.part tenant_id).session_reads.find? (·.id = id) =
      s.session_reads.find? (·.id = id) := find_part hid s.session_reads
  simp only [outcome_step, hfind]
  cases htask : s.session_reads.find? (·.id = id) with
  | none => rfl
  | some task =>
    have htenant : task.id.agent.tenant_id = tenant_id := by
      have hkey := List.find?_some htask
      simp only [decide_eq_true_eq] at hkey
      rw [hkey, hid]
    simp only [Option.map_some, part_session_reads, part_with_db,
      part_log_session_reads htenant, rows.filter_delete]
    rfl

theorem part_called (hid : id.agent.tenant_id = tenant_id) (work_order_id : UUID)
    (outcome : Outcome) :
    (outcome_step o cfg s (.report id work_order_id outcome)).map (·.part tenant_id) =
      outcome_step o cfg (s.part tenant_id) (.report id work_order_id outcome) := by
  have hsome : ((s.part tenant_id).report id).isSome = (s.report id).isSome := by
    rw [report_part hid, Option.isSome_map]
  have hactive : assert_agent_active id.agent.agent_id id.agent.tenant_id (s.part tenant_id).db =
      assert_agent_active id.agent.agent_id id.agent.tenant_id s.db := rfl
  simp only [outcome_step, hsome, hactive, recalled_part hid]
  split
  · rfl
  · split
    · simp [part_reports, hid, Report.unrecorded, ReportStage.unrecorded]
      rfl
    · rfl

theorem part_select_reads (hid : id.agent.tenant_id = tenant_id) :
    (outcome_step o cfg s (.select_reads id)).map (·.part tenant_id) =
      outcome_step o cfg (s.part tenant_id) (.select_reads id) := by
  simp only [outcome_step, report_part hid]
  cases hp : s.report id with
  | none => rfl
  | some p =>
    have hagent : p.id.agent.tenant_id = tenant_id := by
      rw [(report_mem hp).2, hid]
    simp only [Option.map_some, Option.bind_some]
    cases hstage : p.stage with
    | called =>
      rw [unrecorded_of_open (by simp [hstage])]
      simp only [hstage, Option.map_some, part_set_stage, hagent]
      rw [← implicated_part]
      rfl
    | selected ids =>
      rw [unrecorded_of_open (by simp [hstage])]
      simp [hstage]
    | committed ids recorded => simp [Report.unrecorded, ReportStage.unrecorded, hstage]

/-- The INSERT may find a record in one of them only, which the part does not show. -/
theorem part_commit (hid : id.agent.tenant_id = tenant_id) :
    (outcome_step o cfg s (.commit_outcome id)).map (·.part tenant_id) =
      (outcome_step o cfg (s.part tenant_id) (.commit_outcome id)).map (·.part tenant_id) := by
  simp only [outcome_step, report_part hid]
  cases hp : s.report id with
  | none => rfl
  | some p =>
    have hagent : p.id.agent.tenant_id = tenant_id := by
      rw [(report_mem hp).2, hid]
    simp only [Option.map_some, Option.bind_some]
    cases hstage : p.stage with
    | called =>
      rw [unrecorded_of_open (by simp [hstage])]
      simp [hstage]
    | selected ids =>
      rw [unrecorded_of_open (by simp [hstage])]
      simp only [hstage, Option.map_some, part_set_stage, part_with_db, part_part]
      rw [part_commit_outcome hagent]
      rfl
    | committed ids recorded => simp [Report.unrecorded, ReportStage.unrecorded, hstage]

theorem part_fail (hid : id.agent.tenant_id = tenant_id) (task : OutcomeTask) :
    (outcome_step o cfg s (.fail id task)).map (·.part tenant_id) =
      outcome_step o cfg (s.part tenant_id) (.fail id task) := by
  cases task with
  | record_access =>
    simp only [outcome_step, Option.map_some, part_accesses, rows.filter_delete]
    rfl
  | log_session_reads =>
    simp only [outcome_step, Option.map_some, part_session_reads, rows.filter_delete]
    rfl
  | report =>
    simp only [outcome_step, report_part hid]
    cases hp : s.report id with
    | none => rfl
    | some p =>
      simp only [Option.map_some, Option.bind_some]
      have hdelete : ∀ l : List Report, (rows.delete (·.id = id) l).map (·.unrecorded) =
          rows.delete (·.id = id) (l.map (·.unrecorded)) := by
        intro l
        unfold rows.delete
        rw [List.filter_map]
        rfl
      cases hstage : p.stage with
      | committed ids recorded => simp [Report.unrecorded, ReportStage.unrecorded, hstage]
      | called | selected ids =>
        rw [unrecorded_of_open (by simp [hstage])]
        simp only [hstage, Option.map_some, part_reports, rows.filter_delete, hdelete]
        rfl

/-- The part goes through the step alone. -/
theorem part_step (h : s.db.Separate) (ha : a.tenant_id = some tenant_id) :
    (outcome_step o cfg s a).map (·.part tenant_id) =
      (outcome_step o cfg (s.part tenant_id) a).map (·.part tenant_id) := by
  -- It is enough that the step of the part gives the part.
  have hexact : (outcome_step o cfg s a).map (·.part tenant_id) =
      outcome_step o cfg (s.part tenant_id) a →
        (outcome_step o cfg s a).map (·.part tenant_id) =
          (outcome_step o cfg (s.part tenant_id) a).map (·.part tenant_id) := by
    intro heq
    rw [← heq, Option.map_map]
    congr 1
    funext u
    exact (part_part tenant_id u).symm
  cases a with
  | «recall» id env answer body w =>
    exact hexact (part_recall h (Option.some.inj ha) env answer body w)
  | record_access id now => exact hexact (part_record_access (Option.some.inj ha) now)
  | log_session_reads id => exact hexact (part_session_reads_task (Option.some.inj ha))
  | report id work_order_id outcome =>
    exact hexact (part_called (Option.some.inj ha) work_order_id outcome)
  | select_reads id => exact hexact (part_select_reads (Option.some.inj ha))
  | commit_outcome id => exact part_commit (Option.some.inj ha)
  | fail id task => exact hexact (part_fail (Option.some.inj ha) task)
  | service a => cases ha

/-! ## A step of another tenant -/

theorem delete_part_other {Row : Type} {request : Row → RequestId} {id : RequestId}
    (hid : id.agent.tenant_id ≠ tenant_id) (l : List Row) :
    (rows.delete (fun x => request x = id) l).filter
        (fun x => (request x).agent.tenant_id = tenant_id) =
      l.filter fun x => (request x).agent.tenant_id = tenant_id := by
  apply rows.filter_delete_other
  intro x hx
  simp only [decide_eq_true_eq] at hx
  simp [hx, hid]

/-- A step of another tenant leaves the part alone. -/
theorem part_step_other {other : UUID} (hne : other ≠ tenant_id) (ha : a.tenant_id = some other)
    (hstep : outcome_step o cfg s a = some s') : s'.part tenant_id = s.part tenant_id := by
  cases a with
  | «recall» id env answer body w =>
    have hid : id.agent.tenant_id ≠ tenant_id := (Option.some.inj ha).trans_ne hne
    rcases step_recall hstep with rfl | ⟨results, rfl⟩
    · rfl
    · exact part_respond_other hid s w results
  | record_access id now =>
    have hid : id.agent.tenant_id ≠ tenant_id := (Option.some.inj ha).trans_ne hne
    obtain ⟨task, -, rfl⟩ := Option.map_eq_some_iff.mp hstep
    rw [part_accesses, part_with_db, part_record_recall_access_other _ hid,
      delete_part_other hid]
    rfl
  | log_session_reads id =>
    have hid : id.agent.tenant_id ≠ tenant_id := (Option.some.inj ha).trans_ne hne
    obtain ⟨task, htask, rfl⟩ := Option.map_eq_some_iff.mp hstep
    have hkey := List.find?_some htask
    simp only [decide_eq_true_eq] at hkey
    rw [part_session_reads, part_with_db, part_log_session_reads_other (by rwa [hkey]),
      delete_part_other hid]
    rfl
  | report id work_order_id outcome =>
    have hid : id.agent.tenant_id ≠ tenant_id := (Option.some.inj ha).trans_ne hne
    rcases step_report hstep with rfl | ⟨-, rfl⟩
    · rfl
    · rw [part_reports, List.filter_append]
      simp only [List.filter_cons, hid, decide_false, Bool.false_eq_true, ↓reduceIte,
        List.filter_nil, List.append_nil]
      rfl
  | select_reads id =>
    have hid : id.agent.tenant_id ≠ tenant_id := (Option.some.inj ha).trans_ne hne
    obtain ⟨p, -, -, rfl⟩ := step_select_reads hstep
    exact part_set_stage_other hid s _
  | commit_outcome id =>
    have hid : id.agent.tenant_id ≠ tenant_id := (Option.some.inj ha).trans_ne hne
    obtain ⟨p, memory_ids, hp, -, rfl⟩ := step_commit_outcome hstep
    rw [part_set_stage_other hid, part_with_db, part_commit_outcome_other]
    · rfl
    · rwa [(report_mem hp).2]
  | fail id task =>
    have hid : id.agent.tenant_id ≠ tenant_id := (Option.some.inj ha).trans_ne hne
    cases task with
    | record_access =>
      cases hstep
      rw [part_accesses, delete_part_other hid]
      rfl
    | log_session_reads =>
      cases hstep
      rw [part_session_reads, delete_part_other hid]
      rfl
    | report =>
      rw [step_fail_report hstep, part_reports, delete_part_other hid]
      rfl
  | service a => cases ha

/-! ## What no step changes -/

omit [Field K] [LinearOrder K] [HasSqrt K] in
theorem Db.Separate.of_keys {db db' : Db K} (h : db.Separate)
    (hagents : db'.qortia_agents = db.qortia_agents)
    (hentities : db'.qortia_entities = db.qortia_entities)
    (hlinks : db'.memory_links = db.memory_links)
    (hprivate : db'.hindsight_memories.map (fun r => (r.agent_id, r.tenant_id)) =
      db.hindsight_memories.map fun r => (r.agent_id, r.tenant_id))
    (horg : db'.org_memory.map (·.id) = db.org_memory.map (·.id)) : db'.Separate := by
  have hkeys : db'.agent_keys = db.agent_keys := by
    unfold Db.agent_keys
    rw [hagents]
  refine ⟨?_, ?_, ?_, ?_, ?_⟩
  · rw [hkeys]
    exact h.agents_nodup
  · intro r hr
    have hmem := List.mem_map_of_mem (f := fun r => (r.agent_id, r.tenant_id)) hr
    rw [hprivate] at hmem
    obtain ⟨r₀, hr₀, heq⟩ := List.mem_map.mp hmem
    rw [hkeys, ← heq]
    exact h.owned r₀ hr₀
  · rw [hentities]
    exact h.apart.scopes
  · rw [hentities]
    exact h.apart.entities_nodup
  · intro l hl q hq
    rw [hlinks] at hl
    have hmem := List.mem_map_of_mem (f := (·.id)) hq
    rw [horg] at hmem
    obtain ⟨q₀, hq₀, heq⟩ := List.mem_map.mp hmem
    rw [← heq]
    exact h.apart.sources l hl q₀ hq₀

omit [Field K] [LinearOrder K] [HasSqrt K] in
theorem Db.Separate.record_recall_access {db : Db K} (h : db.Separate)
    (results : List (RecallResult K)) (tenant_id : UUID) (now : Timestamp) :
    (record_recall_access results tenant_id now db).Separate := by
  unfold qortia.record_recall_access
  dsimp only
  split
  · exact h
  · refine h.of_keys rfl rfl rfl ?_ ?_
    · exact rows.map_update (by intro r; rfl) _ _
    · exact rows.map_update (by intro r; rfl) _ _

omit [Field K] [LinearOrder K] [HasSqrt K] in
theorem Db.Separate.commit_outcome {db : Db K} (h : db.Separate) (p : Report)
    (memory_ids : List UUID) : (commit_outcome p memory_ids db).Separate := by
  unfold qortia.commit_outcome
  split
  · exact h.of_keys rfl rfl rfl rfl rfl
  · refine h.of_keys rfl rfl rfl ?_ ?_
    · exact rows.map_update (by intro r; rfl) _ _
    · rfl

theorem outcome_step_separate (h : s.db.Separate) (ha : a.tenant_id = some tenant_id)
    (hstep : outcome_step o cfg s a = some s') : s'.db.Separate := by
  rcases outcome_step_db hstep with hdb | ⟨results, tenant_id, now, hdb⟩ | ⟨t, hdb⟩ |
    ⟨id, p, memory_ids, -, -, -, hdb⟩ | ⟨b, service, rfl, -⟩
  · rwa [hdb]
  · rw [hdb]
    exact h.record_recall_access _ _ _
  · rw [hdb]
    exact h.of_keys rfl rfl rfl rfl rfl
  · rw [hdb]
    exact h.commit_outcome p memory_ids
  · cases ha

/-! ## The records -/

omit [Field K] [LinearOrder K] [HasSqrt K] in
theorem record_recall_access_records (results : List (RecallResult K)) (tenant_id : UUID)
    (now : Timestamp) (db : Db K) :
    (record_recall_access results tenant_id now db).qortia_outcome_records =
      db.qortia_outcome_records := by
  unfold record_recall_access
  dsimp only
  split
  · rfl
  · rfl

/-- The record of the report. -/
def Report.record (p : Report) (memory_ids : List UUID) : OutcomeRecord where
  tenant_id := p.id.agent.tenant_id
  agent_id := p.id.agent.agent_id
  work_order_id := p.work_order_id
  outcome := p.outcome
  memory_count := memory_ids.length

omit [Field K] [LinearOrder K] [HasSqrt K] in
theorem commit_outcome_records (p : Report) (memory_ids : List UUID) (db : Db K) :
    (commit_outcome p memory_ids db).qortia_outcome_records =
      conflicts.insert_new (·.work_order_id) (p.record memory_ids) db.qortia_outcome_records := by
  unfold commit_outcome
  split <;> rfl

/-- Only a commit inserts a record. -/
theorem outcome_step_records (ha : a.tenant_id = some tenant_id)
    (hstep : outcome_step o cfg s a = some s') :
    (∃ id p memory_ids, a = .commit_outcome id ∧ s.report id = some p ∧
      p.stage = .selected memory_ids ∧ s'.db.qortia_outcome_records =
        conflicts.insert_new OutcomeRecord.work_order_id (p.record memory_ids)
          s.db.qortia_outcome_records) ∨
    ((∀ id, a ≠ .commit_outcome id) ∧
      s'.db.qortia_outcome_records = s.db.qortia_outcome_records) := by
  by_cases hcommit : ∃ id, a = .commit_outcome id
  · obtain ⟨id, rfl⟩ := hcommit
    obtain ⟨p, memory_ids, hp, hstage, rfl⟩ := step_commit_outcome hstep
    left
    exact ⟨id, p, memory_ids, rfl, hp, hstage, commit_outcome_records p memory_ids s.db⟩
  · right
    refine ⟨fun id hid => hcommit ⟨id, hid⟩, ?_⟩
    rcases outcome_step_db hstep with hdb | ⟨results, tenant_id, now, hdb⟩ | ⟨t, hdb⟩ |
      ⟨id, p, memory_ids, hid, -⟩ | ⟨b, service, rfl, -⟩
    · rw [hdb]
    · rw [hdb]
      exact record_recall_access_records _ _ _ _
    · rw [hdb]
      rfl
    · exact absurd ⟨id, hid⟩ hcommit
    · cases ha

/-! ## Two runs -/

/-- The states of the two runs: the part of the tenant is the same. -/
structure Alongside (tenant_id : UUID) (s t : OutcomeState K) : Prop where
  part : s.part tenant_id = t.part tenant_id
  separate : s.db.Separate
  own_separate : t.db.Separate

/-- The tenant takes the step in both runs. -/
theorem Alongside.follow (h : Alongside tenant_id s t) (ha : a.tenant_id = some tenant_id)
    (hstep : outcome_step o cfg s a = some s') :
    ∃ t', outcome_step o cfg t a = some t' ∧ Alongside tenant_id s' t' := by
  have hmaps : (outcome_step o cfg s a).map (·.part tenant_id) =
      (outcome_step o cfg t a).map (·.part tenant_id) := by
    rw [part_step h.separate ha, part_step h.own_separate ha, h.part]
  rw [hstep, Option.map_some, eq_comm] at hmaps
  obtain ⟨t', ht', hpart⟩ := Option.map_eq_some_iff.mp hmaps
  refine ⟨t', ht', hpart.symm, ?_, ?_⟩
  · exact outcome_step_separate h.separate ha hstep
  · exact outcome_step_separate h.own_separate ha ht'

/-- The other tenant takes the step in the one run in which it is. -/
theorem Alongside.other (h : Alongside tenant_id s t) {other : UUID} (hne : other ≠ tenant_id)
    (ha : a.tenant_id = some other) (hstep : outcome_step o cfg s a = some s') :
    Alongside tenant_id s' t := by
  refine ⟨?_, outcome_step_separate h.separate ha hstep, h.own_separate⟩
  rw [part_step_other hne ha hstep]
  exact h.part

/-- The tenant inserts the same record in both runs, or none. -/
theorem Alongside.records (h : Alongside tenant_id s t) (ha : a.tenant_id = some tenant_id)
    (hs : outcome_step o cfg s a = some s') {t' : OutcomeState K}
    (ht : outcome_step o cfg t a = some t') :
    (∃ id p memory_ids, a = .commit_outcome id ∧ s.report id = some p ∧
      p.stage = .selected memory_ids ∧ p.id.agent.tenant_id = tenant_id ∧
      s'.db.qortia_outcome_records = conflicts.insert_new OutcomeRecord.work_order_id
        (p.record memory_ids) s.db.qortia_outcome_records ∧
      t'.db.qortia_outcome_records = conflicts.insert_new OutcomeRecord.work_order_id
        (p.record memory_ids) t.db.qortia_outcome_records) ∨
    ((∀ id, a ≠ .commit_outcome id) ∧
      s'.db.qortia_outcome_records = s.db.qortia_outcome_records ∧
      t'.db.qortia_outcome_records = t.db.qortia_outcome_records) := by
  rcases outcome_step_records ha hs with ⟨id, p, memory_ids, rfl, hp, hstage, hrecords⟩ | ⟨hnot, hs⟩
  · left
    have hid := Option.some.inj ha
    have hp_t := report_eq_of_part h.part hid hp hstage
    refine ⟨id, p, memory_ids, rfl, hp, hstage, ?_, hrecords, ?_⟩
    · rw [(report_mem hp).2]
      exact hid
    · rcases outcome_step_records ha ht with ⟨i, q, ids, hi, hq, hq_stage, hq_records⟩ | ⟨hnot, -⟩
      · cases hi
        rw [hp_t] at hq
        cases hq
        rw [hstage] at hq_stage
        cases hq_stage
        exact hq_records
      · exact absurd rfl (hnot id)
  · right
    rcases outcome_step_records ha ht with ⟨id, -, -, rfl, -⟩ | ⟨-, ht⟩
    · exact absurd rfl (hnot id)
    · exact ⟨hnot, hs, ht⟩

/-- So far the records of the tenant are the same in both runs. -/
def SameRecords (before : List OutcomeRecord) (tenant_id : UUID) (s t : OutcomeState K) : Prop :=
  Alongside tenant_id s t ∧ ∃ added, conflicts.Split OutcomeRecord.work_order_id
    OutcomeRecord.tenant_id tenant_id before added s.db.qortia_outcome_records
      t.db.qortia_outcome_records

/-- A record of the tenant is only in the run in which it is alone. -/
def HiddenRecord (tenant_id : UUID) (s t : OutcomeState K) : Prop :=
  Alongside tenant_id s t ∧ conflicts.Shadowed OutcomeRecord.work_order_id
    OutcomeRecord.tenant_id tenant_id s.db.qortia_outcome_records t.db.qortia_outcome_records

omit [Field K] [LinearOrder K] [HasSqrt K] in
theorem unclaimed_of_ne {before : List OutcomeRecord} (h : ∀ id, a ≠ .commit_outcome id) :
    Unclaimed before tenant_id s a := by
  cases a with
  | commit_outcome id => exact absurd rfl (h id)
  | _ => trivial

omit [Field K] [LinearOrder K] [HasSqrt K] in
theorem unclaimed_of_other {before : List OutcomeRecord} {other : UUID} (hne : other ≠ tenant_id)
    (ha : a.tenant_id = some other) : Unclaimed before tenant_id s a := by
  cases a with
  | commit_outcome id =>
    intro hid
    exact absurd ((Option.some.inj ha).symm.trans hid) hne
  | _ => trivial

/-- A step of the tenant: its record is the same in both runs exactly when no other tenant has
claimed the work order. -/
theorem SameRecords.follow {before : List OutcomeRecord} (h : SameRecords before tenant_id s t)
    (ha : a.tenant_id = some tenant_id) (hstep : outcome_step o cfg s a = some s') :
    ∃ t', outcome_step o cfg t a = some t' ∧
      ((Unclaimed before tenant_id s a ∧ SameRecords before tenant_id s' t') ∨
        (¬ Unclaimed before tenant_id s a ∧ HiddenRecord tenant_id s' t')) := by
  obtain ⟨halong, added, hsplit⟩ := h
  obtain ⟨t', ht', halong'⟩ := halong.follow ha hstep
  refine ⟨t', ht', ?_⟩
  rcases halong.records ha hstep ht' with
    ⟨id, p, memory_ids, rfl, hp, hstage, htenant, hs, ht⟩ | ⟨hnot, hs, ht⟩
  · by_cases hfree : ∀ r ∈ s.db.qortia_outcome_records, r.work_order_id = p.work_order_id →
        r ∈ before ∨ r.tenant_id = tenant_id
    · left
      constructor
      · intro _ q hq _ _
        rw [hp] at hq
        cases hq
        exact hfree
      · refine ⟨halong', ?_⟩
        rw [hs, ht]
        exact hsplit.own_insert htenant hfree
    · right
      constructor
      · intro hunclaimed
        exact hfree (hunclaimed (Option.some.inj ha) p hp memory_ids hstage)
      · simp only [not_forall, not_or] at hfree
        obtain ⟨r, hr, hw, hadded, hother⟩ := hfree
        refine ⟨halong', ?_⟩
        rw [hs, ht]
        exact hsplit.shadowed htenant hr hw hadded hother
  · refine Or.inl ⟨unclaimed_of_ne hnot, halong', added, ?_⟩
    rw [hs, ht]
    exact hsplit

theorem SameRecords.other {before : List OutcomeRecord} (h : SameRecords before tenant_id s t)
    {other : UUID} (hne : other ≠ tenant_id) (ha : a.tenant_id = some other)
    (hstep : outcome_step o cfg s a = some s') : SameRecords before tenant_id s' t := by
  obtain ⟨halong, added, hsplit⟩ := h
  refine ⟨halong.other hne ha hstep, ?_⟩
  rcases outcome_step_records ha hstep with ⟨id, p, memory_ids, rfl, hp, -, hs⟩ | ⟨-, hs⟩
  · rw [hs]
    apply hsplit.other
    have hid : (p.record memory_ids).tenant_id = other := by
      rw [← Option.some.inj ha, ← (report_mem hp).2]
      rfl
    rwa [hid]
  · rw [hs]
    exact ⟨added, hsplit⟩

/-- A hidden record stays hidden. -/
theorem HiddenRecord.follow (h : HiddenRecord tenant_id s t) (ha : a.tenant_id = some tenant_id)
    (hstep : outcome_step o cfg s a = some s') :
    ∃ t', outcome_step o cfg t a = some t' ∧ HiddenRecord tenant_id s' t' := by
  obtain ⟨halong, hhidden⟩ := h
  obtain ⟨t', ht', halong'⟩ := halong.follow ha hstep
  refine ⟨t', ht', halong', ?_⟩
  rcases halong.records ha hstep ht' with ⟨-, p, memory_ids, -, -, -, -, hs, ht⟩ | ⟨-, hs, ht⟩
  · rw [hs, ht]
    exact (hhidden.insert_table _).insert_own _
  · rw [hs, ht]
    exact hhidden

theorem HiddenRecord.other (h : HiddenRecord tenant_id s t) {other : UUID}
    (hne : other ≠ tenant_id) (ha : a.tenant_id = some other)
    (hstep : outcome_step o cfg s a = some s') : HiddenRecord tenant_id s' t := by
  obtain ⟨halong, hhidden⟩ := h
  refine ⟨halong.other hne ha hstep, ?_⟩
  rcases outcome_step_records ha hstep with ⟨-, p, memory_ids, -, -, -, hs⟩ | ⟨-, hs⟩
  · rw [hs]
    exact hhidden.insert_table _
  · rw [hs]
    exact hhidden

omit [Field K] [LinearOrder K] [HasSqrt K] in
theorem Alongside.confidences (h : Alongside tenant_id s t) :
    confidences_of tenant_id s.db = confidences_of tenant_id t.db := by
  have hrows : (s.part tenant_id).db.hindsight_memories =
      (t.part tenant_id).db.hindsight_memories := by
    rw [h.part]
  unfold confidences_of
  exact congrArg (List.map fun r => (r.id, r.confidence_multiplier)) hrows

/-- Two tenants recall and report, and one of them is left out. The confidences of the other are
the same, and its records are the same exactly when no report of it was recorded after the tenant
that is left out had added a record of the same work order. -/
theorem tenants_report_apart_iff (o₀ o : Outside K) (cfg₀ cfg : Settings) (db : Db K)
    (hblank : db.Blank) (hagents : (db.qortia_agents.map (·.id)).Nodup)
    (earlier : List ServiceAction) (service : Service K)
    (hservice : runs.run (service_step o₀ cfg₀) ⟨{ db }, []⟩ earlier = some service)
    (foreign tenant_id : UUID) (hne : foreign ≠ tenant_id) (actions : List (OutcomeAction K))
    (hactions : ∀ a ∈ actions, a.tenant_id = some foreign ∨ a.tenant_id = some tenant_id)
    (s : OutcomeState K) (hrun : runs.run (outcome_step o cfg) { service } actions = some s) :
    ∃ s', runs.run (outcome_step o cfg) { service }
        (actions.filter (·.tenant_id ≠ some foreign)) = some s' ∧
      confidences_of tenant_id s.db = confidences_of tenant_id s'.db ∧
      (outcome_records_of tenant_id s.db = outcome_records_of tenant_id s'.db ↔
        runs.Guarded (outcome_step o cfg)
          (Unclaimed service.requests.db.qortia_outcome_records tenant_id) { service }
          actions) := by
  have hseparate : service.requests.db.Separate :=
    (good_service_of_run hblank hagents hservice).separate
  have hstart : SameRecords service.requests.db.qortia_outcome_records tenant_id
      ({ service } : OutcomeState K) { service } :=
    ⟨⟨rfl, hseparate, hseparate⟩, [], conflicts.Split.start⟩
  have hkeep : ∀ {a : OutcomeAction K}, a.tenant_id = some tenant_id →
      decide (a.tenant_id ≠ some foreign) = true := by
    intro a ha
    simpa [ha] using hne.symm
  have hdrop : ∀ {a : OutcomeAction K}, a.tenant_id = some foreign →
      decide (a.tenant_id ≠ some foreign) = false := by
    intro a ha
    simp [ha]
  have hsame : ∀ a ∈ actions, ∀ s t s',
      SameRecords service.requests.db.qortia_outcome_records tenant_id s t →
      outcome_step o cfg s a = some s' →
      ∃ t', (if decide (a.tenant_id ≠ some foreign) = true then outcome_step o cfg t a
          else some t) = some t' ∧
        ((Unclaimed service.requests.db.qortia_outcome_records tenant_id s a ∧
            SameRecords service.requests.db.qortia_outcome_records tenant_id s' t') ∨
          (¬ Unclaimed service.requests.db.qortia_outcome_records tenant_id s a ∧
            HiddenRecord tenant_id s' t')) := by
    intro a hmem s t s' h hstep
    rcases hactions a hmem with ha | ha
    · rw [hdrop ha]
      exact ⟨t, rfl, Or.inl ⟨unclaimed_of_other hne ha, h.other hne ha hstep⟩⟩
    · rw [hkeep ha]
      exact h.follow ha hstep
  have hhidden : ∀ a ∈ actions, ∀ s t s', HiddenRecord tenant_id s t →
      outcome_step o cfg s a = some s' →
      ∃ t', (if decide (a.tenant_id ≠ some foreign) = true then outcome_step o cfg t a
          else some t) = some t' ∧
        HiddenRecord tenant_id s' t' := by
    intro a hmem s t s' h hstep
    rcases hactions a hmem with ha | ha
    · rw [hdrop ha]
      exact ⟨t, rfl, h.other hne ha hstep⟩
    · rw [hkeep ha]
      exact h.follow ha hstep
  obtain ⟨s', hs', hend⟩ := (runs.run_without hsame hhidden hrun { service }).2 hstart
  refine ⟨s', hs', ?_⟩
  rcases hend with ⟨hguard, halong, added, hsplit⟩ | ⟨hguard, halong, hshadowed⟩
  · exact ⟨halong.confidences, iff_of_true hsplit.same hguard⟩
  · exact ⟨halong.confidences, iff_of_false hshadowed.differ hguard⟩

end

/-! ## Two tenants and one work order -/

/-- An agent of another tenant than the reporter. -/
def neighbour : AgentIdentity := { agent_id := 30, tenant_id := 2 }

def tenants_db : Db ℚ :=
  { qortia_agents := [{ id := 20, tenant_id := 1, updated_at := 0 },
      { id := 30, tenant_id := 2, updated_at := 0 }] }

/-- Each of them has one episodic memory. -/
def both_remember : List ServiceAction :=
  [.memory (.remember reporter 0 0 [standup_moved]),
   .memory (.remember neighbour 0 0 [standup_cancelled])]

/-- A recall under the work order and the report on it. -/
def recall_and_report (agent : AgentIdentity) (work_order_id : UUID) (outcome : Outcome) :
    List (OutcomeAction ℚ) :=
  [.«recall» ⟨agent, 0⟩ close_env none { query := "standup", type := some .episodic }
     (some work_order_id),
   .log_session_reads ⟨agent, 0⟩, .report ⟨agent, 1⟩ work_order_id outcome,
   .select_reads ⟨agent, 1⟩, .commit_outcome ⟨agent, 1⟩]

def tenants_run (actions : List (OutcomeAction ℚ)) : Option (OutcomeState ℚ) :=
  (runs.run (service_step no_models {}) ⟨{ db := tenants_db }, []⟩ both_remember).bind
    fun service => runs.run (outcome_step no_models {}) { service } actions

/-- The reports on different work orders. -/
def own_work_orders : List (OutcomeAction ℚ) :=
  recall_and_report reporter 7 .SUCCESS ++ recall_and_report neighbour 8 .MINOR_FAILURE

/-- The reports on one work order. -/
def one_work_order : List (OutcomeAction ℚ) :=
  recall_and_report reporter 7 .SUCCESS ++ recall_and_report neighbour 7 .MINOR_FAILURE

theorem tenants_report_apart_iff_own_work_orders :
    ∃ service s s', runs.run (outcome_step no_models {}) { service } own_work_orders = some s ∧
      runs.run (outcome_step no_models {}) { service }
        (own_work_orders.filter (·.tenant_id ≠ some 1)) = some s' ∧
      confidences_of 2 s.db = confidences_of 2 s'.db ∧
      (outcome_records_of 2 s.db = outcome_records_of 2 s'.db ↔
        runs.Guarded (outcome_step no_models {})
          (Unclaimed service.requests.db.qortia_outcome_records 2) { service }
          own_work_orders) := by
  have hsome : (tenants_run own_work_orders).isSome = true := by decide +kernel
  obtain ⟨s, hs⟩ := Option.isSome_iff_exists.mp hsome
  obtain ⟨service, hservice, hrun⟩ := Option.bind_eq_some_iff.mp hs
  obtain ⟨s', hs'⟩ := tenants_report_apart_iff no_models no_models {} {} tenants_db
    ⟨rfl, rfl, rfl, rfl, rfl⟩ (by decide) both_remember service hservice 1 2 (by decide)
    own_work_orders (by decide +kernel) s hrun
  exact ⟨service, s, s', hrun, hs'⟩

/-- The reporter records the work order first, and the outcome of its neighbour is lost. -/
theorem a_foreign_record_hides_the_outcome :
    (tenants_run one_work_order).map (fun s => outcome_records_of 2 s.db) = some [] ∧
      (tenants_run (one_work_order.filter (·.tenant_id ≠ some 1))).map
        (fun s => outcome_records_of 2 s.db) =
          some [{ tenant_id := 2, agent_id := 30, work_order_id := 7, outcome := .MINOR_FAILURE
                  memory_count := 1 }] := by
  constructor
  · decide +kernel
  · decide +kernel

end qortia
