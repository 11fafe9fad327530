-- The part of one tenant in a state of the requests: its rows and its recalls, tasks and reports.
-- The statements act on the part alone, and a recall finds in the part what it finds in the whole.
import Qortia.OutcomeRuns

namespace qortia

variable {K : Type}

/-! ## The part of a tenant -/

/-- The rows of the tenant, and the tables that no recall and no report changes. -/
def Db.part (tenant_id : UUID) (db : Db K) : Db K where
  qortia_agents := db.qortia_agents
  qortia_clearance_levels := db.qortia_clearance_levels
  hindsight_memories := db.hindsight_memories.filter (·.tenant_id = tenant_id)
  org_memory := db.org_memory.filter (·.tenant_id = tenant_id)
  org_knowledge := db.org_knowledge.filter (·.tenant_id = tenant_id)
  qortia_entities := db.qortia_entities
  memory_links := db.memory_links
  qortia_session_reads := db.qortia_session_reads.filter (·.tenant_id = tenant_id)

/-- A committed report, without what the INSERT found. -/
def ReportStage.unrecorded : ReportStage → ReportStage
  | .committed memory_ids _ => .committed memory_ids true
  | stage => stage

def Report.unrecorded (p : Report) : Report := { p with stage := p.stage.unrecorded }

/-- The part of the database, and the requests of the tenant. -/
def OutcomeState.part (tenant_id : UUID) (s : OutcomeState K) : OutcomeState K where
  service := { requests := { db := s.db.part tenant_id } }
  accesses := s.accesses.filter (·.id.agent.tenant_id = tenant_id)
  session_reads := s.session_reads.filter (·.id.agent.tenant_id = tenant_id)
  returned := s.returned.filter (·.id.agent.tenant_id = tenant_id)
  recall_ids := s.recall_ids.filter (·.agent.tenant_id = tenant_id)
  reports := (s.reports.filter (·.id.agent.tenant_id = tenant_id)).map (·.unrecorded)

@[simp] theorem unrecorded_unrecorded (p : Report) : p.unrecorded.unrecorded = p.unrecorded := by
  unfold Report.unrecorded ReportStage.unrecorded
  cases p.stage <;> simp

theorem unrecorded_of_open {p : Report}
    (h : ∀ memory_ids recorded, p.stage ≠ .committed memory_ids recorded) : p.unrecorded = p := by
  cases p with
  | mk id work_order_id outcome recalled stage =>
    cases stage with
    | committed memory_ids recorded => exact absurd rfl (h memory_ids recorded)
    | called => rfl
    | selected memory_ids => rfl

theorem db_part_part (tenant_id : UUID) (db : Db K) :
    (db.part tenant_id).part tenant_id = db.part tenant_id := by
  simp [Db.part]

theorem part_part (tenant_id : UUID) (s : OutcomeState K) :
    (s.part tenant_id).part tenant_id = s.part tenant_id := by
  have hdb := db_part_part tenant_id s.db
  have hreports : (s.part tenant_id).reports.filter (·.id.agent.tenant_id = tenant_id) =
      (s.part tenant_id).reports := by
    rw [List.filter_eq_self]
    intro p hp
    obtain ⟨q, hq, rfl⟩ := List.mem_map.mp hp
    exact (List.mem_filter.mp hq).2
  have hunrecorded : (s.part tenant_id).reports.map (·.unrecorded) =
      (s.part tenant_id).reports := by
    simp [OutcomeState.part, Function.comp_def]
  unfold OutcomeState.part at hreports hunrecorded ⊢
  simp only [OutcomeState.db] at hdb ⊢
  rw [hreports, hunrecorded, hdb]
  simp

/-! ## The statements of a tenant -/

section
variable {tenant_id other : UUID} {s : OutcomeState K} {id : RequestId}

/-- An UPDATE of rows of another tenant. -/
theorem part_update_other {Row : Type} {tenant : Row → UUID} {p : Row → Bool} {f : Row → Row}
    (hf : ∀ r, tenant (f r) = tenant r) (hne : other ≠ tenant_id) (t : List Row) :
    (rows.update (fun r => p r && tenant r = other) f t).filter (fun r => tenant r = tenant_id) =
      t.filter fun r => tenant r = tenant_id := by
  apply rows.filter_update_other
  · intro r
    rw [hf]
  · intro r hr
    simp only [Bool.and_eq_true, decide_eq_true_eq] at hr
    simp [hr.2, hne]

theorem part_record_recall_access (results : List (RecallResult K)) (tenant_id : UUID)
    (now : Timestamp) (db : Db K) :
    (record_recall_access results tenant_id now db).part tenant_id =
      record_recall_access results tenant_id now (db.part tenant_id) := by
  have hguard : ∀ {Row : Type} (p q : Row → Bool) (tenant : Row → UUID) (t : List Row),
      ((t.filter fun r => tenant r = tenant_id).any fun r =>
        (p r && decide (tenant r = tenant_id)) && q r) =
      t.any fun r => (p r && decide (tenant r = tenant_id)) && q r := by
    intro Row p q tenant t
    apply rows.any_filter_of
    intro r h
    simp only [Bool.and_eq_true] at h
    exact h.1.2
  unfold record_recall_access
  simp only [Db.part, hguard]
  split
  · rfl
  · simp only [Db.mk.injEq, and_true, true_and]
    refine ⟨?_, ?_, ?_⟩
    · exact rows.filter_update (by intro r; rfl) _
    · exact rows.filter_update (by intro r; rfl) _
    · exact rows.filter_update (by intro r; rfl) _

theorem part_record_recall_access_other (results : List (RecallResult K)) (hne : other ≠ tenant_id)
    (now : Timestamp) (db : Db K) :
    (record_recall_access results other now db).part tenant_id = db.part tenant_id := by
  unfold record_recall_access
  dsimp only
  split
  · rfl
  · simp only [Db.part, Db.mk.injEq, and_true, true_and]
    refine ⟨?_, ?_, ?_⟩
    · exact part_update_other (by intro r; rfl) hne _
    · exact part_update_other (by intro r; rfl) hne _
    · exact part_update_other (by intro r; rfl) hne _

theorem part_log_session_reads {t : WorkOrderRecall} (ht : t.id.agent.tenant_id = tenant_id)
    (db : Db K) :
    (log_session_reads t db).part tenant_id = log_session_reads t (db.part tenant_id) := by
  simp [Db.part, log_session_reads, List.filter_map, Function.comp_def, ht]

theorem part_log_session_reads_other {t : WorkOrderRecall} (ht : t.id.agent.tenant_id ≠ tenant_id)
    (db : Db K) : (log_session_reads t db).part tenant_id = db.part tenant_id := by
  simp [Db.part, log_session_reads, List.filter_map, Function.comp_def, ht]

theorem part_scale_confidence (outcome : Outcome) (memory_ids : List UUID) (tenant_id : UUID)
    (db : Db K) :
    (scale_confidence outcome memory_ids tenant_id db).part tenant_id =
      scale_confidence outcome memory_ids tenant_id (db.part tenant_id) := by
  simp only [scale_confidence, Db.part, Db.mk.injEq, and_true, true_and]
  exact rows.filter_update (by intro r; rfl) _

theorem part_scale_confidence_other (outcome : Outcome) (memory_ids : List UUID)
    (hne : other ≠ tenant_id) (db : Db K) :
    (scale_confidence outcome memory_ids other db).part tenant_id = db.part tenant_id := by
  simp only [scale_confidence, Db.part, Db.mk.injEq, and_true, true_and]
  exact part_update_other (by intro r; rfl) hne _

theorem part_commit_outcome {p : Report} (hp : p.id.agent.tenant_id = tenant_id)
    (memory_ids : List UUID) (db : Db K) :
    (commit_outcome p memory_ids db).part tenant_id =
      (commit_outcome p memory_ids (db.part tenant_id)).part tenant_id := by
  have hscale := part_scale_confidence p.outcome memory_ids tenant_id db
  have hpart := db_part_part tenant_id (scale_confidence p.outcome memory_ids tenant_id db)
  have hdb := db_part_part tenant_id db
  unfold commit_outcome
  rw [hp]
  split
  · exact hdb.symm
  · rw [← hscale]
    exact hpart.symm

theorem part_commit_outcome_other {p : Report} (hp : p.id.agent.tenant_id ≠ tenant_id)
    (memory_ids : List UUID) (db : Db K) :
    (commit_outcome p memory_ids db).part tenant_id = db.part tenant_id := by
  unfold commit_outcome
  split
  · rfl
  · exact part_scale_confidence_other p.outcome memory_ids hp db

end

/-! ## What a recall reads -/

/-- Each agent is of one tenant, and so are its memories. -/
structure Db.Separate (db : Db K) : Prop where
  agents_nodup : (db.agent_keys.map (·.1)).Nodup
  owned : ∀ r ∈ db.hindsight_memories, (r.agent_id, r.tenant_id) ∈ db.agent_keys
  apart : db.Apart

theorem GoodService.separate {levels : List ClearanceLevel} {db : Db K}
    {workers : List (Worker K)} (h : GoodService levels db workers) : db.Separate :=
  ⟨h.owned.agents_nodup, h.owned.owned, h.apart⟩

theorem Db.Separate.part {db : Db K} (h : db.Separate) (tenant_id : UUID) :
    (db.part tenant_id).Separate := by
  refine ⟨h.agents_nodup, ?_, h.apart.scopes, h.apart.entities_nodup, ?_⟩
  · intro r hr
    exact h.owned r (List.mem_filter.mp hr).1
  · intro l hl q hq
    exact h.apart.sources l hl q (List.mem_filter.mp hq).1

/-- The memories of an agent are of its tenant. -/
theorem Db.Separate.tenant_eq {db : Db K} (h : db.Separate) {agent : AgentIdentity}
    (hagent : (agent.agent_id, agent.tenant_id) ∈ db.agent_keys) {r : HindsightMemory K}
    (hr : r ∈ db.hindsight_memories) (hid : r.agent_id = agent.agent_id) :
    r.tenant_id = agent.tenant_id := by
  have heq := List.inj_on_of_nodup_map h.agents_nodup (h.owned r hr) hagent hid
  exact (Prod.mk.inj heq).2

/-- What an agent reads is in the part of its tenant. -/
theorem Db.Separate.readable_part {db : Db K} (h : db.Separate) {agent : AgentIdentity}
    (hagent : (agent.agent_id, agent.tenant_id) ∈ db.agent_keys) :
    (db.part agent.tenant_id).readable agent = db.readable agent := by
  have hprivate : (db.part agent.tenant_id).hindsight_memories.filter
      (fun r => r.agent_id = agent.agent_id) =
      db.hindsight_memories.filter fun r => r.agent_id = agent.agent_id := by
    apply rows.filter_filter_of
    intro r hr hid
    simp only [decide_eq_true_eq] at hid ⊢
    exact h.tenant_eq hagent hr hid
  have hlinks : own_link agent (db.part agent.tenant_id) = own_link agent db := by
    funext l
    have hany : ∀ t : List (HindsightMemory K),
        (t.any fun r => r.agent_id = agent.agent_id && r.id = l.source_id) =
          (t.filter fun r => r.agent_id = agent.agent_id).any fun r => r.id = l.source_id := by
      intro t
      rw [List.any_filter]
    unfold own_link
    rw [hany, hany, hprivate]
  unfold Db.readable Db.view
  rw [hprivate, hlinks]
  simp [Db.part]

section
variable [Field K] [LinearOrder K]

theorem recall_routed_reads (o : Outside K) (now : Timestamp) (body : RecallRequest)
    (agent : AgentIdentity) (type : MemoryType) (tier : Tier)
    (condition : HindsightMemory K → Bool)
    (order : List (HindsightMemory K) → List (HindsightMemory K))
    (columns : HindsightMemory K → FetchedRow K) (keep : FetchedRow K → Bool) (db : Db K) :
    recall_routed o now body agent type tier condition order columns keep (db.readable agent) =
      recall_routed o now body agent type tier condition order columns keep db := by
  have hpicked : ((db.readable agent).hindsight_memories.filter fun r =>
      routed_where now body agent type tier r && condition r) =
      db.hindsight_memories.filter fun r =>
        routed_where now body agent type tier r && condition r := by
    apply rows.filter_filter_of
    intro r _ hr
    simp only [routed_where, Bool.and_eq_true] at hr
    exact hr.1.1.1.1.1.1
  unfold recall_routed
  simp only [hpicked]

variable [HasSqrt K] {agent : AgentIdentity} {db : Db K}

theorem route_reads (h : db.Apart) (o : Outside K) (cfg : Settings) (env : RecallEnv K)
    (body : RecallRequest) :
    route o cfg env body agent (db.readable agent) = route o cfg env body agent db := by
  unfold route recall_decisions recall_lessons recall_episodic recall_short_term
  simp only [recall_routed_reads, hybrid_reads h]

/-- A recall finds in the part of its tenant what it finds in the database. -/
theorem recall_part (h : db.Separate) (o : Outside K) (cfg : Settings) (env : RecallEnv K)
    (answer : Option json.Json) (body : RecallRequest) :
    «recall» o cfg env answer body agent (db.part agent.tenant_id) =
      «recall» o cfg env answer body agent db := by
  have hactive : assert_agent_active agent.agent_id agent.tenant_id (db.part agent.tenant_id) =
      assert_agent_active agent.agent_id agent.tenant_id db := rfl
  unfold «recall»
  rw [hactive]
  cases hassert : assert_agent_active agent.agent_id agent.tenant_id db with
  | error e => rfl
  | ok u =>
    have hagent := assert_agent_active_key hassert
    have hroute : route o cfg env body agent (db.part agent.tenant_id) =
        route o cfg env body agent db := by
      rw [← route_reads (h.part agent.tenant_id).apart, h.readable_part hagent, route_reads h.apart]
    rw [hroute]

end

/-! ## The requests of a tenant -/

section
variable {tenant_id : UUID} {s s' : OutcomeState K} {id : RequestId}

theorem part_with_db (s : OutcomeState K) (db : Db K) :
    (s.with_db db).part tenant_id = (s.part tenant_id).with_db (db.part tenant_id) := rfl

theorem part_accesses (s : OutcomeState K) (accesses : List (AccessTask K)) :
    ({ s with accesses } : OutcomeState K).part tenant_id =
      { s.part tenant_id with
        accesses := accesses.filter (·.id.agent.tenant_id = tenant_id) } := rfl

theorem part_session_reads (s : OutcomeState K) (session_reads : List WorkOrderRecall) :
    ({ s with session_reads } : OutcomeState K).part tenant_id =
      { s.part tenant_id with
        session_reads := session_reads.filter (·.id.agent.tenant_id = tenant_id) } := rfl

theorem part_reports (s : OutcomeState K) (reports : List Report) :
    ({ s with reports } : OutcomeState K).part tenant_id =
      { s.part tenant_id with
        reports := (reports.filter (·.id.agent.tenant_id = tenant_id)).map (·.unrecorded) } := rfl

theorem find_part {Row : Type} {request : Row → RequestId}
    (hid : id.agent.tenant_id = tenant_id) (l : List Row) :
    (l.filter fun x => (request x).agent.tenant_id = tenant_id).find? (fun x => request x = id) =
      l.find? fun x => request x = id := by
  apply rows.find?_filter_of
  intro x hx
  simp only [decide_eq_true_eq] at hx ⊢
  rw [hx, hid]

theorem report_part (hid : id.agent.tenant_id = tenant_id) (s : OutcomeState K) :
    (s.part tenant_id).report id = (s.report id).map (·.unrecorded) := by
  have hfind : (s.reports.filter (·.id.agent.tenant_id = tenant_id)).find? (·.id = id) =
      s.reports.find? (·.id = id) := find_part hid s.reports
  have hmap : ∀ t : List Report, (t.map (·.unrecorded)).find? (·.id = id) =
      (t.find? (·.id = id)).map (·.unrecorded) := by
    intro t
    exact List.find?_map
  exact (hmap _).trans (congrArg _ hfind)

/-- A report that is not committed is the same in states with the same part. -/
theorem report_eq_of_part {t : OutcomeState K} (h : s.part tenant_id = t.part tenant_id)
    (hid : id.agent.tenant_id = tenant_id) {p : Report} {memory_ids : List UUID}
    (hp : s.report id = some p) (hstage : p.stage = .selected memory_ids) :
    t.report id = some p := by
  have hs := report_part hid s
  rw [h, report_part hid t, hp] at hs
  obtain ⟨q, hq, heq⟩ := Option.map_eq_some_iff.mp hs
  cases p with
  | mk pid work_order_id outcome recalled stage =>
    cases q with
    | mk qid qw qo qr qstage =>
      cases hstage
      simp only [Report.unrecorded, Report.mk.injEq] at heq
      obtain ⟨rfl, rfl, rfl, rfl, hq_stage⟩ := heq
      cases qstage with
      | selected ids =>
        cases hq_stage
        exact hq
      | called => cases hq_stage
      | committed ids recorded => cases hq_stage

theorem part_set_stage (s : OutcomeState K) (id : RequestId) (stage : ReportStage) :
    (s.set_stage id stage).part tenant_id = (s.part tenant_id).set_stage id stage.unrecorded := by
  have hupdate : ((rows.update (·.id = id) (fun p : Report => { p with stage }) s.reports).filter
        (·.id.agent.tenant_id = tenant_id)).map (·.unrecorded) =
      rows.update (·.id = id) (fun p : Report => { p with stage := stage.unrecorded })
        ((s.reports.filter (·.id.agent.tenant_id = tenant_id)).map (·.unrecorded)) := by
    rw [rows.filter_update (by intro p; rfl)]
    exact rows.map_update_comm (by intro p; rfl) (by intro p; rfl) _
  unfold OutcomeState.set_stage OutcomeState.part
  simp only [hupdate]
  rfl

/-- The report of another tenant moves on. -/
theorem part_set_stage_other (hid : id.agent.tenant_id ≠ tenant_id) (s : OutcomeState K)
    (stage : ReportStage) : (s.set_stage id stage).part tenant_id = s.part tenant_id := by
  have hupdate : (rows.update (·.id = id) (fun p : Report => { p with stage }) s.reports).filter
      (·.id.agent.tenant_id = tenant_id) = s.reports.filter (·.id.agent.tenant_id = tenant_id) := by
    apply rows.filter_update_other
    · intro p
      rfl
    · intro p hp
      simp only [decide_eq_true_eq] at hp
      simp [hp, hid]
  unfold OutcomeState.set_stage OutcomeState.part
  simp only [hupdate]
  rfl

theorem part_respond (hid : id.agent.tenant_id = tenant_id) (s : OutcomeState K)
    (w : Option UUID) (results : List (RecallResult K)) :
    (s.respond id w results).part tenant_id = (s.part tenant_id).respond id w results := by
  cases w with
  | none => simp [OutcomeState.respond, OutcomeState.part, hid, OutcomeState.db]
  | some w => simp [OutcomeState.respond, OutcomeState.part, hid, OutcomeState.db]

theorem part_respond_other (hid : id.agent.tenant_id ≠ tenant_id) (s : OutcomeState K)
    (w : Option UUID) (results : List (RecallResult K)) :
    (s.respond id w results).part tenant_id = s.part tenant_id := by
  cases w with
  | none => simp [OutcomeState.respond, OutcomeState.part, hid, OutcomeState.db]
  | some w => simp [OutcomeState.respond, OutcomeState.part, hid, OutcomeState.db]

theorem recalled_part {agent : AgentIdentity} (hagent : agent.tenant_id = tenant_id)
    (s : OutcomeState K) (w : UUID) :
    (s.part tenant_id).recalled agent w = s.recalled agent w := by
  unfold OutcomeState.recalled
  congr 1
  apply rows.filter_filter_of
  intro t _ ht
  simp only [Bool.and_eq_true, decide_eq_true_eq] at ht ⊢
  rw [ht.1, hagent]

theorem implicated_part (w tenant_id : UUID) (db : Db K) :
    implicated w tenant_id (db.part tenant_id) = implicated w tenant_id db := by
  unfold implicated
  congr 2
  apply rows.filter_filter_of
  intro r _ hr
  simp only [Bool.and_eq_true] at hr
  exact hr.2

end

end qortia
