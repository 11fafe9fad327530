-- `report_outcome` of `qortia.recall`: the outcome of a work order scales the confidence of the
-- memories that were recalled under it, and is recorded once. The laws are about what a repeated
-- report does.
import Mathlib.Tactic.Linarith
import Qortia.Lib.Runs
import Qortia.Schema

namespace qortia

variable {K : Type}

/-! ## The request -/

/-- `multipliers.get(outcome, 1.0)`. -/
def Outcome.multiplier : Outcome → ℚ
  | .SUCCESS => 105 / 100
  | .MINOR_FAILURE => 85 / 100
  | .CRITICAL_FAILURE => 60 / 100

/-- `memory_ids`: the memories that were recalled under the work order. -/
def implicated (work_order_id tenant_id : UUID) (db : Db K) : List UUID :=
  ((db.qortia_session_reads.filter fun s =>
    s.work_order_id = work_order_id && s.tenant_id = tenant_id).map (·.memory_id)).dedup

/-- `GREATEST(0.10, LEAST(1.0, confidence_multiplier * $1))`. -/
def Outcome.scale (outcome : Outcome) (confidence_multiplier : ℚ) : ℚ :=
  max (1 / 10) (min 1 (confidence_multiplier * outcome.multiplier))

/-- The UPDATE of the memories. -/
def scale_confidence (outcome : Outcome) (memory_ids : List UUID) (tenant_id : UUID) (db : Db K) :
    Db K :=
  { db with
    hindsight_memories := rows.update (fun m => m.id ∈ memory_ids && m.tenant_id = tenant_id)
      (fun m => { m with confidence_multiplier := outcome.scale m.confidence_multiplier })
      db.hindsight_memories }

/-- `INSERT .. ON CONFLICT (work_order_id) DO NOTHING`. -/
def insert_outcome_record (r : OutcomeRecord) (records : List OutcomeRecord) :
    List OutcomeRecord :=
  if records.any fun r' => r'.work_order_id = r.work_order_id then records else records ++ [r]

/-- `_record_work_order_outcome`. An exception rolls it back and is only logged: `failed`. -/
def record_work_order_outcome (work_order_id tenant_id agent_id : UUID) (outcome : Outcome)
    (failed : Bool) (db : Db K) : Db K :=
  if failed then db
  else
    let memory_ids := implicated work_order_id tenant_id db
    let db₁ := if memory_ids = [] then db else scale_confidence outcome memory_ids tenant_id db
    { db₁ with
      qortia_outcome_records := insert_outcome_record
        { tenant_id, agent_id, work_order_id, outcome, memory_count := memory_ids.length }
        db₁.qortia_outcome_records }

/-- `report_outcome`. -/
def report_outcome (agent : AgentIdentity) (work_order_id : UUID) (outcome : Outcome)
    (failed : Bool) (db : Db K) : Except Failure (Db K) := do
  assert_agent_active agent.agent_id agent.tenant_id db
  return record_work_order_outcome work_order_id agent.tenant_id agent.agent_id outcome failed db

/-! ## Reports in a row -/

structure OutcomeReport where
  agent : AgentIdentity
  outcome : Outcome
  failed : Bool := false

/-- A report for the work order. One that raises changes nothing. -/
def report_step (work_order_id : UUID) (db : Db K) (r : OutcomeReport) : Option (Db K) :=
  match report_outcome r.agent work_order_id r.outcome r.failed db with
  | .ok db' => some db'
  | .error _ => some db

/-- A later outcome finds the confidence that the first one leaves at the bound that it pushes
to. -/
def Saturated (first later : Outcome) (confidence_multiplier : ℚ) : Prop :=
  match later with
  | .SUCCESS => 1 ≤ confidence_multiplier * first.multiplier
  | .MINOR_FAILURE | .CRITICAL_FAILURE => confidence_multiplier * first.multiplier ≤ 1 / 10

/-- The report commits, and no memory that it scales moves any more. -/
def ChangesNothing (work_order_id : UUID) (first : Outcome) (db : Db K) (r : OutcomeReport) :
    Prop :=
  r.failed = false → assert_agent_active r.agent.agent_id r.agent.tenant_id db = .ok () →
    ∀ m ∈ db.hindsight_memories, m.tenant_id = r.agent.tenant_id →
      m.id ∈ implicated work_order_id r.agent.tenant_id db →
        Saturated first r.outcome m.confidence_multiplier

/-! ## One report -/

theorem scale_bounds (outcome : Outcome) (c : ℚ) :
    1 / 10 ≤ outcome.scale c ∧ outcome.scale c ≤ 1 := by
  unfold Outcome.scale
  refine ⟨le_max_left _ _, max_le (by norm_num) (min_le_left _ _)⟩

/-- A success moves every confidence below 1 up, and a failure every one above 0.10 down. -/
theorem scale_eq_self_iff (outcome : Outcome) {c : ℚ} (hlow : 1 / 10 ≤ c) (hhigh : c ≤ 1) :
    outcome.scale c = c ↔ match outcome with
      | .SUCCESS => 1 ≤ c
      | .MINOR_FAILURE | .CRITICAL_FAILURE => c ≤ 1 / 10 := by
  unfold Outcome.scale
  cases outcome with
  | SUCCESS =>
    simp only [Outcome.multiplier]
    constructor
    · intro h
      rcases max_choice (1 / 10 : ℚ) (min 1 (c * (105 / 100))) with hmax | hmax
      · have := le_max_right (1 / 10 : ℚ) (min 1 (c * (105 / 100)))
        rcases min_choice (1 : ℚ) (c * (105 / 100)) with hmin | hmin <;> linarith
      · rcases min_choice (1 : ℚ) (c * (105 / 100)) with hmin | hmin <;> linarith
    · intro h
      rw [min_eq_left (by linarith), max_eq_right (by norm_num)]
      linarith
  | MINOR_FAILURE =>
    simp only [Outcome.multiplier]
    constructor
    · intro h
      rw [min_eq_right (by linarith)] at h
      rcases max_choice (1 / 10 : ℚ) (c * (85 / 100)) with hmax | hmax <;> linarith
    · intro h
      rw [min_eq_right (by linarith), max_eq_left (by linarith)]
      linarith
  | CRITICAL_FAILURE =>
    simp only [Outcome.multiplier]
    constructor
    · intro h
      rw [min_eq_right (by linarith)] at h
      rcases max_choice (1 / 10 : ℚ) (c * (60 / 100)) with hmax | hmax <;> linarith
    · intro h
      rw [min_eq_right (by linarith), max_eq_left (by linarith)]
      linarith

/-- The first report leaves a confidence that a later one does not move. -/
theorem scale_scale_iff (first later : Outcome) (c : ℚ) :
    later.scale (first.scale c) = first.scale c ↔ Saturated first later c := by
  obtain ⟨hlow, hhigh⟩ := scale_bounds first c
  rw [scale_eq_self_iff later hlow hhigh]
  unfold Saturated Outcome.scale
  cases later with
  | SUCCESS => simp; norm_num
  | MINOR_FAILURE => simp; norm_num
  | CRITICAL_FAILURE => simp; norm_num

/-! ## A report after the first one -/

/-- The first report, written as one record update. -/
theorem record_eq (w t agent_id : UUID) (outcome : Outcome) (db : Db K) :
    record_work_order_outcome w t agent_id outcome false db =
      { scale_confidence outcome (implicated w t db) t db with
        qortia_outcome_records := insert_outcome_record
          { tenant_id := t, agent_id, work_order_id := w, outcome
            memory_count := (implicated w t db).length } db.qortia_outcome_records } := by
  unfold record_work_order_outcome
  by_cases hnone : implicated w t db = []
  · have hsame : scale_confidence outcome [] t db = db := by
      unfold scale_confidence
      rw [rows.update_eq_self_iff.mpr (by simp)]
    simp [hnone, hsame]
  · simp [hnone, scale_confidence]

theorem mem_insert_outcome_record (r : OutcomeRecord) (records : List OutcomeRecord) :
    ∃ r' ∈ insert_outcome_record r records, r'.work_order_id = r.work_order_id := by
  unfold insert_outcome_record
  by_cases hany : (records.any fun r' => r'.work_order_id = r.work_order_id) = true
  · rw [if_pos hany]
    obtain ⟨r', hr', heq⟩ := List.any_eq_true.mp hany
    exact ⟨r', hr', of_decide_eq_true heq⟩
  · rw [if_neg hany]
    exact ⟨r, by simp, rfl⟩

/-- A work order that has its record gets no other one, so only the memories can change. -/
theorem record_again_iff {w t : UUID} (agent_id : UUID) {outcome : Outcome} {db : Db K}
    (hrecord : ∃ r ∈ db.qortia_outcome_records, r.work_order_id = w) :
    record_work_order_outcome w t agent_id outcome false db = db ↔
      ∀ m ∈ db.hindsight_memories, m.tenant_id = t → m.id ∈ implicated w t db →
        outcome.scale m.confidence_multiplier = m.confidence_multiplier := by
  have hkeep : ∀ n, insert_outcome_record
      { tenant_id := t, agent_id, work_order_id := w, outcome, memory_count := n }
      db.qortia_outcome_records = db.qortia_outcome_records := by
    intro n
    obtain ⟨r, hr, hw⟩ := hrecord
    exact if_pos (List.any_eq_true.mpr ⟨r, hr, by simp [hw]⟩)
  have hrow : ∀ m : HindsightMemory K,
      { m with confidence_multiplier := outcome.scale m.confidence_multiplier } = m ↔
        outcome.scale m.confidence_multiplier = m.confidence_multiplier := by
    intro m
    cases m
    simp
  rw [record_eq, hkeep]
  constructor
  · intro h m hm htenant hid
    have hrows := congrArg Db.hindsight_memories h
    exact (hrow m).mp (rows.update_eq_self_iff.mp hrows m hm (by simp [htenant, hid]))
  · intro h
    have hrows : (scale_confidence outcome (implicated w t db) t db).hindsight_memories =
        db.hindsight_memories := by
      apply rows.update_eq_self_iff.mpr
      intro m hm hp
      simp only [Bool.and_eq_true, decide_eq_true_eq] at hp
      exact (hrow m).mpr (h m hm hp.2 hp.1)
    unfold scale_confidence at hrows ⊢
    simp only at hrows ⊢
    rw [hrows]

/-- What the first report leaves for the later ones to find. -/
theorem first_report {agent : AgentIdentity} {w : UUID} {first : Outcome} {db db₁ : Db K}
    (h : report_outcome agent w first false db = .ok db₁) :
    (∃ r ∈ db₁.qortia_outcome_records, r.work_order_id = w) ∧
      implicated w agent.tenant_id db₁ = implicated w agent.tenant_id db ∧
      (∀ a t, assert_agent_active a t db₁ = assert_agent_active a t db) ∧
      db₁.hindsight_memories =
        (scale_confidence first (implicated w agent.tenant_id db) agent.tenant_id
          db).hindsight_memories := by
  unfold report_outcome at h
  obtain ⟨u, -, h⟩ := bind_ok h
  cases h
  rw [record_eq]
  exact ⟨mem_insert_outcome_record _ _, rfl, fun _ _ => rfl, rfl⟩

/-- The first report has moved every memory that a later one of the tenant picks. -/
theorem scaled_again_iff {w t : UUID} {first : Outcome} (later : Outcome) {db db₁ : Db K}
    (himplicated : implicated w t db₁ = implicated w t db)
    (hrows : db₁.hindsight_memories =
      (scale_confidence first (implicated w t db) t db).hindsight_memories) :
    (∀ m ∈ db₁.hindsight_memories, m.tenant_id = t → m.id ∈ implicated w t db₁ →
        later.scale m.confidence_multiplier = m.confidence_multiplier) ↔
      ∀ m ∈ db.hindsight_memories, m.tenant_id = t → m.id ∈ implicated w t db →
        Saturated first later m.confidence_multiplier := by
  rw [himplicated, hrows]
  unfold scale_confidence
  constructor
  · intro h m hm htenant hid
    apply (scale_scale_iff first later _).mp
    exact h { m with confidence_multiplier := first.scale m.confidence_multiplier }
      (rows.mem_update.mpr ⟨m, hm, .inl ⟨by simp [htenant, hid], rfl⟩⟩) htenant hid
  · intro h m hm htenant hid
    obtain ⟨m₀, hm₀, ⟨-, rfl⟩ | ⟨hnot, rfl⟩⟩ := rows.mem_update.mp hm
    · exact (scale_scale_iff first later _).mpr (h m₀ hm₀ htenant hid)
    · simp [htenant, hid] at hnot

/-- After the first report, a later one changes nothing exactly when its memories are
saturated. -/
theorem report_step_iff {agent : AgentIdentity} {w : UUID} {first : Outcome} {db db₁ : Db K}
    (h : report_outcome agent w first false db = .ok db₁) {r : OutcomeReport}
    (htenant : r.agent.tenant_id = agent.tenant_id) :
    (∀ s', report_step w db₁ r = some s' → s' = db₁) ↔ ChangesNothing w first db r := by
  obtain ⟨hrecord, himplicated, hactive, hrows⟩ := first_report h
  unfold report_step report_outcome ChangesNothing
  rw [htenant, hactive]
  cases hok : assert_agent_active r.agent.agent_id agent.tenant_id db with
  | error e => simp [bind, Except.bind]
  | ok u =>
    cases hfailed : r.failed with
    | true => simp [bind, Except.bind, record_work_order_outcome, pure, Except.pure]
    | false =>
      have hagain := (record_again_iff r.agent.agent_id hrecord).trans
        (scaled_again_iff r.outcome himplicated hrows)
      simp only [bind, Except.bind, pure, Except.pure, Option.some.injEq, forall_eq', forall_const,
        hagain]

theorem report_step_total (w : UUID) (db : Db K) (r : OutcomeReport) :
    ∃ db', report_step w db r = some db' := by
  unfold report_step
  cases report_outcome r.agent w r.outcome r.failed db with
  | ok db' => exact ⟨db', rfl⟩
  | error e => exact ⟨db, rfl⟩

/-! ## What repeated reports do -/

/-- After the first report of a work order has committed, the later reports of the tenant leave
the database as it is exactly when none of them finds a confidence to move. -/
theorem later_reports_change_nothing_iff {agent : AgentIdentity} {w : UUID} {first : Outcome}
    {db db₁ : Db K} (h : report_outcome agent w first false db = .ok db₁)
    {later : List OutcomeReport} (htenant : ∀ r ∈ later, r.agent.tenant_id = agent.tenant_id) :
    runs.Always (report_step w) (· = db₁) db₁ later ↔
      ∀ r ∈ later, ChangesNothing w first db r := by
  rw [runs.always_eq_iff (report_step_total w)]
  constructor
  · intro hkeep r hr
    exact (report_step_iff h (htenant r hr)).mp (hkeep r hr)
  · intro hnothing r hr
    exact (report_step_iff h (htenant r hr)).mpr (hnothing r hr)

/-! ## A memory that was recalled under a work order -/

def reporter : AgentIdentity := { agent_id := 20, tenant_id := 1 }

def recalled_db : Db ℚ :=
  { qortia_agents := [{ id := 20, tenant_id := 1, updated_at := 0 }]
    hindsight_memories :=
      [{ id := 0, tenant_id := 1, agent_id := 20, type := .lesson, content := "retry with backoff"
         valid_from := 0, created_at := 0 }]
    qortia_session_reads := [{ tenant_id := 1, agent_id := 20, work_order_id := 7, memory_id := 0 }]
    next_id := 1 }

/-- A repeated success finds a full confidence. -/
theorem second_success_changes_nothing :
    ∃ db₁, report_outcome reporter 7 .SUCCESS false recalled_db = .ok db₁ ∧
      runs.Always (report_step 7) (· = db₁) db₁ [{ agent := reporter, outcome := .SUCCESS }] := by
  have hfirst : report_outcome reporter 7 .SUCCESS false recalled_db =
      .ok (record_work_order_outcome 7 1 20 .SUCCESS false recalled_db) := by rfl
  refine ⟨_, hfirst, (later_reports_change_nothing_iff hfirst (by decide)).mpr ?_⟩
  intro r hr
  rw [List.mem_singleton] at hr
  subst hr
  intro _ _ m hm _ _
  simp only [recalled_db, List.mem_singleton] at hm
  subst hm
  norm_num [Saturated, Outcome.multiplier]

/-- A client that repeats its report of a failure lowers the confidence a second time. -/
theorem second_failure_scales_again :
    ¬ ∀ (agent : AgentIdentity) (w : UUID) (o : Outcome) (db db₁ : Db ℚ)
      (later : List OutcomeReport), report_outcome agent w o false db = .ok db₁ →
      (∀ r ∈ later, r.agent.tenant_id = agent.tenant_id) →
        runs.Always (report_step w) (· = db₁) db₁ later := by
  intro h
  have hkeep := h reporter 7 .MINOR_FAILURE recalled_db
    (record_work_order_outcome 7 1 20 .MINOR_FAILURE false recalled_db)
    [{ agent := reporter, outcome := .MINOR_FAILURE }] (by rfl) (by decide)
  have hend := congrArg (fun db => db.hindsight_memories.map (·.confidence_multiplier))
    (hkeep.2 _ rfl)
  revert hend
  decide +kernel

end qortia
