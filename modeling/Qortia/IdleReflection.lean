-- The background trigger of reflections: `_trigger_idle_reflections` selects agents that have not
-- been updated for some time, and `_reflect_agent` reflects them. It returns early for an agent
-- without a recent memory, whose row then stays as the next cycle selects it.
import Mathlib.Data.Rat.Floor
import Qortia.AgentIdentities
import Qortia.ForgetRuns
import Qortia.ReflectCommits
import Qortia.RememberBatch

namespace qortia

variable {K : Type}

/-! ## One agent -/

/-- The times of the two transactions of a `_reflect_agent`, what the language model answers in
between, and which calls for embeddings raise. -/
structure ReflectCall where
  read_at : Timestamp
  write_at : Timestamp
  answer : Except Failure (List Reflection)
  failed : List Nat := []

/-- The WHERE of the query `recent`. -/
def recent_memory (agent_id : UUID) (now : Timestamp) (r : HindsightMemory K) : Bool :=
  r.agent_id = agent_id && (r.type = .episodic || r.type = .experiential) && r.tier = .active &&
    r.expires_at.all (now < ·) && now - 7 * DAY < r.created_at

/-- The query `recent`. -/
def select_recent (agent_id : UUID) (now : Timestamp) (db : Db K) : List (HindsightMemory K) :=
  (rows.order_desc (·.created_at) (db.hindsight_memories.filter (recent_memory agent_id now))).take
    30

section
variable [Field K] [LinearOrder K] [HasSqrt K]

/-- The try block of `_reflect_agent`. -/
def reflect_agent (o : Outside K) (cfg : Settings) (call : ReflectCall) (agent_id tenant_id : UUID)
    (db : Db K) : Except Failure (Db K) := do
  if (agent_row db agent_id tenant_id).map (·.status) ≠ some "active" then return db
  let existing := select_existing agent_id db
  if select_recent agent_id call.read_at db = [] then return db
  if cfg.rerank_model = "" then return db
  let reflections ← call.answer
  let (db', _, _) ← write_reflections o cfg ⟨agent_id, tenant_id, call.write_at⟩ reflections
    (new_embeddings o reflections call.failed) (existing_embeddings o existing) existing db
  return db'

end

/-! ## One cycle -/

/-- `rint`, to the nearest integer and from halfway to the even one. -/
def rint (q : ℚ) : Int :=
  if q - ⌊q⌋ < 1 / 2 then ⌊q⌋
  else if 1 / 2 < q - ⌊q⌋ then ⌊q⌋ + 1
  else if ⌊q⌋ % 2 = 0 then ⌊q⌋
  else ⌊q⌋ + 1

/-- `$2 * interval '1 hour'`, in microseconds. -/
def idle_window (cfg : Settings) : Int := rint (cfg.idle_reflection_window_h * 3600000000)

/-- The WHERE of the query of `_trigger_idle_reflections`. -/
def idle_agent (cfg : Settings) (now : Timestamp) (db : Db K) (a : Agent) : Bool :=
  a.status = "active" && cfg.reflection_threshold ≤ a.reflection_counter &&
    a.updated_at < now - idle_window cfg && db.hindsight_memories.any (·.agent_id = a.id)

/-- A cycle of the trigger: when it begins and ends, the order in which the query finds the agents,
and the call of each. -/
structure IdleCycle where
  now : Timestamp
  finished_at : Timestamp
  now_le : now ≤ finished_at
  unordered : List Agent → List Agent
  unordered_perm : ∀ l, (unordered l).Perm l
  call : UUID → ReflectCall

/-- `rows`. -/
def IdleCycle.selected (c : IdleCycle) (cfg : Settings) (db : Db K) : List Agent :=
  (c.unordered (db.qortia_agents.filter (idle_agent cfg c.now db))).take 50

section
variable [Field K] [LinearOrder K] [HasSqrt K]

/-- The loop of `_trigger_idle_reflections`. A call that raises only logs. The second component are
the agents whose calls have ended without an exception. -/
def reflect_each (o : Outside K) (cfg : Settings) (call : UUID → ReflectCall) :
    List Agent → Db K → Db K × List UUID
  | [], db => (db, [])
  | a :: rest, db =>
    match reflect_agent o cfg (call a.id) a.id a.tenant_id db with
    | .ok db' =>
      let (last, ended) := reflect_each o cfg call rest db'
      (last, a.id :: ended)
    | .error _ => reflect_each o cfg call rest db

/-- `_trigger_idle_reflections`. -/
def trigger_idle_reflections (o : Outside K) (cfg : Settings) (c : IdleCycle) (db : Db K) :
    Db K × List UUID :=
  reflect_each o cfg c.call (c.selected cfg db) db

end

/-! ## What has to hold -/

/-- The query of the next cycle does not find the agent. -/
def Retired (cfg : Settings) (now : Timestamp) (agent_id : UUID) (db : Db K) : Prop :=
  ∀ a ∈ db.qortia_agents, a.id = agent_id → idle_agent cfg now db a = false

/-- There is something to reflect on, and one reflection is enough: the counter falls below the
threshold, or the cycle ends before the window has passed again. -/
def ReflectsOnce (cfg : Settings) (c : IdleCycle) (db : Db K) (a : Agent) : Prop :=
  (∃ r ∈ db.hindsight_memories, recent_memory a.id (c.call a.id).read_at r = true) ∧
    (max (a.reflection_counter - cfg.reflection_threshold) 0 < cfg.reflection_threshold ∨
      c.finished_at - idle_window cfg ≤ (c.call a.id).write_at)

instance (cfg : Settings) (now : Timestamp) (agent_id : UUID) (db : Db K) :
    Decidable (Retired cfg now agent_id db) :=
  inferInstanceAs (Decidable (∀ a ∈ db.qortia_agents, a.id = agent_id →
    idle_agent cfg now db a = false))

instance (cfg : Settings) (c : IdleCycle) (db : Db K) (a : Agent) :
    Decidable (ReflectsOnce cfg c db a) :=
  inferInstanceAs (Decidable (_ ∧ _))

/-! ## What belongs to an agent -/

/-- The row and the memories of an agent. -/
def Db.own (agent_id : UUID) (db : Db K) : List Agent × List (HindsightMemory K) :=
  (db.qortia_agents.filter (·.id = agent_id), db.hindsight_memories.filter (·.agent_id = agent_id))

theorem agent_row_own (db : Db K) (agent_id tenant_id : UUID) :
    agent_row db agent_id tenant_id = (db.own agent_id).1.find? (·.tenant_id = tenant_id) := by
  unfold agent_row Db.own
  rw [List.find?_filter]
  simp only [decide_eq_true_eq, Bool.decide_and]

theorem idle_agent_iff {cfg : Settings} {now : Timestamp} {db : Db K} {a : Agent} :
    idle_agent cfg now db a = true ↔
      a.status = "active" ∧ cfg.reflection_threshold ≤ a.reflection_counter ∧
        a.updated_at < now - idle_window cfg ∧ (db.own a.id).2 ≠ [] := by
  have hany : db.hindsight_memories.any (·.agent_id = a.id) = true ↔ (db.own a.id).2 ≠ [] := by
    simp [Db.own, List.filter_eq_nil_iff]
  simp only [idle_agent, Bool.and_eq_true, decide_eq_true_eq, hany, and_assoc]

theorem select_recent_eq_nil_iff {agent_id : UUID} {now : Timestamp} {db : Db K} :
    select_recent agent_id now db = [] ↔
      ∀ r ∈ db.hindsight_memories, recent_memory agent_id now r = false := by
  rw [select_recent, List.take_eq_nil_iff, ← List.length_eq_zero_iff,
    (rows.order_desc_perm _ _).length_eq, List.length_eq_zero_iff, List.filter_eq_nil_iff]
  simp

/-- What is selected belongs to the agent. -/
theorem select_recent_own {agent_id : UUID} {now : Timestamp} {db : Db K} :
    select_recent agent_id now db = [] ↔
      ∀ r ∈ (db.own agent_id).2, recent_memory agent_id now r = false := by
  rw [select_recent_eq_nil_iff]
  constructor
  · exact fun h r hr => h r (List.mem_filter.mp hr).1
  · intro h r hr
    by_contra hrecent
    have howner : r.agent_id = agent_id := by
      simp only [Bool.not_eq_false, recent_memory, Bool.and_eq_true, decide_eq_true_eq] at hrecent
      exact hrecent.1.1.1.1
    exact hrecent (h r (List.mem_filter.mpr ⟨hr, decide_eq_true howner⟩))

theorem retired_iff {cfg : Settings} {now : Timestamp} {agent_id : UUID} {db : Db K} :
    Retired cfg now agent_id db ↔ ∀ a ∈ (db.own agent_id).1, ¬ (a.status = "active" ∧
      cfg.reflection_threshold ≤ a.reflection_counter ∧ a.updated_at < now - idle_window cfg ∧
        (db.own agent_id).2 ≠ []) := by
  have hrow : ∀ a : Agent, a ∈ (db.own agent_id).1 ↔ a ∈ db.qortia_agents ∧ a.id = agent_id := by
    intro a
    simp [Db.own]
  unfold Retired
  constructor
  · intro h a ha hidle
    obtain ⟨hmem, rfl⟩ := (hrow a).mp ha
    have hfalse := h a hmem rfl
    rw [idle_agent_iff.mpr hidle] at hfalse
    cases hfalse
  · rintro h a hmem rfl
    have hnot := h a ((hrow a).mpr ⟨hmem, rfl⟩)
    rw [← idle_agent_iff] at hnot
    exact Bool.eq_false_iff.mpr hnot

/-! ## One call -/

/-- What a committed `_write_reflections` makes of the agents, and of who has memories. -/
structure Reflected (cfg : Settings) (w : Writer) (db db' : Db K) : Prop where
  agents : db'.qortia_agents = (decrement_counter cfg.reflection_threshold w db).qortia_agents
  others : ∀ agent_id ≠ w.agent_id, (db'.own agent_id).2 = (db.own agent_id).2
  owners : (db.own w.agent_id).2 ≠ [] → (db'.own w.agent_id).2 ≠ []

section
variable [Field K] [LinearOrder K] [HasSqrt K] {o : Outside K} {cfg : Settings}
  {call : ReflectCall} {agent_id tenant_id : UUID} {db db' : Db K}

omit [Field K] [LinearOrder K] [HasSqrt K] in
theorem exec_others {w : Writer} (st : WriteStatement K) (db : Db K) (ids : List UUID)
    (hother : agent_id ≠ w.agent_id) :
    ((st.exec w (db, ids)).1.own agent_id).2 = (db.own agent_id).2 := by
  cases st with
  | prune ids' =>
    refine rows.filter_update_other (by intro r; rfl) (fun r hr => ?_) db.hindsight_memories
    simp only [consolidated, Bool.and_eq_true, decide_eq_true_eq] at hr
    rw [hr.1.1.1]
    exact decide_eq_false hother.symm
  | supersede id =>
    refine rows.filter_update_other (by intro r; rfl) (fun r hr => ?_) db.hindsight_memories
    simp only [Bool.and_eq_true, decide_eq_true_eq] at hr
    rw [hr.2]
    exact decide_eq_false hother.symm
  | insert type content importance entities embedding stability =>
    simp [WriteStatement.exec, Db.own, hother.symm]

omit [Field K] [LinearOrder K] [HasSqrt K] in
theorem own_ne_nil_iff :
    (db.own agent_id).2 ≠ [] ↔ agent_id ∈ db.hindsight_memories.map (·.agent_id) := by
  simp [Db.own, List.filter_eq_nil_iff]

omit [Field K] [LinearOrder K] [HasSqrt K] in
theorem exec_owners {w : Writer} (st : WriteStatement K) (db : Db K) (ids : List UUID)
    (h : (db.own agent_id).2 ≠ []) : ((st.exec w (db, ids)).1.own agent_id).2 ≠ [] := by
  rw [own_ne_nil_iff] at h ⊢
  cases st with
  | prune ids' =>
    have hmap := rows.map_update (g := fun r : HindsightMemory K => r.agent_id)
      (f := fun r => { r with is_consolidated := false, valid_until := some w.now })
      (by intro r; rfl) (fun r => consolidated w.agent_id r && r.id ∉ ids') db.hindsight_memories
    unfold WriteStatement.exec
    rw [hmap]
    exact h
  | supersede id =>
    have hmap := rows.map_update (g := fun r : HindsightMemory K => r.agent_id)
      (f := fun r => { r with is_consolidated := false }) (by intro r; rfl)
      (fun r => r.id = id && r.agent_id = w.agent_id) db.hindsight_memories
    unfold WriteStatement.exec
    rw [hmap]
    exact h
  | insert type content importance entities embedding stability =>
    unfold WriteStatement.exec
    rw [List.map_append]
    exact List.mem_append_left _ h

theorem write_reflections_reflected {w : Writer} {reflections : List Reflection}
    {new_embeddings : Nat → Option (List K)}
    {existing_embeddings : String → Option (StoredVector K)}
    {existing : List (HindsightMemory K)} {n : Nat} {counter : Option Int}
    (h : write_reflections o cfg w reflections new_embeddings existing_embeddings existing db =
      .ok (db', n, counter)) : Reflected cfg w db db' := by
  refine ⟨?_, fun agent_id hother => ?_, fun howner => ?_⟩
  · unfold write_reflections at h
    obtain ⟨sts, -, h⟩ := bind_ok h
    cases h
    simp only [write_history, decrement_counter]
    rw [run_frame]
  · exact write_reflections_preserves (P := fun d => (d.own agent_id).2 = (db.own agent_id).2) h
      (fun d ids st hd => (exec_others st d ids hother).trans hd) (fun _ hd => hd)
      (fun _ _ hd => hd) rfl
  · exact write_reflections_preserves (P := fun d => (d.own w.agent_id).2 ≠ []) h
      (fun d ids st hd => exec_owners st d ids hd) (fun _ hd => hd) (fun _ _ hd => hd) howner

/-- A call that ends without an exception returns early or writes. -/
theorem reflect_agent_cases (h : reflect_agent o cfg call agent_id tenant_id db = .ok db') :
    (db' = db ∧ ((agent_row db agent_id tenant_id).map (·.status) ≠ some "active" ∨
      select_recent agent_id call.read_at db = [] ∨ cfg.rerank_model = "")) ∨
    (select_recent agent_id call.read_at db ≠ [] ∧
      Reflected cfg ⟨agent_id, tenant_id, call.write_at⟩ db db') := by
  unfold reflect_agent at h
  split at h
  · rename_i hstatus
    cases h
    exact Or.inl ⟨rfl, Or.inl hstatus⟩
  · simp only at h
    split at h
    · rename_i hnone
      cases h
      exact Or.inl ⟨rfl, Or.inr (Or.inl hnone)⟩
    · rename_i hsome
      split at h
      · rename_i hmodel
        cases h
        exact Or.inl ⟨rfl, Or.inr (Or.inr hmodel)⟩
      · obtain ⟨reflections, -, h⟩ := bind_ok h
        obtain ⟨⟨d, n, counter⟩, hwrite, h⟩ := bind_ok h
        cases h
        exact Or.inr ⟨hsome, write_reflections_reflected hwrite⟩

/-- With a model, the call of an active agent returns early only when there is nothing to reflect
on. -/
theorem reflect_agent_ok (hmodel : cfg.rerank_model ≠ "")
    (hactive : (agent_row db agent_id tenant_id).map (·.status) = some "active")
    (h : reflect_agent o cfg call agent_id tenant_id db = .ok db') :
    (select_recent agent_id call.read_at db = [] ∧ db' = db) ∨
      (select_recent agent_id call.read_at db ≠ [] ∧
        Reflected cfg ⟨agent_id, tenant_id, call.write_at⟩ db db') := by
  rcases reflect_agent_cases h with ⟨hsame, hother | hnone | hempty⟩ | hwritten
  · exact absurd hactive hother
  · exact Or.inl ⟨hnone, hsame⟩
  · exact absurd hempty hmodel
  · exact Or.inr hwritten

omit [Field K] [LinearOrder K] [HasSqrt K] in
/-- A call leaves what belongs to another agent. -/
theorem Reflected.own_eq {w : Writer} (h : Reflected cfg w db db') {other : UUID}
    (hother : other ≠ w.agent_id) : db'.own other = db.own other := by
  refine Prod.ext ?_ (h.others other hother)
  unfold Db.own
  rw [h.agents]
  refine rows.filter_update_other (by intro a; rfl) (fun a ha => ?_) db.qortia_agents
  simp only [decide_eq_true_eq] at ha
  rw [ha]
  exact decide_eq_false hother.symm

theorem reflect_agent_other (h : reflect_agent o cfg call agent_id tenant_id db = .ok db')
    {other : UUID} (hother : other ≠ agent_id) : db'.own other = db.own other := by
  rcases reflect_agent_cases h with ⟨rfl, -⟩ | ⟨-, hreflected⟩
  · rfl
  · exact hreflected.own_eq hother

/-! ## The loop -/

variable {calls : UUID → ReflectCall}

theorem reflect_each_other {l : List Agent} (db : Db K) {other : UUID}
    (hother : other ∉ l.map (·.id)) :
    (reflect_each o cfg calls l db).1.own other = db.own other ∧
      other ∉ (reflect_each o cfg calls l db).2 := by
  induction l generalizing db with
  | nil => exact ⟨rfl, List.not_mem_nil⟩
  | cons a rest ih =>
    rw [List.map_cons, List.mem_cons, not_or] at hother
    unfold reflect_each
    cases hcall : reflect_agent o cfg (calls a.id) a.id a.tenant_id db with
    | ok db₁ =>
      obtain ⟨hown, hended⟩ := ih db₁ hother.2
      refine ⟨hown.trans (reflect_agent_other hcall hother.1), ?_⟩
      exact fun hmem => (List.mem_cons.mp hmem).elim hother.1 hended
    | error e => exact ih db hother.2

/-- The call of an agent finds what belonged to it, and nothing after the call changes it. -/
theorem reflect_each_ended {l : List Agent} (db : Db K) (hnodup : (l.map (·.id)).Nodup) {a : Agent}
    (ha : a ∈ l) (hended : a.id ∈ (reflect_each o cfg calls l db).2) :
    ∃ before after, before.own a.id = db.own a.id ∧
      reflect_agent o cfg (calls a.id) a.id a.tenant_id before = .ok after ∧
      (reflect_each o cfg calls l db).1.own a.id = after.own a.id := by
  induction l generalizing db with
  | nil => cases ha
  | cons b rest ih =>
    rw [List.map_cons, List.nodup_cons] at hnodup
    unfold reflect_each at hended ⊢
    rcases List.mem_cons.mp ha with rfl | hrest
    · cases hcall : reflect_agent o cfg (calls a.id) a.id a.tenant_id db with
      | ok db₁ => exact ⟨db, db₁, rfl, hcall, (reflect_each_other db₁ hnodup.1).1⟩
      | error e =>
        rw [hcall] at hended
        exact absurd hended (reflect_each_other db hnodup.1).2
    · have hne : a.id ≠ b.id := by
        intro heq
        exact hnodup.1 (heq ▸ List.mem_map_of_mem hrest)
      cases hcall : reflect_agent o cfg (calls b.id) b.id b.tenant_id db with
      | ok db₁ =>
        rw [hcall] at hended
        have hmem := (List.mem_cons.mp hended).resolve_left hne
        obtain ⟨before, after, hbefore, hown⟩ := ih db₁ hnodup.2 hrest hmem
        exact ⟨before, after, hbefore.trans (reflect_agent_other hcall hne), hown⟩
      | error e =>
        rw [hcall] at hended
        exact ih db hnodup.2 hrest hended

/-! ## One agent in a cycle -/

omit [Field K] [LinearOrder K] [HasSqrt K] in
/-- The row of an agent that was reflected. -/
theorem Reflected.mem_own {w : Writer} (h : Reflected cfg w db db') {x : Agent} :
    x ∈ (db'.own w.agent_id).1 ↔ ∃ a ∈ (db.own w.agent_id).1, x = { a with
      reflection_counter := max (a.reflection_counter - cfg.reflection_threshold) 0
      updated_at := w.now } := by
  unfold Db.own
  rw [h.agents]
  simp only [decrement_counter, List.mem_filter, rows.mem_update, decide_eq_true_eq,
    decide_eq_false_iff_not]
  constructor
  · rintro ⟨⟨a, ha, ⟨hid, rfl⟩ | ⟨hid, rfl⟩⟩, hx⟩
    · exact ⟨a, ⟨ha, hid⟩, rfl⟩
    · exact absurd hx hid
  · rintro ⟨a, ⟨ha, hid⟩, rfl⟩
    exact ⟨⟨a, ha, Or.inl ⟨hid, rfl⟩⟩, hid⟩

variable {c : IdleCycle} {a : Agent}

omit [Field K] [LinearOrder K] [HasSqrt K] in
theorem mem_selected (h : a ∈ c.selected cfg db) :
    a ∈ db.qortia_agents ∧ idle_agent cfg c.now db a = true :=
  List.mem_filter.mp ((c.unordered_perm _).mem_iff.mp (List.mem_of_mem_take h))

omit [Field K] [LinearOrder K] [HasSqrt K] in
theorem selected_nodup (hagents : (db.qortia_agents.map (·.id)).Nodup) :
    ((c.selected cfg db).map (·.id)).Nodup := by
  have hfound : ((db.qortia_agents.filter (idle_agent cfg c.now db)).map (·.id)).Nodup :=
    (List.filter_sublist.map _).nodup hagents
  have hunordered := ((c.unordered_perm (db.qortia_agents.filter
    (idle_agent cfg c.now db))).map (·.id)).nodup_iff.mpr hfound
  exact ((List.take_sublist _ _).map _).nodup hunordered

omit [Field K] [LinearOrder K] [HasSqrt K] in
theorem not_retired_of_own (hidle : idle_agent cfg c.now db a = true)
    (hmem : a ∈ (db'.own a.id).1) (hown : (db'.own a.id).2 = (db.own a.id).2) :
    ¬ Retired cfg c.finished_at a.id db' := by
  rw [retired_iff]
  intro h
  obtain ⟨hactive, hcounter, hupdated, hmemories⟩ := idle_agent_iff.mp hidle
  refine h a hmem ⟨hactive, hcounter, ?_, ?_⟩
  · exact lt_of_lt_of_le hupdated (Int.sub_le_sub_right c.now_le _)
  · rw [hown]
    exact hmemories

omit [Field K] [LinearOrder K] [HasSqrt K] in
theorem has_recent_iff {now : Timestamp} :
    (∃ r ∈ db.hindsight_memories, recent_memory agent_id now r = true) ↔
      select_recent agent_id now db ≠ [] := by
  rw [ne_eq, select_recent_eq_nil_iff]
  simp

omit [Field K] [LinearOrder K] [HasSqrt K] in
/-- The row that one reflection leaves is found again when its counter stays at the threshold and
the window has passed since. -/
theorem retired_of_reflected_iff (hactive : a.status = "active")
    (h : Reflected cfg ⟨a.id, tenant_id, call.write_at⟩ db db') (hmem : a ∈ (db.own a.id).1)
    (honly : ∀ x ∈ (db.own a.id).1, x = a) (howner : (db.own a.id).2 ≠ []) :
    Retired cfg c.finished_at a.id db' ↔
      max (a.reflection_counter - cfg.reflection_threshold) 0 < cfg.reflection_threshold ∨
        c.finished_at - idle_window cfg ≤ call.write_at := by
  have howner' : (db'.own a.id).2 ≠ [] := h.owners howner
  rw [retired_iff]
  constructor
  · intro hretired
    have hnot := hretired _ (h.mem_own.mpr ⟨a, hmem, rfl⟩)
    by_contra hcon
    rw [not_or, not_lt, not_le] at hcon
    exact hnot ⟨hactive, hcon.1, hcon.2, howner'⟩
  · rintro hcond x hx ⟨-, hcounter, hupdated, -⟩
    obtain ⟨b, hb, rfl⟩ := h.mem_own.mp hx
    rw [honly b hb] at hcounter hupdated
    rcases hcond with hlow | hlate
    · exact absurd hcounter (not_le.mpr hlow)
    · exact absurd hupdated (not_lt.mpr hlate)

/-- An agent whose call has ended is retired exactly when one reflection is enough for it. -/
theorem retired_iff_reflects_once (hmodel : cfg.rerank_model ≠ "")
    (hagents : (db.qortia_agents.map (·.id)).Nodup) (ha : a ∈ c.selected cfg db)
    (hended : a.id ∈ (trigger_idle_reflections o cfg c db).2) :
    Retired cfg c.finished_at a.id (trigger_idle_reflections o cfg c db).1 ↔
      ReflectsOnce cfg c db a := by
  obtain ⟨hrow, hidle⟩ := mem_selected ha
  obtain ⟨hactive, -, -, howner⟩ := idle_agent_iff.mp hidle
  obtain ⟨before, after, hbefore, hcall, hlast⟩ :=
    reflect_each_ended db (selected_nodup hagents) ha hended
  have hmem : a ∈ (db.own a.id).1 := List.mem_filter.mpr ⟨hrow, decide_eq_true rfl⟩
  have honly : ∀ x ∈ (db.own a.id).1, x = a := by
    intro x hx
    obtain ⟨hx, hid⟩ := List.mem_filter.mp hx
    exact List.inj_on_of_nodup_map hagents hx hrow (of_decide_eq_true hid)
  -- The call finds the row that the query has found.
  have hfound : (agent_row before a.id a.tenant_id).map (·.status) = some "active" := by
    rw [agent_row_own, hbefore]
    cases hfind : (db.own a.id).1.find? (·.tenant_id = a.tenant_id) with
    | none => exact absurd (decide_eq_true rfl) (List.find?_eq_none.mp hfind a hmem)
    | some x =>
      rw [honly x (List.mem_of_find?_eq_some hfind), Option.map_some, hactive]
  have hsame : select_recent a.id (c.call a.id).read_at before = [] ↔
      select_recent a.id (c.call a.id).read_at db = [] := by
    rw [select_recent_own, select_recent_own, hbefore]
  unfold ReflectsOnce
  rw [has_recent_iff]
  rcases reflect_agent_ok hmodel hfound hcall with ⟨hnone, rfl⟩ | ⟨hsome, hreflected⟩
  · have hown := hlast.trans hbefore
    refine iff_of_false (not_retired_of_own hidle ?_ (congrArg Prod.snd hown)) ?_
    · rw [trigger_idle_reflections, hown]
      exact hmem
    · exact fun h => h.1 (hsame.mp hnone)
  · have hretired := retired_of_reflected_iff (c := c) hactive hreflected (hbefore ▸ hmem)
      (hbefore ▸ honly) (hbefore ▸ howner)
    rw [← hretired, and_iff_right (mt hsame.mpr hsome), retired_iff, retired_iff,
      trigger_idle_reflections, hlast]

/-! ## Every cycle -/

/-- A cycle with a language model retires every agent whose call has ended, exactly when each of
them has a recent memory and one reflection is enough for it. -/
theorem idle_reflection_retires_iff (o : Outside K) (cfg : Settings)
    (hmodel : cfg.rerank_model ≠ "") (c : IdleCycle) (db : Db K)
    (hagents : (db.qortia_agents.map (·.id)).Nodup) :
    (∀ a ∈ c.selected cfg db, a.id ∈ (trigger_idle_reflections o cfg c db).2 →
        Retired cfg c.finished_at a.id (trigger_idle_reflections o cfg c db).1) ↔
      ∀ a ∈ c.selected cfg db, a.id ∈ (trigger_idle_reflections o cfg c db).2 →
        ReflectsOnce cfg c db a := by
  constructor
  · intro h a ha hended
    exact (retired_iff_reflects_once hmodel hagents ha hended).mp (h a ha hended)
  · intro h a ha hended
    exact (retired_iff_reflects_once hmodel hagents ha hended).mpr (h a ha hended)

/-- The calls return early when the agents have no recent memories. -/
theorem reflect_each_early {l : List Agent}
    (hnone : ∀ a ∈ l, select_recent a.id (calls a.id).read_at db = []) :
    reflect_each o cfg calls l db = (db, l.map (·.id)) := by
  induction l with
  | nil => rfl
  | cons a rest ih =>
    rw [List.forall_mem_cons] at hnone
    have hcall : reflect_agent o cfg (calls a.id) a.id a.tenant_id db = .ok db := by
      unfold reflect_agent
      split
      · rfl
      · rw [if_pos hnone.1]
        rfl
    simp only [reflect_each, hcall, ih hnone.2, List.map_cons]

/-- As long as the query finds such agents first, cycle after cycle changes nothing. -/
theorem cycles_without_recent_memories (o : Outside K) (cfg : Settings) (cycles : List IdleCycle)
    (db : Db K) (hnone : ∀ c ∈ cycles, ∀ a ∈ c.selected cfg db,
      select_recent a.id (c.call a.id).read_at db = []) :
    cycles.foldl (fun db c => (trigger_idle_reflections o cfg c db).1) db = db := by
  induction cycles with
  | nil => rfl
  | cons c cycles ih =>
    rw [List.forall_mem_cons] at hnone
    rw [List.foldl_cons, trigger_idle_reflections, reflect_each_early hnone.1]
    exact ih hnone.2

end

/-! ## Ten episodes and a mental model -/

def with_model : Settings := { rerank_model := "gpt" }

def standup_note (day : Fin 10) : String := "the standup of day " ++ toString day.val

theorem standup_note_words :
    ∀ day : Fin 10, 5 ≤ (text.words (standup_note day).toList).length := by
  decide +kernel

def ten_episodes : List MemoryItem :=
  (List.finRange 10).map fun day =>
    { type := .episodic, content := standup_note day, content_floor := standup_note_words day
      ttl_only_short_term := no_ttl .episodic, short_term_ttl := episodic_needs_no_ttl }

def tag_note : String := "a release has a tag"

theorem tag_note_words : 5 ≤ (text.words tag_note.toList).length := by decide

def one_model : MemoryItem :=
  { type := .mental_model, content := tag_note, content_floor := tag_note_words }

def remember_ten : List ForgetAction :=
  [.remember chief 0 0 (ten_episodes ++ [one_model])]

/-- Only the mental model stays. -/
def forget_ten : List ForgetAction :=
  remember_ten ++ (List.range 10).map fun id => .forget chief 0 id

/-- Two hours later. -/
def two_hours_later : IdleCycle where
  now := 7200000000
  finished_at := 7260000000
  now_le := by decide
  unordered l := l
  unordered_perm := List.Perm.refl
  call _ := { read_at := 7200000000, write_at := 7230000000, answer := .ok [a_good_lesson] }

theorem ten_episodes_are_reflected_once :
    ∃ s, runs.run (forget_step no_models with_model) { db := chief_db } remember_ten = some s ∧
      (trigger_idle_reflections no_models with_model two_hours_later s.db).2 = [20] ∧
      ∀ a ∈ two_hours_later.selected with_model s.db,
        a.id ∈ (trigger_idle_reflections no_models with_model two_hours_later s.db).2 →
          Retired with_model two_hours_later.finished_at a.id
            (trigger_idle_reflections no_models with_model two_hours_later s.db).1 := by
  have hend : (runs.run (forget_step no_models with_model) { db := chief_db } remember_ten).map
      (fun s => decide (
        (trigger_idle_reflections no_models with_model two_hours_later s.db).2 = [20] ∧
        (s.db.qortia_agents.map (·.id)).Nodup ∧
        ∀ a ∈ two_hours_later.selected with_model s.db,
          ReflectsOnce with_model two_hours_later s.db a)) = some true := by
    decide +kernel
  obtain ⟨s, hs, hcheck⟩ := Option.map_eq_some_iff.mp hend
  obtain ⟨hended, hagents, honce⟩ := of_decide_eq_true hcheck
  exact ⟨s, hs, hended, (idle_reflection_retires_iff no_models with_model (by decide)
    two_hours_later s.db hagents).mpr fun a ha _ => honce a ha⟩

/-- The counter stays at ten when the episodes are forgotten. The cycle changes nothing, and the
next one finds the agent again. -/
theorem forgotten_episodes_are_found_again :
    ∃ s, runs.run (forget_step no_models with_model) { db := chief_db } forget_ten = some s ∧
      trigger_idle_reflections no_models with_model two_hours_later s.db = (s.db, [20]) ∧
      ¬ ∀ a ∈ two_hours_later.selected with_model s.db,
        a.id ∈ (trigger_idle_reflections no_models with_model two_hours_later s.db).2 →
          Retired with_model two_hours_later.finished_at a.id
            (trigger_idle_reflections no_models with_model two_hours_later s.db).1 := by
  have hend : (runs.run (forget_step no_models with_model) { db := chief_db } forget_ten).map
      (fun s : Forgetting ℚ => decide (
        trigger_idle_reflections no_models with_model two_hours_later s.db = (s.db, [20]) ∧
        ¬ ∀ a ∈ two_hours_later.selected with_model s.db,
          a.id ∈ (trigger_idle_reflections no_models with_model two_hours_later s.db).2 →
            Retired with_model two_hours_later.finished_at a.id
              (trigger_idle_reflections no_models with_model two_hours_later s.db).1)) =
        some true := by
    decide +kernel
  obtain ⟨s, hs, hcheck⟩ := Option.map_eq_some_iff.mp hend
  exact ⟨s, hs, of_decide_eq_true hcheck⟩

end qortia
