-- The weekly summary with its election: each replica asks for the advisory lock, and has a cycle of
-- its own if it was told to lead. A cycle runs on other connections than the one that holds the
-- lock. While no leader loses its session, these runs are runs with one leader.
import Qortia.LeaderElection
import Qortia.WeeklySummary

namespace qortia

variable {K : Type}

/-! ## The replicas and the lock -/

/-- The database, the clock, the election, the cycles that are under way, and the summaries. -/
structure ElectedSummaries (K : Type) where
  db : Db K
  clock : Timestamp
  elections : Elections := {}
  cycles : List (Nat × SummaryCycle) := []
  summaries : List WeeklySummary := []

/-- What follows is a step of a cycle. -/
inductive ElectedAction where
  | request (a : WeeklyAction)
  | election (a : ElectionAction)
  | read_tenants (i : Nat)
  | cycle (a : WeeklyAction)

namespace ElectedSummaries

/-- The state as a cycle sees it that leads, or as a request sees it. -/
def led_by (s : ElectedSummaries K) (leader : Option (Nat × SummaryCycle)) : Weekly K :=
  ⟨s.db, s.clock, leader, s.summaries⟩

/-- The state with one leader. -/
def weekly (s : ElectedSummaries K) : Weekly K := s.led_by s.cycles.head?

end ElectedSummaries

/-- The body of `run_weekly_summary_task` runs with `is_leader`. -/
def Elections.summarises (e : Elections) (i : Nat) : Bool :=
  (e.task i).any fun c => c.lock_key = LOCK_KEY_WEEKLY_SUMMARY && c.stage = .body true

/-- A request, or the clock. -/
def WeeklyAction.of_request : WeeklyAction → Bool
  | .tick _ | .remember_org .. | .forget .. => true
  | .lead _ | .begin_tenant _ | .lock_tenant .. | .fetch _ | .commit _ | .release _
  | .crash _ => false

/-- The replica whose cycle goes on. -/
def WeeklyAction.in_cycle : WeeklyAction → Option Nat
  | .begin_tenant i | .lock_tenant i _ | .fetch i | .commit i => some i
  | .tick _ | .remember_org .. | .forget .. | .lead _ | .release _ | .crash _ => none

/-- The tenant whose row a cycle has locked. -/
def SummaryCycle.row_locked (c : SummaryCycle) : Option UUID :=
  match c.tx with
  | some (.locked tenant_id _) | some (.fetched tenant_id _ _) => some tenant_id
  | some (.began ..) | none => none

/-- `SKIP LOCKED` passes over a row that the transaction of another cycle has locked. -/
def ElectedSummaries.row_taken (s : ElectedSummaries K) (x : Nat × SummaryCycle) :
    WeeklyAction → Bool
  | .lock_tenant _ false => s.cycles.any fun y =>
    y.1 ≠ x.1 && y.2.row_locked.isSome && y.2.row_locked = x.2.tx.map SummaryTx.tenant_id
  | _ => false

def elected_step (o : Outside K) (cal : Calendar) (s : ElectedSummaries K) :
    ElectedAction → Option (ElectedSummaries K)
  | .request a =>
    -- A request waits for the row of every cycle.
    if ¬ a.of_request = true ∨
        s.cycles.any (fun x => (weekly_step o cal (s.led_by (some x)) a).isNone) = true then none
    else (weekly_step o cal (s.led_by none) a).map fun w => { s with db := w.db, clock := w.clock }
  | .election a =>
    -- A cycle ends with the body, also when it raises, and its transaction is rolled back.
    (election_step s.elections a).map fun elections =>
      { s with elections, cycles := s.cycles.filter fun x => elections.summarises x.1 }
  | .read_tenants i =>
    if ¬ s.elections.summarises i = true ∨ s.cycles.any (fun x => x.1 = i) = true then none
    else (weekly_step o cal (s.led_by none) (.lead i)).map fun w =>
      { s with cycles := s.cycles ++ w.leader.toList }
  | .cycle a =>
    match a.in_cycle with
    | none => none
    | some i =>
      match s.cycles.find? fun x => x.1 = i with
      | none => none
      | some x =>
        if s.row_taken x a = true then none
        else (weekly_step o cal (s.led_by (some x)) a).map fun w =>
          { s with
            db := w.db, clock := w.clock, summaries := w.summaries
            cycles := s.cycles.map fun y => if y.1 = i then w.leader.getD y else y }

/-! ## The condition -/

/-- No replica loses the session of its lock while it leads. -/
def ElectedSummaries.KeepsSession (s : ElectedSummaries K) : ElectedAction → Prop
  | .election (.lose i) => s.elections.summarises i = false
  | .election _ | .request _ | .read_tenants _ | .cycle _ => True

/-- In the transaction of a summary Python reads the clock as `now()` does. -/
def ElectedSummaries.ReadsOneClock (s : ElectedSummaries K) : ElectedAction → Prop
  | .cycle a => ∀ x ∈ s.cycles, a.in_cycle = some x.1 → qortia.ReadsOneClock (s.led_by (some x)) a
  | .request _ | .election _ | .read_tenants _ => True

def ElectedSummaries.Timely (s : ElectedSummaries K) (a : ElectedAction) : Prop :=
  s.KeepsSession a ∧ s.ReadsOneClock a

instance (s : ElectedSummaries K) : DecidablePred s.KeepsSession
  | .election (.lose i) => inferInstanceAs (Decidable (s.elections.summarises i = false))
  | .election (.connect ..) | .election (.ask _) | .election (.interrupt _) | .election (.leave _)
  | .election (.give_back _) | .election (.die _) | .request _ | .read_tenants _ | .cycle _ =>
    isTrue trivial

instance (s : ElectedSummaries K) : DecidablePred s.ReadsOneClock
  | .cycle a => inferInstanceAs (Decidable (∀ x ∈ s.cycles, a.in_cycle = some x.1 →
      qortia.ReadsOneClock (s.led_by (some x)) a))
  | .request _ | .election _ | .read_tenants _ => isTrue trivial

instance (s : ElectedSummaries K) : DecidablePred s.Timely :=
  fun a => inferInstanceAs (Decidable (s.KeepsSession a ∧ s.ReadsOneClock a))

/-! ## The steps of the election -/

section
variable {e e' : Elections} {i j : Nat}

theorem Elections.summarises_iff : e.summarises i = true ↔
    ∃ c, e.task i = some c ∧ c.lock_key = LOCK_KEY_WEEKLY_SUMMARY ∧ c.stage = .body true := by
  simp only [Elections.summarises, Option.any_eq_true, Bool.and_eq_true, decide_eq_true_eq]

/-- What a step may make of a task: it leads only with a session that is there, unless it loses its
session now. -/
theorem Elections.step_task {a : ElectionAction} (hstep : election_step e a = some e')
    {c : Candidate} (hc : e'.task j = some c) :
    e.task j = some c ∨ c.lost = false ∨ c.stage ≠ .body true ∨
      (a = .lose j ∧ ∃ d, e.task j = some d ∧ c = { d with lost := true }) := by
  -- A step changes the task `i` only.
  have hone {i : Nat} {new : Option Candidate} (hnew : Function.update e.task i new j = some c) :
      e.task j = some c ∨ (j = i ∧ new = some c) := by
    by_cases hj : j = i
    · rw [hj, Function.update_self] at hnew
      exact Or.inr ⟨hj, hnew⟩
    · rw [Function.update_of_ne hj] at hnew
      exact Or.inl hnew
  cases a with
  | connect i session lock_key =>
    simp only [election_step] at hstep
    split at hstep
    · cases hstep
    · cases hstep
      rcases hone hc with hsame | ⟨-, hnew⟩
      · exact Or.inl hsame
      · cases hnew
        exact Or.inr (Or.inl rfl)
  | ask i =>
    simp only [election_step] at hstep
    split at hstep
    · cases hstep
    · rename_i d hd
      split at hstep
      · cases hstep
      · split at hstep
        · cases hstep
          rcases hone hc with hsame | ⟨-, hnew⟩
          · exact Or.inl hsame
          · cases hnew
            exact Or.inr (Or.inr (Or.inl (fun hbody => by cases hbody)))
        · rename_i hlost
          cases hstep
          rcases hone hc with hsame | ⟨-, hnew⟩
          · exact Or.inl hsame
          · cases hnew
            exact Or.inr (Or.inl ((Bool.not_eq_true _).mp hlost))
  | interrupt i =>
    simp only [election_step] at hstep
    split at hstep
    · cases hstep
    · split at hstep
      · cases hstep
      · cases hstep
        rcases hone hc with hsame | ⟨-, hnew⟩
        · exact Or.inl hsame
        · cases hnew
          exact Or.inr (Or.inr (Or.inl (fun hbody => by cases hbody)))
  | leave i =>
    simp only [election_step] at hstep
    have hleft {d : Candidate} (hd : Function.update e.task i (some { d with stage := .leaving }) j
        = some c) : e.task j = some c ∨ c.stage ≠ .body true := by
      rcases hone hd with hsame | ⟨-, hnew⟩
      · exact Or.inl hsame
      · cases hnew
        exact Or.inr (fun hbody => by cases hbody)
    split at hstep
    · cases hstep
    · split at hstep
      · split at hstep
        · cases hstep
          rcases hleft hc with hsame | hstage
          · exact Or.inl hsame
          · exact Or.inr (Or.inr (Or.inl hstage))
        · cases hstep
          rcases hleft hc with hsame | hstage
          · exact Or.inl hsame
          · exact Or.inr (Or.inr (Or.inl hstage))
      · cases hstep
      · cases hstep
  | give_back i =>
    simp only [election_step] at hstep
    split at hstep
    · cases hstep
    · split at hstep
      · cases hstep
      · cases hstep
        rcases hone hc with hsame | ⟨-, hnew⟩
        · exact Or.inl hsame
        · cases hnew
  | lose i =>
    simp only [election_step] at hstep
    split at hstep
    · cases hstep
    · rename_i d hd
      cases hstep
      rcases hone hc with hsame | ⟨rfl, hnew⟩
      · exact Or.inl hsame
      · cases hnew
        exact Or.inr (Or.inr (Or.inr ⟨rfl, d, hd, rfl⟩))
  | die i =>
    simp only [election_step] at hstep
    split at hstep
    · cases hstep
    · cases hstep
      rcases hone hc with hsame | ⟨-, hnew⟩
      · exact Or.inl hsame
      · cases hnew

/-- Whoever has a summary to write keeps the session, if no such session is lost. -/
theorem Elections.step_kept {a : ElectionAction} (hstep : election_step e a = some e')
    (hkept : ∀ i, e.summarises i = true → e.leads i LOCK_KEY_WEEKLY_SUMMARY)
    (hok : ∀ i, a = .lose i → e.summarises i = false) (hi : e'.summarises i = true) :
    e'.leads i LOCK_KEY_WEEKLY_SUMMARY := by
  obtain ⟨c, hc, hkey, hbody⟩ := summarises_iff.mp hi
  rcases step_task hstep hc with hsame | hlost | hstage | ⟨rfl, d, hd, rfl⟩
  · obtain ⟨d, hd, -, hlost, -⟩ := hkept i (summarises_iff.mpr ⟨c, hsame, hkey, hbody⟩)
    rw [hsame] at hd
    cases hd
    exact ⟨c, hc, hkey, hlost, hbody⟩
  · exact ⟨c, hc, hkey, hlost, hbody⟩
  · exact absurd hbody hstage
  · have hleads := summarises_iff.mpr ⟨d, hd, hkey, hbody⟩
    rw [hok i rfl] at hleads
    cases hleads

end

/-! ## One cycle -/

/-- Every cycle is that of a leader, whose session is there. -/
structure ElectedSummaries.Led (s : ElectedSummaries K) : Prop where
  good : s.elections.Good
  kept : ∀ i, s.elections.summarises i = true → s.elections.leads i LOCK_KEY_WEEKLY_SUMMARY
  cycles : ∀ x ∈ s.cycles, s.elections.summarises x.1 = true
  nodup : (s.cycles.map (·.1)).Nodup

section
variable {o : Outside K} {cal : Calendar} {s s' : ElectedSummaries K} {w w' : Weekly K}

theorem ElectedSummaries.initial_led (db : Db K) (clock : Timestamp) :
    ElectedSummaries.Led { db, clock } where
  good := Elections.initial_good
  kept i h := by
    obtain ⟨c, hc, -⟩ := Elections.summarises_iff.mp h
    cases hc
  cycles _ h := absurd h List.not_mem_nil
  nodup := List.nodup_nil

/-- Two leaders are one. -/
theorem ElectedSummaries.Led.same (h : s.Led) {i j : Nat} (hi : s.elections.summarises i = true)
    (hj : s.elections.summarises j = true) : i = j :=
  h.good.one_leader i j _ (h.kept i hi) (h.kept j hj)

/-- There is one cycle at most. -/
theorem ElectedSummaries.Led.alone (h : s.Led) {x : Nat × SummaryCycle} (hx : x ∈ s.cycles) :
    s.cycles = [x] := by
  have hnodup := h.nodup
  have hcycles := h.cycles
  match hs : s.cycles with
  | [] =>
    rw [hs] at hx
    exact absurd hx List.not_mem_nil
  | [y] =>
    rw [hs] at hx
    rw [List.mem_singleton.mp hx]
  | y :: z :: rest =>
    rw [hs] at hnodup hcycles
    have hsame : y.1 = z.1 :=
      h.same (hcycles y List.mem_cons_self) (hcycles z (List.mem_cons_of_mem _ List.mem_cons_self))
    simp [hsame] at hnodup

theorem ElectedSummaries.Led.cases (h : s.Led) : s.cycles = [] ∨ ∃ x, s.cycles = [x] := by
  cases hs : s.cycles with
  | nil => exact Or.inl rfl
  | cons x rest =>
    rw [← hs]
    exact Or.inr ⟨x, h.alone (hs ▸ List.mem_cons_self)⟩

/-! ## The steps with one leader -/

/-- A request that does not have to wait for the cycle does what it does without one. -/
theorem request_step {a : WeeklyAction} (ha : a.of_request = true) {db : Db K} {clock : Timestamp}
    {leader : Option (Nat × SummaryCycle)} {summaries : List WeeklySummary}
    (hfree : (weekly_step o cal ⟨db, clock, leader, summaries⟩ a).isSome = true)
    (hw : weekly_step o cal ⟨db, clock, none, summaries⟩ a = some w) :
    weekly_step o cal ⟨db, clock, leader, summaries⟩ a =
      some ⟨w.db, w.clock, leader, summaries⟩ := by
  cases a with
  | tick now =>
    simp only [weekly_step] at hw ⊢
    split at hw
    · rename_i hnow
      cases hw
      rw [if_pos hnow]
    · cases hw
  | remember_org agent began body =>
    simp only [weekly_step] at hw hfree ⊢
    split at hfree
    · cases hfree
    · rename_i hbegan
      split at hfree
      · cases hfree
      · rename_i hwaits
        rw [if_neg hbegan, if_neg (by simp [Weekly.locked_tenant])] at hw
        rw [if_neg hbegan, if_neg hwaits]
        split at hw
        · cases hw
          rfl
        · cases hw
          rfl
  | forget agent began id =>
    simp only [weekly_step] at hw ⊢
    split at hw
    · cases hw
      rfl
    · cases hw
      rfl
  | lead _ | begin_tenant _ | lock_tenant _ _ | fetch _ | commit _ | release _ | crash _ => cases ha

theorem request_reads_one_clock {a : WeeklyAction} (ha : a.of_request = true) (w : Weekly K) :
    ReadsOneClock w a := by
  cases a with
  | tick _ | remember_org _ _ _ | forget _ _ _ => trivial
  | lead _ | begin_tenant _ | lock_tenant _ _ | fetch _ | commit _ | release _ | crash _ => cases ha

/-- A cycle that goes on stays with its replica. -/
theorem in_cycle_leader {a : WeeklyAction} {i : Nat} (ha : a.in_cycle = some i)
    (hw : weekly_step o cal w a = some w') : ∃ c, w'.leader = some (i, c) := by
  cases a with
  | tick _ | remember_org _ _ _ | forget _ _ _ | lead _ | release _ | crash _ => cases ha
  | begin_tenant j =>
    cases ha
    simp only [weekly_step] at hw
    split at hw
    · split at hw
      · cases hw
      · split at hw <;> cases hw <;> exact ⟨_, rfl⟩
    · cases hw
  | lock_tenant j skipped =>
    cases ha
    simp only [weekly_step] at hw
    split at hw
    · split at hw
      · cases hw
      · split at hw
        · cases hw
          exact ⟨_, rfl⟩
        · split at hw <;> cases hw <;> exact ⟨_, rfl⟩
    · cases hw
  | fetch j =>
    cases ha
    simp only [weekly_step] at hw
    split at hw
    · split at hw
      · cases hw
      · split at hw <;> cases hw <;> exact ⟨_, rfl⟩
    · cases hw
  | commit j =>
    cases ha
    simp only [weekly_step] at hw
    split at hw
    · split at hw
      · cases hw
      · cases hw
        exact ⟨_, rfl⟩
    · cases hw

/-- What a step does, the model with one leader does as well, and it is still the only one. -/
theorem elected_step_simulated {a : ElectedAction} (h : s.Led) (hok : s.Timely a)
    (hstep : elected_step o cal s a = some s') :
    s'.Led ∧ ∃ actions, runs.Guarded (weekly_step o cal) ReadsOneClock s.weekly actions ∧
      runs.run (weekly_step o cal) s.weekly actions = some s'.weekly := by
  have hone {a : WeeklyAction} (hguard : ReadsOneClock s.weekly a)
      (hw : weekly_step o cal s.weekly a = some s'.weekly) :
      ∃ actions, runs.Guarded (weekly_step o cal) ReadsOneClock s.weekly actions ∧
        runs.run (weekly_step o cal) s.weekly actions = some s'.weekly :=
    ⟨[a], ⟨hguard, fun _ _ => trivial⟩, by simp only [runs.run, hw, Option.bind_some]⟩
  cases a with
  | request a =>
    simp only [elected_step] at hstep
    split at hstep
    · cases hstep
    · rename_i hnot
      rw [not_or, not_not, Bool.not_eq_true, List.any_eq_false] at hnot
      obtain ⟨ha, hfree⟩ := hnot
      obtain ⟨w, hw, rfl⟩ := Option.map_eq_some_iff.mp hstep
      refine ⟨⟨h.good, h.kept, h.cycles, h.nodup⟩, hone (request_reads_one_clock ha _) ?_⟩
      refine request_step ha ?_ hw
      rcases h.cases with hs | ⟨x, hs⟩
      · rw [hs]
        exact Option.isSome_of_eq_some hw
      · rw [hs, List.head?_cons]
        have hx := hfree x (by rw [hs]; exact List.mem_cons_self)
        rwa [Option.isNone_iff_eq_none, ← ne_eq, Option.ne_none_iff_isSome] at hx
  | election a =>
    obtain ⟨e, he, rfl⟩ := Option.map_eq_some_iff.mp hstep
    have hloses : ∀ i, a = .lose i → s.elections.summarises i = false := by
      rintro i rfl
      exact hok.1
    have hled : ElectedSummaries.Led { s with
        elections := e, cycles := s.cycles.filter fun x => e.summarises x.1 } :=
      ⟨h.good.step_good he, fun i hi => Elections.step_kept he h.kept hloses hi,
        fun x hx => (List.mem_filter.mp hx).2,
        (List.filter_sublist.map _).nodup h.nodup⟩
    refine ⟨hled, ?_⟩
    rcases h.cases with hs | ⟨x, hs⟩
    · refine ⟨[], trivial, ?_⟩
      simp [ElectedSummaries.weekly, ElectedSummaries.led_by, hs, runs.run]
    · cases hx : e.summarises x.1 with
      | true =>
        refine ⟨[], trivial, ?_⟩
        simp [ElectedSummaries.weekly, ElectedSummaries.led_by, hs, hx, runs.run]
      | false =>
        refine hone (a := .crash x.1) trivial ?_
        simp [ElectedSummaries.weekly, ElectedSummaries.led_by, hs, hx, weekly_step]
  | read_tenants i =>
    simp only [elected_step] at hstep
    split at hstep
    · cases hstep
    · rename_i hnot
      rw [not_or, not_not, Bool.not_eq_true, List.any_eq_false] at hnot
      obtain ⟨hi, hothers⟩ := hnot
      have hnone : s.cycles = [] := by
        rcases h.cases with hs | ⟨x, hs⟩
        · exact hs
        · have hx : x ∈ s.cycles := by
            rw [hs]
            exact List.mem_cons_self
          exact absurd (decide_eq_true (h.same (h.cycles x hx) hi)) (hothers x hx)
      obtain ⟨w, hw, rfl⟩ := Option.map_eq_some_iff.mp hstep
      simp only [weekly_step, ElectedSummaries.led_by] at hw
      cases hw
      refine ⟨⟨h.good, h.kept, fun x hx => ?_, ?_⟩, hone (a := .lead i) trivial ?_⟩
      · simp only [hnone, List.nil_append, Weekly.cycle, Option.mem_toList,
          Option.some.injEq] at hx
        rw [← hx]
        exact hi
      · simp [hnone, Weekly.cycle]
      · simp [ElectedSummaries.weekly, ElectedSummaries.led_by, hnone, weekly_step, Weekly.cycle]
  | cycle a =>
    simp only [elected_step] at hstep
    split at hstep
    · cases hstep
    · rename_i i ha
      split at hstep
      · cases hstep
      · rename_i x hfind
        split at hstep
        · cases hstep
        · obtain ⟨w, hw, rfl⟩ := Option.map_eq_some_iff.mp hstep
          have hx := List.mem_of_find?_eq_some hfind
          have hxi : x.1 = i := of_decide_eq_true (List.find?_some hfind :)
          have hs := h.alone hx
          obtain ⟨c, hc⟩ := in_cycle_leader ha hw
          have hcycles : (s.cycles.map fun y => if y.1 = i then w.leader.getD y else y) =
              [(i, c)] := by
            simp [hs, hxi, hc]
          have hweekly : s.weekly = s.led_by (some x) := by
            simp [ElectedSummaries.weekly, hs]
          refine ⟨⟨h.good, h.kept, fun y hy => ?_, ?_⟩, hone (a := a) ?_ ?_⟩
          · rw [hcycles] at hy
            rw [List.mem_singleton.mp hy, ← hxi]
            exact h.cycles x hx
          · rw [hcycles]
            exact List.nodup_singleton _
          · rw [hweekly]
            exact hok.2 x hx (by rw [ha, hxi])
          · rw [hweekly, hw, ElectedSummaries.weekly, hcycles, List.head?_cons, ← hc]
            rfl

theorem GoodWeekly.start {db : Db K} (hblank : db.Blank)
    (htenants : (db.qortia_tenants.map (·.id)).Nodup) (clock : Timestamp) :
    GoodWeekly { db, clock } := by
  have hnone : ∀ r, r ∉ db.org_memory := by
    intro r
    rw [hblank.org_memory]
    exact List.not_mem_nil
  refine ⟨htenants, ?_, fun r hr => absurd hr (hnone r), fun r hr => absurd hr (hnone r),
    fun σ hσ => absurd hσ List.not_mem_nil, fun σ hσ => absurd hσ List.not_mem_nil,
    List.Pairwise.nil, fun _ _ hc => (by cases hc), fun _ _ _ hc => (by cases hc)⟩
  simp only [hblank.org_memory]
  exact List.nodup_nil

end

/-- In every run of replicas that elect a leader by the advisory lock, if no leader loses the
session of its lock: one cycle is under way at most, one leader alone could have come to the same
state, and the summaries of a tenant are seven days apart and count each handoff once. -/
theorem the_elected_leader_leads_alone (o : Outside K) (cal : Calendar) (db : Db K)
    (clock : Timestamp) (hblank : db.Blank) (htenants : (db.qortia_tenants.map (·.id)).Nodup)
    (actions : List ElectedAction) (s' : ElectedSummaries K)
    (hok : runs.Guarded (elected_step o cal) ElectedSummaries.Timely { db, clock } actions)
    (hrun : runs.run (elected_step o cal) { db, clock } actions = some s') :
    s'.cycles.length ≤ 1 ∧
      (∃ steps, runs.Guarded (weekly_step o cal) ReadsOneClock { db, clock } steps ∧
        runs.run (weekly_step o cal) { db, clock } steps = some s'.weekly) ∧
      CountsOnce s'.weekly := by
  obtain ⟨steps, w, hguarded, hsteps, hled, rfl⟩ :=
    runs.run_simulated (R := fun s w => ElectedSummaries.Led s ∧ w = s.weekly)
      (fun s a s₁ w hR hok hstep => by
        obtain ⟨hled, rfl⟩ := hR
        obtain ⟨hled₁, steps, hguarded, hsteps⟩ := elected_step_simulated hled hok hstep
        exact ⟨steps, _, hguarded, hsteps, hled₁, rfl⟩)
      (t := { db, clock }) ⟨ElectedSummaries.initial_led db clock, rfl⟩ hok hrun
  refine ⟨?_, ⟨steps, hguarded, hsteps⟩, ?_⟩
  · rcases hled.cases with hs | ⟨x, hs⟩
    · simp [hs]
    · simp [hs]
  · exact (runs.always_of_invariant (fun _ h => h.once)
      (fun _ _ _ h hok hstep => weekly_step_good h hok hstep)
      (GoodWeekly.start hblank htenants clock) hguarded).last hsteps

/-! ## Two replicas -/

def wrote_handoff (now : Timestamp) : ElectedAction := .request (handoff_at now)

/-- A replica gets a connection and asks for the lock. -/
def stands (i session : Nat) : List ElectedAction :=
  [.election (.connect i session LOCK_KEY_WEEKLY_SUMMARY), .election (.ask i)]

def summarises_one (i : Nat) : List ElectedAction :=
  [.cycle (.begin_tenant i), .cycle (.lock_tenant i false), .cycle (.fetch i), .cycle (.commit i)]

def steps_down (i : Nat) : List ElectedAction := [.election (.leave i), .election (.give_back i)]

/-- Both ask, one leads, and a week later the other one does, with the connection that comes
first. -/
def two_elections : List ElectedAction :=
  [wrote_handoff 0, wrote_handoff 0, wrote_handoff 0] ++ stands 0 0 ++ stands 1 1 ++
    [.read_tenants 0] ++ summarises_one 0 ++ steps_down 1 ++ steps_down 0 ++
    [.request (.tick (7 * DAY)), wrote_handoff 1, wrote_handoff 2, wrote_handoff 3] ++
    stands 1 0 ++ [.read_tenants 1] ++ summarises_one 1

theorem the_elected_leader_leads_alone_in_two_weeks :
    ∃ s' : ElectedSummaries ℚ, s'.summaries.map (·.handoffs) = [[0, 1, 2], [6, 5, 4]] ∧
      s'.cycles.length ≤ 1 ∧
      (∃ steps, runs.Guarded (weekly_step no_models one_day) ReadsOneClock
          { db := summary_db, clock := 0 } steps ∧
        runs.run (weekly_step no_models one_day) { db := summary_db, clock := 0 } steps =
          some s'.weekly) ∧
      CountsOnce s'.weekly := by
  have hend : (runs.run (elected_step no_models one_day) { db := summary_db, clock := 0 }
      two_elections).map (fun s => s.summaries.map (·.handoffs)) = some [[0, 1, 2], [6, 5, 4]] := by
    decide +kernel
  obtain ⟨s', hs', hhandoffs⟩ := Option.map_eq_some_iff.mp hend
  exact ⟨s', hhandoffs, the_elected_leader_leads_alone no_models one_day summary_db 0
    summary_db_blank (by decide) two_elections s' (by decide +kernel) hs'⟩

-- The connection of the lock is idle while the cycle runs. When its session ends, another replica
-- leads as well, and both summarise the same handoffs.
example : (runs.run (elected_step no_models one_day) { db := summary_db, clock := 0 }
    ([wrote_handoff 0, wrote_handoff 0, wrote_handoff 0] ++ stands 0 0 ++ [.read_tenants 0] ++
      [.election (.lose 0)] ++ stands 1 1 ++ [.read_tenants 1] ++ summarises_one 0 ++
      summarises_one 1)).map (fun s => s.summaries.map fun σ => (σ.created_at, σ.handoffs)) =
    some [(0, [0, 1, 2]), (0, [0, 1, 2])] := by
  decide +kernel

end qortia
