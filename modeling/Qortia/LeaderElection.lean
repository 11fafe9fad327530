-- `qortia.leader`: tasks of any number of processes that ask PostgreSQL for a lock before they run.
-- A task keeps one connection while its body runs. Its session may end at any time, and the task
-- does not notice that before its next statement on the connection.
import Mathlib.Logic.Function.Basic
import Qortia.Lib.AdvisoryLocks
import Qortia.Lib.Runs

namespace qortia

open advisory_locks

/-! ## try_acquire_leader -/

def LOCK_KEY_WEEKLY_SUMMARY : Nat := 72641001

/-- Where a task stands in `try_acquire_leader`: it has a connection, its body runs with the answer,
or it has left the body and the connection has still to go back to the pool. -/
inductive ElectionStage where
  | connected
  | body (acquired : Bool)
  | leaving
  deriving DecidableEq

/-- A task with its connection. `lost` says that the session has ended at the server. -/
structure Candidate where
  session : Nat
  lock_key : Nat
  lost : Bool := false
  stage : ElectionStage := .connected
  deriving DecidableEq

/-- The locks of the database, the connections that the pools have given away, and the tasks. -/
structure Elections where
  locks : List (Hold Nat Nat) := []
  acquired : List Nat := []
  task : Nat → Option Candidate := fun _ => none

def Elections.set (e : Elections) (i : Nat) (c : Option Candidate) : Elections :=
  { e with task := Function.update e.task i c }

/-- The session of a task ends: the database gives its locks back. -/
def Elections.end_session (e : Elections) (session : Nat) : Elections :=
  { e with locks := unlock_all session e.locks }

/-- What a task does next, or what happens to it. An `ask` that is interrupted reaches the database,
but the task gets an exception and no answer. -/
inductive ElectionAction where
  | connect (i session lock_key : Nat)
  | ask (i : Nat)
  | interrupt (i : Nat)
  | leave (i : Nat)
  | give_back (i : Nat)
  | lose (i : Nat)
  | die (i : Nat)
  deriving DecidableEq

def election_step (e : Elections) : ElectionAction → Option Elections
  | .connect i session lock_key =>
    if (e.task i).isSome ∨ session ∈ e.acquired then none
    else some { e.set i (some { session, lock_key }) with acquired := session :: e.acquired }
  | .ask i =>
    match e.task i with
    | none => none
    | some c =>
      if c.stage ≠ .connected then none
      -- The statement raises, and there is no `finally` around it yet.
      else if c.lost then some (e.set i (some { c with stage := .leaving }))
      else
        let (acquired, locks) := try_lock c.session c.lock_key e.locks
        some { e.set i (some { c with stage := .body acquired }) with locks }
  | .interrupt i =>
    match e.task i with
    | none => none
    | some c =>
      if c.stage ≠ .connected ∨ c.lost then none
      else
        some { e.set i (some { c with stage := .leaving }) with
          locks := (try_lock c.session c.lock_key e.locks).2 }
  | .leave i =>
    match e.task i with
    | none => none
    | some c =>
      match c.stage with
      | .body acquired =>
        let left := e.set i (some { c with stage := .leaving })
        if acquired && !c.lost then
          some { left with locks := (unlock c.session c.lock_key e.locks).2 }
        else some left
      | .connected | .leaving => none
  | .give_back i =>
    match e.task i with
    | none => none
    | some c =>
      if c.stage ≠ .leaving then none
      -- The pool resets the connection, which gives back all its advisory locks.
      else some { (e.set i none).end_session c.session with acquired := e.acquired.erase c.session }
  | .lose i =>
    match e.task i with
    | none => none
    | some c => some ((e.set i (some { c with lost := true })).end_session c.session)
  | .die i =>
    match e.task i with
    | none => none
    | some c => some { (e.set i none).end_session c.session with
        acquired := e.acquired.erase c.session }

/-! ## What every step keeps -/

/-- The body of the task runs as the leader's, and the session that holds the lock is there. -/
def Candidate.Leads (c : Candidate) : Prop := c.lost = false ∧ c.stage = .body true

/-- The task may hold its lock: it leads, or it has left and still has the connection. -/
def Candidate.Keeps (c : Candidate) : Prop :=
  c.lost = false ∧ (c.stage = .body true ∨ c.stage = .leaving)

def Elections.leads (e : Elections) (i lock_key : Nat) : Prop :=
  ∃ c, e.task i = some c ∧ c.lock_key = lock_key ∧ c.Leads

def Elections.keeps (e : Elections) (i lock_key : Nat) : Prop :=
  ∃ c, e.task i = some c ∧ c.lock_key = lock_key ∧ c.Keeps

/-- The lock of a task. -/
def Candidate.hold (c : Candidate) : Hold Nat Nat := ⟨c.session, c.lock_key⟩

/-- No connection is given away twice, a leader holds its lock, and every lock is held once, by a
task that may. -/
structure Elections.Good (e : Elections) : Prop where
  sessions : ∀ i j c d, e.task i = some c → e.task j = some d → c.session = d.session → i = j
  acquired : ∀ i c, e.task i = some c → c.session ∈ e.acquired
  nodup : e.locks.Nodup
  exclusive : Exclusive e.locks
  owner : ∀ h ∈ e.locks, ∃ i c, e.task i = some c ∧ c.hold = h ∧ c.Keeps
  held : ∀ i c, e.task i = some c → c.Leads → c.hold ∈ e.locks

namespace Elections

variable {e e' : Elections} {i j : Nat} {c d : Candidate}

theorem set_self (e : Elections) (i : Nat) (c : Option Candidate) : (e.set i c).task i = c :=
  Function.update_self ..

theorem set_of_ne (e : Elections) (c : Option Candidate) (h : j ≠ i) :
    (e.set i c).task j = e.task j :=
  Function.update_of_ne h ..

theorem set_task (e : Elections) (i : Nat) (c : Option Candidate) (j : Nat) :
    (e.set i c).task j = if j = i then c else e.task j :=
  Function.update_apply ..

/-- Two tasks have two connections. -/
theorem Good.apart (h : e.Good) (hc : e.task i = some c) (hd : e.task j = some d) (hj : j ≠ i) :
    d.session ≠ c.session :=
  fun hsame => hj (h.sessions j i d c hd hc hsame)

theorem initial_good : Good {} where
  sessions _ _ _ _ h := by cases h
  acquired _ _ h := by cases h
  nodup := List.nodup_nil
  exclusive _ h := absurd h List.not_mem_nil
  owner _ h := absurd h List.not_mem_nil
  held _ _ h := by cases h

/-- A task goes on with its connection, and the locks of the others stay as they were. -/
theorem Good.moved (h : e.Good) (hc : e.task i = some c) (hsession : d.session = c.session)
    {locks : List (Hold Nat Nat)} (hnodup : locks.Nodup) (hexclusive : Exclusive locks)
    (hothers : ∀ x, x.session ≠ c.session → (x ∈ locks ↔ x ∈ e.locks))
    (howner : ∀ x ∈ locks, x.session = c.session → x = d.hold ∧ d.Keeps)
    (hheld : d.Leads → d.hold ∈ locks) :
    Good { e.set i (some d) with locks } := by
  refine ⟨fun j k c₁ c₂ hj hk hsame => ?_, fun j c' hj => ?_, hnodup, hexclusive, fun x hx => ?_,
    fun j c' hj hleads => ?_⟩
  · simp only [set_task] at hj hk
    split at hj
    · rename_i hji
      cases hj
      split at hk
      · rename_i hki
        exact hji.trans hki.symm
      · rename_i hki
        exact absurd (hsame.symm.trans hsession) (h.apart hc hk hki)
    · rename_i hji
      split at hk
      · cases hk
        exact absurd (hsame.trans hsession) (h.apart hc hj hji)
      · exact h.sessions j k c₁ c₂ hj hk hsame
  · simp only [set_task] at hj
    split at hj
    · cases hj
      change d.session ∈ e.acquired
      rw [hsession]
      exact h.acquired i c hc
    · exact h.acquired j c' hj
  · by_cases hx' : x.session = c.session
    · obtain ⟨rfl, hkeeps⟩ := howner x hx hx'
      exact ⟨i, d, set_self .., rfl, hkeeps⟩
    · obtain ⟨j, c', hj, rfl, hkeeps⟩ := h.owner x ((hothers x hx').mp hx)
      have hji : j ≠ i := by
        rintro rfl
        rw [hc] at hj
        cases hj
        exact hx' rfl
      exact ⟨j, c', by rw [← hj]; exact set_of_ne e _ hji, rfl, hkeeps⟩
  · simp only [set_task] at hj
    split at hj
    · cases hj
      exact hheld hleads
    · rename_i hji
      exact (hothers c'.hold (h.apart hc hj hji)).mpr (h.held j c' hj hleads)

/-- The locks of a session are those of its task. -/
theorem Good.own (h : e.Good) (hc : e.task i = some c) {x : Hold Nat Nat} (hx : x ∈ e.locks)
    (hsession : x.session = c.session) : x = c.hold ∧ c.Keeps := by
  obtain ⟨j, d, hj, rfl, hkeeps⟩ := h.owner x hx
  have hij : j = i := h.sessions j i d c hj hc hsession
  subst hij
  rw [hc] at hj
  cases hj
  exact ⟨rfl, hkeeps⟩

/-- A task that has not been answered holds nothing. -/
theorem Good.without_lock (h : e.Good) (hc : e.task i = some c) (hstage : c.stage = .connected)
    {x : Hold Nat Nat} (hx : x ∈ e.locks) : x.session ≠ c.session := by
  intro hsession
  obtain ⟨-, -, hbody | hleaving⟩ := h.own hc hx hsession
  · rw [hstage] at hbody
    cases hbody
  · rw [hstage] at hleaving
    cases hleaving

/-- A task gets its answer, or it only misses to hear it. -/
theorem Good.tried (h : e.Good) (hc : e.task i = some c) (hstage : c.stage = .connected)
    (hsession : d.session = c.session) (hkey : d.lock_key = c.lock_key)
    (hkeeps : (try_lock c.session c.lock_key e.locks).1 = true → d.Keeps)
    (hleads : d.Leads → (try_lock c.session c.lock_key e.locks).1 = true) :
    Good { e.set i (some d) with locks := (try_lock c.session c.lock_key e.locks).2 } := by
  have hhold : d.hold = c.hold := by
    unfold Candidate.hold
    rw [hsession, hkey]
  have hno := fun x hx => h.without_lock hc hstage (x := x) hx
  unfold try_lock at hkeeps hleads ⊢
  split at hkeeps
  · rename_i hfree
    rw [if_pos hfree] at hleads ⊢
    refine h.moved hc hsession ?_ (h.exclusive.lock hfree) (fun x hx => ?_) (fun x hx hx' => ?_)
      fun _ => ?_
    · exact List.nodup_cons.mpr ⟨fun hmem => hno _ hmem rfl, h.nodup⟩
    · refine ⟨fun hmem => ?_, List.mem_cons_of_mem _⟩
      rcases List.mem_cons.mp hmem with rfl | hmem
      · exact absurd rfl hx
      · exact hmem
    · rcases List.mem_cons.mp hx with rfl | hmem
      · exact ⟨hhold.symm, hkeeps rfl⟩
      · exact absurd hx' (hno x hmem)
    · rw [hhold]
      exact List.mem_cons_self
  · rename_i hfree
    rw [if_neg hfree] at hleads ⊢
    exact h.moved hc hsession h.nodup h.exclusive (fun _ _ => Iff.rfl)
      (fun x hx hx' => absurd hx' (hno x hx)) fun hd => absurd (hleads hd) (by simp)

/-- A task loses its session and does not notice it. -/
theorem Good.lose (h : e.Good) (hc : e.task i = some c) :
    Good ((e.set i (some { c with lost := true })).end_session c.session) := by
  refine h.moved (d := { c with lost := true }) hc rfl (h.nodup.filter _) h.exclusive.unlock_all
    (fun x hx => ?_) (fun x hx hx' => ?_) fun hleads => ?_
  · rw [mem_unlock_all]
    exact and_iff_left hx
  · exact absurd hx' (mem_unlock_all.mp hx).2
  · cases hleads.1

/-- A task and its connection go. -/
theorem Good.gone (h : e.Good) (hc : e.task i = some c) :
    Good { (e.set i none).end_session c.session with acquired := e.acquired.erase c.session } := by
  have hset {j : Nat} {c' : Candidate} (hj : (e.set i none).task j = some c') :
      j ≠ i ∧ e.task j = some c' := by
    by_cases hji : j = i
    · rw [hji, set_self] at hj
      cases hj
    · rw [set_of_ne e _ hji] at hj
      exact ⟨hji, hj⟩
  refine ⟨fun j k c₁ c₂ hj hk hsame => ?_, fun j c' hj => ?_, h.nodup.filter _,
    h.exclusive.unlock_all, fun x hx => ?_, fun j c' hj hleads => ?_⟩
  · exact h.sessions j k c₁ c₂ (hset hj).2 (hset hk).2 hsame
  · obtain ⟨hji, hj⟩ := hset hj
    exact (List.mem_erase_of_ne (h.apart hc hj hji)).mpr (h.acquired j c' hj)
  · obtain ⟨hx, hother⟩ := mem_unlock_all.mp hx
    obtain ⟨j, c', hj, rfl, hkeeps⟩ := h.owner x hx
    have hji : j ≠ i := by
      rintro rfl
      rw [hc] at hj
      cases hj
      exact hother rfl
    exact ⟨j, c', by rw [← hj]; exact set_of_ne e _ hji, rfl, hkeeps⟩
  · obtain ⟨hji, hj⟩ := hset hj
    exact mem_unlock_all.mpr ⟨h.held j c' hj hleads, h.apart hc hj hji⟩

/-- A task gets a connection that no other task has. -/
theorem Good.connect (h : e.Good) (hi : e.task i = none) {session lock_key : Nat}
    (hsession : session ∉ e.acquired) :
    Good { e.set i (some { session, lock_key }) with acquired := session :: e.acquired } := by
  have hnot {j : Nat} {c' : Candidate} (hc' : e.task j = some c') : c'.session ≠ session := by
    rintro rfl
    exact hsession (h.acquired j c' hc')
  refine ⟨fun j k c₁ c₂ hj hk hsame => ?_, fun j c' hj => ?_, h.nodup, h.exclusive,
    fun x hx => ?_, fun j c' hj hleads => ?_⟩
  · simp only [set_task] at hj hk
    split at hj
    · rename_i hji
      cases hj
      split at hk
      · rename_i hki
        exact hji.trans hki.symm
      · exact absurd hsame.symm (hnot hk)
    · split at hk
      · cases hk
        exact absurd hsame (hnot hj)
      · exact h.sessions j k c₁ c₂ hj hk hsame
  · simp only [set_task] at hj
    split at hj
    · cases hj
      exact List.mem_cons_self
    · exact List.mem_cons_of_mem _ (h.acquired j c' hj)
  · obtain ⟨j, c', hj, rfl, hkeeps⟩ := h.owner x hx
    have hji : j ≠ i := by
      rintro rfl
      rw [hi] at hj
      cases hj
    exact ⟨j, c', by rw [← hj]; exact set_of_ne e _ hji, rfl, hkeeps⟩
  · simp only [set_task] at hj
    split at hj
    · cases hj
      cases hleads.2
    · exact h.held j c' hj hleads

/-- A task leaves its body, and gives its lock back if it has it. -/
theorem Good.leave (h : e.Good) (hc : e.task i = some c) {acquired : Bool}
    (hstage : c.stage = .body acquired) (hstep : election_step e (.leave i) = some e') :
    e'.Good := by
  have hnot : ¬ Candidate.Leads { c with stage := .leaving } := fun hleads => by cases hleads.2
  simp only [election_step, hc, hstage] at hstep
  split at hstep
  · cases hstep
    refine h.moved (d := { c with stage := .leaving }) hc rfl (h.nodup.erase _) h.exclusive.unlock
      (fun x hx => ?_) (fun x hx hx' => ?_) fun hleads => absurd hleads hnot
    · rw [mem_unlock h.nodup]
      refine and_iff_right ?_
      rintro rfl
      exact hx rfl
    · obtain ⟨hne, hx⟩ := (mem_unlock h.nodup).mp hx
      exact absurd (h.own hc hx hx').1 hne
  · rename_i hnone
    cases hstep
    refine h.moved (d := { c with stage := .leaving }) hc rfl h.nodup h.exclusive
      (fun _ _ => Iff.rfl) (fun x hx hx' => ?_) fun hleads => absurd hleads hnot
    -- The task was told that another one leads, or its session has ended.
    obtain ⟨-, hlost, hbody⟩ := h.own hc hx hx'
    rw [hstage] at hbody
    rcases hbody with hbody | hbody
    · cases hbody
      simp [hlost] at hnone
    · cases hbody

theorem Good.step_good {a : ElectionAction} (h : e.Good) (hstep : election_step e a = some e') :
    e'.Good := by
  cases a with
  | connect i session lock_key =>
    simp only [election_step] at hstep
    split at hstep
    · cases hstep
    · rename_i hnot
      rw [not_or, Bool.not_eq_true, Option.isSome_eq_false_iff, Option.isNone_iff_eq_none] at hnot
      cases hstep
      exact h.connect hnot.1 hnot.2
  | ask i =>
    simp only [election_step] at hstep
    split at hstep
    · cases hstep
    · rename_i c hc
      split at hstep
      · cases hstep
      · rename_i hstage
        rw [ne_eq, not_not] at hstage
        split at hstep
        · rename_i hlost
          cases hstep
          refine h.moved (d := { c with stage := .leaving }) hc rfl h.nodup h.exclusive
            (fun _ _ => Iff.rfl) (fun x hx hx' => ?_) fun hleads => by cases hleads.2
          exact absurd hx' (h.without_lock hc hstage hx)
        · rename_i hlost
          cases hstep
          rw [Bool.not_eq_true] at hlost
          refine h.tried hc hstage rfl rfl (fun hyes => ⟨hlost, Or.inl ?_⟩) fun hleads => ?_
          · rw [hyes]
          · exact ElectionStage.body.inj hleads.2
  | interrupt i =>
    simp only [election_step] at hstep
    split at hstep
    · cases hstep
    · rename_i c hc
      split at hstep
      · cases hstep
      · rename_i hnot
        rw [not_or, ne_eq, not_not, Bool.not_eq_true] at hnot
        cases hstep
        exact h.tried (d := { c with stage := .leaving }) hc hnot.1 rfl rfl
          (fun _ => ⟨hnot.2, Or.inr rfl⟩) fun hleads => by cases hleads.2
  | leave i =>
    cases hc : e.task i with
    | none =>
      simp only [election_step, hc] at hstep
      cases hstep
    | some c =>
      cases hstage : c.stage with
      | body acquired => exact h.leave hc hstage hstep
      | connected =>
        simp only [election_step, hc, hstage] at hstep
        cases hstep
      | leaving =>
        simp only [election_step, hc, hstage] at hstep
        cases hstep
  | give_back i =>
    simp only [election_step] at hstep
    split at hstep
    · cases hstep
    · rename_i c hc
      split at hstep
      · cases hstep
      · cases hstep
        exact h.gone hc
  | lose i =>
    simp only [election_step] at hstep
    split at hstep
    · cases hstep
    · rename_i c hc
      cases hstep
      exact h.lose hc
  | die i =>
    simp only [election_step] at hstep
    split at hstep
    · cases hstep
    · rename_i c hc
      cases hstep
      exact h.gone hc

/-! ## One leader at a time -/

/-- No two tasks lead under one lock. -/
def OneLeader (e : Elections) : Prop :=
  ∀ i j lock_key, e.leads i lock_key → e.leads j lock_key → i = j

theorem Good.one_leader (h : e.Good) : e.OneLeader := by
  rintro i j lock_key ⟨c, hc, rfl, hleads⟩ ⟨d, hd, hkey, hleads'⟩
  refine h.sessions i j c d hc hd ?_
  exact h.exclusive _ (h.held i c hc hleads) _ (h.held j d hd hleads') hkey.symm

/-- A task that asks is told to lead only when nobody leads, and it is refused only while another
task leads or has not yet given its connection back. -/
def AnswersRightly (e : Elections) (a : ElectionAction) (e' : Elections) : Prop :=
  ∀ i c, a = .ask i → e.task i = some c → c.lost = false →
    (e'.leads i c.lock_key ∧ ∀ j, ¬ e.leads j c.lock_key) ∨
      (e'.task i = some { c with stage := .body false } ∧ ∃ j, j ≠ i ∧ e.keeps j c.lock_key)

theorem Good.answers (h : e.Good) {a : ElectionAction} (hstep : election_step e a = some e') :
    AnswersRightly e a e' := by
  rintro i c rfl hc hlost
  simp only [election_step, hc] at hstep
  split at hstep
  · cases hstep
  · rename_i hstage
    rw [ne_eq, not_not] at hstage
    rw [if_neg (by simp [hlost])] at hstep
    cases hstep
    cases hfree : free_for c.session c.lock_key e.locks with
    | true =>
      left
      have hyes : (try_lock c.session c.lock_key e.locks).1 = true := by
        unfold try_lock
        rw [if_pos hfree]
      refine ⟨⟨_, set_self .., rfl, hlost, congrArg ElectionStage.body hyes⟩, ?_⟩
      rintro j ⟨d, hd, hkey, hleads⟩
      have hheld := h.held j d hd hleads
      exact h.without_lock hc hstage hheld (free_for_iff.mp hfree _ hheld hkey)
    | false =>
      right
      have hno : (try_lock c.session c.lock_key e.locks).1 = false := by
        unfold try_lock
        rw [if_neg (by rw [hfree]; exact Bool.false_ne_true)]
      refine ⟨?_, ?_⟩
      · rw [← hno]
        exact set_self e i _
      obtain ⟨x, hx, hkey, hother⟩ := not_free_for_iff.mp hfree
      obtain ⟨j, d, hd, rfl, hkeeps⟩ := h.owner x hx
      refine ⟨j, ?_, d, hd, hkey, hkeeps⟩
      rintro rfl
      rw [hc] at hd
      cases hd
      exact hother rfl

end Elections

/-- In every run of tasks that ask for leadership, whatever sessions end on the way: of the tasks
whose sessions are there, at most one leads under a lock, and a task that asks is told to lead only
when nobody leads, and refused only while another one does or has still its connection. -/
theorem one_leader_at_a_time (actions : List ElectionAction) :
    runs.Always election_step Elections.OneLeader {} actions ∧
      runs.EveryStep election_step Elections.AnswersRightly {} actions := by
  have hok : runs.Guarded election_step (fun _ _ => True) {} actions :=
    runs.guarded_of_forall election_step (fun _ _ => trivial) {} actions
  constructor
  · exact runs.always_of_invariant (fun _ h => h.one_leader)
      (fun _ _ _ h _ hstep => h.step_good hstep) Elections.initial_good hok
  · exact runs.every_step_of_invariant (fun _ _ _ h _ hstep => h.answers hstep)
      (fun _ _ _ h _ hstep => h.step_good hstep) Elections.initial_good hok

end qortia
