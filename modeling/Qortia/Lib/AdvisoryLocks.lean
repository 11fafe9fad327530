-- Advisory locks of sessions. A session may take a lock again that it holds, and then it has to
-- give it back as often. All its locks go when the session ends, or when it gives all of them back.
import Mathlib.Data.List.Nodup

namespace advisory_locks

variable {Session Key : Type}

/-- One taking of a lock. -/
structure Hold (Session Key : Type) where
  session : Session
  key : Key
  deriving DecidableEq

variable [DecidableEq Session] [DecidableEq Key]

/-- Whether a session gets the lock: no other session holds it. -/
def free_for (session : Session) (key : Key) (locks : List (Hold Session Key)) : Bool :=
  locks.all fun h => h.key ≠ key || h.session = session

/-- `pg_try_advisory_lock`. -/
def try_lock (session : Session) (key : Key) (locks : List (Hold Session Key)) :
    Bool × List (Hold Session Key) :=
  if free_for session key locks = true then (true, ⟨session, key⟩ :: locks) else (false, locks)

/-- `pg_advisory_unlock`, with whether the session held the lock. -/
def unlock (session : Session) (key : Key) (locks : List (Hold Session Key)) :
    Bool × List (Hold Session Key) :=
  (decide (⟨session, key⟩ ∈ locks), locks.erase ⟨session, key⟩)

/-- `pg_advisory_unlock_all`, and what the end of a session does. -/
def unlock_all (session : Session) (locks : List (Hold Session Key)) : List (Hold Session Key) :=
  locks.filter fun h => h.session ≠ session

/-- No lock is held by two sessions. -/
def Exclusive (locks : List (Hold Session Key)) : Prop :=
  ∀ h ∈ locks, ∀ h' ∈ locks, h.key = h'.key → h.session = h'.session

variable {session other : Session} {key key' : Key} {locks locks' : List (Hold Session Key)}

theorem free_for_iff :
    free_for session key locks = true ↔ ∀ h ∈ locks, h.key = key → h.session = session := by
  simp only [free_for, List.all_eq_true, Bool.or_eq_true, decide_eq_true_eq, ne_eq,
    ← imp_iff_not_or]

theorem not_free_for_iff : free_for session key locks = false ↔
    ∃ h ∈ locks, h.key = key ∧ h.session ≠ session := by
  rw [Bool.eq_false_iff, ne_eq, free_for_iff]
  push Not
  exact Iff.rfl

omit [DecidableEq Session] [DecidableEq Key] in
theorem Exclusive.of_subset (h : Exclusive locks) (hsub : ∀ x ∈ locks', x ∈ locks) :
    Exclusive locks' :=
  fun x hx y hy => h x (hsub x hx) y (hsub y hy)

theorem Exclusive.lock (h : Exclusive locks) (hfree : free_for session key locks = true) :
    Exclusive (⟨session, key⟩ :: locks) := by
  rw [free_for_iff] at hfree
  intro x hx y hy hkey
  rcases List.mem_cons.mp hx with rfl | hx
  · rcases List.mem_cons.mp hy with rfl | hy
    · rfl
    · exact (hfree y hy hkey.symm).symm
  · rcases List.mem_cons.mp hy with rfl | hy
    · exact hfree x hx hkey
    · exact h x hx y hy hkey

theorem Exclusive.unlock (h : Exclusive locks) :
    Exclusive (advisory_locks.unlock session key locks).2 :=
  h.of_subset fun _ hx => List.mem_of_mem_erase hx

omit [DecidableEq Key] in
theorem Exclusive.unlock_all (h : Exclusive locks) :
    Exclusive (advisory_locks.unlock_all session locks) :=
  h.of_subset fun _ hx => (List.mem_filter.mp hx).1

omit [DecidableEq Key] in
theorem mem_unlock_all {x : Hold Session Key} :
    x ∈ unlock_all session locks ↔ x ∈ locks ∧ x.session ≠ session := by
  simp [unlock_all]

/-- What is left when a lock that was taken once is given back. -/
theorem mem_unlock {x : Hold Session Key} (h : locks.Nodup) :
    x ∈ (unlock session key locks).2 ↔ x ≠ ⟨session, key⟩ ∧ x ∈ locks :=
  h.mem_erase_iff

end advisory_locks
