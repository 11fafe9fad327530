-- Jobs that are tried in rounds. A round picks some of the jobs that wait, and each of these gets
-- done or counts a failed attempt. A job waits while it is not done and has attempts left.
import Mathlib.Algebra.GroupWithZero.Nat
import Mathlib.Algebra.Order.BigOperators.Group.List
import Mathlib.Algebra.Order.Group.Nat
import Qortia.Lib.WorkQueue

namespace retries

open work_queue (Job)

variable {Key : Type} [DecidableEq Key] {limit : Nat}

def waits (limit : Nat) (j : Job) : Bool := !j.done && j.attempts < limit

/-- The attempts that a job has left. -/
def left (limit : Nat) (j : Job) : Nat := if waits limit j then limit - j.attempts else 0

/-- The job after one attempt. -/
def tried (failed : Bool) (j : Job) : Job :=
  if failed then { j with attempts := j.attempts + 1 } else { j with done := true }

structure Round (Key : Type) where
  failed : Key → Bool
  picks : List Key

def Round.job (r : Round Key) (x : Key × Job) : Key × Job :=
  if x.1 ∈ r.picks then (x.1, tried (r.failed x.1) x.2) else x

def Round.apply (r : Round Key) (jobs : List (Key × Job)) : List (Key × Job) := jobs.map r.job

def total (limit : Nat) (jobs : List (Key × Job)) : Nat := (jobs.map fun x => left limit x.2).sum

/-- The round picks waiting jobs, none of them twice, and some if there are any. -/
structure Round.Fair (limit : Nat) (r : Round Key) (jobs : List (Key × Job)) : Prop where
  nodup : r.picks.Nodup
  waiting : ∀ k ∈ r.picks, ∃ x ∈ jobs, x.1 = k ∧ waits limit x.2 = true
  picks : (∃ x ∈ jobs, waits limit x.2 = true) → r.picks ≠ []

def FairRun (limit : Nat) : List (Round Key) → List (Key × Job) → Prop
  | [], _ => True
  | r :: rounds, jobs => r.Fair limit jobs ∧ FairRun limit rounds (r.apply jobs)

def after (rounds : List (Round Key)) (jobs : List (Key × Job)) : List (Key × Job) :=
  rounds.foldl (fun jobs r => r.apply jobs) jobs

variable {r : Round Key} {rounds : List (Round Key)} {jobs : List (Key × Job)}

/-! ## One job -/

theorem left_pos_iff (j : Job) : 0 < left limit j ↔ waits limit j = true := by
  unfold left
  split
  · rename_i hwaits
    have hlt : j.attempts < limit := of_decide_eq_true (Bool.and_eq_true_iff.mp hwaits).2
    exact iff_of_true (by omega) hwaits
  · rename_i hwaits
    exact iff_of_false (Nat.lt_irrefl 0) hwaits

theorem left_tried {j : Job} (h : waits limit j = true) (failed : Bool) :
    left limit (tried failed j) < left limit j := by
  obtain ⟨hdone, hlt⟩ := Bool.and_eq_true_iff.mp h
  have hlt : j.attempts < limit := of_decide_eq_true hlt
  cases failed with
  | true =>
    unfold left tried
    rw [if_pos rfl, if_pos h]
    split
    · simp only
      omega
    · omega
  | false =>
    have hwaits : waits limit (tried false j) = false := by simp [waits, tried]
    unfold left
    rw [hwaits, if_pos h, if_neg Bool.false_ne_true]
    omega

omit [DecidableEq Key] in
/-- A picked job waits. -/
theorem Round.Fair.waits (h : r.Fair limit jobs) (hkeys : (jobs.map (·.1)).Nodup)
    {x : Key × Job} (hx : x ∈ jobs) (hpick : x.1 ∈ r.picks) : retries.waits limit x.2 = true := by
  obtain ⟨y, hy, hkey, hwaits⟩ := h.waiting x.1 hpick
  rw [List.inj_on_of_nodup_map hkeys hy hx hkey] at hwaits
  exact hwaits

theorem Round.job_key (r : Round Key) (x : Key × Job) : (r.job x).1 = x.1 := by
  unfold Round.job
  split
  · rfl
  · rfl

theorem Round.apply_keys (r : Round Key) (jobs : List (Key × Job)) :
    (r.apply jobs).map (·.1) = jobs.map (·.1) := by
  unfold Round.apply
  rw [List.map_map]
  exact List.map_congr_left fun x _ => r.job_key x

theorem Round.Fair.left_le (h : r.Fair limit jobs) (hkeys : (jobs.map (·.1)).Nodup)
    {x : Key × Job} (hx : x ∈ jobs) : left limit (r.job x).2 ≤ left limit x.2 := by
  unfold Round.job
  split
  · rename_i hpick
    exact Nat.le_of_lt (left_tried (h.waits hkeys hx hpick) _)
  · exact Nat.le_refl _

/-! ## A round -/

theorem total_eq (r : Round Key) (jobs : List (Key × Job)) :
    total limit (r.apply jobs) = (jobs.map fun x => left limit (r.job x).2).sum := by
  unfold total Round.apply
  rw [List.map_map]
  rfl

/-- While a job waits, every round uses up attempts. -/
theorem Round.Fair.total_lt (h : r.Fair limit jobs) (hkeys : (jobs.map (·.1)).Nodup)
    (hwaits : ∃ x ∈ jobs, retries.waits limit x.2 = true) :
    total limit (r.apply jobs) < total limit jobs := by
  obtain ⟨k, hk⟩ := List.exists_mem_of_ne_nil _ (h.picks hwaits)
  obtain ⟨x, hx, rfl, hwaits⟩ := h.waiting k hk
  rw [total_eq]
  refine List.sum_lt_sum _ _ (fun y hy => h.left_le hkeys hy) ⟨x, hx, ?_⟩
  unfold Round.job
  rw [if_pos hk]
  exact left_tried hwaits _

/-! ## A run -/

omit [DecidableEq Key] in
theorem total_zero (h : total limit jobs = 0) : ∀ x ∈ jobs, waits limit x.2 = false := by
  intro x hx
  by_contra hwaits
  have hpos := (left_pos_iff x.2).mpr (eq_true_of_ne_false hwaits)
  have hle := List.single_le_sum (fun _ _ => Nat.zero_le _) _
    (List.mem_map_of_mem (f := fun x : Key × Job => left limit x.2) hx)
  unfold total at h
  omega

theorem waits_after (h : FairRun limit rounds jobs) (hkeys : (jobs.map (·.1)).Nodup)
    (hnone : ∀ x ∈ jobs, waits limit x.2 = false) :
    ∀ x ∈ after rounds jobs, waits limit x.2 = false := by
  induction rounds generalizing jobs with
  | nil => exact hnone
  | cons r rounds ih =>
    refine ih h.2 (by rw [r.apply_keys]; exact hkeys) ?_
    intro y hy
    obtain ⟨x, hx, rfl⟩ := List.mem_map.mp hy
    have hle := h.1.left_le hkeys hx
    by_contra hwaits
    have hpos : 0 < left limit (r.job x).2 := (left_pos_iff _).mpr (eq_true_of_ne_false hwaits)
    have hold := (left_pos_iff x.2).mp (Nat.lt_of_lt_of_le hpos hle)
    rw [hnone x hx] at hold
    cases hold

/-- After as many rounds as there are attempts left, no job waits. -/
theorem drained (h : FairRun limit rounds jobs) (hkeys : (jobs.map (·.1)).Nodup)
    (hlong : total limit jobs ≤ rounds.length) :
    ∀ x ∈ after rounds jobs, waits limit x.2 = false := by
  induction rounds generalizing jobs with
  | nil => exact total_zero (Nat.le_zero.mp hlong)
  | cons r rounds ih =>
    by_cases hwaits : ∃ x ∈ jobs, waits limit x.2 = true
    · have hlt := h.1.total_lt hkeys hwaits
      rw [List.length_cons] at hlong
      exact ih h.2 (by rw [r.apply_keys]; exact hkeys) (Nat.le_of_lt_succ (hlt.trans_le hlong))
    · refine waits_after h hkeys fun x hx => ?_
      by_contra hne
      exact hwaits ⟨x, hx, eq_true_of_ne_false hne⟩

/-- A job is tried at most as often as it has attempts left. -/
theorem count_le_left [BEq Key] [LawfulBEq Key] (h : FairRun limit rounds jobs)
    (hkeys : (jobs.map (·.1)).Nodup) {x : Key × Job} (hx : x ∈ jobs) :
    (rounds.flatMap (·.picks)).count x.1 ≤ left limit x.2 := by
  induction rounds generalizing jobs x with
  | nil => exact Nat.zero_le _
  | cons r rounds ih =>
    have hrest := ih h.2 (by rw [r.apply_keys]; exact hkeys) (List.mem_map_of_mem (f := r.job) hx)
    rw [r.job_key] at hrest
    rw [List.flatMap_cons, List.count_append]
    by_cases hpick : x.1 ∈ r.picks
    · have hlt := left_tried (h.1.waits hkeys hx hpick) (r.failed x.1)
      rw [List.count_eq_one_of_mem h.1.nodup hpick]
      have hjob : (r.job x).2 = tried (r.failed x.1) x.2 := by
        unfold Round.job
        rw [if_pos hpick]
      rw [hjob] at hrest
      omega
    · rw [List.count_eq_zero_of_not_mem hpick]
      have hle := h.1.left_le hkeys hx
      omega

theorem mem_keys_of_pick (h : FairRun limit rounds jobs) {k : Key}
    (hk : k ∈ rounds.flatMap (·.picks)) : k ∈ jobs.map (·.1) := by
  induction rounds generalizing jobs with
  | nil => cases hk
  | cons r rounds ih =>
    rcases List.mem_append.mp hk with hk | hk
    · obtain ⟨x, hx, rfl, -⟩ := h.1.waiting k hk
      exact List.mem_map_of_mem hx
    · rw [← r.apply_keys]
      exact ih h.2 hk

theorem count_le [BEq Key] [LawfulBEq Key] (h : FairRun limit rounds jobs)
    (hkeys : (jobs.map (·.1)).Nodup) (k : Key) :
    (rounds.flatMap (·.picks)).count k ≤ limit := by
  by_cases hk : k ∈ rounds.flatMap (·.picks)
  · obtain ⟨x, hx, rfl⟩ := List.mem_map.mp (mem_keys_of_pick h hk)
    have hcount := count_le_left h hkeys hx
    have hleft : left limit x.2 ≤ limit := by
      unfold left
      split
      · exact Nat.sub_le _ _
      · exact Nat.zero_le _
    omega
  · rw [List.count_eq_zero_of_not_mem hk]
    exact Nat.zero_le _

/-- A job that never fails counts no attempt. -/
theorem attempts_after {x : Key × Job} (hx : x ∈ jobs) (hok : ∀ r ∈ rounds, r.failed x.1 = false) :
    ∃ y ∈ after rounds jobs, y.1 = x.1 ∧ y.2.attempts = x.2.attempts := by
  induction rounds generalizing jobs x with
  | nil => exact ⟨x, hx, rfl, rfl⟩
  | cons r rounds ih =>
    have hkey := r.job_key x
    have hattempts : (r.job x).2.attempts = x.2.attempts := by
      unfold Round.job
      split
      · rw [hok r List.mem_cons_self]
        rfl
      · rfl
    have hmem : r.job x ∈ r.apply jobs := List.mem_map_of_mem hx
    obtain ⟨y, hy, hyk, hya⟩ := ih hmem fun r' hr' => by
      rw [hkey]
      exact hok r' (List.mem_cons_of_mem _ hr')
    exact ⟨y, hy, hyk.trans hkey, hya.trans hattempts⟩

/-- A job that never fails gets done in the end. -/
theorem done_of_never_fails (h : FairRun limit rounds jobs) (hkeys : (jobs.map (·.1)).Nodup)
    (hlong : total limit jobs ≤ rounds.length) {x : Key × Job} (hx : x ∈ jobs)
    (hwaits : waits limit x.2 = true) (hok : ∀ r ∈ rounds, r.failed x.1 = false) :
    ∃ y ∈ after rounds jobs, y.1 = x.1 ∧ y.2.done = true := by
  obtain ⟨y, hy, hkey, hattempts⟩ := attempts_after hx hok
  refine ⟨y, hy, hkey, ?_⟩
  have hlt := (Bool.and_eq_true_iff.mp hwaits).2
  have hover := drained h hkeys hlong y hy
  unfold waits at hover
  rw [hattempts, hlt, Bool.and_true] at hover
  simpa using hover

end retries
