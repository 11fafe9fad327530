-- Jobs that workers take into their hands and try. A job counts its failed attempts, and a worker
-- takes jobs that are not done and have attempts left. Taking a job leaves no mark on it. The laws
-- say what holds while no job is in two hands.
import Mathlib.Data.List.Nodup
import Mathlib.Logic.Function.Basic

namespace work_queue

variable {Worker Key : Type}

structure Job where
  done : Bool
  attempts : Nat
  deriving DecidableEq

/-- What a worker holds: the job that it is trying, whether that one is done, and the jobs that it
has still to try. -/
structure Hand (Key : Type) where
  current : Option Key := none
  written : Bool := false
  todo : List Key := []

def Hand.keys (h : Hand Key) : List Key := h.current.toList ++ h.todo

/-- The jobs, the hands, and how often each job was tried. -/
structure Queue (Worker Key : Type) where
  job : Key → Option Job
  hand : Worker → Hand Key
  tried : Key → Nat

/-- No job is in two hands. -/
def Exclusive (q : Queue Worker Key) : Prop :=
  ∀ i j, i ≠ j → ∀ k ∈ (q.hand i).keys, k ∉ (q.hand j).keys

/-- A job that may be taken. -/
def Queue.Open (q : Queue Worker Key) (limit : Nat) (k : Key) : Prop :=
  ∃ j, q.job k = some j ∧ j.done = false ∧ j.attempts < limit

/-- A worker holds open jobs, and the tries of a job are its failed attempts and the one under
way. -/
structure Good (limit : Nat) (q : Queue Worker Key) : Prop where
  nodup : ∀ i, (q.hand i).keys.Nodup
  todo : ∀ i, ∀ k ∈ (q.hand i).todo, q.Open limit k
  current : ∀ i k, (q.hand i).current = some k → ∃ j, q.job k = some j ∧ j.attempts < limit ∧
    q.tried k ≤ j.attempts + 1 ∧ ((q.hand i).written = true → j.done = true)
  counted : ∀ k j, q.job k = some j → j.done = false → (∀ i, (q.hand i).current ≠ some k) →
    q.tried k ≤ j.attempts
  tries : ∀ k, q.tried k ≤ limit
  attempts : ∀ k j, q.job k = some j → j.attempts ≤ limit

variable {limit : Nat} {q q' : Queue Worker Key}

/-! ## Exclusive hands -/

theorem Exclusive.of_subset (h : Exclusive q)
    (hsub : ∀ i, ∀ k ∈ (q'.hand i).keys, k ∈ (q.hand i).keys) : Exclusive q' :=
  fun i j hij k hk hk' => h i j hij k (hsub i k hk) (hsub j k hk')

theorem mem_keys {h : Hand Key} {k : Key} : k ∈ h.keys ↔ h.current = some k ∨ k ∈ h.todo := by
  unfold Hand.keys
  rw [List.mem_append, Option.mem_toList]

section
variable [DecidableEq Worker] {i : Worker} {h : Hand Key}

/-- One worker's hand changes. -/
theorem hand_update (hhand : q'.hand = Function.update q.hand i h) (i' : Worker) :
    (i' = i ∧ q'.hand i' = h) ∨ (i' ≠ i ∧ q'.hand i' = q.hand i') := by
  rw [hhand]
  by_cases hi : i' = i
  · subst hi
    exact Or.inl ⟨rfl, Function.update_self _ _ _⟩
  · exact Or.inr ⟨hi, Function.update_of_ne hi _ _⟩

/-- A hand that only lets go leaves the hands exclusive. -/
theorem Exclusive.let_go (hq : Exclusive q) (hhand : q'.hand = Function.update q.hand i h)
    (hsub : ∀ k ∈ h.keys, k ∈ (q.hand i).keys) : Exclusive q' := by
  apply hq.of_subset
  intro i' k hk
  rcases hand_update hhand i' with ⟨rfl, hi'⟩ | ⟨-, hi'⟩
  · rw [hi'] at hk
    exact hsub k hk
  · rwa [hi'] at hk

/-- A hand that takes more leaves the hands exclusive exactly when no other one has what it
takes. -/
theorem Exclusive.take_iff (hq : Exclusive q) (hhand : q'.hand = Function.update q.hand i h)
    {ks : List Key} (hkeys : ∀ k, k ∈ h.keys ↔ k ∈ (q.hand i).keys ∨ k ∈ ks) :
    Exclusive q' ↔ ∀ k ∈ ks, ∀ j, j ≠ i → k ∉ (q.hand j).keys := by
  have hother : ∀ j, j ≠ i → q'.hand j = q.hand j := by
    intro j hj
    rw [hhand, Function.update_of_ne hj]
  have hself : q'.hand i = h := by rw [hhand, Function.update_self]
  constructor
  · intro hq' k hk j hj hkj
    apply hq' i j (Ne.symm hj) k
    · rw [hself]
      exact (hkeys k).mpr (Or.inr hk)
    · rw [hother j hj]
      exact hkj
  · intro hfree
    have htakes : ∀ j, j ≠ i → ∀ k, k ∈ (q'.hand i).keys → k ∉ (q.hand j).keys := by
      intro j hj k hk hkj
      rw [hself] at hk
      rcases (hkeys k).mp hk with hk | hk
      · exact hq i j (Ne.symm hj) k hk hkj
      · exact hfree k hk j hj hkj
    intro a b hab k hka hkb
    by_cases ha : a = i
    · subst ha
      rw [hother b (Ne.symm hab)] at hkb
      exact htakes b (Ne.symm hab) k hka hkb
    · rw [hother a ha] at hka
      by_cases hb : b = i
      · subst hb
        exact htakes a ha k hkb hka
      · rw [hother b hb] at hkb
        exact hq a b hab k hka hkb

end

theorem Exclusive.idle (hhand : ∀ i, q.hand i = {}) : Exclusive q := by
  intro i j _ k hk
  rw [hhand] at hk
  cases hk

/-- Before the first job is taken. -/
theorem Good.idle (hhand : ∀ i, q.hand i = {}) (htried : ∀ k, q.tried k = 0)
    (hattempts : ∀ k j, q.job k = some j → j.attempts ≤ limit) : Good limit q := by
  refine ⟨fun i => ?_, fun i k hk => ?_, fun i k hk => ?_, fun k j _ _ _ => ?_, fun k => ?_,
    hattempts⟩
  · rw [hhand]
    exact List.nodup_nil
  · rw [hhand] at hk
    cases hk
  · rw [hhand] at hk
    cases hk
  · rw [htried]
    omega
  · rw [htried]
    omega

/-! ## What a worker does -/

section
variable [DecidableEq Worker] {i : Worker} {k : Key}

/-- A worker that tries nothing now holds other open jobs: it takes some, or lets some go. -/
theorem Good.hold (hg : Good limit q) (hcurrent : (q.hand i).current = none) {todo : List Key}
    (hnodup : todo.Nodup) (hopen : ∀ k ∈ todo, q.Open limit k)
    (hhand : q'.hand = Function.update q.hand i { todo }) (hjob : q'.job = q.job)
    (htried : q'.tried = q.tried) : Good limit q' := by
  refine ⟨fun i' => ?_, fun i' k hk => ?_, fun i' k hk => ?_, fun k j hj hdone hfree => ?_, ?_, ?_⟩
  · rcases hand_update hhand i' with ⟨-, hi'⟩ | ⟨-, hi'⟩
    · rw [hi']
      exact hnodup
    · rw [hi']
      exact hg.nodup i'
  · unfold Queue.Open
    rw [hjob]
    rcases hand_update hhand i' with ⟨-, hi'⟩ | ⟨-, hi'⟩
    · rw [hi'] at hk
      exact hopen k hk
    · rw [hi'] at hk
      exact hg.todo i' k hk
  · rcases hand_update hhand i' with ⟨-, hi'⟩ | ⟨-, hi'⟩
    · rw [hi'] at hk
      cases hk
    · rw [hi'] at hk ⊢
      rw [hjob, htried]
      exact hg.current i' k hk
  · rw [hjob] at hj
    rw [htried]
    refine hg.counted k j hj hdone fun i' hc => ?_
    rcases hand_update hhand i' with ⟨rfl, -⟩ | ⟨-, hi'⟩
    · rw [hcurrent] at hc
      cases hc
    · apply hfree i'
      rw [hi']
      exact hc
  · rw [htried]
    exact hg.tries
  · rw [hjob]
    exact hg.attempts

/-- The job that a worker tries is in no other hand, and the worker will not try it again. -/
theorem Good.alone (hg : Good limit q) (hq : Exclusive q) (hk : (q.hand i).current = some k)
    {i' : Worker} {k' : Key} (hk' : k' ∈ (q.hand i').keys)
    (hother : i' ≠ i ∨ k' ∈ (q.hand i').todo) : k' ≠ k := by
  rintro rfl
  by_cases hi : i' = i
  · subst hi
    have hnodup := hg.nodup i'
    unfold Hand.keys at hnodup
    rw [hk, Option.toList_some, List.singleton_append, List.nodup_cons] at hnodup
    exact hnodup.1 (hother.resolve_left (fun h => h rfl))
  · exact hq i' i hi k' hk' (mem_keys.mpr (Or.inl hk))

variable [DecidableEq Key]

omit [DecidableEq Worker] in
/-- One job changes. -/
theorem job_update {f : Job → Job} {j : Job}
    (hjob : q'.job = Function.update q.job k ((q.job k).map f)) (hj : q.job k = some j) :
    q'.job k = some (f j) ∧ ∀ k', k' ≠ k → q'.job k' = q.job k' := by
  constructor
  · rw [hjob, Function.update_self, hj, Option.map_some]
  · intro k' hne
    rw [hjob, Function.update_of_ne hne]

omit [DecidableEq Worker] in
/-- The changed job has not used up its attempts either. -/
theorem attempts_update (hg : Good limit q) {j : Job} (hself : q'.job k = some j)
    (hsame : ∀ k', k' ≠ k → q'.job k' = q.job k') (hle : j.attempts ≤ limit) :
    ∀ k' j', q'.job k' = some j' → j'.attempts ≤ limit := by
  intro k' j' hj'
  by_cases hother : k' = k
  · subst hother
    rw [hself] at hj'
    cases hj'
    exact hle
  · rw [hsame k' hother] at hj'
    exact hg.attempts k' j' hj'

/-- A worker starts to try a job. -/
theorem Good.start (hg : Good limit q) (hq : Exclusive q) (hcurrent : (q.hand i).current = none)
    {todo : List Key} (htodo : (q.hand i).todo = k :: todo)
    (hhand : q'.hand = Function.update q.hand i { current := some k, todo })
    (hjob : q'.job = q.job) (htried : q'.tried = Function.update q.tried k (q.tried k + 1)) :
    Good limit q' := by
  have hmem : k ∈ (q.hand i).todo := by
    rw [htodo]
    exact List.mem_cons_self
  have hkeys : k ∈ (q.hand i).keys := mem_keys.mpr (Or.inr hmem)
  obtain ⟨j, hj, hdone, hlt⟩ := hg.todo i k hmem
  -- Nobody tries the job yet.
  have hcount : q.tried k ≤ j.attempts := by
    refine hg.counted k j hj hdone fun i' hc => ?_
    by_cases hi : i' = i
    · rw [hi, hcurrent] at hc
      cases hc
    · exact hq i i' (Ne.symm hi) k hkeys (mem_keys.mpr (Or.inl hc))
  have hsame : ∀ k', k' ≠ k → q'.tried k' = q.tried k' := by
    intro k' hne
    rw [htried, Function.update_of_ne hne]
  have hself : q'.tried k = q.tried k + 1 := by rw [htried, Function.update_self]
  refine ⟨fun i' => ?_, fun i' k' hk' => ?_, fun i' k' hk' => ?_, fun k' j' hj' hdone' hfree => ?_,
    fun k' => ?_, ?_⟩
  · rcases hand_update hhand i' with ⟨rfl, hi'⟩ | ⟨-, hi'⟩
    · have hnodup := hg.nodup i'
      unfold Hand.keys at hnodup ⊢
      rw [hcurrent, htodo] at hnodup
      rw [hi']
      exact hnodup
    · rw [hi']
      exact hg.nodup i'
  · unfold Queue.Open
    rw [hjob]
    rcases hand_update hhand i' with ⟨rfl, hi'⟩ | ⟨-, hi'⟩
    · rw [hi'] at hk'
      apply hg.todo i' k'
      rw [htodo]
      exact List.mem_cons_of_mem _ hk'
    · rw [hi'] at hk'
      exact hg.todo i' k' hk'
  · rw [hjob]
    rcases hand_update hhand i' with ⟨-, hi'⟩ | ⟨hne, hi'⟩
    · rw [hi'] at hk' ⊢
      cases hk'
      refine ⟨j, hj, hlt, ?_, fun h => by cases h⟩
      rw [hself]
      exact Nat.succ_le_succ hcount
    · rw [hi'] at hk' ⊢
      have hother : k' ≠ k := by
        rintro rfl
        exact hq i i' (Ne.symm hne) k' hkeys (mem_keys.mpr (Or.inl hk'))
      rw [hsame k' hother]
      exact hg.current i' k' hk'
  · rw [hjob] at hj'
    have hother : k' ≠ k := by
      rintro rfl
      apply hfree i
      rw [hhand, Function.update_self]
    rw [hsame k' hother]
    refine hg.counted k' j' hj' hdone' fun i' hc => ?_
    rcases hand_update hhand i' with ⟨rfl, -⟩ | ⟨-, hi'⟩
    · rw [hcurrent] at hc
      cases hc
    · apply hfree i'
      rw [hi']
      exact hc
  · by_cases hother : k' = k
    · subst hother
      rw [hself]
      omega
    · rw [hsame k' hother]
      exact hg.tries k'
  · rw [hjob]
    exact hg.attempts

/-- The job that a worker tries is done. -/
theorem Good.write (hg : Good limit q) (hq : Exclusive q) (hcurrent : (q.hand i).current = some k)
    (hhand : q'.hand = Function.update q.hand i { q.hand i with written := true })
    (hjob : q'.job = Function.update q.job k ((q.job k).map fun j => { j with done := true }))
    (htried : q'.tried = q.tried) : Good limit q' := by
  obtain ⟨j, hj, hlt, hcount, -⟩ := hg.current i k hcurrent
  obtain ⟨hself, hsame⟩ := job_update hjob hj
  have hhands : ∀ i', (q'.hand i').current = (q.hand i').current ∧
      (q'.hand i').todo = (q.hand i').todo := by
    intro i'
    rcases hand_update hhand i' with ⟨rfl, hi'⟩ | ⟨-, hi'⟩
    · rw [hi']
      exact ⟨rfl, rfl⟩
    · rw [hi']
      exact ⟨rfl, rfl⟩
  refine ⟨fun i' => ?_, fun i' k' hk' => ?_, fun i' k' hk' => ?_, fun k' j' hj' hdone' hfree => ?_,
    fun k' => ?_, fun k' j' hj' => ?_⟩
  · unfold Hand.keys
    rw [(hhands i').1, (hhands i').2]
    exact hg.nodup i'
  · rw [(hhands i').2] at hk'
    unfold Queue.Open
    rw [hsame k' (hg.alone hq hcurrent (mem_keys.mpr (Or.inr hk')) (Or.inr hk'))]
    exact hg.todo i' k' hk'
  · rw [(hhands i').1] at hk'
    rw [htried]
    by_cases hi : i' = i
    · rw [hi, hcurrent] at hk'
      cases hk'
      exact ⟨_, hself, hlt, hcount, fun _ => rfl⟩
    · rw [hsame k' (hg.alone hq hcurrent (mem_keys.mpr (Or.inl hk')) (Or.inl hi)), hhand,
        Function.update_of_ne hi]
      exact hg.current i' k' hk'
  · have hother : k' ≠ k := by
      rintro rfl
      rw [hself] at hj'
      cases hj'
      cases hdone'
    rw [hsame k' hother] at hj'
    rw [htried]
    refine hg.counted k' j' hj' hdone' fun i' hc => hfree i' ?_
    rw [(hhands i').1]
    exact hc
  · rw [htried]
    exact hg.tries k'
  · exact attempts_update hg hself hsame (Nat.le_of_lt hlt) k' j' hj'

omit [DecidableEq Key] in
/-- A worker goes on after a job that is done. -/
theorem Good.finish (hg : Good limit q) (hcurrent : (q.hand i).current = some k)
    (hwritten : (q.hand i).written = true)
    (hhand : q'.hand = Function.update q.hand i { todo := (q.hand i).todo })
    (hjob : q'.job = q.job) (htried : q'.tried = q.tried) : Good limit q' := by
  obtain ⟨j, hj, -, -, hdone⟩ := hg.current i k hcurrent
  refine ⟨fun i' => ?_, fun i' k' hk' => ?_, fun i' k' hk' => ?_, fun k' j' hj' hdone' hfree => ?_,
    ?_, ?_⟩
  · rcases hand_update hhand i' with ⟨rfl, hi'⟩ | ⟨-, hi'⟩
    · rw [hi']
      exact (List.nodup_append.mp (hg.nodup i')).2.1
    · rw [hi']
      exact hg.nodup i'
  · unfold Queue.Open
    rw [hjob]
    rcases hand_update hhand i' with ⟨rfl, hi'⟩ | ⟨-, hi'⟩
    · rw [hi'] at hk'
      exact hg.todo i' k' hk'
    · rw [hi'] at hk'
      exact hg.todo i' k' hk'
  · rcases hand_update hhand i' with ⟨-, hi'⟩ | ⟨-, hi'⟩
    · rw [hi'] at hk'
      cases hk'
    · rw [hi'] at hk' ⊢
      rw [hjob, htried]
      exact hg.current i' k' hk'
  · rw [hjob] at hj'
    rw [htried]
    refine hg.counted k' j' hj' hdone' fun i' hc => ?_
    rcases hand_update hhand i' with ⟨rfl, -⟩ | ⟨-, hi'⟩
    · rw [hcurrent] at hc
      cases hc
      rw [hj] at hj'
      cases hj'
      rw [hdone hwritten] at hdone'
      cases hdone'
    · apply hfree i'
      rw [hi']
      exact hc
  · rw [htried]
    exact hg.tries
  · rw [hjob]
    exact hg.attempts

/-- A try fails, and the job counts it. -/
theorem Good.fail (hg : Good limit q) (hq : Exclusive q) (hcurrent : (q.hand i).current = some k)
    (hhand : q'.hand = Function.update q.hand i { todo := (q.hand i).todo })
    (hjob : q'.job = Function.update q.job k
      ((q.job k).map fun j => { j with attempts := j.attempts + 1 }))
    (htried : q'.tried = q.tried) : Good limit q' := by
  obtain ⟨j, hj, hlt, hcount, -⟩ := hg.current i k hcurrent
  obtain ⟨hself, hsame⟩ := job_update hjob hj
  refine ⟨fun i' => ?_, fun i' k' hk' => ?_, fun i' k' hk' => ?_, fun k' j' hj' hdone' hfree => ?_,
    fun k' => ?_, fun k' j' hj' => ?_⟩
  · rcases hand_update hhand i' with ⟨rfl, hi'⟩ | ⟨-, hi'⟩
    · rw [hi']
      exact (List.nodup_append.mp (hg.nodup i')).2.1
    · rw [hi']
      exact hg.nodup i'
  · have hk' : k' ∈ (q.hand i').todo := by
      rcases hand_update hhand i' with ⟨rfl, hi'⟩ | ⟨-, hi'⟩
      · rwa [hi'] at hk'
      · rwa [hi'] at hk'
    unfold Queue.Open
    rw [hsame k' (hg.alone hq hcurrent (mem_keys.mpr (Or.inr hk')) (Or.inr hk'))]
    exact hg.todo i' k' hk'
  · rcases hand_update hhand i' with ⟨-, hi'⟩ | ⟨hi, hi'⟩
    · rw [hi'] at hk'
      cases hk'
    · rw [hi'] at hk' ⊢
      rw [htried, hsame k' (hg.alone hq hcurrent (mem_keys.mpr (Or.inl hk')) (Or.inl hi))]
      exact hg.current i' k' hk'
  · rw [htried]
    by_cases hother : k' = k
    · subst hother
      rw [hself] at hj'
      cases hj'
      exact hcount
    · rw [hsame k' hother] at hj'
      refine hg.counted k' j' hj' hdone' fun i' hc => ?_
      rcases hand_update hhand i' with ⟨rfl, -⟩ | ⟨-, hi'⟩
      · rw [hcurrent] at hc
        cases hc
        exact hother rfl
      · apply hfree i'
        rw [hi']
        exact hc
  · rw [htried]
    exact hg.tries k'
  · exact attempts_update hg hself hsame hlt k' j' hj'

end

end work_queue
