-- Runs of a system whose steps are functions. An action that is not enabled gives `none`, and
-- the run ends there. What every step keeps holds along every run.
import Mathlib.Init

namespace runs

universe u

variable {State : Type} {Action : Type u} (step : State → Action → Option State)

/-! ## Runs and what holds along them -/

/-- The state after the actions. -/
def run : State → List Action → Option State
  | s, [] => some s
  | s, a :: actions => (step s a).bind fun s' => run s' actions

/-- Every action of the run meets a condition on the state it is taken in. -/
def Guarded (ok : State → Action → Prop) : State → List Action → Prop
  | _, [] => True
  | s, a :: actions => ok s a ∧ ∀ s', step s a = some s' → Guarded ok s' actions

/-- Every state that the run reaches has the property. -/
def Always (P : State → Prop) : State → List Action → Prop
  | s, [] => P s
  | s, a :: actions => P s ∧ ∀ s', step s a = some s' → Always P s' actions

/-- Every step that the run takes has the property. -/
def EveryStep (P : State → Action → State → Prop) : State → List Action → Prop
  | _, [] => True
  | s, a :: actions => ∀ s', step s a = some s' → P s a s' ∧ EveryStep P s' actions

/-- The run takes the action in the state, after the actions before it. -/
def Takes (s : State) (actions before : List Action) (s₁ : State) (a : Action) : Prop :=
  (∃ after, actions = before ++ a :: after) ∧ run step s before = some s₁

/-- A guard that can be computed is computed along the run. -/
instance Guarded.decidable (ok : State → Action → Prop) [∀ s a, Decidable (ok s a)] :
    ∀ s actions, Decidable (Guarded step ok s actions)
  | _, [] => isTrue trivial
  | s, a :: actions =>
    match h : step s a with
    | none => decidable_of_iff (ok s a) ⟨fun hok => ⟨hok, fun s' hs => by simp [h] at hs⟩, And.left⟩
    | some s' =>
      have := Guarded.decidable ok s' actions
      decidable_of_iff (ok s a ∧ Guarded step ok s' actions)
        ⟨fun hok => ⟨hok.1, fun s'' hs => by
          rw [h] at hs
          exact Option.some.inj hs ▸ hok.2⟩, fun hok => ⟨hok.1, hok.2 s' h⟩⟩

/-- A property of the steps that can be computed is computed along the run. -/
instance EveryStep.decidable (Q : State → Action → State → Prop)
    [∀ s a s', Decidable (Q s a s')] : ∀ s actions, Decidable (EveryStep step Q s actions)
  | _, [] => isTrue trivial
  | s, a :: actions =>
    match h : step s a with
    | none => isTrue fun s' hs => by simp [h] at hs
    | some s' =>
      have := EveryStep.decidable Q s' actions
      decidable_of_iff (Q s a s' ∧ EveryStep step Q s' actions)
        ⟨fun hQ s'' hs => by
          rw [h] at hs
          exact Option.some.inj hs ▸ hQ, fun hQ => hQ s' h⟩

theorem run_append (s : State) (before after : List Action) :
    run step s (before ++ after) = (run step s before).bind fun s' => run step s' after := by
  induction before generalizing s with
  | nil => rfl
  | cons a before ih =>
    simp only [List.cons_append, run, ih, Option.bind_assoc]

theorem guarded_of_forall {ok : State → Action → Prop} (hok : ∀ s a, ok s a) (s : State)
    (actions : List Action) : Guarded step ok s actions := by
  induction actions generalizing s with
  | nil => trivial
  | cons a actions ih => exact ⟨hok s a, fun s' _ => ih s'⟩

/-! ## The steps of a run -/

section
variable {step} {s s' s₁ : State} {actions before : List Action} {a b : Action}

theorem Takes.mem (h : Takes step s actions before s₁ a) : a ∈ actions := by
  obtain ⟨⟨after, rfl⟩, -⟩ := h
  exact List.mem_append_right _ List.mem_cons_self

theorem takes_first : Takes step s (a :: actions) [] s a := ⟨⟨actions, rfl⟩, rfl⟩

theorem Takes.later (h : Takes step s' actions before s₁ b) (hstep : step s a = some s') :
    Takes step s (a :: actions) (a :: before) s₁ b := by
  obtain ⟨⟨after, rfl⟩, hrun⟩ := h
  refine ⟨⟨after, rfl⟩, ?_⟩
  unfold run
  rw [hstep]
  exact hrun

end

/-! ## The invariant rules -/

section
variable {step} {Inv P : State → Prop} {Q : State → Action → State → Prop}
  {ok : State → Action → Prop}

theorem always_of_invariant (hP : ∀ s, Inv s → P s)
    (hstep : ∀ s a s', Inv s → ok s a → step s a = some s' → Inv s') {s : State}
    {actions : List Action} (hs : Inv s) (hok : Guarded step ok s actions) :
    Always step P s actions := by
  induction actions generalizing s with
  | nil => exact hP s hs
  | cons a actions ih =>
    refine ⟨hP s hs, fun s' h => ?_⟩
    exact ih (hstep s a s' hs hok.1 h) (hok.2 s' h)

theorem every_step_of_invariant (hQ : ∀ s a s', Inv s → ok s a → step s a = some s' → Q s a s')
    (hstep : ∀ s a s', Inv s → ok s a → step s a = some s' → Inv s') {s : State}
    {actions : List Action} (hs : Inv s) (hok : Guarded step ok s actions) :
    EveryStep step Q s actions := by
  induction actions generalizing s with
  | nil => trivial
  | cons a actions ih =>
    intro s' h
    exact ⟨hQ s a s' hs hok.1 h, ih (hstep s a s' hs hok.1 h) (hok.2 s' h)⟩

theorem Always.first {s : State} {actions : List Action} (h : Always step P s actions) : P s := by
  cases actions with
  | nil => exact h
  | cons a actions => exact h.1

/-- Where each step keeps the property exactly when it is taken under the guard, a run keeps it
exactly when the run is guarded. -/
theorem always_iff_guarded (hnone : ∀ s a, step s a = none → ok s a)
    (hiff : ∀ s a s', Inv s → P s → step s a = some s' → (P s' ↔ ok s a))
    (hinv : ∀ s a s', Inv s → P s → ok s a → step s a = some s' → Inv s') {s : State}
    {actions : List Action} (hs : Inv s) (hP : P s) :
    Always step P s actions ↔ Guarded step ok s actions := by
  induction actions generalizing s with
  | nil => exact ⟨fun _ => trivial, fun _ => hP⟩
  | cons a actions ih =>
    cases hstep : step s a with
    | none =>
      constructor
      · intro _
        refine ⟨hnone s a hstep, fun s' h => ?_⟩
        rw [hstep] at h
        cases h
      · intro _
        refine ⟨hP, fun s' h => ?_⟩
        rw [hstep] at h
        cases h
    | some s₁ =>
      have hfirst := hiff s a s₁ hs hP hstep
      have hrest (hok : ok s a) : Always step P s₁ actions ↔ Guarded step ok s₁ actions :=
        ih (hinv s a s₁ hs hP hok hstep) (hfirst.mpr hok)
      constructor
      · rintro ⟨-, h⟩
        have hok := hfirst.mp (h s₁ hstep).first
        refine ⟨hok, fun s' hs' => ?_⟩
        rw [hstep] at hs'
        cases hs'
        exact (hrest hok).mp (h s₁ hstep)
      · rintro ⟨hok, h⟩
        refine ⟨hP, fun s' hs' => ?_⟩
        rw [hstep] at hs'
        cases hs'
        exact (hrest hok).mpr (h s₁ hstep)

/-- The same for a property of the steps. Only guarded steps have to keep the invariant. -/
theorem every_step_iff_guarded (hnone : ∀ s a, step s a = none → ok s a)
    (hiff : ∀ s a s', Inv s → step s a = some s' → (Q s a s' ↔ ok s a))
    (hinv : ∀ s a s', Inv s → ok s a → step s a = some s' → Inv s') {s : State}
    {actions : List Action} (hs : Inv s) :
    EveryStep step Q s actions ↔ Guarded step ok s actions := by
  induction actions generalizing s with
  | nil => exact Iff.rfl
  | cons a actions ih =>
    cases hstep : step s a with
    | none =>
      constructor
      · intro _
        refine ⟨hnone s a hstep, fun s' h => ?_⟩
        rw [hstep] at h
        cases h
      · intro _ s' h
        rw [hstep] at h
        cases h
    | some s₁ =>
      have hfirst := hiff s a s₁ hs hstep
      have hrest (hok : ok s a) : EveryStep step Q s₁ actions ↔ Guarded step ok s₁ actions :=
        ih (hinv s a s₁ hs hok hstep)
      constructor
      · intro h
        obtain ⟨hQ, h⟩ := h s₁ hstep
        have hok := hfirst.mp hQ
        refine ⟨hok, fun s' hs' => ?_⟩
        rw [hstep] at hs'
        cases hs'
        exact (hrest hok).mp h
      · rintro ⟨hok, h⟩ s' hs'
        rw [hstep] at hs'
        cases hs'
        exact ⟨hfirst.mpr hok, (hrest hok).mpr (h s₁ hstep)⟩

/-- The property holds of a step in the middle of a run. -/
theorem EveryStep.at {s t t' : State} {before after : List Action} {a : Action}
    (h : EveryStep step Q s (before ++ a :: after)) (hrun : run step s before = some t)
    (hstep : step t a = some t') : Q t a t' := by
  induction before generalizing s with
  | nil =>
    cases hrun
    exact (h t' hstep).1
  | cons b before ih =>
    obtain ⟨s₁, hs₁, hrun⟩ := Option.bind_eq_some_iff.mp hrun
    exact ih (h s₁ hs₁).2 hrun

/-- The property holds at the end of a run along which it always holds. -/
theorem Always.last {s s' : State} {actions : List Action} (h : Always step P s actions)
    (hrun : run step s actions = some s') : P s' := by
  induction actions generalizing s with
  | nil =>
    cases hrun
    exact h
  | cons a actions ih =>
    unfold run at hrun
    cases hs : step s a with
    | none =>
      rw [hs] at hrun
      cases hrun
    | some s₁ =>
      rw [hs] at hrun
      exact ih (h.2 s₁ hs) hrun

/-- A count that every guarded step takes some off is gone after enough steps. -/
theorem run_lowers {count : State → Nat} {cap : Nat}
    (hstep : ∀ s a s', ok s a → step s a = some s' → count s' ≤ count s - cap) {s s' : State}
    {actions : List Action} (hok : Guarded step ok s actions)
    (hrun : run step s actions = some s') : count s' ≤ count s - cap * actions.length := by
  induction actions generalizing s with
  | nil =>
    cases hrun
    exact Nat.le_refl _
  | cons a actions ih =>
    obtain ⟨s₁, hs₁, hrun⟩ := Option.bind_eq_some_iff.mp hrun
    have hfirst := hstep s a s₁ hok.1 hs₁
    have hrest := ih (hok.2 s₁ hs₁) hrun
    rw [List.length_cons, Nat.mul_succ]
    omega

theorem run_total (hstep : ∀ s a, ∃ s', step s a = some s') (s : State) (actions : List Action) :
    ∃ s', run step s actions = some s' := by
  induction actions generalizing s with
  | nil => exact ⟨s, rfl⟩
  | cons a actions ih =>
    obtain ⟨s₁, hs₁⟩ := hstep s a
    unfold run
    rw [hs₁]
    exact ih s₁

/-- A state stays as it is along a run if no action of the run changes it. -/
theorem always_eq_iff (hstep : ∀ s a, ∃ s', step s a = some s') {s : State}
    {actions : List Action} :
    Always step (· = s) s actions ↔ ∀ a ∈ actions, ∀ s', step s a = some s' → s' = s := by
  induction actions with
  | nil => simp [Always]
  | cons a actions ih =>
    rw [List.forall_mem_cons, ← ih]
    obtain ⟨s₁, hs₁⟩ := hstep s a
    constructor
    · rintro ⟨-, h⟩
      have hrest := h s₁ hs₁
      have hsame : s₁ = s := hrest.first
      subst hsame
      refine ⟨fun s' hs' => ?_, hrest⟩
      rw [hs₁] at hs'
      exact (Option.some.inj hs').symm
    · rintro ⟨hsame, h⟩
      refine ⟨rfl, fun s' hs' => ?_⟩
      rw [hsame s' hs']
      exact h

/-- Two runs that look the same to an observer end in states that look the same, if each step
keeps it so. -/
theorem views_agree {View : Type} {Mask : Type u} {view : State → View} {mask : Action → Mask}
    (hstep : ∀ {s₁ s₂ a₁ a₂ s₁' s₂'}, view s₁ = view s₂ → mask a₁ = mask a₂ → ok s₁ a₁ → ok s₂ a₂ →
      step s₁ a₁ = some s₁' → step s₂ a₂ = some s₂' → view s₁' = view s₂')
    {s₁ s₂ s₁' s₂' : State} {actions₁ actions₂ : List Action} (hview : view s₁ = view s₂)
    (hmask : actions₁.map mask = actions₂.map mask) (hok₁ : Guarded step ok s₁ actions₁)
    (hok₂ : Guarded step ok s₂ actions₂) (hrun₁ : run step s₁ actions₁ = some s₁')
    (hrun₂ : run step s₂ actions₂ = some s₂') : view s₁' = view s₂' := by
  induction actions₁ generalizing s₁ s₂ actions₂ with
  | nil =>
    rw [List.map_nil, eq_comm, List.map_eq_nil_iff] at hmask
    subst hmask
    cases hrun₁
    cases hrun₂
    exact hview
  | cons a₁ actions₁ ih =>
    cases actions₂ with
    | nil => cases hmask
    | cons a₂ actions₂ =>
      rw [List.map_cons, List.map_cons, List.cons.injEq] at hmask
      obtain ⟨t₁, ht₁, hrun₁⟩ := Option.bind_eq_some_iff.mp hrun₁
      obtain ⟨t₂, ht₂, hrun₂⟩ := Option.bind_eq_some_iff.mp hrun₂
      exact ih (hstep hview hmask.1 hok₁.1 hok₂.1 ht₁ ht₂) hmask.2 (hok₁.2 t₁ ht₁)
        (hok₂.2 t₂ ht₂) hrun₁ hrun₂

/-- The same, where each step can be followed from what the observer sees alone. -/
theorem views_agree_of_followed {view : State → State} {mask : Action → Action}
    (hfollow : ∀ {s a s'}, ok s a → step s a = some s' →
      ∃ t, step (view s) (mask a) = some t ∧ view t = view s')
    {s₁ s₂ s₁' s₂' : State} {actions₁ actions₂ : List Action} (hview : view s₁ = view s₂)
    (hmask : actions₁.map mask = actions₂.map mask) (hok₁ : Guarded step ok s₁ actions₁)
    (hok₂ : Guarded step ok s₂ actions₂) (hrun₁ : run step s₁ actions₁ = some s₁')
    (hrun₂ : run step s₂ actions₂ = some s₂') : view s₁' = view s₂' := by
  refine views_agree (fun hview hmask hok₁ hok₂ h₁ h₂ => ?_) hview hmask hok₁ hok₂ hrun₁ hrun₂
  obtain ⟨t₁, ht₁, hv₁⟩ := hfollow hok₁ h₁
  obtain ⟨t₂, ht₂, hv₂⟩ := hfollow hok₂ h₂
  rw [hview, hmask, ht₂] at ht₁
  cases ht₁
  exact hv₁.symm.trans hv₂

/-! ## Runs of two systems -/

theorem Guarded.append {s s' : State} {before after : List Action} (h : Guarded step ok s before)
    (hrun : run step s before = some s') (h' : Guarded step ok s' after) :
    Guarded step ok s (before ++ after) := by
  induction before generalizing s with
  | nil =>
    cases hrun
    exact h'
  | cons a before ih =>
    obtain ⟨s₁, hs₁, hrun⟩ := Option.bind_eq_some_iff.mp hrun
    refine ⟨h.1, fun s₂ hs₂ => ?_⟩
    rw [hs₁] at hs₂
    cases hs₂
    exact ih (h.2 s₁ hs₁) hrun

/-- If every guarded step is followed by a guarded run of another system, so is every run. -/
theorem run_simulated {State' : Type} {Action' : Type u}
    {step' : State' → Action' → Option State'} {ok' : State' → Action' → Prop}
    {R : State → State' → Prop}
    (hstep : ∀ s a s₁ t, R s t → ok s a → step s a = some s₁ →
      ∃ actions t₁, Guarded step' ok' t actions ∧ run step' t actions = some t₁ ∧ R s₁ t₁)
    {s s' : State} {t : State'} {actions : List Action} (hR : R s t)
    (hok : Guarded step ok s actions) (hrun : run step s actions = some s') :
    ∃ actions' t', Guarded step' ok' t actions' ∧ run step' t actions' = some t' ∧ R s' t' := by
  induction actions generalizing s t with
  | nil =>
    cases hrun
    exact ⟨[], t, trivial, rfl, hR⟩
  | cons a actions ih =>
    obtain ⟨s₁, hs₁, hrun⟩ := Option.bind_eq_some_iff.mp hrun
    obtain ⟨before, t₁, hbefore, hrun₁, hR₁⟩ := hstep s a s₁ t hR hok.1 hs₁
    obtain ⟨after, t', hafter, hrun', hR'⟩ := ih hR₁ (hok.2 s₁ hs₁) hrun
    refine ⟨before ++ after, t', hbefore.append hrun₁ hafter, ?_, hR'⟩
    rw [run_append, hrun₁]
    exact hrun'

/-! ## A run without some of its actions -/

/-- A run, and the run without the actions that are not kept. Their states stay related while the
run is guarded, and once it is not, they stay apart. -/
theorem run_without {keep : Action → Bool} {Same Apart : State → State → Prop}
    {actions : List Action}
    (hsame : ∀ a ∈ actions, ∀ s t s', Same s t → step s a = some s' →
      ∃ t', (if keep a then step t a else some t) = some t' ∧
        ((ok s a ∧ Same s' t') ∨ (¬ ok s a ∧ Apart s' t')))
    (hapart : ∀ a ∈ actions, ∀ s t s', Apart s t → step s a = some s' →
      ∃ t', (if keep a then step t a else some t) = some t' ∧ Apart s' t')
    {s s' : State} (hrun : run step s actions = some s') (t : State) :
    (Apart s t → ∃ t', run step t (actions.filter keep) = some t' ∧ Apart s' t') ∧
      (Same s t → ∃ t', run step t (actions.filter keep) = some t' ∧
        ((Guarded step ok s actions ∧ Same s' t') ∨
          (¬ Guarded step ok s actions ∧ Apart s' t'))) := by
  induction actions generalizing s t with
  | nil =>
    cases hrun
    exact ⟨fun h => ⟨t, rfl, h⟩, fun h => ⟨t, rfl, Or.inl ⟨trivial, h⟩⟩⟩
  | cons a actions ih =>
    rw [List.forall_mem_cons] at hsame hapart
    have ih := fun {s} hrun => ih hsame.2 hapart.2 (s := s) hrun
    obtain ⟨s₁, hs₁, hrun⟩ := Option.bind_eq_some_iff.mp hrun
    -- What the shorter run does is one step when the action is kept, and nothing otherwise.
    have hfilter : ∀ t₁, (if keep a then step t a else some t) = some t₁ →
        run step t ((a :: actions).filter keep) = run step t₁ (actions.filter keep) := by
      intro t₁ ht₁
      cases hkeep : keep a with
      | true =>
        rw [hkeep, if_pos rfl] at ht₁
        rw [List.filter_cons_of_pos hkeep]
        simp only [run, ht₁, Option.bind_some]
      | false =>
        rw [hkeep, if_neg (by simp)] at ht₁
        cases ht₁
        rw [List.filter_cons_of_neg (by simp [hkeep])]
    have hguard : Guarded step ok s (a :: actions) ↔ ok s a ∧ Guarded step ok s₁ actions := by
      simp [Guarded, hs₁]
    constructor
    · intro h
      obtain ⟨t₁, ht₁, h₁⟩ := hapart.1 s t s₁ h hs₁
      rw [hfilter t₁ ht₁]
      exact (ih hrun t₁).1 h₁
    · intro h
      obtain ⟨t₁, ht₁, ⟨hok, h₁⟩ | ⟨hok, h₁⟩⟩ := hsame.1 s t s₁ h hs₁
      · rw [hfilter t₁ ht₁, hguard]
        simp only [hok, true_and]
        exact (ih hrun t₁).2 h₁
      · rw [hfilter t₁ ht₁, hguard]
        obtain ⟨t', ht', h'⟩ := (ih hrun t₁).1 h₁
        exact ⟨t', ht', Or.inr ⟨fun hg => hok hg.1, h'⟩⟩

/-- A check that the end of a run fails shows that the property does not always hold. -/
theorem not_always_of_check {check : State → Bool} (hcheck : ∀ s, check s = true → ¬ P s)
    {s : State} {actions : List Action} (hrun : (run step s actions).map check = some true) :
    ¬ Always step P s actions := by
  intro h
  obtain ⟨s', hs', hc⟩ := Option.map_eq_some_iff.mp hrun
  exact hcheck s' hc (h.last hs')

end

end runs
