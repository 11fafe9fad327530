-- Computations that return a value or raise an exception: what holds at each of the two ends,
-- with a rule for a sequence, for a handler and for a loop.
import Mathlib.Data.List.Basic

namespace raising

variable {ε ε' α β : Type}

/-- The computation returns a value of `ret`, or raises an exception of `exc`. -/
def Ends (x : Except ε α) (ret : α → Prop) (exc : ε → Prop) : Prop :=
  match x with
  | .ok a => ret a
  | .error e => exc e

/-- `try: x except: h`, where the handler may raise exceptions of another kind. -/
def handle (x : Except ε α) (h : ε → Except ε' α) : Except ε' α :=
  match x with
  | .ok a => .ok a
  | .error e => h e

def Returns (x : Except ε α) : Prop := ∃ a, x = .ok a

/-! ## One end at a time -/

@[simp] theorem ends_ok (a : α) (ret : α → Prop) (exc : ε → Prop) :
    Ends (.ok a) ret exc ↔ ret a := Iff.rfl

@[simp] theorem ends_pure (a : α) (ret : α → Prop) (exc : ε → Prop) :
    Ends (pure a : Except ε α) ret exc ↔ ret a := Iff.rfl

@[simp] theorem ends_error (e : ε) (ret : α → Prop) (exc : ε → Prop) :
    Ends (.error e) ret exc ↔ exc e := Iff.rfl

@[simp] theorem ends_throw (e : ε) (ret : α → Prop) (exc : ε → Prop) :
    Ends (throw e : Except ε α) ret exc ↔ exc e := Iff.rfl

@[simp] theorem returns_ok (a : α) : Returns (.ok a : Except ε α) := ⟨a, rfl⟩

@[simp] theorem not_returns_error (e : ε) : ¬ Returns (.error e : Except ε α) := by
  intro h
  obtain ⟨a, h⟩ := h
  cases h

instance : (x : Except ε α) → Decidable (Returns x)
  | .ok a => isTrue (returns_ok a)
  | .error e => isFalse (not_returns_error e)

/-- It returns when it ends and no exception is allowed. -/
theorem returns_iff_ends (x : Except ε α) :
    Returns x ↔ Ends x (fun _ => True) (fun _ => False) := by
  cases x <;> simp

theorem ends_of_forall {ret : α → Prop} {exc : ε → Prop} (hret : ∀ a, ret a) (hexc : ∀ e, exc e)
    (x : Except ε α) : Ends x ret exc := by
  cases x with
  | ok a => exact hret a
  | error e => exact hexc e

/-! ## A sequence and a handler -/

@[simp] theorem ends_bind (x : Except ε α) (f : α → Except ε β) (ret : β → Prop)
    (exc : ε → Prop) :
    Ends (x >>= f) ret exc ↔ Ends x (fun a => Ends (f a) ret exc) exc := by
  cases x <;> exact Iff.rfl

@[simp] theorem ends_map (f : α → β) (x : Except ε α) (ret : β → Prop) (exc : ε → Prop) :
    Ends (f <$> x) ret exc ↔ Ends x (fun a => ret (f a)) exc := by
  cases x <;> exact Iff.rfl

theorem ends_ite (c : Prop) [Decidable c] (x y : Except ε α) (ret : α → Prop) (exc : ε → Prop) :
    Ends (if c then x else y) ret exc ↔ (c → Ends x ret exc) ∧ (¬ c → Ends y ret exc) := by
  by_cases hc : c <;> simp [hc]

@[simp] theorem ends_handle (x : Except ε α) (h : ε → Except ε' α) (ret : α → Prop)
    (exc : ε' → Prop) :
    Ends (handle x h) ret exc ↔ Ends x ret (fun e => Ends (h e) ret exc) := by
  cases x <;> exact Iff.rfl

theorem returns_bind (x : Except ε α) (f : α → Except ε β) :
    Returns (x >>= f) ↔ ∃ a, x = .ok a ∧ Returns (f a) := by
  cases x with
  | error e =>
    refine iff_of_false (not_returns_error e) ?_
    rintro ⟨a, ha, -⟩
    cases ha
  | ok a =>
    constructor
    · intro h
      exact ⟨a, rfl, h⟩
    · rintro ⟨b, hb, h⟩
      cases hb
      exact h

/-- Whether the rest returns does not depend on the value of the first part. -/
theorem returns_bind_iff {x : Except ε α} {f : α → Except ε β} {P : Prop}
    (h : ∀ a, x = .ok a → (Returns (f a) ↔ P)) : Returns (x >>= f) ↔ Returns x ∧ P := by
  rw [returns_bind]
  constructor
  · rintro ⟨a, ha, hf⟩
    exact ⟨⟨a, ha⟩, (h a ha).mp hf⟩
  · rintro ⟨⟨a, ha⟩, hp⟩
    exact ⟨a, ha, (h a ha).mpr hp⟩

/-! ## A loop that stops at the first exception -/

theorem returns_mapM (f : α → Except ε β) (xs : List α) :
    Returns (xs.mapM f) ↔ ∀ x ∈ xs, Returns (f x) := by
  induction xs with
  | nil => simp [List.mapM_nil, Returns, pure, Except.pure]
  | cons x xs ih =>
    rw [List.mapM_cons, returns_bind, List.forall_mem_cons, ← ih]
    constructor
    · rintro ⟨b, hb, h⟩
      obtain ⟨bs, hbs, -⟩ := (returns_bind _ _).mp h
      exact ⟨⟨b, hb⟩, bs, hbs⟩
    · rintro ⟨⟨b, hb⟩, bs, hbs⟩
      exact ⟨b, hb, (returns_bind _ _).mpr ⟨bs, hbs, _, rfl⟩⟩

/-- The loop comes to `x`: everything before it passes. -/
def Reached (passes : α → Prop) (xs : List α) (x : α) : Prop :=
  ∃ before after, xs = before ++ x :: after ∧ ∀ y ∈ before, passes y

@[simp] theorem not_reached_nil (passes : α → Prop) (x : α) : ¬ Reached passes [] x := by
  intro h
  obtain ⟨before, after, h, -⟩ := h
  simp at h

theorem reached_cons (passes : α → Prop) (a : α) (xs : List α) (x : α) :
    Reached passes (a :: xs) x ↔ x = a ∨ (passes a ∧ Reached passes xs x) := by
  constructor
  · intro h
    obtain ⟨before, after, h, hp⟩ := h
    cases before with
    | nil =>
      simp only [List.nil_append, List.cons.injEq] at h
      exact Or.inl h.1.symm
    | cons b before =>
      simp only [List.cons_append, List.cons.injEq] at h
      obtain ⟨rfl, rfl⟩ := h
      have hrest : ∀ y ∈ before, passes y := fun y hy => hp y (List.mem_cons_of_mem _ hy)
      exact Or.inr ⟨hp a List.mem_cons_self, before, after, rfl, hrest⟩
  · rintro (rfl | ⟨ha, before, after, rfl, hp⟩)
    · exact ⟨[], xs, rfl, fun y hy => absurd hy List.not_mem_nil⟩
    · exact ⟨a :: before, after, rfl, List.forall_mem_cons.mpr ⟨ha, hp⟩⟩

/-- A loop whose results are not read: every element that it comes to may raise only what is
allowed, and when all pass the rest follows. -/
theorem ends_mapM (f : α → Except ε β) (xs : List α) (ret : Prop) (exc : ε → Prop) :
    Ends (xs.mapM f) (fun _ => ret) exc ↔
      (∀ x, Reached (fun y => Returns (f y)) xs x → Ends (f x) (fun _ => True) exc) ∧
        ((∀ x ∈ xs, Returns (f x)) → ret) := by
  induction xs with
  | nil => simp
  | cons a xs ih =>
    simp only [List.mapM_cons, ends_bind, ends_pure, reached_cons, List.forall_mem_cons]
    cases hf : f a with
    | error e =>
      simp only [ends_error, not_returns_error, false_and, or_false, forall_eq, hf,
        false_implies, and_true]
    | ok b =>
      simp only [ends_ok, returns_ok, true_and]
      rw [ih]
      constructor
      · intro h
        refine ⟨?_, h.2⟩
        rintro x (rfl | hx)
        · simp [hf]
        · exact h.1 x hx
      · intro h
        exact ⟨fun x hx => h.1 x (Or.inr hx), h.2⟩

/-- A loop that returns has come through a turn for each element. -/
theorem returns_of_foldlM {f : β → α → Except ε β} {xs : List α} {b : β}
    (h : Returns (xs.foldlM f b)) {a : α} (ha : a ∈ xs) : ∃ b', Returns (f b' a) := by
  induction xs generalizing b with
  | nil => cases ha
  | cons x xs ih =>
    rw [List.foldlM_cons, returns_bind] at h
    obtain ⟨b', hb', hrest⟩ := h
    rcases List.mem_cons.mp ha with rfl | ha
    · exact ⟨b, b', hb'⟩
    · exact ih hrest ha

/-- An exception of a loop is one of a turn. -/
theorem turn_of_foldlM_error {f : β → α → Except ε β} {xs : List α} {b : β} {e : ε}
    (h : xs.foldlM f b = .error e) : ∃ a ∈ xs, ∃ b', f b' a = .error e := by
  induction xs generalizing b with
  | nil => cases h
  | cons x xs ih =>
    rw [List.foldlM_cons] at h
    cases hx : f b x with
    | error e' =>
      rw [hx] at h
      cases h
      exact ⟨x, List.mem_cons_self, b, hx⟩
    | ok b' =>
      rw [hx] at h
      obtain ⟨a, ha, b'', herror⟩ := ih h
      exact ⟨a, List.mem_cons_of_mem x ha, b'', herror⟩

end raising
