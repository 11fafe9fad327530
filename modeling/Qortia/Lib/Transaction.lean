-- Code that sends statements to a database inside a transaction. Any statement may raise, and so
-- may the COMMIT. An exception leaves the work of the statements before it in the connection, and
-- the transaction throws it away.
import Mathlib.Init

namespace transaction

variable {State Error α β : Type}

/-- What the connection sees, and how many statements it has sent. -/
structure Connection (State : Type) where
  state : State
  sent : Nat := 0

/-- The statements that raise. -/
abbrev Faults (Error : Type) := Nat → Option Error

abbrev Script (State Error : Type) := ExceptT Error (StateM (Connection State))

/-- One statement: what it returns, and what it makes of the tables. -/
def statement (raises : Faults Error) (f : State → α × State) : Script State Error α :=
  fun c => match raises c.sent with
    | some e => (.error e, { c with sent := c.sent + 1 })
    | none => (.ok (f c.state).1, { state := (f c.state).2, sent := c.sent + 1 })

/-- Code that sends no statement. -/
def compute (x : Except Error α) : Script State Error α := fun c => (x, c)

/-- `async with conn.transaction()`. -/
def atomically (raises : Faults Error) (body : Script State Error α) (s : State) :
    Except Error α × State :=
  match body { state := s } with
  | (.error e, _) => (.error e, s)
  | (.ok a, c) =>
    match raises c.sent with
    | some e => (.error e, s)
    | none => (.ok a, c.state)

/-! ## What a script that returns has done -/

theorem bind_eq (x : Script State Error α) (f : α → Script State Error β)
    (c : Connection State) :
    (x >>= f) c = match x c with
      | (.ok a, c') => f a c'
      | (.error e, c') => (.error e, c') := by
  simp only [bind, ExceptT.bind, ExceptT.mk, ExceptT.bindCont, StateT.bind]
  cases x c with
  | mk a c' =>
    cases a with
    | ok a => rfl
    | error e => rfl

theorem bind_ok {x : Script State Error α} {f : α → Script State Error β}
    {c c' : Connection State} {b : β} (h : (x >>= f) c = (.ok b, c')) :
    ∃ a c₁, x c = (.ok a, c₁) ∧ f a c₁ = (.ok b, c') := by
  rw [bind_eq] at h
  cases hx : x c with
  | mk a c₁ =>
    rw [hx] at h
    cases a with
    | ok a => exact ⟨a, c₁, rfl, h⟩
    | error e => cases h

theorem statement_ok {raises : Faults Error} {f : State → α × State} {c c' : Connection State}
    {a : α} (h : statement raises f c = (.ok a, c')) : f c.state = (a, c'.state) := by
  unfold statement at h
  split at h
  · cases h
  · cases h
    rfl

theorem statement_runs {raises : Faults Error} {f : State → α × State} {c : Connection State}
    (h : raises c.sent = none) :
    statement raises f c = (.ok (f c.state).1, { state := (f c.state).2, sent := c.sent + 1 }) := by
  unfold statement
  rw [h]

theorem bind_runs {x : Script State Error α} {f : α → Script State Error β}
    {c c' : Connection State} {a : α} (h : x c = (.ok a, c')) : (x >>= f) c = f a c' := by
  rw [bind_eq, h]

theorem compute_ok {x : Except Error α} {c c' : Connection State} {a : α}
    (h : compute x c = (.ok a, c')) : x = .ok a ∧ c' = c := by
  cases h
  exact ⟨rfl, rfl⟩

/-- A transaction fails and changes nothing, or it has run all its statements. -/
theorem atomically_cases {raises : Faults Error} {body : Script State Error α} {s s' : State}
    {result : Except Error α} (h : atomically raises body s = (result, s')) :
    (∃ e, result = .error e ∧ s' = s) ∨
      ∃ a c, result = .ok a ∧ body { state := s } = (.ok a, c) ∧ s' = c.state := by
  unfold atomically at h
  split at h
  · cases h
    exact .inl ⟨_, rfl, rfl⟩
  · rename_i a c hbody
    split at h
    · cases h
      exact .inl ⟨_, rfl, rfl⟩
    · cases h
      exact .inr ⟨a, c, rfl, hbody, rfl⟩

/-! ## A script and the function that it computes -/

/-- A run of `x` that returns has done what `f` says. When no statement raises, `x` ends as `f`
says. -/
structure Does (raises : Faults Error) (x : Script State Error α)
    (f : State → Except Error (α × State)) : Prop where
  done : ∀ {c c' : Connection State} {a : α}, x c = (.ok a, c') → f c.state = .ok (a, c'.state)
  returns : (∀ n, raises n = none) → ∀ {s s' : State} {a : α}, f s = .ok (a, s') →
    ∀ n, ∃ n', x ⟨s, n⟩ = (.ok a, ⟨s', n'⟩)
  raised : (∀ n, raises n = none) → ∀ {s : State} {e : Error}, f s = .error e →
    ∀ n, ∃ c, x ⟨s, n⟩ = (.error e, c)

variable {raises : Faults Error}

theorem does_statement (f : State → α × State) :
    Does raises (statement raises f) (fun s => .ok (f s)) where
  done h := congrArg Except.ok (statement_ok h)
  returns hnone s s' a h n := by
    have hf := Except.ok.inj h
    refine ⟨n + 1, ?_⟩
    rw [statement_runs (hnone n), hf]
  raised _ _ _ h := nomatch h

theorem does_compute (x : Except Error α) :
    Does raises (compute x : Script State Error α) (fun s => x.map fun a => (a, s)) where
  done h := by
    obtain ⟨rfl, rfl⟩ := compute_ok h
    rfl
  returns _ s s' a h n := by
    cases x with
    | ok b =>
      cases h
      exact ⟨n, rfl⟩
    | error e => cases h
  raised _ s e h n := by
    cases x with
    | ok b => cases h
    | error e' =>
      cases h
      exact ⟨_, rfl⟩

/-- One script after the other. -/
theorem Does.bind {x : Script State Error α} {f : State → Except Error (α × State)}
    {y : α → Script State Error β} {g : α → State → Except Error (β × State)}
    (hx : Does raises x f) (hy : ∀ a, Does raises (y a) (g a)) :
    Does raises (x >>= y) (fun s => f s >>= fun r => g r.1 r.2) where
  done h := by
    obtain ⟨a, c₁, hxc, hyc⟩ := transaction.bind_ok h
    simp only [hx.done hxc, Bind.bind, Except.bind]
    exact (hy a).done hyc
  returns hnone s s' b h n := by
    cases hf : f s with
    | error e =>
      rw [hf] at h
      cases h
    | ok r =>
      rw [hf] at h
      obtain ⟨n₁, hxs⟩ := hx.returns hnone hf n
      rw [bind_runs hxs]
      exact (hy r.1).returns hnone h n₁
  raised hnone s e h n := by
    cases hf : f s with
    | error e' =>
      rw [hf] at h
      cases h
      obtain ⟨c, hxs⟩ := hx.raised hnone hf n
      exact ⟨c, by rw [bind_eq, hxs]⟩
    | ok r =>
      rw [hf] at h
      obtain ⟨n₁, hxs⟩ := hx.returns hnone hf n
      rw [bind_runs hxs]
      exact (hy r.1).raised hnone h n₁

theorem Does.congr {x : Script State Error α} {f g : State → Except Error (α × State)}
    (hx : Does raises x f) (h : ∀ s, f s = g s) : Does raises x g :=
  (funext h : f = g) ▸ hx

/-- What was committed is what the function says. -/
theorem Does.committed {body : Script State Error α} {f : State → Except Error (α × State)}
    (h : Does raises body f) {s s' : State} {a : α}
    (hrun : atomically raises body s = (.ok a, s')) : f s = .ok (a, s') := by
  rcases atomically_cases hrun with ⟨e, he, -⟩ | ⟨b, c, hb, hbody, rfl⟩
  · cases he
  · cases hb
    exact h.done hbody

/-- When no statement raises, the transaction commits what the function returns. -/
theorem Does.atomically_ok_iff {body : Script State Error α}
    {f : State → Except Error (α × State)} (h : Does (fun _ => none) body f) {s s' : State}
    {a : α} :
    atomically (fun _ => none) body s = (.ok a, s') ↔ f s = .ok (a, s') := by
  constructor
  · exact h.committed
  · intro hf
    obtain ⟨n, hbody⟩ := h.returns (fun _ => rfl) hf 0
    unfold atomically
    rw [hbody]

/-! ## A script and the statements that it sends -/

/-- From the state `s`, the script sends `k s` statements. It ends as `f` says if none of them
raises, and with an exception if one does. -/
structure Sends (raises : Faults Error) (x : Script State Error α) (k : State → Nat)
    (f : State → α × State) : Prop where
  returns : ∀ s n, (∀ i < k s, raises (n + i) = none) →
    x ⟨s, n⟩ = (.ok (f s).1, ⟨(f s).2, n + k s⟩)
  raised : ∀ s n, (∃ i < k s, raises (n + i) ≠ none) → ∃ e c, x ⟨s, n⟩ = (.error e, c)

theorem sends_pure (a : α) :
    Sends raises (pure a : Script State Error α) (fun _ => 0) (fun s => (a, s)) where
  returns _ _ _ := rfl
  raised _ _ h := by
    obtain ⟨i, hi, -⟩ := h
    exact absurd hi (Nat.not_lt_zero i)

theorem sends_statement (f : State → α × State) :
    Sends raises (statement raises f) (fun _ => 1) f where
  returns s n h := statement_runs (h 0 Nat.zero_lt_one)
  raised s n h := by
    obtain ⟨i, hi, hraises⟩ := h
    rw [Nat.lt_one_iff.mp hi] at hraises
    unfold statement
    cases hn : raises n with
    | none => exact absurd hn hraises
    | some e => exact ⟨e, _, rfl⟩

theorem Sends.bind {x : Script State Error α} {y : α → Script State Error β} {k : State → Nat}
    {m : α → State → Nat} {f : State → α × State} {g : α → State → β × State}
    (hx : Sends raises x k f) (hy : ∀ a, Sends raises (y a) (m a) (g a)) :
    Sends raises (x >>= y) (fun s => k s + m (f s).1 (f s).2) (fun s => g (f s).1 (f s).2) where
  returns s n h := by
    rw [bind_runs (hx.returns s n fun i hi => h i (by omega)),
      (hy _).returns _ _ fun i hi => by rw [Nat.add_assoc]; exact h _ (by omega), Nat.add_assoc]
  raised s n h := by
    obtain ⟨i, hi, hraises⟩ := h
    by_cases hfirst : ∃ i < k s, raises (n + i) ≠ none
    · obtain ⟨e, c, hxs⟩ := hx.raised s n hfirst
      exact ⟨e, c, by rw [bind_eq, hxs]⟩
    · have hnone : ∀ i < k s, raises (n + i) = none := fun i hi =>
        Classical.not_not.mp fun hne => hfirst ⟨i, hi, hne⟩
      rw [bind_runs (hx.returns s n hnone)]
      -- The statement that raises is one of the second script.
      have hle : k s ≤ i := Nat.le_of_not_lt fun hlt => hraises (hnone i hlt)
      apply (hy _).raised
      refine ⟨i - k s, by omega, ?_⟩
      rw [show n + k s + (i - k s) = n + i by omega]
      exact hraises

theorem Sends.ite {c : Prop} [Decidable c] {x y : Script State Error α} {k m : State → Nat}
    {f g : State → α × State} (hx : Sends raises x k f) (hy : Sends raises y m g) :
    Sends raises (if c then x else y) (fun s => if c then k s else m s)
      (fun s => if c then f s else g s) := by
  by_cases hc : c
  · simpa only [if_pos hc] using hx
  · simpa only [if_neg hc] using hy

theorem Sends.congr {x : Script State Error α} {k m : State → Nat} {f g : State → α × State}
    (hx : Sends raises x k f) (hk : ∀ s, k s = m s) (hf : ∀ s, f s = g s) :
    Sends raises x m g := by
  rw [← funext hk, ← funext hf]
  exact hx

/-- The COMMIT is one more statement. -/
theorem Sends.commits {body : Script State Error α} {k : State → Nat} {f : State → α × State}
    (h : Sends raises body k f) {s : State} (hnone : ∀ i ≤ k s, raises i = none) :
    atomically raises body s = (.ok (f s).1, (f s).2) := by
  have hbody := h.returns s 0 fun i hi => by
    rw [Nat.zero_add]
    exact hnone i (Nat.le_of_lt hi)
  rw [Nat.zero_add] at hbody
  unfold atomically
  rw [hbody]
  simp only [hnone (k s) (Nat.le_refl _)]

theorem Sends.rolls_back {body : Script State Error α} {k : State → Nat} {f : State → α × State}
    (h : Sends raises body k f) {s : State} (hraises : ∃ i ≤ k s, raises i ≠ none) :
    ∃ e, atomically raises body s = (.error e, s) := by
  unfold atomically
  by_cases hfirst : ∃ i < k s, raises i ≠ none
  · have hshift : ∃ i < k s, raises (0 + i) ≠ none := by
      simpa only [Nat.zero_add] using hfirst
    obtain ⟨e, c, hbody⟩ := h.raised s 0 hshift
    exact ⟨e, by rw [hbody]⟩
  · have hnone : ∀ i < k s, raises (0 + i) = none := by
      intro i hi
      rw [Nat.zero_add]
      exact Classical.not_not.mp fun hne => hfirst ⟨i, hi, hne⟩
    have hbody := h.returns s 0 hnone
    rw [Nat.zero_add] at hbody
    obtain ⟨i, hi, hne⟩ := hraises
    have hlast : i = k s :=
      Nat.le_antisymm hi (Nat.le_of_not_lt fun hlt => hfirst ⟨i, hlt, hne⟩)
    subst hlast
    rw [hbody]
    cases he : raises (k s) with
    | none => exact absurd he hne
    | some e => exact ⟨e, by simp only [he]⟩

end transaction
