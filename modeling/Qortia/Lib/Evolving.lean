-- Tables whose rows evolve. A row is made under an id that was not drawn before, it keeps the id
-- and only moves along a preorder, and when it is gone it was removed for a reason.
import Qortia.Lib.Rows
import Qortia.Lib.Runs

namespace evolving

universe u

variable {Row : Type}

/-- What may become of a row: a preorder that keeps the ids. -/
structure Law (Row : Type) where
  id : Row → Nat
  becomes : Row → Row → Prop
  refl : ∀ r, becomes r r
  trans : ∀ {r r' r''}, becomes r r' → becomes r' r'' → becomes r r''
  id_eq : ∀ {r r'}, becomes r r' → id r' = id r

/-- From a table, with the next id to be drawn, to a later one. -/
structure Evolves (L : Law Row) (made removed : Row → Prop) (next : Nat) (t : List Row)
    (next' : Nat) (t' : List Row) : Prop where
  next_le : next ≤ next'
  grown : ∀ r' ∈ t', (∃ r ∈ t, L.becomes r r') ∨
    ∃ r, made r ∧ next ≤ L.id r ∧ L.becomes r r'
  kept : ∀ r ∈ t, (∃ r' ∈ t', L.becomes r r') ∨ removed r

section
variable {L : Law Row} {made made₁ removed removed₁ : Row → Prop} {next next₁ next₂ : Nat}
  {t t₁ t₂ : List Row}

/-! ## The statements -/

theorem Evolves.refl (L : Law Row) (made removed : Row → Prop) (h : next ≤ next₁) (t : List Row) :
    Evolves L made removed next t next₁ t :=
  ⟨h, fun r hr => Or.inl ⟨r, hr, L.refl r⟩, fun r hr => Or.inl ⟨r, hr, L.refl r⟩⟩

theorem Evolves.update {p : Row → Bool} {f : Row → Row} (made removed : Row → Prop) (next : Nat)
    (hf : ∀ r ∈ t, p r = true → L.becomes r (f r)) :
    Evolves L made removed next t next (rows.update p f t) := by
  refine ⟨le_refl next, fun x hx => ?_, fun r hr => ?_⟩
  · obtain ⟨r, hr, ⟨hp, rfl⟩ | ⟨-, rfl⟩⟩ := rows.mem_update.mp hx
    · exact Or.inl ⟨r, hr, hf r hr hp⟩
    · exact Or.inl ⟨x, hr, L.refl x⟩
  · cases hp : p r with
    | true => exact Or.inl ⟨f r, rows.mem_update.mpr ⟨r, hr, Or.inl ⟨hp, rfl⟩⟩, hf r hr hp⟩
    | false => exact Or.inl ⟨r, rows.mem_update.mpr ⟨r, hr, Or.inr ⟨hp, rfl⟩⟩, L.refl r⟩

theorem Evolves.delete {p : Row → Bool} (made : Row → Prop) (next : Nat)
    (hp : ∀ r ∈ t, p r = true → removed r) :
    Evolves L made removed next t next (rows.delete p t) := by
  refine ⟨le_refl next, fun r hr => ?_, fun r hr => ?_⟩
  · exact Or.inl ⟨r, (rows.mem_delete.mp hr).1, L.refl r⟩
  · cases h : p r with
    | true => exact Or.inr (hp r hr h)
    | false => exact Or.inl ⟨r, rows.mem_delete.mpr ⟨hr, h⟩, L.refl r⟩

theorem Evolves.insert (removed : Row → Prop) {new : List Row} (hle : next ≤ next₁)
    (hnew : ∀ r ∈ new, made r ∧ next ≤ L.id r) :
    Evolves L made removed next t next₁ (t ++ new) := by
  refine ⟨hle, fun r hr => ?_, fun r hr => Or.inl ⟨r, List.mem_append_left _ hr, L.refl r⟩⟩
  rcases List.mem_append.mp hr with hold | hlast
  · exact Or.inl ⟨r, hold, L.refl r⟩
  · obtain ⟨hmade, hid⟩ := hnew r hlast
    exact Or.inr ⟨r, hmade, hid, L.refl r⟩

theorem Evolves.upsert {conflict : Row → Bool} {f : Row → Row} {new : Row} (removed : Row → Prop)
    (hle : next ≤ next₁) (hf : ∀ r ∈ t, conflict r = true → L.becomes r (f r))
    (hmade : made new) (hnew : next ≤ L.id new) :
    Evolves L made removed next t next₁ (rows.upsert conflict f new t) := by
  unfold rows.upsert
  split
  · have h := Evolves.update made removed next hf
    exact ⟨hle, h.grown, h.kept⟩
  · apply Evolves.insert removed hle
    intro r hr
    rw [List.mem_singleton.mp hr]
    exact ⟨hmade, hnew⟩

/-! ## One after the other -/

theorem Evolves.mono (h : Evolves L made removed next t next₁ t₁) (hm : ∀ r, made r → made₁ r)
    (hr : ∀ r, removed r → removed₁ r) : Evolves L made₁ removed₁ next t next₁ t₁ := by
  refine ⟨h.next_le, fun r' hr' => ?_, fun r hmem => (h.kept r hmem).imp_right (hr r)⟩
  rcases h.grown r' hr' with hold | ⟨r, hmade, hnew⟩
  · exact Or.inl hold
  · exact Or.inr ⟨r, hm r hmade, hnew⟩

/-- A reason to remove a row is a reason for what the row was before. -/
theorem Evolves.trans (h : Evolves L made removed next t next₁ t₁)
    (h' : Evolves L made₁ removed₁ next₁ t₁ next₂ t₂)
    (hback : ∀ {r r'}, L.becomes r r' → removed₁ r' → removed₁ r) :
    Evolves L (fun r => made r ∨ made₁ r) (fun r => removed r ∨ removed₁ r) next t next₂ t₂ := by
  refine ⟨h.next_le.trans h'.next_le, fun r₂ hr₂ => ?_, fun r hr => ?_⟩
  · rcases h'.grown r₂ hr₂ with ⟨r₁, hr₁, hlater⟩ | ⟨r₁, hmade, hnew, hlater⟩
    · rcases h.grown r₁ hr₁ with ⟨r, hr, hearlier⟩ | ⟨r, hmade, hnew, hearlier⟩
      · exact Or.inl ⟨r, hr, L.trans hearlier hlater⟩
      · exact Or.inr ⟨r, Or.inl hmade, hnew, L.trans hearlier hlater⟩
    · exact Or.inr ⟨r₁, Or.inr hmade, h.next_le.trans hnew, hlater⟩
  · rcases h.kept r hr with ⟨r₁, hr₁, hearlier⟩ | hgone
    · rcases h'.kept r₁ hr₁ with ⟨r₂, hr₂, hlater⟩ | hgone
      · exact Or.inl ⟨r₂, hr₂, L.trans hearlier hlater⟩
      · exact Or.inr (Or.inr (hback hearlier hgone))
    · exact Or.inr (Or.inl hgone)

/-- A row whose id was drawn has been in the table. -/
theorem Evolves.of_drawn (h : Evolves L made removed next t next₁ t₁) {r' : Row} (hr' : r' ∈ t₁)
    (hdrawn : L.id r' < next) : ∃ r ∈ t, L.becomes r r' := by
  rcases h.grown r' hr' with hold | ⟨r, -, hnew, hbecomes⟩
  · exact hold
  · rw [← L.id_eq hbecomes] at hnew
    exact absurd hdrawn (Nat.not_lt.mpr hnew)

/-- An id that was drawn and that no row has is not taken again. -/
theorem Evolves.absent (h : Evolves L made removed next t next₁ t₁) {i : Nat} (hi : i < next)
    (habsent : i ∉ t.map L.id) : i ∉ t₁.map L.id := by
  intro hmem
  obtain ⟨r', hr', rfl⟩ := List.mem_map.mp hmem
  obtain ⟨r, hr, hbecomes⟩ := h.of_drawn hr' hi
  apply habsent
  rw [L.id_eq hbecomes]
  exact List.mem_map_of_mem hr

/-- What holds of the rows at first and of each row that is made, and of what it becomes, holds of
the rows later. -/
theorem Evolves.all {P : Row → Prop} (h : Evolves L made removed next t next₁ t₁)
    (hbecomes : ∀ {r r'}, L.becomes r r' → P r → P r') (hmade : ∀ r, made r → P r)
    (ht : ∀ r ∈ t, P r) : ∀ r ∈ t₁, P r := by
  intro r' hr'
  rcases h.grown r' hr' with ⟨r, hr, hlater⟩ | ⟨r, hr, -, hlater⟩
  · exact hbecomes hlater (ht r hr)
  · exact hbecomes hlater (hmade r hr)

end

/-! ## Every run -/

/-- A table evolves along a run as it does in each step. -/
theorem run_evolves {State : Type} {Action : Type u} {step : State → Action → Option State}
    (L : Law Row) (table : State → List Row) (next : State → Nat)
    (makes : State → Action → Row → Prop) (removes : Action → Row → Prop) (Inv : State → Prop)
    (hback : ∀ {a r r'}, L.becomes r r' → removes a r' → removes a r)
    {actions : List Action}
    (hstep : ∀ {s a s'}, a ∈ actions → Inv s → step s a = some s' →
      Evolves L (makes s a) (removes a) (next s) (table s) (next s') (table s'))
    (hinv : ∀ {s a s'}, Inv s → step s a = some s' → Inv s') {s s' : State} (hs : Inv s)
    (hrun : runs.run step s actions = some s') :
    Evolves L (fun r => ∃ before s₁ a, runs.Takes step s actions before s₁ a ∧ makes s₁ a r)
      (fun r => ∃ a ∈ actions, removes a r) (next s) (table s) (next s') (table s') := by
  induction actions generalizing s with
  | nil =>
    cases hrun
    exact Evolves.refl L _ _ (le_refl _) _
  | cons a actions ih =>
    obtain ⟨s₁, hs₁, hrun⟩ := Option.bind_eq_some_iff.mp hrun
    have hfirst := hstep List.mem_cons_self hs hs₁
    have hrest := ih (fun hb => hstep (List.mem_cons_of_mem a hb)) (hinv hs hs₁) hrun
    have hrest_back : ∀ {r r'}, L.becomes r r' → (∃ b ∈ actions, removes b r') →
        ∃ b ∈ actions, removes b r := by
      rintro r r' hbecomes ⟨b, hb, hremoves⟩
      exact ⟨b, hb, hback hbecomes hremoves⟩
    refine (hfirst.trans hrest hrest_back).mono (fun r hmade => ?_) (fun r hremoved => ?_)
    · rcases hmade with hmakes | ⟨before, s₂, b, htakes, hmakes⟩
      · exact ⟨[], s, a, runs.takes_first, hmakes⟩
      · exact ⟨a :: before, s₂, b, htakes.later hs₁, hmakes⟩
    · rcases hremoved with hremoves | ⟨b, hb, hremoves⟩
      · exact ⟨a, List.mem_cons_self, hremoves⟩
      · exact ⟨b, List.mem_cons_of_mem _ hb, hremoves⟩

/-- The same where it does not depend on the state which rows a step makes. -/
theorem run_evolves_by_actions {State : Type} {Action : Type u}
    {step : State → Action → Option State} (L : Law Row) (table : State → List Row)
    (next : State → Nat) (makes removes : Action → Row → Prop) (Inv : State → Prop)
    (hback : ∀ {a r r'}, L.becomes r r' → removes a r' → removes a r)
    {actions : List Action}
    (hstep : ∀ {s a s'}, a ∈ actions → Inv s → step s a = some s' →
      Evolves L (makes a) (removes a) (next s) (table s) (next s') (table s'))
    (hinv : ∀ {s a s'}, Inv s → step s a = some s' → Inv s') {s s' : State} (hs : Inv s)
    (hrun : runs.run step s actions = some s') :
    Evolves L (fun r => ∃ a ∈ actions, makes a r) (fun r => ∃ a ∈ actions, removes a r) (next s)
      (table s) (next s') (table s') := by
  have hevolves := run_evolves L table next (fun _ => makes) removes Inv hback hstep hinv hs hrun
  refine hevolves.mono (fun r hmade => ?_) (fun _ hremoved => hremoved)
  obtain ⟨before, s₁, a, htakes, hmakes⟩ := hmade
  exact ⟨a, htakes.mem, hmakes⟩

end evolving
