-- An inverted index that is filled later: documents have terms, a posting says that a document of
-- a scope has a term, and a document is flagged once its postings are made. The index is in step
-- when the postings are exactly those of the flagged documents.
import Mathlib.Data.Set.Insert

namespace inverted_index

/-! ## Documents and postings -/

structure Doc (Id Scope Term : Type) where
  id : Id
  scope : Scope
  terms : Set Term
  indexed : Prop

variable {Id Scope Term : Type}

/-- The postings are those of the flagged documents. -/
def InStep (docs : Set (Doc Id Scope Term)) (posted : Scope → Term → Id → Prop) : Prop :=
  ∀ s t i, posted s t i ↔ ∃ d ∈ docs, d.indexed ∧ d.id = i ∧ d.scope = s ∧ t ∈ d.terms

/-- A posting is of a document of its scope with its term. -/
def Sound (docs : Set (Doc Id Scope Term)) (posted : Scope → Term → Id → Prop) : Prop :=
  ∀ s t i, posted s t i → ∃ d ∈ docs, d.id = i ∧ d.scope = s ∧ t ∈ d.terms

/-- A flagged document has all its postings. -/
def Complete (docs : Set (Doc Id Scope Term)) (posted : Scope → Term → Id → Prop) : Prop :=
  ∀ d ∈ docs, d.indexed → ∀ t ∈ d.terms, posted d.scope t d.id

/-- The postings are those of all documents. -/
def Exact (docs : Set (Doc Id Scope Term)) (posted : Scope → Term → Id → Prop) : Prop :=
  ∀ s t i, posted s t i ↔ ∃ d ∈ docs, d.id = i ∧ d.scope = s ∧ t ∈ d.terms

section
variable {docs docs' : Set (Doc Id Scope Term)} {posted posted' : Scope → Term → Id → Prop}

theorem InStep.sound (h : InStep docs posted) : Sound docs posted := by
  intro s t i hp
  obtain ⟨d, hd, -, hid, hscope, hterm⟩ := (h s t i).mp hp
  exact ⟨d, hd, hid, hscope, hterm⟩

theorem InStep.complete (h : InStep docs posted) : Complete docs posted :=
  fun d hd hi t ht => (h d.scope t d.id).mpr ⟨d, hd, hi, rfl, rfl, ht⟩

/-- The index is exact once every document that has a term is flagged. -/
theorem InStep.exact (h : InStep docs posted)
    (hflagged : ∀ d ∈ docs, d.terms.Nonempty → d.indexed) : Exact docs posted := by
  intro s t i
  rw [h s t i]
  constructor
  · rintro ⟨d, hd, -, hrest⟩
    exact ⟨d, hd, hrest⟩
  · rintro ⟨d, hd, hid, hscope, hterm⟩
    exact ⟨d, hd, hflagged d hd ⟨t, hterm⟩, hid, hscope, hterm⟩

/-! ## What keeps the index in step -/

/-- Only the flagged documents with a term count: others may come, go and change. -/
theorem InStep.of_flagged (h : InStep docs posted)
    (hflagged : ∀ d, d.indexed → d.terms.Nonempty → (d ∈ docs' ↔ d ∈ docs)) :
    InStep docs' posted := by
  intro s t i
  rw [h s t i]
  constructor
  · rintro ⟨d, hd, hi, hid, hscope, hterm⟩
    exact ⟨d, (hflagged d hi ⟨t, hterm⟩).mpr hd, hi, hid, hscope, hterm⟩
  · rintro ⟨d, hd, hi, hid, hscope, hterm⟩
    exact ⟨d, (hflagged d hi ⟨t, hterm⟩).mp hd, hi, hid, hscope, hterm⟩

/-- A document goes, and its postings with it. -/
theorem InStep.remove (h : InStep docs posted) {i : Id}
    (hdocs : ∀ d, d ∈ docs' ↔ d ∈ docs ∧ d.id ≠ i)
    (hposted : ∀ s t j, posted' s t j ↔ posted s t j ∧ j ≠ i) : InStep docs' posted' := by
  intro s t j
  rw [hposted, h s t j]
  constructor
  · rintro ⟨⟨d, hd, hi, hid, hrest⟩, hne⟩
    exact ⟨d, (hdocs d).mpr ⟨hd, hid ▸ hne⟩, hi, hid, hrest⟩
  · rintro ⟨d, hd, hi, hid, hrest⟩
    obtain ⟨hmem, hne⟩ := (hdocs d).mp hd
    exact ⟨⟨d, hmem, hi, hid, hrest⟩, hid ▸ hne⟩

/-- A document is flagged, and its postings are made. Documents have different ids. -/
theorem InStep.index (h : InStep docs posted) {d₀ : Doc Id Scope Term} (hd₀ : d₀ ∈ docs)
    (hkey : ∀ d ∈ docs, d.id = d₀.id → d = d₀)
    (hdocs : ∀ d, d ∈ docs' ↔ (d ∈ docs ∧ d.id ≠ d₀.id) ∨ d = { d₀ with indexed := True })
    (hposted : ∀ s t i, posted' s t i ↔
      posted s t i ∨ (i = d₀.id ∧ s = d₀.scope ∧ t ∈ d₀.terms)) : InStep docs' posted' := by
  intro s t i
  rw [hposted, h s t i]
  constructor
  · rintro (⟨d, hd, hi, hid, hscope, hterm⟩ | ⟨rfl, rfl, hterm⟩)
    · by_cases hne : d.id = d₀.id
      · have heq := hkey d hd hne
        subst heq
        exact ⟨_, (hdocs _).mpr (Or.inr rfl), trivial, hid, hscope, hterm⟩
      · exact ⟨d, (hdocs d).mpr (Or.inl ⟨hd, hne⟩), hi, hid, hscope, hterm⟩
    · exact ⟨_, (hdocs _).mpr (Or.inr rfl), trivial, rfl, rfl, hterm⟩
  · rintro ⟨d, hd, hi, hid, hscope, hterm⟩
    rcases (hdocs d).mp hd with ⟨hmem, -⟩ | rfl
    · exact Or.inl ⟨d, hmem, hi, hid, hscope, hterm⟩
    · exact Or.inr ⟨hid.symm, hscope.symm, hterm⟩

end

end inverted_index
