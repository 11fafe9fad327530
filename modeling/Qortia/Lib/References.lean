-- References to stored things. A reference is filed under a scope, a deletion takes away the
-- references of the scope of the thing, and writers add references later than they read the thing.
-- Nothing dangles as long as a writer adds no reference to a thing that is gone.
import Mathlib.Init

namespace references

/-! ## The state -/

/-- The things and their scopes, the references, what writers hold to refer to later, the ids that
are drawn, and the ids that were deleted. -/
structure Refs (Id Scope : Type) where
  thing : Id → Scope → Prop
  ref : Id → Scope → Prop
  held : Id → Scope → Prop
  drawn : Id → Prop
  gone : Id → Prop

variable {Id Scope : Type}

structure Refs.Good (s : Refs Id Scope) : Prop where
  drawn_thing : ∀ {i t}, s.thing i t → s.drawn i
  drawn_ref : ∀ {i t}, s.ref i t → s.drawn i
  drawn_held : ∀ {i t}, s.held i t → s.drawn i
  drawn_gone : ∀ {i}, s.gone i → s.drawn i
  thing_scope : ∀ {i t t'}, s.thing i t → s.thing i t' → t = t'
  ref_scope : ∀ {i t t'}, s.ref i t → s.thing i t' → t = t'
  held_scope : ∀ {i t t'}, s.held i t → s.thing i t' → t = t'
  gone_thing : ∀ {i t}, s.gone i → ¬ s.thing i t
  gone_ref : ∀ {i t}, s.gone i → ¬ s.ref i t

/-! ## What keeps it good -/

/-- Things are stored under new ids, writers hold what they read, and they refer to what they hold
unless it is gone. -/
theorem Refs.Good.step {s s' : Refs Id Scope} (h : s.Good)
    (hthing : ∀ {i t}, s'.thing i t → s.thing i t ∨ ¬ s.drawn i)
    (hscope : ∀ {i t t'}, s'.thing i t → s'.thing i t' → t = t')
    (hdrawn : ∀ {i}, s.drawn i → s'.drawn i)
    (hstored : ∀ {i t}, s'.thing i t → s'.drawn i)
    (hheld : ∀ {i t}, s'.held i t → s.held i t ∨ s.thing i t)
    (href : ∀ {i t}, s'.ref i t → s.ref i t ∨ (s.held i t ∧ ¬ s.gone i))
    (hgone : ∀ {i}, s'.gone i → s.gone i) : s'.Good := by
  -- What was drawn before is not stored anew.
  have hold : ∀ {i t}, s.drawn i → s'.thing i t → s.thing i t :=
    fun hi ht => (hthing ht).resolve_right fun hfresh => hfresh hi
  refine ⟨hstored, fun hr => ?_, fun hh => ?_, fun hg => hdrawn (h.drawn_gone (hgone hg)), hscope,
    fun hr ht => ?_, fun hh ht => ?_, fun hg ht => ?_, fun hg hr => ?_⟩
  · rcases href hr with hr | ⟨hh, -⟩
    · exact hdrawn (h.drawn_ref hr)
    · exact hdrawn (h.drawn_held hh)
  · rcases hheld hh with hh | ht
    · exact hdrawn (h.drawn_held hh)
    · exact hdrawn (h.drawn_thing ht)
  · rcases href hr with hr | ⟨hh, -⟩
    · exact h.ref_scope hr (hold (h.drawn_ref hr) ht)
    · exact h.held_scope hh (hold (h.drawn_held hh) ht)
  · rcases hheld hh with hh | hread
    · exact h.held_scope hh (hold (h.drawn_held hh) ht)
    · exact h.thing_scope hread (hold (h.drawn_thing hread) ht)
  · exact h.gone_thing (hgone hg) (hold (h.drawn_gone (hgone hg)) ht)
  · rcases href hr with hr | ⟨-, hnot⟩
    · exact h.gone_ref (hgone hg) hr
    · exact hnot (hgone hg)

/-- A thing is deleted together with the references of its scope. -/
theorem Refs.Good.delete {s s' : Refs Id Scope} (h : s.Good) {i₀ : Id} {t₀ : Scope}
    (hwas : s.thing i₀ t₀)
    (hthing : ∀ {i t}, s'.thing i t → s.thing i t ∧ i ≠ i₀)
    (href : ∀ {i t}, s'.ref i t → s.ref i t ∧ ¬ (i = i₀ ∧ t = t₀))
    (hheld : ∀ {i t}, s'.held i t → s.held i t)
    (hdrawn : ∀ {i}, s'.drawn i ↔ s.drawn i)
    (hgone : ∀ {i}, s'.gone i → s.gone i ∨ i = i₀) : s'.Good := by
  refine ⟨fun ht => hdrawn.mpr (h.drawn_thing (hthing ht).1),
    fun hr => hdrawn.mpr (h.drawn_ref (href hr).1),
    fun hh => hdrawn.mpr (h.drawn_held (hheld hh)), fun hg => ?_,
    fun ht ht' => h.thing_scope (hthing ht).1 (hthing ht').1,
    fun hr ht => h.ref_scope (href hr).1 (hthing ht).1,
    fun hh ht => h.held_scope (hheld hh) (hthing ht).1, fun hg ht => ?_, fun hg hr => ?_⟩
  · rcases hgone hg with hg | rfl
    · exact hdrawn.mpr (h.drawn_gone hg)
    · exact hdrawn.mpr (h.drawn_thing hwas)
  · rcases hgone hg with hg | rfl
    · exact h.gone_thing hg (hthing ht).1
    · exact (hthing ht).2 rfl
  · rcases hgone hg with hg | rfl
    · exact h.gone_ref hg (href hr).1
    · exact (href hr).2 ⟨rfl, h.ref_scope (href hr).1 hwas⟩

/-! ## Filing under one scope -/

/-- Each id is filed under one scope, wherever it is filed, and only drawn ids are. -/
structure OneScope (filed : Id → Scope → Prop) (drawn : Id → Prop) : Prop where
  drawn : ∀ {i t}, filed i t → drawn i
  unique : ∀ {i t t'}, filed i t → filed i t' → t = t'

/-- What is filed was filed before, or is a thing with a new id. -/
theorem OneScope.step {filed filed' thing : Id → Scope → Prop} {drawn drawn' : Id → Prop}
    (h : OneScope filed drawn)
    (hfiled : ∀ {i t}, filed' i t → filed i t ∨ (thing i t ∧ ¬ drawn i))
    (hthing : ∀ {i t}, thing i t → drawn' i)
    (hunique : ∀ {i t t'}, thing i t → thing i t' → t = t')
    (hdrawn : ∀ {i}, drawn i → drawn' i) : OneScope filed' drawn' := by
  refine ⟨fun hi => ?_, fun hi hi' => ?_⟩
  · rcases hfiled hi with hi | ⟨hi, -⟩
    · exact hdrawn (h.drawn hi)
    · exact hthing hi
  · rcases hfiled hi with hi | ⟨hi, hnew⟩
    · rcases hfiled hi' with hi' | ⟨-, hnew'⟩
      · exact h.unique hi hi'
      · exact absurd (h.drawn hi) hnew'
    · rcases hfiled hi' with hi' | ⟨hi', -⟩
      · exact absurd (h.drawn hi') hnew
      · exact hunique hi hi'

end references
