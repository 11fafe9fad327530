-- Things that are forwarded to other things: a stale address, an alias, a duplicate that stands for
-- its original. Each thing is to lead to one that is not forwarded. Forwarding one more thing keeps
-- it so unless the target already leads back to the thing.
import Mathlib.Logic.Relation

namespace forwarding

variable {Thing : Type}

/-- Following the forwards from the first thing reaches the second one. -/
def Leads (next : Thing → Option Thing) : Thing → Thing → Prop :=
  Relation.ReflTransGen fun x y => next x = some y

/-- Following the forwards ends. -/
def Ends (next : Thing → Option Thing) (x : Thing) : Prop :=
  ∃ last, Leads next x last ∧ next last = none

variable {next next' : Thing → Option Thing} {x y : Thing}

/-! ## Following -/

/-- A thing that is not forwarded leads to itself only. -/
theorem leads_of_none (h : next x = none) (hxy : Leads next x y) : y = x := by
  rcases Relation.ReflTransGen.cases_head hxy with rfl | ⟨z, hz, -⟩
  · rfl
  · rw [h] at hz
    cases hz

/-- Where following ends, it ends for every thing on the way. -/
theorem ends_of_leads (hxy : Leads next x y) (h : Ends next y) : Ends next x := by
  obtain ⟨last, hlast, hnone⟩ := h
  exact ⟨last, Relation.ReflTransGen.trans hxy hlast, hnone⟩

/-- What a thing on a cycle leads to leads back to it. -/
theorem leads_back (hxy : next x = some y) (hyx : Leads next y x) {z : Thing}
    (hz : Leads next x z) : Leads next z x := by
  induction hz with
  | refl => exact Relation.ReflTransGen.refl
  | @tail b c _ hbc ih =>
    rcases Relation.ReflTransGen.cases_head ih with rfl | ⟨d, hbd, hdx⟩
    · rw [hbc] at hxy
      cases hxy
      exact hyx
    · rw [hbc] at hbd
      cases hbd
      exact hdx

theorem not_ends_of_cycle (hxy : next x = some y) (hyx : Leads next y x) : ¬ Ends next x := by
  rintro ⟨last, hlast, hnone⟩
  have hsame := leads_of_none hnone (leads_back hxy hyx hlast)
  rw [hsame, hnone] at hxy
  cases hxy

/-! ## Forwarding one more thing -/

/-- What leads somewhere still does. -/
theorem leads_forward (hx : next x = none) (hother : ∀ z, z ≠ x → next' z = next z) {a b : Thing}
    (h : Leads next a b) : Leads next' a b := by
  have hstep : ∀ c d, next c = some d → next' c = some d := by
    intro c d hcd
    rw [hother c, hcd]
    rintro rfl
    rw [hx] at hcd
    cases hcd
  exact Relation.ReflTransGen.mono hstep a b h

/-- After one more forward everything in the set ends, exactly when the target did not lead to the
thing. -/
theorem ends_forward_iff {S : Thing → Prop} (hSx : S x) (hSy : S y) (hx : next x = none)
    (hnext : next' x = some y) (hother : ∀ z, z ≠ x → next' z = next z)
    (hends : ∀ z, S z → Ends next z) : (∀ z, S z → Ends next' z) ↔ ¬ Leads next y x := by
  constructor
  · intro h hback
    exact not_ends_of_cycle hnext (leads_forward hx hother hback) (h x hSx)
  · intro hfree
    -- What ended elsewhere than in `x` still does.
    have hkeep : ∀ {z last}, Leads next z last → next last = none → last ≠ x → Ends next' z :=
      fun hz hlast hne => ⟨_, leads_forward hx hother hz, by rw [hother _ hne, hlast]⟩
    have hy : Ends next' y := by
      obtain ⟨last, hlast, hnone⟩ := hends y hSy
      refine hkeep hlast hnone ?_
      rintro rfl
      exact hfree hlast
    intro z hz
    obtain ⟨last, hlast, hnone⟩ := hends z hz
    by_cases hsame : last = x
    · subst hsame
      apply ends_of_leads (leads_forward hx hother hlast)
      exact ends_of_leads (Relation.ReflTransGen.single hnext) hy
    · exact hkeep hlast hnone hsame

/-- A set that the forwards do not leave. -/
theorem mem_of_leads {S : Thing → Prop} (hclosed : ∀ {z w}, S z → next z = some w → S w) (hx : S x)
    (hxy : Leads next x y) : S y := by
  induction hxy with
  | refl => exact hx
  | tail _ hbc ih => exact hclosed ih hbc

end forwarding
