-- A journal: the list of records that the changes of a store leave. A record may say that an item
-- was put into the store, or that one was dropped. The journal accounts for the store when the
-- items of the store are those that were put and not dropped.
import Mathlib.Data.List.Basic

namespace journal

variable {Record Id : Type} (puts drops : Record → Option Id)

/-! ## What a journal says -/

structure Accounts (live : Id → Prop) (log : List Record) : Prop where
  live_iff : ∀ i, live i ↔ (∃ r ∈ log, puts r = some i) ∧ ∀ r ∈ log, drops r ≠ some i

/-- No item is dropped twice. -/
def DroppedOnce (log : List Record) : Prop :=
  log.Pairwise fun r r' => ∀ i, drops r = some i → drops r' ≠ some i

/-- The last record that puts the item. -/
def latest [DecidableEq Id] (i : Id) (log : List Record) : Option Record :=
  (log.filter fun r => puts r = some i).getLast?

/-! ## What one more change does to it -/

section
variable {puts drops} {live : Id → Prop} {log : List Record}

theorem Accounts.nil : Accounts puts drops (fun _ => False) [] :=
  ⟨fun i => by simp⟩

theorem Accounts.congr {live' : Id → Prop} (h : Accounts puts drops live log)
    (hlive : ∀ i, live' i ↔ live i) : Accounts puts drops live' log :=
  ⟨fun i => (hlive i).trans (h.live_iff i)⟩

/-- Records that drop nothing. The items that they put were never dropped. -/
theorem Accounts.append (h : Accounts puts drops live log) {new : List Record}
    (hdrop : ∀ r ∈ new, drops r = none)
    (hnot : ∀ r ∈ new, ∀ i, puts r = some i → ∀ x ∈ log, drops x ≠ some i) :
    Accounts puts drops (fun i => live i ∨ ∃ r ∈ new, puts r = some i) (log ++ new) := by
  refine ⟨fun i => ?_⟩
  rw [h.live_iff i]
  constructor
  · rintro (⟨⟨r, hr, hput⟩, hno⟩ | ⟨r, hr, hput⟩)
    · refine ⟨⟨r, List.mem_append_left _ hr, hput⟩, fun x hx => ?_⟩
      rcases List.mem_append.mp hx with hx | hx
      · exact hno x hx
      · simp [hdrop x hx]
    · refine ⟨⟨r, List.mem_append_right _ hr, hput⟩, fun x hx => ?_⟩
      rcases List.mem_append.mp hx with hx | hx
      · exact hnot r hr i hput x hx
      · simp [hdrop x hx]
  · rintro ⟨⟨r, hr, hput⟩, hno⟩
    rcases List.mem_append.mp hr with hr | hr
    · exact Or.inl ⟨⟨r, hr, hput⟩, fun x hx => hno x (List.mem_append_left _ hx)⟩
    · exact Or.inr ⟨r, hr, hput⟩

theorem Accounts.drop (h : Accounts puts drops live log) {r : Record} {i : Id}
    (hput : puts r = none) (hdrop : drops r = some i) :
    Accounts puts drops (fun j => live j ∧ j ≠ i) (log ++ [r]) := by
  refine ⟨fun j => ?_⟩
  rw [h.live_iff j]
  constructor
  · rintro ⟨⟨⟨x, hx, hxput⟩, hno⟩, hne⟩
    refine ⟨⟨x, List.mem_append_left _ hx, hxput⟩, fun y hy => ?_⟩
    rcases List.mem_append.mp hy with hy | hy
    · exact hno y hy
    · rw [List.mem_singleton.mp hy, hdrop]
      intro heq
      exact hne (Option.some.inj heq).symm
  · rintro ⟨⟨x, hx, hxput⟩, hno⟩
    refine ⟨⟨⟨x, ?_, hxput⟩, fun y hy => hno y (List.mem_append_left _ hy)⟩, ?_⟩
    · rcases List.mem_append.mp hx with hx | hx
      · exact hx
      · rw [List.mem_singleton.mp hx, hput] at hxput
        cases hxput
    · rintro rfl
      exact hno r (List.mem_append_right _ (List.mem_singleton_self r)) hdrop

/-- A live item was put, and it was not dropped. -/
theorem Accounts.not_dropped (h : Accounts puts drops live log) {i : Id} (hi : live i) :
    ∀ r ∈ log, drops r ≠ some i :=
  ((h.live_iff i).mp hi).2

theorem DroppedOnce.append (h : DroppedOnce drops log) {new : List Record}
    (hdrop : ∀ r ∈ new, drops r = none) : DroppedOnce drops (log ++ new) := by
  refine List.pairwise_append.mpr ⟨h, ?_, fun r hr x hx i hi => by simp [hdrop x hx]⟩
  apply List.pairwise_of_forall_mem_list
  intro r hr x hx i hi
  simp [hdrop x hx]

theorem DroppedOnce.drop (h : DroppedOnce drops log) {r : Record} {i : Id}
    (hdrop : drops r = some i) (hnot : ∀ x ∈ log, drops x ≠ some i) :
    DroppedOnce drops (log ++ [r]) := by
  refine List.pairwise_append.mpr ⟨h, List.pairwise_singleton _ _, fun x hx y hy j hj => ?_⟩
  rw [List.mem_singleton.mp hy, hdrop]
  intro heq
  cases heq
  exact hnot x hx hj

variable [DecidableEq Id]

theorem latest_put {r : Record} {i : Id} (hput : puts r = some i) :
    latest puts i (log ++ [r]) = some r := by
  simp [latest, List.filter_append, hput]

theorem latest_append {new : List Record} {i : Id} (hput : ∀ r ∈ new, puts r ≠ some i) :
    latest puts i (log ++ new) = latest puts i log := by
  have hnil : (new.filter fun r => puts r = some i) = [] := by
    apply List.filter_eq_nil_iff.mpr
    intro r hr
    simp [hput r hr]
  unfold latest
  rw [List.filter_append, hnil, List.append_nil]

end

end journal
