-- Rows that take over a value from a row of the same key. The row is any one of them, as `LIMIT 1`
-- without ORDER BY gives it, and its value may be missing.
import Mathlib.Data.List.Basic

namespace copying

variable {Row Key Val : Type} [DecidableEq Key]

/-- The value of the row that is taken, when there is one and it has a value. -/
def copied (key : Row → Key) (val : Row → Option Val) (choice : Nat) (k : Key) (t : List Row) :
    Option Val :=
  let found := t.filter fun r => key r = k
  (found[choice % found.length]?).bind val

variable {key : Row → Key} {val : Row → Option Val} {choice : Nat} {k : Key} {t : List Row}

/-- Every row of the key has a value, and there is one. -/
def AllHave (key : Row → Key) (val : Row → Option Val) (k : Key) (t : List Row) : Prop :=
  (∃ r ∈ t, key r = k) ∧ ∀ r ∈ t, key r = k → (val r).isSome = true

theorem copied_of_no_row (h : ∀ r ∈ t, key r ≠ k) : copied key val choice k t = none := by
  have hnil : t.filter (fun r => key r = k) = [] := by
    rw [List.filter_eq_nil_iff]
    intro r hr
    simp [h r hr]
  simp [copied, hnil]

/-- When there is a row of the key, one of them is taken. -/
theorem copied_of_row (h : ∃ r ∈ t, key r = k) :
    ∃ r ∈ t, key r = k ∧ copied key val choice k t = val r := by
  obtain ⟨r, hr, hk⟩ := h
  have hmem : r ∈ t.filter fun r => key r = k := List.mem_filter.mpr ⟨hr, decide_eq_true hk⟩
  have hlt := Nat.mod_lt choice (List.length_pos_of_mem hmem)
  have htaken := List.mem_filter.mp (List.getElem_mem hlt)
  refine ⟨(t.filter fun r => key r = k)[choice % (t.filter fun r => key r = k).length],
    htaken.1, of_decide_eq_true htaken.2, ?_⟩
  simp only [copied, List.getElem?_eq_getElem hlt, Option.bind_some]

/-- Any row of the key may be the one. -/
theorem exists_choice_copied (val : Row → Option Val) {r : Row} (hr : r ∈ t) (hk : key r = k) :
    ∃ choice, copied key val choice k t = val r := by
  have hmem : r ∈ t.filter fun r => key r = k := List.mem_filter.mpr ⟨hr, decide_eq_true hk⟩
  obtain ⟨i, hi, hget⟩ := List.mem_iff_getElem.mp hmem
  refine ⟨i, ?_⟩
  simp only [copied, Nat.mod_eq_of_lt hi, List.getElem?_eq_getElem hi, Option.bind_some, hget]

/-- A value is found whichever row is taken, if and only if all rows of the key have one. -/
theorem always_copied_iff :
    (∀ choice, (copied key val choice k t).isSome = true) ↔ AllHave key val k t := by
  constructor
  · intro h
    constructor
    · by_contra hnone
      have hno : ∀ r ∈ t, key r ≠ k := fun r hr hk => hnone ⟨r, hr, hk⟩
      have hfound := h 0
      rw [copied_of_no_row hno] at hfound
      cases hfound
    · intro r hr hk
      obtain ⟨choice, hchoice⟩ := exists_choice_copied val hr hk
      rw [← hchoice]
      exact h choice
  · rintro ⟨hsome, hall⟩ choice
    obtain ⟨r, hr, hk, hcopied⟩ := copied_of_row hsome
    rw [hcopied]
    exact hall r hr hk

/-- Rows of other keys do not matter. -/
theorem copied_append_of_ne {new : List Row} (h : ∀ r ∈ new, key r ≠ k) :
    copied key val choice k (t ++ new) = copied key val choice k t := by
  have hnil : new.filter (fun r => key r = k) = [] := by
    rw [List.filter_eq_nil_iff]
    intro r hr
    simp [h r hr]
  simp [copied, List.filter_append, hnil]

end copying
