-- A table that keeps, next to a column, a value computed from it, which workers fill in later:
-- a worker reads a key with its source, computes, and writes the value under the key. What has to
-- hold for the value to be the one of the source that is there.
import Mathlib.Data.List.Nodup

namespace derived

variable {Src Val : Type}

/-! ## Entries and tasks -/

structure Entry (Src Val : Type) where
  key : Nat
  src : Src
  value : Option Val

/-- What a worker carries: the key and the source it read, and the value once it is computed. -/
structure Task (Src Val : Type) where
  key : Nat
  src : Src
  value : Option Val := none

/-- The value under a key is set. -/
def fill (key : Nat) (v : Val) (e : Entry Src Val) : Entry Src Val :=
  if e.key = key then { e with value := some v } else e

/-! ## The invariant -/

/-- Values belong to their sources, and a task carries the source that is under its key, if the
key is still there. `next` is above every key. -/
structure Good (f : Src → Val) (next : Nat) (t : List (Entry Src Val))
    (tasks : List (Task Src Val)) : Prop where
  right : ∀ e ∈ t, ∀ v, e.value = some v → v = f e.src
  nodup : (t.map (·.key)).Nodup
  lt : ∀ e ∈ t, e.key < next
  tasks_lt : ∀ c ∈ tasks, c.key < next
  current : ∀ c ∈ tasks, ∀ e ∈ t, e.key = c.key → e.src = c.src
  computed : ∀ c ∈ tasks, ∀ v, c.value = some v → v = f c.src

/-- Entries to put into a table: with right values and fresh keys. -/
structure Fresh (f : Src → Val) (next next' : Nat) (new : List (Entry Src Val)) : Prop where
  right : ∀ e ∈ new, ∀ v, e.value = some v → v = f e.src
  nodup : (new.map (·.key)).Nodup
  ge : ∀ e ∈ new, next ≤ e.key
  lt : ∀ e ∈ new, e.key < next'

/-- Entries go, and fresh ones come. -/
structure Grows (f : Src → Val) (next next' : Nat) (t t' : List (Entry Src Val)) : Prop where
  le : next ≤ next'
  new : ∃ new, Fresh f next next' new ∧ t'.Sublist (t ++ new)

section
variable {f : Src → Val} {next next' : Nat} {t t' : List (Entry Src Val)}
  {tasks tasks' : List (Task Src Val)}

theorem Grows.of_sublist (hle : next ≤ next') (h : t'.Sublist t) : Grows f next next' t t' := by
  refine ⟨hle, [], ⟨?_, List.nodup_nil, ?_, ?_⟩, ?_⟩
  · exact fun _ h => (nomatch h)
  · exact fun _ h => (nomatch h)
  · exact fun _ h => (nomatch h)
  · rw [List.append_nil]
    exact h

theorem Grows.append_one {e : Entry Src Val} (hkey : e.key = next)
    (hright : ∀ v, e.value = some v → v = f e.src) : Grows f next (next + 1) t (t ++ [e]) := by
  refine ⟨Nat.le_succ _, [e], ⟨?_, List.nodup_singleton _, ?_, ?_⟩, List.Sublist.refl _⟩
  all_goals
    intro e' h
    rw [List.mem_singleton] at h
    rw [h]
  · exact hright
  · exact Nat.le_of_eq hkey.symm
  · rw [hkey]
    exact Nat.lt_succ_self _

theorem Grows.trans {next'' : Nat} {t'' : List (Entry Src Val)} (h : Grows f next next' t t')
    (h' : Grows f next' next'' t' t'') : Grows f next next'' t t'' := by
  obtain ⟨new, hnew, hsub⟩ := h.new
  obtain ⟨new', hnew', hsub'⟩ := h'.new
  refine ⟨Nat.le_trans h.le h'.le, new ++ new', ⟨fun e he => ?_, ?_, fun e he => ?_,
    fun e he => ?_⟩, ?_⟩
  · rcases List.mem_append.mp he with he | he
    · exact hnew.right e he
    · exact hnew'.right e he
  · rw [List.map_append]
    refine List.Nodup.append hnew.nodup hnew'.nodup fun k hk hk' => ?_
    obtain ⟨e, he, rfl⟩ := List.mem_map.mp hk
    obtain ⟨e', he', heq⟩ := List.mem_map.mp hk'
    have hlt := hnew.lt e he
    have hge := hnew'.ge e' he'
    omega
  · rcases List.mem_append.mp he with he | he
    · exact hnew.ge e he
    · exact Nat.le_trans h.le (hnew'.ge e he)
  · rcases List.mem_append.mp he with he | he
    · exact Nat.lt_of_lt_of_le (hnew.lt e he) h'.le
    · exact hnew'.lt e he
  · rw [← List.append_assoc]
    exact hsub'.trans (List.Sublist.append hsub (List.Sublist.refl _))

/-- Keys stay distinct and below the next one. -/
theorem Grows.keys (hg : Grows f next next' t t') (hnodup : (t.map (·.key)).Nodup)
    (hlt : ∀ e ∈ t, e.key < next) : (t'.map (·.key)).Nodup ∧ ∀ e ∈ t', e.key < next' := by
  obtain ⟨new, hnew, hsub⟩ := hg.new
  constructor
  · apply (hsub.map _).nodup
    rw [List.map_append]
    apply List.Nodup.append hnodup hnew.nodup
    intro k hk hk'
    obtain ⟨e, he, rfl⟩ := List.mem_map.mp hk
    obtain ⟨e', he', heq⟩ := List.mem_map.mp hk'
    have hlt := hlt e he
    have hge := hnew.ge e' he'
    omega
  · intro e he
    rcases List.mem_append.mp (hsub.subset he) with he | he
    · exact Nat.lt_of_lt_of_le (hlt e he) hg.le
    · exact hnew.lt e he

/-! ## What keeps the invariant -/

theorem Good.grow (h : Good f next t tasks) (hg : Grows f next next' t t') :
    Good f next' t' tasks := by
  obtain ⟨hnodup, hlt⟩ := hg.keys h.nodup h.lt
  obtain ⟨new, hnew, hsub⟩ := hg.new
  have hmem : ∀ e ∈ t', e ∈ t ∨ e ∈ new := fun e he => List.mem_append.mp (hsub.subset he)
  refine ⟨fun e he v hv => ?_, hnodup, hlt, fun c hc => ?_, fun c hc e he hk => ?_, h.computed⟩
  · rcases hmem e he with he | he
    · exact h.right e he v hv
    · exact hnew.right e he v hv
  · exact Nat.lt_of_lt_of_le (h.tasks_lt c hc) hg.le
  · rcases hmem e he with he | he
    · exact h.current c hc e he hk
    · have hlt := h.tasks_lt c hc
      have hge := hnew.ge e he
      omega

/-- Sources change where no value is there and no task is under way. -/
theorem Good.change (h : Good f next t tasks) (hkeys : t'.map (·.key) = t.map (·.key))
    (hchange : ∀ e' ∈ t', ∃ e ∈ t, e.key = e'.key ∧ e.value = e'.value ∧
      (e.src = e'.src ∨ (e.value = none ∧ ∀ c ∈ tasks, c.key ≠ e.key))) :
    Good f next t' tasks := by
  refine ⟨fun e' he' v hv => ?_, hkeys ▸ h.nodup, fun e' he' => ?_, h.tasks_lt,
    fun c hc e' he' hk => ?_, h.computed⟩
  · obtain ⟨e, he, -, hvalue, hsrc | ⟨hnone, -⟩⟩ := hchange e' he'
    · rw [← hsrc]
      exact h.right e he v (hvalue.trans hv)
    · rw [← hvalue, hnone] at hv
      cases hv
  · obtain ⟨e, he, hkey, -⟩ := hchange e' he'
    rw [← hkey]
    exact h.lt e he
  · obtain ⟨e, he, hkey, -, hsrc | ⟨-, hno⟩⟩ := hchange e' he'
    · rw [← hsrc]
      exact h.current c hc e he (hkey.trans hk)
    · exact absurd (hk.symm.trans hkey.symm) (hno c hc)

/-- A task writes its value under its key. -/
theorem Good.fill (h : Good f next t tasks) {c : Task Src Val} (hc : c ∈ tasks) {v : Val}
    (hv : c.value = some v) : Good f next (t.map (derived.fill c.key v)) tasks := by
  have hsrc : ∀ e : Entry Src Val, (derived.fill c.key v e).key = e.key ∧
      (derived.fill c.key v e).src = e.src := by
    intro e
    unfold derived.fill
    split <;> exact ⟨rfl, rfl⟩
  refine ⟨fun e' he' v' hv' => ?_, ?_, fun e' he' => ?_, h.tasks_lt, fun d hd e' he' hk => ?_,
    h.computed⟩
  · obtain ⟨e, he, rfl⟩ := List.mem_map.mp he'
    rw [(hsrc e).2]
    by_cases hk : e.key = c.key
    · simp only [derived.fill, hk, if_true, Option.some.injEq] at hv'
      rw [h.current c hc e he hk, ← hv']
      exact h.computed c hc v hv
    · simp only [derived.fill, hk, if_false] at hv'
      exact h.right e he v' hv'
  · rw [List.map_map]
    have hcomp : ((fun e : Entry Src Val => e.key) ∘ derived.fill c.key v) = fun e => e.key :=
      funext fun e => (hsrc e).1
    rw [hcomp]
    exact h.nodup
  · obtain ⟨e, he, rfl⟩ := List.mem_map.mp he'
    rw [(hsrc e).1]
    exact h.lt e he
  · obtain ⟨e, he, rfl⟩ := List.mem_map.mp he'
    rw [(hsrc e).1] at hk
    rw [(hsrc e).2]
    exact h.current d hd e he hk

/-- Tasks end, tasks compute their value, and new ones read the table. -/
theorem Good.work (h : Good f next t tasks)
    (hread : ∀ c ∈ tasks', (∃ d ∈ tasks, d.key = c.key ∧ d.src = c.src) ∨
      ∃ e ∈ t, e.key = c.key ∧ e.src = c.src)
    (hvalue : ∀ c ∈ tasks', ∀ v, c.value = some v → v = f c.src) : Good f next t tasks' := by
  refine ⟨h.right, h.nodup, h.lt, fun c hc => ?_, fun c hc e he hk => ?_, hvalue⟩
  · rcases hread c hc with ⟨d, hd, hkey, -⟩ | ⟨e, he, hkey, -⟩
    · rw [← hkey]
      exact h.tasks_lt d hd
    · rw [← hkey]
      exact h.lt e he
  · rcases hread c hc with ⟨d, hd, hkey, hsrc⟩ | ⟨e', he', hkey, hsrc⟩
    · rw [← hsrc]
      exact h.current d hd e he (hk.trans hkey.symm)
    · rw [← hsrc, List.inj_on_of_nodup_map h.nodup he he' (hk.trans hkey.symm)]

end

end derived
