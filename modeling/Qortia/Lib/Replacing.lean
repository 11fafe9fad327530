-- Transactions that replace a group of rows as a whole, at the isolation level READ COMMITTED and
-- under a unique key of group and index. A DELETE finds the rows of the group when it starts, and
-- takes them one by one: it waits for a row that another transaction has deleted, and passes over
-- a row that is gone. An INSERT waits for a row of its key that another transaction has inserted or
-- deleted, and fails when one is committed. No group is ever a mixture of two insertions.
import Mathlib.Data.List.Basic
import Mathlib.Logic.Function.Basic

namespace replacing

structure Layout (Row G : Type) where
  id : Row → Nat
  group : Row → G
  index : Row → Nat

/-- What an open transaction has done: the rows that its DELETE found and has not taken, those that
it deleted, and those that it inserted. -/
structure Work (Row : Type) where
  targets : List Nat := []
  deleted : List Nat := []
  inserted : List Row := []
  deriving DecidableEq

variable {Row G ι : Type} [DecidableEq G] (L : Layout Row G)

def rows_of (g : G) (t : List Row) : List Row := t.filter fun r => L.group r = g

/-- The rows share the unique key. -/
def SameKey (r q : Row) : Prop := L.group r = L.group q ∧ L.index r = L.index q

/-! ## The statements -/

/-- A DELETE of the group starts. -/
def Work.find (g : G) (t : List Row) (w : Work Row) : Work Row :=
  { w with targets := (rows_of L g t).map L.id }

/-- It takes the row `k`, which may be gone. -/
def Work.take (t : List Row) (k : Nat) (w : Work Row) : Work Row :=
  { w with
    targets := w.targets.filter (· ≠ k)
    deleted := if t.any (fun r => L.id r = k) then k :: w.deleted else w.deleted }

def Work.insert (row : Row) (w : Work Row) : Work Row := { w with inserted := w.inserted ++ [row] }

/-- The table as the transaction sees it. A commit makes it the table. -/
def Work.view (t : List Row) (w : Work Row) : List Row :=
  t.filter (fun r => L.id r ∉ w.deleted) ++ w.inserted

omit [DecidableEq G] in
theorem mem_view {t : List Row} {w : Work Row} {r : Row} :
    r ∈ w.view L t ↔ (r ∈ t ∧ L.id r ∉ w.deleted) ∨ r ∈ w.inserted := by
  simp [Work.view]

omit [DecidableEq G] in
@[simp] theorem view_empty (t : List Row) : ({} : Work Row).view L t = t := by
  simp [Work.view]

/-! ## The invariant -/

/-- A new row has an id that no row had. -/
structure Fresh (t : List Row) (next : Nat) (w : ι → Work Row) : Prop where
  row_lt : ∀ r ∈ t, L.id r < next
  row_group : ∀ r ∈ t, ∀ q ∈ t, L.id r = L.id q → L.group r = L.group q
  target_lt : ∀ i, ∀ k ∈ (w i).targets, k < next
  inserted_lt : ∀ i, ∀ r ∈ (w i).inserted, L.id r < next
  apart_rows : ∀ i, ∀ r ∈ (w i).inserted, ∀ q ∈ t, L.id q ≠ L.id r
  apart_targets : ∀ i j, ∀ r ∈ (w i).inserted, L.id r ∉ (w j).targets
  apart_inserted : ∀ i j, i ≠ j → ∀ r ∈ (w i).inserted, ∀ q ∈ (w j).inserted, L.id q ≠ L.id r

/-- Two transactions delete no row in common. Either everything that is there of its group is a
row that the transaction has found, or it has deleted nothing and will find nothing. -/
structure Locks (of : ι → G) (t : List Row) (w : ι → Work Row) : Prop where
  found_of : ∀ i, ∀ r ∈ t, L.id r ∈ (w i).targets ∨ L.id r ∈ (w i).deleted → L.group r = of i
  deleted_mem : ∀ i, ∀ k ∈ (w i).deleted, ∃ r ∈ t, L.id r = k
  deleted_apart : ∀ i j, i ≠ j → ∀ k ∈ (w i).deleted, k ∉ (w j).deleted
  all_or_none : ∀ i,
    (∀ r ∈ t, L.group r = of i → L.id r ∈ (w i).targets ∨ L.id r ∈ (w i).deleted) ∨
      ((w i).deleted = [] ∧ ∀ r ∈ t, L.id r ∉ (w i).targets)

/-- A transaction inserts the index 0 first, and no key that is taken. -/
structure Keys (of : ι → G) (t : List Row) (w : ι → Work Row) : Prop where
  inserted_of : ∀ i, ∀ r ∈ (w i).inserted, L.group r = of i
  inserted_first : ∀ i, (w i).inserted ≠ [] → ∃ r ∈ (w i).inserted, L.index r = 0
  key_free : ∀ i, ∀ r ∈ (w i).inserted, ∀ q ∈ t, SameKey L r q → L.id q ∈ (w i).deleted
  key_apart : ∀ i j, i ≠ j → ∀ r ∈ (w i).inserted, ∀ q ∈ (w j).inserted, ¬ SameKey L r q

/-- `whole` says of the rows of a group that they are all that one transaction inserted. -/
structure Good (whole : List Row → Prop) (of : ι → G) (t : List Row) (next : Nat)
    (w : ι → Work Row) : Prop where
  fresh : Fresh L t next w
  locks : Locks L of t w
  keys : Keys L of t w
  groups : ∀ g, rows_of L g t = [] ∨ whole (rows_of L g t)

section
variable {L} {whole : List Row → Prop} {of : ι → G} {t : List Row} {next : Nat} {w : ι → Work Row}

theorem mem_rows_of {g : G} {r : Row} : r ∈ rows_of L g t ↔ r ∈ t ∧ L.group r = g := by
  simp [rows_of]

theorem rows_of_eq_nil {g : G} : rows_of L g t = [] ↔ ∀ r ∈ t, L.group r ≠ g := by
  simp [rows_of, List.filter_eq_nil_iff]

theorem Good.start (hlt : ∀ r ∈ t, L.id r < next)
    (hgroup : ∀ r ∈ t, ∀ q ∈ t, L.id r = L.id q → L.group r = L.group q)
    (hgroups : ∀ g, rows_of L g t = [] ∨ whole (rows_of L g t)) :
    Good L whole of t next fun _ => {} := by
  refine ⟨⟨hlt, hgroup, ?_, ?_, ?_, ?_, ?_⟩, ?_, ?_, hgroups⟩
  · simp
  · simp
  · simp
  · simp
  · simp
  · constructor <;> simp
  · constructor <;> simp

theorem Good.mono {whole' : List Row → Prop} (h : Good L whole of t next w)
    (hmono : ∀ rows, whole rows → whole' rows) : Good L whole' of t next w :=
  ⟨h.fresh, h.locks, h.keys, fun g => (h.groups g).imp_right (hmono _)⟩

/-- A transaction that has done nothing may turn to another group. -/
theorem Good.reassign {of' : ι → G} (h : Good L whole of t next w)
    (hof : ∀ i, w i = {} ∨ of' i = of i) : Good L whole of' t next w := by
  refine ⟨h.fresh, ⟨fun i => ?_, h.locks.deleted_mem, h.locks.deleted_apart, fun i => ?_⟩,
    ⟨fun i => ?_, h.keys.inserted_first, h.keys.key_free, h.keys.key_apart⟩, h.groups⟩
  · rcases hof i with hw | hof
    · simp [hw]
    · rw [hof]
      exact h.locks.found_of i
  · rcases hof i with hw | hof
    · simp [hw]
    · rw [hof]
      exact h.locks.all_or_none i
  · rcases hof i with hw | hof
    · simp [hw]
    · rw [hof]
      exact h.keys.inserted_of i

/-! ## What a transaction may rely on -/

/-- A transaction whose DELETE is over has deleted the whole group, or nothing. -/
theorem Good.cleared_or_none (h : Good L whole of t next w) {i : ι} (ht : (w i).targets = []) :
    (∀ r ∈ t, L.group r = of i → L.id r ∈ (w i).deleted) ∨ (w i).deleted = [] := by
  rcases h.locks.all_or_none i with hall | ⟨hnone, -⟩
  · left
    intro r hr hg
    have hfound := hall r hr hg
    simpa [ht] using hfound
  · exact Or.inr hnone

/-- One that has inserted something leaves nothing else of the group: the row of index 0 stands
in the way of every other one. -/
theorem Good.cleared (h : Good L whole of t next w)
    (hfirst : ∀ rows, whole rows → ∃ r ∈ rows, L.index r = 0) {i : ι} (ht : (w i).targets = [])
    (hne : (w i).inserted ≠ []) : ∀ r ∈ t, L.group r = of i → L.id r ∈ (w i).deleted := by
  rcases h.cleared_or_none ht with hall | hnone
  · exact hall
  intro r hr hg
  have hmem : r ∈ rows_of L (of i) t := mem_rows_of.mpr ⟨hr, hg⟩
  have hwhole : whole (rows_of L (of i) t) := by
    rcases h.groups (of i) with hnil | hwhole
    · rw [hnil] at hmem
      exact absurd hmem List.not_mem_nil
    · exact hwhole
  obtain ⟨q, hq, hq0⟩ := hfirst _ hwhole
  obtain ⟨r₀, hr₀, hr0⟩ := h.keys.inserted_first i hne
  have hq := mem_rows_of.mp hq
  have hkey : SameKey L r₀ q := ⟨(h.keys.inserted_of i r₀ hr₀).trans hq.2.symm, hr0.trans hq0.symm⟩
  have hdeleted := h.keys.key_free i r₀ hr₀ q hq.1 hkey
  rw [hnone] at hdeleted
  exact absurd hdeleted List.not_mem_nil

/-- The rows of other groups are untouched. -/
theorem Good.rows_of_view_ne (h : Good L whole of t next w) {i : ι} {g : G} (hg : g ≠ of i) :
    rows_of L g ((w i).view L t) = rows_of L g t := by
  have hinserted : (w i).inserted.filter (fun r => L.group r = g) = [] := by
    rw [List.filter_eq_nil_iff]
    intro r hr
    simpa [h.keys.inserted_of i r hr] using Ne.symm hg
  have hkept : ∀ r ∈ t, (decide (L.group r = g) && decide (L.id r ∉ (w i).deleted)) =
      decide (L.group r = g) := by
    intro r hr
    by_cases hrg : L.group r = g
    · have hnot : L.id r ∉ (w i).deleted := by
        intro hd
        exact hg (hrg ▸ h.locks.found_of i r hr (Or.inr hd))
      simp [hrg, hnot]
    · simp [hrg]
  unfold rows_of Work.view
  rw [List.filter_append, hinserted, List.append_nil, List.filter_filter]
  exact List.filter_congr hkept

/-- A transaction that has inserted something leaves its rows and no others. -/
theorem Good.rows_of_view (h : Good L whole of t next w)
    (hfirst : ∀ rows, whole rows → ∃ r ∈ rows, L.index r = 0) {i : ι} (ht : (w i).targets = [])
    (hne : (w i).inserted ≠ []) : rows_of L (of i) ((w i).view L t) = (w i).inserted := by
  have hcleared := h.cleared hfirst ht hne
  have hnone : (t.filter fun r => L.id r ∉ (w i).deleted).filter
      (fun r => L.group r = of i) = [] := by
    rw [List.filter_filter, List.filter_eq_nil_iff]
    intro r hr
    by_cases hg : L.group r = of i
    · simp [hg, hcleared r hr hg]
    · simp [hg]
  have hall : (w i).inserted.filter (fun r => L.group r = of i) = (w i).inserted := by
    rw [List.filter_eq_self]
    intro r hr
    simp [h.keys.inserted_of i r hr]
  unfold rows_of Work.view
  rw [List.filter_append, hnone, hall, List.nil_append]

/-- One that has inserted nothing leaves the group empty, or as it is. -/
theorem Good.rows_of_view_none (h : Good L whole of t next w) {i : ι} (ht : (w i).targets = [])
    (hnil : (w i).inserted = []) :
    rows_of L (of i) ((w i).view L t) = [] ∨
      rows_of L (of i) ((w i).view L t) = rows_of L (of i) t := by
  rcases h.cleared_or_none ht with hall | hnone
  · left
    rw [rows_of_eq_nil]
    intro r hr hg
    rcases (mem_view L).mp hr with ⟨hr, hd⟩ | hr
    · exact hd (hall r hr hg)
    · rw [hnil] at hr
      exact absurd hr List.not_mem_nil
  · right
    simp [Work.view, hnone, hnil]

/-! ## The steps keep the invariant -/

variable [DecidableEq ι]

/-- What an update does to a transaction: it is the one that moved, or it stayed as it was. -/
theorem update_cases (w : ι → Work Row) (i : ι) (x : Work Row) (j : ι) :
    (j = i ∧ Function.update w i x j = x) ∨ (j ≠ i ∧ Function.update w i x j = w j) := by
  by_cases hj : j = i
  · subst hj
    exact Or.inl ⟨rfl, Function.update_self ..⟩
  · exact Or.inr ⟨hj, Function.update_of_ne hj ..⟩

omit [DecidableEq G] in
theorem Fresh.update (h : Fresh L t next w) {i : ι} {x : Work Row}
    (htargets : ∀ k ∈ x.targets, k < next) (hnew : ∀ r ∈ x.inserted, r ∈ (w i).inserted)
    (hrows : ∀ k ∈ x.targets, k ∈ (w i).targets ∨ ∃ r ∈ t, L.id r = k) :
    Fresh L t next (Function.update w i x) := by
  have hinserted : ∀ j, ∀ r ∈ (Function.update w i x j).inserted, r ∈ (w j).inserted := by
    intro j r hr
    rcases update_cases w i x j with ⟨rfl, hx⟩ | ⟨-, hx⟩
    · rw [hx] at hr
      exact hnew r hr
    · rwa [hx] at hr
  refine ⟨h.row_lt, h.row_group, fun j k hk => ?_,
    fun j r hr => h.inserted_lt j r (hinserted j r hr),
    fun j r hr => h.apart_rows j r (hinserted j r hr), fun j j' r hr hk => ?_,
    fun j j' hne r hr q hq => h.apart_inserted j j' hne r (hinserted j r hr) q (hinserted j' q hq)⟩
  · rcases update_cases w i x j with ⟨rfl, hx⟩ | ⟨-, hx⟩
    · rw [hx] at hk
      exact htargets k hk
    · rw [hx] at hk
      exact h.target_lt j k hk
  · have hold := hinserted j r hr
    rcases update_cases w i x j' with ⟨rfl, hx⟩ | ⟨-, hx⟩
    · rw [hx] at hk
      rcases hrows _ hk with hk | ⟨q, hq, hid⟩
      · exact h.apart_targets j j' r hold hk
      · exact h.apart_rows j r hold q hq hid
    · rw [hx] at hk
      exact h.apart_targets j j' r hold hk

omit [DecidableEq G] in
theorem Keys.update (h : Keys L of t w) {i : ι} {x : Work Row}
    (hinserted : x.inserted = (w i).inserted ∨ x.inserted = [])
    (hdeleted : x.inserted = [] ∨ ∀ k ∈ (w i).deleted, k ∈ x.deleted) :
    Keys L of t (Function.update w i x) := by
  have hsub : ∀ j, ∀ r ∈ (Function.update w i x j).inserted, r ∈ (w j).inserted := by
    intro j r hr
    rcases update_cases w i x j with ⟨rfl, hx⟩ | ⟨-, hx⟩
    · rw [hx] at hr
      rcases hinserted with he | he
      · rwa [he] at hr
      · rw [he] at hr
        exact absurd hr List.not_mem_nil
    · rwa [hx] at hr
  refine ⟨fun j r hr => h.inserted_of j r (hsub j r hr), fun j hne => ?_,
    fun j r hr q hq hkey => ?_,
    fun j j' hjj r hr q hq => h.key_apart j j' hjj r (hsub j r hr) q (hsub j' q hq)⟩
  · rcases update_cases w i x j with ⟨rfl, hx⟩ | ⟨-, hx⟩
    · rw [hx] at hne ⊢
      rcases hinserted with he | he
      · rw [he] at hne ⊢
        exact h.inserted_first j hne
      · exact absurd he hne
    · rw [hx] at hne ⊢
      exact h.inserted_first j hne
  · have hold := h.key_free j r (hsub j r hr) q hq hkey
    rcases update_cases w i x j with ⟨rfl, hx⟩ | ⟨-, hx⟩
    · rw [hx] at hr ⊢
      rcases hdeleted with he | he
      · rw [he] at hr
        exact absurd hr List.not_mem_nil
      · exact he _ hold
    · rwa [hx]

omit [DecidableEq G] in
/-- A transaction changes what it found and deleted, and the others keep what they have. -/
theorem Locks.update (h : Locks L of t w) {i : ι} {x : Work Row}
    (hfound : ∀ r ∈ t, L.id r ∈ x.targets ∨ L.id r ∈ x.deleted → L.group r = of i)
    (hdeleted : ∀ k ∈ x.deleted, k ∈ (w i).deleted ∨
      ((∃ r ∈ t, L.id r = k) ∧ ∀ j, j ≠ i → k ∉ (w j).deleted))
    (hall : (∀ r ∈ t, L.group r = of i → L.id r ∈ x.targets ∨ L.id r ∈ x.deleted) ∨
      (x.deleted = [] ∧ ∀ r ∈ t, L.id r ∉ x.targets)) :
    Locks L of t (Function.update w i x) := by
  have hothers : ∀ j, j ≠ i → ∀ k ∈ x.deleted, k ∉ (w j).deleted := by
    intro j hj k hk
    rcases hdeleted k hk with hk | ⟨-, hk⟩
    · exact h.deleted_apart i j (Ne.symm hj) k hk
    · exact hk j hj
  refine ⟨fun j => ?_, fun j => ?_, fun j j' hne => ?_, fun j => ?_⟩
  · rcases update_cases w i x j with ⟨rfl, hx⟩ | ⟨-, hx⟩
    · rwa [hx]
    · rw [hx]
      exact h.found_of j
  · rcases update_cases w i x j with ⟨rfl, hx⟩ | ⟨-, hx⟩
    · rw [hx]
      intro k hk
      rcases hdeleted k hk with hk | ⟨hk, -⟩
      · exact h.deleted_mem j k hk
      · exact hk
    · rw [hx]
      exact h.deleted_mem j
  · rcases update_cases w i x j with ⟨rfl, hx⟩ | ⟨hj, hx⟩
    · rw [hx, Function.update_of_ne (Ne.symm hne)]
      exact hothers j' (Ne.symm hne)
    · rw [hx]
      rcases update_cases w i x j' with ⟨rfl, hx'⟩ | ⟨-, hx'⟩
      · rw [hx']
        exact fun k hk hk' => hothers j hj k hk' hk
      · rw [hx']
        exact h.deleted_apart j j' hne
  · rcases update_cases w i x j with ⟨rfl, hx⟩ | ⟨-, hx⟩
    · rwa [hx]
    · rw [hx]
      exact h.all_or_none j

/-- A DELETE starts. -/
theorem Good.find (h : Good L whole of t next w) {i : ι} (hw : (w i).deleted = []) :
    Good L whole of t next (Function.update w i ((w i).find L (of i) t)) := by
  have hfound : ∀ k ∈ ((w i).find L (of i) t).targets,
      ∃ r ∈ t, L.group r = of i ∧ L.id r = k := by
    intro k hk
    obtain ⟨r, hr, rfl⟩ := List.mem_map.mp hk
    exact ⟨r, (mem_rows_of.mp hr).1, (mem_rows_of.mp hr).2, rfl⟩
  have hdeleted : ((w i).find L (of i) t).deleted = [] := hw
  refine ⟨h.fresh.update ?_ ?_ ?_, h.locks.update ?_ ?_ ?_,
    h.keys.update (Or.inl rfl) (Or.inr fun k hk => hk), h.groups⟩
  · intro k hk
    obtain ⟨r, hr, -, rfl⟩ := hfound k hk
    exact h.fresh.row_lt r hr
  · exact fun r hr => hr
  · intro k hk
    obtain ⟨r, hr, -, hid⟩ := hfound k hk
    exact Or.inr ⟨r, hr, hid⟩
  · intro r hr hk
    rw [hdeleted, or_iff_left List.not_mem_nil] at hk
    obtain ⟨q, hq, hg, hid⟩ := hfound _ hk
    exact (h.fresh.row_group r hr q hq hid.symm).trans hg
  · intro k hk
    exact Or.inl hk
  · left
    intro r hr hg
    exact Or.inl (List.mem_map_of_mem (mem_rows_of.mpr ⟨hr, hg⟩))

/-- A DELETE takes a row that it found, when no other transaction has deleted it. -/
theorem Good.take (h : Good L whole of t next w) {i : ι} {k : Nat} (hk : k ∈ (w i).targets)
    (hfree : ∀ j, j ≠ i → k ∉ (w j).deleted) :
    Good L whole of t next (Function.update w i ((w i).take L t k)) := by
  have htargets : ∀ k' ∈ ((w i).take L t k).targets, k' ∈ (w i).targets :=
    fun k' hk' => (List.mem_filter.mp hk').1
  have hdeleted : ∀ k' ∈ ((w i).take L t k).deleted,
      k' ∈ (w i).deleted ∨ (k' = k ∧ ∃ r ∈ t, L.id r = k) := by
    intro k' hk'
    unfold Work.take at hk'
    simp only at hk'
    split at hk'
    · rename_i hany
      rcases List.mem_cons.mp hk' with rfl | hk'
      · exact Or.inr ⟨rfl, by simpa using hany⟩
      · exact Or.inl hk'
    · exact Or.inl hk'
  have hkept : ∀ k' ∈ (w i).deleted, k' ∈ ((w i).take L t k).deleted := by
    intro k' hk'
    unfold Work.take
    simp only
    split
    · exact List.mem_cons_of_mem _ hk'
    · exact hk'
  have htaken : (∃ r ∈ t, L.id r = k) → k ∈ ((w i).take L t k).deleted := by
    intro hr
    have hany : t.any (fun r => L.id r = k) = true := by simpa using hr
    simp [Work.take, hany]
  refine ⟨h.fresh.update ?_ ?_ ?_, h.locks.update ?_ ?_ ?_,
    h.keys.update (Or.inl rfl) (Or.inr hkept), h.groups⟩
  · exact fun k' hk' => h.fresh.target_lt i k' (htargets k' hk')
  · exact fun r hr => hr
  · exact fun k' hk' => Or.inl (htargets k' hk')
  · intro r hr hid
    rcases hid with hid | hid
    · exact h.locks.found_of i r hr (Or.inl (htargets _ hid))
    · rcases hdeleted _ hid with hid | ⟨hid, -⟩
      · exact h.locks.found_of i r hr (Or.inr hid)
      · exact h.locks.found_of i r hr (Or.inl (hid ▸ hk))
  · intro k' hk'
    rcases hdeleted k' hk' with hk' | ⟨rfl, hr⟩
    · exact Or.inl hk'
    · exact Or.inr ⟨hr, hfree⟩
  · rcases h.locks.all_or_none i with hall | ⟨hnone, hgone⟩
    · left
      intro r hr hg
      by_cases hid : L.id r = k
      · exact Or.inr (hid ▸ htaken ⟨r, hr, hid⟩)
      · refine (hall r hr hg).imp (fun hm => ?_) (hkept _)
        exact List.mem_filter.mpr ⟨hm, by simpa using hid⟩
    · right
      refine ⟨?_, fun r hr hm => hgone r hr (htargets _ hm)⟩
      rw [List.eq_nil_iff_forall_not_mem]
      intro k' hk'
      rcases hdeleted k' hk' with hk' | ⟨-, r, hr, hid⟩
      · rw [hnone] at hk'
        exact absurd hk' List.not_mem_nil
      · exact hgone r hr (hid ▸ hk)

/-- A transaction ends without a commit. -/
theorem Good.release (h : Good L whole of t next w) (i : ι) :
    Good L whole of t next (Function.update w i {}) := by
  refine ⟨h.fresh.update ?_ ?_ ?_, h.locks.update ?_ ?_ ?_,
    h.keys.update (Or.inr rfl) (Or.inl rfl), h.groups⟩
  · simp
  · simp
  · simp
  · simp
  · simp
  · simp

/-- The rows that the transactions have inserted after one more. -/
theorem mem_inserted_insert {i : ι} {row : Row} {j : ι} {r : Row}
    (hr : r ∈ (Function.update w i ((w i).insert row) j).inserted) :
    r ∈ (w j).inserted ∨ (j = i ∧ r = row) := by
  rcases update_cases w i ((w i).insert row) j with ⟨rfl, hx⟩ | ⟨-, hx⟩
  · rw [hx] at hr
    rcases List.mem_append.mp hr with hr | hr
    · exact Or.inl hr
    · exact Or.inr ⟨rfl, List.mem_singleton.mp hr⟩
  · rw [hx] at hr
    exact Or.inl hr

/-- An INSERT does not change what the transactions have found and deleted. -/
theorem update_insert (w : ι → Work Row) (i : ι) (row : Row) (j : ι) :
    (Function.update w i ((w i).insert row) j).targets = (w j).targets ∧
      (Function.update w i ((w i).insert row) j).deleted = (w j).deleted := by
  rcases update_cases w i ((w i).insert row) j with ⟨rfl, hx⟩ | ⟨-, hx⟩
  · rw [hx]
    exact ⟨rfl, rfl⟩
  · rw [hx]
    exact ⟨rfl, rfl⟩

omit [DecidableEq G] in
theorem Fresh.insert (h : Fresh L t next w) {i : ι} {row : Row} (hid : L.id row = next) :
    Fresh L t (next + 1) (Function.update w i ((w i).insert row)) := by
  refine ⟨fun r hr => Nat.lt_succ_of_lt (h.row_lt r hr), h.row_group, fun j k hk => ?_,
    fun j r hr => ?_, fun j r hr q hq => ?_, fun j j' r hr => ?_, fun j j' hne r hr q hq => ?_⟩
  · rw [(update_insert w i row j).1] at hk
    exact Nat.lt_succ_of_lt (h.target_lt j k hk)
  · rcases mem_inserted_insert hr with hr | ⟨-, rfl⟩
    · exact Nat.lt_succ_of_lt (h.inserted_lt j r hr)
    · omega
  · rcases mem_inserted_insert hr with hr | ⟨-, rfl⟩
    · exact h.apart_rows j r hr q hq
    · have hlt := h.row_lt q hq
      omega
  · rw [(update_insert w i row j').1]
    rcases mem_inserted_insert hr with hr | ⟨-, rfl⟩
    · exact h.apart_targets j j' r hr
    · intro hk
      have hlt := h.target_lt j' _ hk
      omega
  · rcases mem_inserted_insert hr with hold | ⟨hj, rfl⟩
    · rcases mem_inserted_insert hq with hq | ⟨-, rfl⟩
      · exact h.apart_inserted j j' hne r hold q hq
      · have hlt := h.inserted_lt j r hold
        omega
    · rcases mem_inserted_insert hq with hq | ⟨hj', -⟩
      · have hlt := h.inserted_lt j' q hq
        omega
      · exact absurd (hj.trans hj'.symm) hne

omit [DecidableEq G] in
theorem SameKey.symm {r q : Row} (h : SameKey L r q) : SameKey L q r := ⟨h.1.symm, h.2.symm⟩

omit [DecidableEq G] in
theorem Keys.insert (h : Keys L of t w) {i : ι} {row : Row} (hg : L.group row = of i)
    (hfirst : (w i).inserted = [] → L.index row = 0)
    (hfree : ∀ q ∈ t, SameKey L row q → L.id q ∈ (w i).deleted)
    (hothers : ∀ j, j ≠ i → ∀ q ∈ (w j).inserted, ¬ SameKey L row q) :
    Keys L of t (Function.update w i ((w i).insert row)) := by
  refine ⟨fun j r hr => ?_, fun j hne => ?_, fun j r hr q hq hkey => ?_,
    fun j j' hne r hr q hq hkey => ?_⟩
  · rcases mem_inserted_insert hr with hr | ⟨rfl, rfl⟩
    · exact h.inserted_of j r hr
    · exact hg
  · rcases update_cases w i ((w i).insert row) j with ⟨rfl, hx⟩ | ⟨-, hx⟩
    · rw [hx]
      by_cases hnil : (w j).inserted = []
      · exact ⟨row, List.mem_append_right _ List.mem_cons_self, hfirst hnil⟩
      · obtain ⟨r, hr, hr0⟩ := h.inserted_first j hnil
        exact ⟨r, List.mem_append_left _ hr, hr0⟩
    · rw [hx] at hne ⊢
      exact h.inserted_first j hne
  · rw [(update_insert w i row j).2]
    rcases mem_inserted_insert hr with hr | ⟨rfl, rfl⟩
    · exact h.key_free j r hr q hq hkey
    · exact hfree q hq hkey
  · rcases mem_inserted_insert hr with hold | ⟨rfl, rfl⟩
    · rcases mem_inserted_insert hq with hq | ⟨rfl, rfl⟩
      · exact h.key_apart j j' hne r hold q hq hkey
      · exact hothers j hne r hold hkey.symm
    · rcases mem_inserted_insert hq with hq | ⟨hj', -⟩
      · exact hothers j' (Ne.symm hne) q hq hkey
      · exact hne hj'.symm

/-- An INSERT of a row whose key nothing stands in the way of. -/
theorem Good.insert (h : Good L whole of t next w) {i : ι} {row : Row} (hid : L.id row = next)
    (hg : L.group row = of i) (hfirst : (w i).inserted = [] → L.index row = 0)
    (hfree : ∀ q ∈ t, SameKey L row q → L.id q ∈ (w i).deleted)
    (hothers : ∀ j, j ≠ i → ∀ q ∈ (w j).inserted, ¬ SameKey L row q) :
    Good L whole of t (next + 1) (Function.update w i ((w i).insert row)) := by
  refine ⟨h.fresh.insert hid, h.locks.update ?_ ?_ ?_, h.keys.insert hg hfirst hfree hothers,
    h.groups⟩
  · exact h.locks.found_of i
  · exact fun k hk => Or.inl hk
  · exact h.locks.all_or_none i

/-! ## A commit -/

omit [DecidableEq G] in
theorem Fresh.commit (h : Fresh L t next w) (hk : Keys L of t w) (i : ι) :
    Fresh L ((w i).view L t) next (Function.update w i {}) := by
  refine ⟨fun r hr => ?_, fun r hr q hq hid => ?_, fun j => ?_, fun j => ?_, fun j => ?_,
    fun j j' => ?_, fun j j' hne => ?_⟩
  · rcases (mem_view L).mp hr with ⟨hr, -⟩ | hr
    · exact h.row_lt r hr
    · exact h.inserted_lt i r hr
  · rcases (mem_view L).mp hr with ⟨hr, -⟩ | hr
    · rcases (mem_view L).mp hq with ⟨hq, -⟩ | hq
      · exact h.row_group r hr q hq hid
      · exact absurd hid (h.apart_rows i q hq r hr)
    · rcases (mem_view L).mp hq with ⟨hq, -⟩ | hq
      · exact absurd hid.symm (h.apart_rows i r hr q hq)
      · rw [hk.inserted_of i r hr, hk.inserted_of i q hq]
  · rcases update_cases w i {} j with ⟨-, hx⟩ | ⟨-, hx⟩
    · simp [hx]
    · rw [hx]
      exact h.target_lt j
  · rcases update_cases w i {} j with ⟨-, hx⟩ | ⟨-, hx⟩
    · simp [hx]
    · rw [hx]
      exact h.inserted_lt j
  · rcases update_cases w i {} j with ⟨-, hx⟩ | ⟨hj, hx⟩
    · simp [hx]
    · rw [hx]
      intro r hr q hq
      rcases (mem_view L).mp hq with ⟨hq, -⟩ | hq
      · exact h.apart_rows j r hr q hq
      · exact h.apart_inserted j i hj r hr q hq
  · rcases update_cases w i {} j with ⟨-, hx⟩ | ⟨-, hx⟩
    · simp [hx]
    · rw [hx]
      rcases update_cases w i {} j' with ⟨-, hx'⟩ | ⟨-, hx'⟩
      · simp [hx']
      · rw [hx']
        exact h.apart_targets j j'
  · rcases update_cases w i {} j with ⟨-, hx⟩ | ⟨-, hx⟩
    · simp [hx]
    · rw [hx]
      rcases update_cases w i {} j' with ⟨-, hx'⟩ | ⟨-, hx'⟩
      · simp [hx']
      · rw [hx']
        exact h.apart_inserted j j' hne

omit [DecidableEq G] in
theorem Keys.commit (h : Keys L of t w) (i : ι) :
    Keys L of ((w i).view L t) (Function.update w i {}) := by
  refine ⟨fun j => ?_, fun j => ?_, fun j => ?_, fun j j' hne => ?_⟩
  · rcases update_cases w i {} j with ⟨-, hx⟩ | ⟨-, hx⟩
    · simp [hx]
    · rw [hx]
      exact h.inserted_of j
  · rcases update_cases w i {} j with ⟨-, hx⟩ | ⟨-, hx⟩
    · simp [hx]
    · rw [hx]
      exact h.inserted_first j
  · rcases update_cases w i {} j with ⟨-, hx⟩ | ⟨hj, hx⟩
    · simp [hx]
    · rw [hx]
      intro r hr q hq hkey
      rcases (mem_view L).mp hq with ⟨hq, -⟩ | hq
      · exact h.key_free j r hr q hq hkey
      · exact absurd hkey (h.key_apart j i hj r hr q hq)
  · rcases update_cases w i {} j with ⟨-, hx⟩ | ⟨-, hx⟩
    · simp [hx]
    · rw [hx]
      rcases update_cases w i {} j' with ⟨-, hx'⟩ | ⟨-, hx'⟩
      · simp [hx']
      · rw [hx']
        exact h.key_apart j j' hne

/-- Another transaction finds the rows of its group gone or as they were. When they were replaced,
it had deleted none of them, and will find none. -/
theorem Locks.commit (h : Good L whole of t next w)
    (hfirst : ∀ rows, whole rows → ∃ r ∈ rows, L.index r = 0) {i : ι} (ht : (w i).targets = []) :
    Locks L of ((w i).view L t) (Function.update w i {}) := by
  have hgone : ∀ j, j ≠ i → ∀ r ∈ (w i).inserted, L.id r ∉ (w j).targets ∧
      L.id r ∉ (w j).deleted := by
    intro j _ r hr
    refine ⟨h.fresh.apart_targets i j r hr, fun hd => ?_⟩
    obtain ⟨q, hq, hid⟩ := h.locks.deleted_mem j _ hd
    exact h.fresh.apart_rows i r hr q hq hid
  refine ⟨fun j => ?_, fun j => ?_, fun j j' hne => ?_, fun j => ?_⟩
  · rcases update_cases w i {} j with ⟨-, hx⟩ | ⟨hj, hx⟩
    · simp [hx]
    · rw [hx]
      intro r hr hid
      rcases (mem_view L).mp hr with ⟨hr, -⟩ | hr
      · exact h.locks.found_of j r hr hid
      · rcases hid with hid | hid
        · exact absurd hid (hgone j hj r hr).1
        · exact absurd hid (hgone j hj r hr).2
  · rcases update_cases w i {} j with ⟨-, hx⟩ | ⟨hj, hx⟩
    · simp [hx]
    · rw [hx]
      intro k hk
      obtain ⟨r, hr, rfl⟩ := h.locks.deleted_mem j k hk
      have hkept := h.locks.deleted_apart j i hj _ hk
      exact ⟨r, (mem_view L).mpr (Or.inl ⟨hr, hkept⟩), rfl⟩
  · rcases update_cases w i {} j with ⟨-, hx⟩ | ⟨-, hx⟩
    · simp [hx]
    · rw [hx]
      rcases update_cases w i {} j' with ⟨-, hx'⟩ | ⟨-, hx'⟩
      · simp [hx']
      · rw [hx']
        exact h.locks.deleted_apart j j' hne
  · rcases update_cases w i {} j with ⟨-, hx⟩ | ⟨hj, hx⟩
    · simp [hx]
    rw [hx]
    rcases h.locks.all_or_none j with hall | ⟨hnone, hfound⟩
    · by_cases hof : (w i).inserted = [] ∨ of j ≠ of i
      · -- Nothing new came into the group of `j`.
        left
        intro r hr hg
        rcases (mem_view L).mp hr with ⟨hr, -⟩ | hr
        · exact hall r hr hg
        · rcases hof with hnil | hof
          · rw [hnil] at hr
            exact absurd hr List.not_mem_nil
          · exact absurd (hg.symm.trans (h.keys.inserted_of i r hr)) hof
      · -- The transaction has deleted the whole group, so that `j` has deleted nothing of it.
        rw [not_or, not_not] at hof
        have hcleared := h.cleared hfirst ht hof.1
        right
        constructor
        · rw [List.eq_nil_iff_forall_not_mem]
          intro k hk
          obtain ⟨r, hr, rfl⟩ := h.locks.deleted_mem j k hk
          have hg := (h.locks.found_of j r hr (Or.inr hk)).trans hof.2
          exact h.locks.deleted_apart i j (Ne.symm hj) _ (hcleared r hr hg) hk
        · intro r hr hk
          rcases (mem_view L).mp hr with ⟨hr, hkept⟩ | hr
          · have hg := (h.locks.found_of j r hr (Or.inl hk)).trans hof.2
            exact hkept (hcleared r hr hg)
          · exact (hgone j hj r hr).1 hk
    · right
      refine ⟨hnone, fun r hr hk => ?_⟩
      rcases (mem_view L).mp hr with ⟨hr, -⟩ | hr
      · exact hfound r hr hk
      · exact (hgone j hj r hr).1 hk

/-- A commit makes what the transaction inserted the group, or empties it, or leaves it. -/
theorem Good.commit (h : Good L whole of t next w)
    (hfirst : ∀ rows, whole rows → ∃ r ∈ rows, L.index r = 0) {i : ι} (ht : (w i).targets = [])
    (hwhole : (w i).inserted = [] ∨ whole (w i).inserted) :
    Good L whole of ((w i).view L t) next (Function.update w i {}) := by
  refine ⟨h.fresh.commit h.keys i, Locks.commit h hfirst ht, h.keys.commit i, fun g => ?_⟩
  by_cases hg : g = of i
  · subst hg
    rcases hwhole with hnil | hwhole
    · rcases h.rows_of_view_none ht hnil with hempty | hsame
      · exact Or.inl hempty
      · rw [hsame]
        exact h.groups (of i)
    · by_cases hnil : (w i).inserted = []
      · rcases h.rows_of_view_none ht hnil with hempty | hsame
        · exact Or.inl hempty
        · rw [hsame]
          exact h.groups (of i)
      · rw [h.rows_of_view hfirst ht hnil]
        exact Or.inr hwhole
  · rw [h.rows_of_view_ne hg]
    exact h.groups g

end

end replacing
