-- SQL statements on one table, read as the list of its rows. A statement picks its rows by a
-- predicate. A row that stays keeps its place, and a new row goes to the end.
import Mathlib.Data.List.Sort

namespace rows

variable {Row Key : Type}

/-! ## The statements -/

/-- `UPDATE t SET f WHERE p`. -/
def update (p : Row → Bool) (f : Row → Row) (t : List Row) : List Row :=
  t.map fun r => if p r then f r else r

/-- `DELETE FROM t WHERE p`. -/
def delete (p : Row → Bool) (t : List Row) : List Row := t.filter fun r => !p r

/-- `INSERT ... ON CONFLICT (..) DO UPDATE SET f`, where `conflict` finds the rows in conflict
with the new one. -/
def upsert (conflict : Row → Bool) (f : Row → Row) (new : Row) (t : List Row) : List Row :=
  if t.any conflict then update conflict f t else t ++ [new]

/-- `ORDER BY key DESC`. Rows of one key stay in the order of the table. -/
def order_desc [LinearOrder Key] (key : Row → Key) (t : List Row) : List Row :=
  t.insertionSort fun a b => key b ≤ key a

/-- `ORDER BY key ASC`. -/
def order_asc [LinearOrder Key] (key : Row → Key) (t : List Row) : List Row :=
  t.insertionSort fun a b => key a ≤ key b

/-! ## The rows after a statement -/

theorem mem_update {p : Row → Bool} {f : Row → Row} {t : List Row} {x : Row} :
    x ∈ update p f t ↔ ∃ r ∈ t, (p r = true ∧ x = f r) ∨ (p r = false ∧ x = r) := by
  unfold update
  rw [List.mem_map]
  constructor
  · rintro ⟨r, hr, rfl⟩
    refine ⟨r, hr, ?_⟩
    cases h : p r <;> simp
  · rintro ⟨r, hr, ⟨hp, rfl⟩ | ⟨hp, rfl⟩⟩
    · exact ⟨r, hr, by simp [hp]⟩
    · exact ⟨x, hr, by simp [hp]⟩

/-- What the update leaves alone in a row, it leaves alone in the table. -/
theorem map_update {Col : Type} {g : Row → Col} {f : Row → Row} (hg : ∀ r, g (f r) = g r)
    (p : Row → Bool) (t : List Row) : (update p f t).map g = t.map g := by
  unfold update
  rw [List.map_map]
  refine List.map_congr_left fun r _ => ?_
  simp only [Function.comp]
  split
  · exact hg r
  · rfl

/-- An update that changes no row that it picks. -/
theorem update_eq_self_iff {p : Row → Bool} {f : Row → Row} {t : List Row} :
    update p f t = t ↔ ∀ r ∈ t, p r = true → f r = r := by
  unfold update
  induction t with
  | nil => simp
  | cons r t ih =>
    rw [List.map_cons, List.cons.injEq, ih, List.forall_mem_cons]
    apply and_congr_left
    intro _
    by_cases hp : p r = true
    · simp [hp]
    · simp [hp]

theorem sublist_update {Col : Type} {g : Row → Col} {f : Row → Row} (hg : ∀ r, g (f r) = g r)
    (p : Row → Bool) (t : List Row) : ((update p f t).map g).Sublist (t.map g) := by
  rw [map_update hg]

/-- An observer who sees some columns sees the update in them. -/
theorem map_update_comm {Col : Type} {g : Row → Col} {p : Row → Bool} {f : Row → Row}
    {p' : Col → Bool} {f' : Col → Col} (hp : ∀ r, p' (g r) = p r) (hf : ∀ r, f' (g r) = g (f r))
    (t : List Row) : (update p f t).map g = update p' f' (t.map g) := by
  unfold update
  rw [List.map_map, List.map_map]
  refine List.map_congr_left fun r _ => ?_
  simp only [Function.comp, hp]
  split
  · exact (hf r).symm
  · rfl

/-- A change of the rows that the update does not see. -/
theorem update_map {g f : Row → Row} {p : Row → Bool} (hp : ∀ r, p (g r) = p r)
    (hf : ∀ r, g (f r) = f (g r)) (t : List Row) :
    update p f (t.map g) = (update p f t).map g :=
  (map_update_comm hp (fun r => (hf r).symm) t).symm

/-- The rows of a key that are flagged, after an update that flags the rows of one key. -/
theorem exists_update_flag [DecidableEq Key] (key : Row → Key) (flag : Row → Bool) {f : Row → Row}
    (hkey : ∀ r, key (f r) = key r) (hflag : ∀ r, flag (f r) = true) (k k' : Key) (t : List Row) :
    (∃ r ∈ update (fun r => key r = k) f t, key r = k' ∧ flag r = true) ↔
      (∃ r ∈ t, key r = k' ∧ flag r = true) ∨ (k = k' ∧ ∃ r ∈ t, key r = k') := by
  constructor
  · rintro ⟨x, hx, hk', hf⟩
    obtain ⟨r, hr, ⟨hk, rfl⟩ | ⟨-, rfl⟩⟩ := mem_update.mp hx
    · rw [hkey] at hk'
      exact Or.inr ⟨(of_decide_eq_true hk).symm.trans hk', r, hr, hk'⟩
    · exact Or.inl ⟨x, hr, hk', hf⟩
  · rintro (⟨r, hr, hk', hf⟩ | ⟨rfl, r, hr, hk⟩)
    · by_cases hk : key r = k
      · exact ⟨f r, mem_update.mpr ⟨r, hr, Or.inl ⟨decide_eq_true hk, rfl⟩⟩,
          (hkey r).trans hk', hflag r⟩
      · exact ⟨r, mem_update.mpr ⟨r, hr, Or.inr ⟨decide_eq_false hk, rfl⟩⟩, hk', hf⟩
    · exact ⟨f r, mem_update.mpr ⟨r, hr, Or.inl ⟨decide_eq_true hk, rfl⟩⟩,
        (hkey r).trans hk, hflag r⟩

/-- A flagged row leaves the selection of those without the flag. -/
theorem filter_update_flag [DecidableEq Key] (key : Row → Key) (flag : Row → Bool) {f : Row → Row}
    (hflag : ∀ r, flag (f r) = true) (q : Row → Bool) (k : Key) (t : List Row) :
    (update (fun r => key r = k) f t).filter (fun r => !flag r && q r) =
      (t.filter fun r => !flag r && q r).filter fun r => key r ≠ k := by
  induction t with
  | nil => rfl
  | cons r t ih =>
    unfold update at ih ⊢
    rw [List.map_cons, List.filter_cons, List.filter_cons, ih]
    by_cases hkey : key r = k
    · cases hsel : !flag r && q r with
      | true => simp [hkey, hflag]
      | false => simp [hkey, hflag]
    · cases hsel : !flag r && q r with
      | true => simp [hkey, hsel]
      | false => simp [hkey, hsel]

/-- Rows that are picked once each and fail the filter are not among those that pass it. -/
theorem length_filter_add_le {p : Row → Bool} {t picked : List Row} (hnodup : picked.Nodup)
    (hpicked : ∀ r ∈ picked, r ∈ t ∧ p r = false) :
    (t.filter p).length + picked.length ≤ t.length := by
  have hsubset : picked ⊆ t.filter fun r => !p r := by
    intro r hr
    obtain ⟨hmem, hp⟩ := hpicked r hr
    exact List.mem_filter.mpr ⟨hmem, by simp [hp]⟩
  have hle := List.Nodup.length_le_of_subset hnodup hsubset
  have hparts := List.length_eq_length_filter_add (l := t) p
  omega

/-- Looking up a key after an update of the rows of one key. -/
theorem find?_update_key [DecidableEq Key] {key : Row → Key} {f : Row → Row}
    (hf : ∀ r, key (f r) = key r) (k k' : Key) (t : List Row) :
    (update (fun r => key r = k) f t).find? (fun r => key r = k') =
      (t.find? fun r => key r = k').map fun r => if k' = k then f r else r := by
  have hkey : ∀ r, key (if decide (key r = k) = true then f r else r) = key r := by
    intro r
    split
    · exact hf r
    · rfl
  unfold update
  rw [List.find?_map]
  simp only [Function.comp_def, hkey]
  cases hfind : t.find? fun r => key r = k' with
  | none => rfl
  | some r =>
    have hr := List.find?_some hfind
    simp only [decide_eq_true_eq] at hr
    by_cases hk : k' = k
    · simp [hk, hr]
    · simp [hk, hr]

/-- What is there after an upsert was updated, was there before, or is the new row. -/
theorem mem_upsert {conflict : Row → Bool} {f : Row → Row} {new x : Row} {t : List Row}
    (h : x ∈ upsert conflict f new t) :
    (∃ r ∈ t, conflict r = true ∧ x = f r) ∨ x ∈ t ∨ x = new := by
  unfold upsert at h
  split at h
  · obtain ⟨r, hr, ⟨hconflict, rfl⟩ | ⟨-, rfl⟩⟩ := mem_update.mp h
    · exact Or.inl ⟨r, hr, hconflict, rfl⟩
    · exact Or.inr (Or.inl hr)
  · rcases List.mem_append.mp h with h | h
    · exact Or.inr (Or.inl h)
    · exact Or.inr (Or.inr (List.mem_singleton.mp h))

theorem upsert_of_any {conflict : Row → Bool} {f : Row → Row} {new : Row} {t : List Row}
    (h : t.any conflict = true) : upsert conflict f new t = update conflict f t :=
  if_pos h

theorem upsert_of_not_any {conflict : Row → Bool} {f : Row → Row} {new : Row} {t : List Row}
    (h : ¬ t.any conflict = true) : upsert conflict f new t = t ++ [new] :=
  if_neg h

theorem upsert_some {conflict : Row → Bool} {f : Row → Row} {new r : Row} {t : List Row}
    (h : t.find? conflict = some r) : upsert conflict f new t = update conflict f t :=
  upsert_of_any (List.any_eq_true.mpr ⟨r, List.mem_of_find?_eq_some h, List.find?_some h⟩)

theorem upsert_none {conflict : Row → Bool} {f : Row → Row} {new : Row} {t : List Row}
    (h : t.find? conflict = none) : upsert conflict f new t = t ++ [new] := by
  apply upsert_of_not_any
  rw [List.any_eq_true]
  rintro ⟨r, hr, hconflict⟩
  exact List.find?_eq_none.mp h r hr hconflict

/-- An observer who sees the rows through `g` sees what is written through `g`. -/
theorem map_upsert {g f f' : Row → Row} {conflict conflict' : Row → Bool} {new new' : Row}
    (hconflict : ∀ r, conflict' (g r) = conflict r) (hf : ∀ r, g (f' (g r)) = g (f r))
    (hg : ∀ r, g (g r) = g r) (hnew : g new' = g new) (t : List Row) :
    (upsert conflict' f' new' (t.map g)).map g = (upsert conflict f new t).map g := by
  have hany : (t.map g).any conflict' = t.any conflict := by
    rw [List.any_map]
    exact congrArg t.any (funext hconflict)
  unfold upsert
  rw [hany]
  split
  · unfold update
    rw [List.map_map, List.map_map, List.map_map]
    refine List.map_congr_left fun r _ => ?_
    simp only [Function.comp, hconflict]
    split
    · exact hf r
    · exact hg r
  · rw [List.map_append, List.map_append, List.map_map]
    congr 1
    · exact List.map_congr_left fun r _ => hg r
    · simp [hnew]

theorem mem_delete {p : Row → Bool} {t : List Row} {x : Row} :
    x ∈ delete p t ↔ x ∈ t ∧ p x = false := by
  simp [delete]

theorem order_desc_perm [LinearOrder Key] (key : Row → Key) (t : List Row) :
    (order_desc key t).Perm t :=
  List.perm_insertionSort _ t

/-- The rows are sorted by a column that they keep. -/
theorem order_desc_map {Col : Type} [LinearOrder Key] (key : Col → Key) (g : Row → Col)
    (t : List Row) : order_desc key (t.map g) = (order_desc (fun r => key (g r)) t).map g := by
  unfold order_desc
  exact (List.map_insertionSort _ _ g t fun _ _ _ _ => Iff.rfl).symm

theorem order_asc_perm [LinearOrder Key] (key : Row → Key) (t : List Row) :
    (order_asc key t).Perm t :=
  List.perm_insertionSort _ t

@[simp] theorem mem_order_desc [LinearOrder Key] {key : Row → Key} {t : List Row} {x : Row} :
    x ∈ order_desc key t ↔ x ∈ t := by
  simp [order_desc]

@[simp] theorem mem_order_asc [LinearOrder Key] {key : Row → Key} {t : List Row} {x : Row} :
    x ∈ order_asc key t ↔ x ∈ t := by
  simp [order_asc]

/-- A query finds the same in the part of the table that has all the rows it picks. -/
theorem filterMap_filter_of {Col : Type} {p : Row → Bool} {f : Row → Option Col} {t : List Row}
    (h : ∀ r ∈ t, ∀ x, f r = some x → p r = true) : (t.filter p).filterMap f = t.filterMap f := by
  rw [List.filterMap_filter]
  apply List.filterMap_congr
  intro r hr
  split
  · rfl
  · rename_i hp
    cases hf : f r with
    | none => rfl
    | some x => exact absurd (h r hr x hf) hp

theorem filter_filter_of {p q : Row → Bool} {t : List Row} (h : ∀ r ∈ t, q r = true → p r = true) :
    (t.filter p).filter q = t.filter q := by
  rw [List.filter_filter]
  apply List.filter_congr
  intro r hr
  cases hq : q r with
  | false => rfl
  | true => exact h r hr hq

/-! ## A part of a table -/

section
variable {p q : Row → Bool} {f : Row → Row}

theorem filter_update (hq : ∀ r, q (f r) = q r) (t : List Row) :
    (update p f t).filter q = update p f (t.filter q) := by
  unfold update
  rw [List.filter_map]
  congr 1
  apply List.filter_congr
  intro r _
  by_cases hp : p r = true
  · simp [hp, hq]
  · simp [hp]

/-- The update of other rows. -/
theorem filter_update_other (hq : ∀ r, q (f r) = q r) (h : ∀ r, p r = true → q r = false)
    (t : List Row) : (update p f t).filter q = t.filter q := by
  rw [filter_update hq, update_eq_self_iff]
  intro r hr hp
  have hpart := (List.mem_filter.mp hr).2
  rw [h r hp] at hpart
  cases hpart

theorem filter_delete (t : List Row) : (delete p t).filter q = delete p (t.filter q) := by
  unfold delete
  rw [List.filter_filter, List.filter_filter]
  apply List.filter_congr
  intro r _
  exact Bool.and_comm _ _

theorem filter_delete_other (h : ∀ r, p r = true → q r = false) (t : List Row) :
    (delete p t).filter q = t.filter q := by
  apply filter_filter_of
  intro r _ hq
  cases hp : p r with
  | false => simp
  | true =>
    rw [h r hp] at hq
    cases hq

/-- An update of rows that are not of the part. -/
theorem filter_update_outside {t : List Row} (hq : ∀ r, q (f r) = q r)
    (h : ∀ r ∈ t, p r = true → q r = false) : (update p f t).filter q = t.filter q := by
  rw [filter_update hq, update_eq_self_iff]
  intro r hr hp
  obtain ⟨hmem, hpart⟩ := List.mem_filter.mp hr
  rw [h r hmem hp] at hpart
  cases hpart

theorem filter_delete_outside {t : List Row} (h : ∀ r ∈ t, p r = true → q r = false) :
    (delete p t).filter q = t.filter q := by
  apply filter_filter_of
  intro r hr hq
  cases hp : p r with
  | false => simp
  | true =>
    rw [h r hr hp] at hq
    cases hq

theorem filter_append_outside {new : List Row} (h : ∀ r ∈ new, q r = false) (t : List Row) :
    (t ++ new).filter q = t.filter q := by
  have hnone : new.filter q = [] := List.filter_eq_nil_iff.mpr fun r hr => by simp [h r hr]
  rw [List.filter_append, hnone, List.append_nil]

theorem filter_upsert_outside {conflict : Row → Bool} {new : Row} {t : List Row}
    (hq : ∀ r, q (f r) = q r) (h : ∀ r ∈ t, conflict r = true → q r = false)
    (hnew : q new = false) : (upsert conflict f new t).filter q = t.filter q := by
  unfold upsert
  split
  · exact filter_update_outside hq h
  · apply filter_append_outside
    intro r hr
    rw [List.mem_singleton.mp hr]
    exact hnew

/-- A query of the part asks nothing else of the table. -/
theorem find?_filter_of (h : ∀ r, p r = true → q r = true) (t : List Row) :
    (t.filter q).find? p = t.find? p := by
  rw [List.find?_filter]
  congr 1
  funext r
  by_cases hp : p r = true
  · simp [hp, h r hp]
  · simp [hp]

theorem any_filter_of (h : ∀ r, p r = true → q r = true) (t : List Row) :
    (t.filter q).any p = t.any p := by
  rw [List.any_filter]
  congr 1
  funext r
  by_cases hp : p r = true
  · simp [hp, h r hp]
  · simp [hp]

end

theorem order_desc_sorted [LinearOrder Key] (key : Row → Key) (t : List Row) :
    (order_desc key t).Pairwise fun a b => key b ≤ key a := by
  have htotal : Std.Total fun a b : Row => key b ≤ key a := ⟨fun a b => le_total (key b) (key a)⟩
  have htrans : IsTrans Row fun a b => key b ≤ key a := ⟨fun _ _ _ hab hbc => le_trans hbc hab⟩
  exact List.pairwise_insertionSort _ t

theorem orderedInsert_first {before : Row → Row → Prop} [DecidableRel before] {r : Row}
    {t : List Row} (h : ∀ x ∈ t, before r x) : t.orderedInsert before r = r :: t := by
  cases t with
  | nil => rfl
  | cons x t => exact if_pos (h x List.mem_cons_self)

theorem filter_orderedInsert {before : Row → Row → Prop} [DecidableRel before]
    [IsTrans Row before] (p : Row → Bool) (r : Row) {t : List Row} (ht : t.Pairwise before) :
    (t.orderedInsert before r).filter p =
      if p r then (t.filter p).orderedInsert before r else t.filter p := by
  induction t with
  | nil => cases hp : p r <;> simp [hp]
  | cons x t ih =>
    obtain ⟨hx, ht⟩ := List.pairwise_cons.mp ht
    rw [List.orderedInsert_cons]
    by_cases hr : before r x
    · have hfirst : ∀ y ∈ (x :: t).filter p, before r y := by
        intro y hy
        rcases List.mem_cons.mp (List.mem_of_mem_filter hy) with rfl | hy
        · exact hr
        · exact IsTrans.trans _ _ _ hr (hx y hy)
      rw [if_pos hr, orderedInsert_first hfirst, List.filter_cons]
    · rw [if_neg hr, List.filter_cons, ih ht, List.filter_cons]
      cases p x <;> cases p r <;> simp [hr]

/-- A part of the ordered rows is the part in order. -/
theorem filter_order_desc [LinearOrder Key] (key : Row → Key) (p : Row → Bool) (t : List Row) :
    (order_desc key t).filter p = order_desc key (t.filter p) := by
  have htrans : IsTrans Row fun a b => key b ≤ key a := ⟨fun _ _ _ hab hbc => le_trans hbc hab⟩
  induction t with
  | nil => rfl
  | cons r t ih =>
    have hinsert := filter_orderedInsert p r (order_desc_sorted key t)
    rw [ih] at hinsert
    unfold order_desc at hinsert ⊢
    rw [List.insertionSort_cons, hinsert, List.filter_cons]
    split
    · rfl
    · rfl

/-- The first row has the largest key. -/
theorem order_desc_first [LinearOrder Key] {key : Row → Key} {t rest : List Row} {first : Row}
    (h : order_desc key t = first :: rest) : ∀ r ∈ t, key r ≤ key first := by
  have hsorted := order_desc_sorted key t
  intro r hr
  have hmem : r ∈ order_desc key t := mem_order_desc.mpr hr
  rw [h] at hsorted hmem
  rcases List.mem_cons.mp hmem with rfl | hrest
  · exact le_refl _
  · exact List.rel_of_pairwise_cons hsorted hrest

theorem pair_sublist_total {x y : Row} {t : List Row} (hx : x ∈ t) (hy : y ∈ t) (hne : x ≠ y) :
    [x, y].Sublist t ∨ [y, x].Sublist t := by
  induction t with
  | nil => cases hx
  | cons a t ih =>
    rcases List.mem_cons.mp hx with rfl | hxt
    · have hyt := (List.mem_cons.mp hy).resolve_left (Ne.symm hne)
      exact Or.inl ((List.singleton_sublist.mpr hyt).cons_cons x)
    · rcases List.mem_cons.mp hy with rfl | hyt
      · exact Or.inr ((List.singleton_sublist.mpr hxt).cons_cons y)
      · rcases ih hxt hyt with h | h
        · exact Or.inl (h.cons a)
        · exact Or.inr (h.cons a)

theorem pair_sublist_asymm {x y : Row} {t : List Row} (ht : t.Nodup) (h : [x, y].Sublist t) :
    ¬ [y, x].Sublist t := by
  intro h'
  induction t with
  | nil => cases h
  | cons a t ih =>
    obtain ⟨ha, ht⟩ := List.nodup_cons.mp ht
    cases h with
    | cons _ h =>
      cases h' with
      | cons _ h' => exact ih ht h h'
      | cons_cons _ h' => exact ha (h.subset (by simp))
    | cons_cons _ h =>
      cases h' with
      | cons _ h' => exact ha (h'.subset (by simp))
      | cons_cons _ h' => exact ha (h.subset (by simp))

/-- Rows of one key stay in their order. -/
theorem order_desc_stable [LinearOrder Key] (key : Row → Key) {t : List Row} (hnodup : t.Nodup)
    {before : Row → Row → Prop} (hbefore : t.Pairwise before) :
    (order_desc key t).Pairwise fun x y => key y < key x ∨ (key x = key y ∧ before x y) := by
  have hout : (order_desc key t).Nodup := (order_desc_perm key t).nodup_iff.mpr hnodup
  rw [List.pairwise_iff_forall_sublist]
  intro x y hxy
  have hle := List.pairwise_iff_forall_sublist.mp (order_desc_sorted key t) hxy
  rcases lt_or_eq_of_le hle with hlt | heq
  · exact Or.inl hlt
  · right
    refine ⟨heq.symm, ?_⟩
    have hx : x ∈ t := mem_order_desc.mp (hxy.subset (by simp))
    have hy : y ∈ t := mem_order_desc.mp (hxy.subset (by simp))
    have hne : x ≠ y := by
      rintro rfl
      exact List.pairwise_iff_forall_sublist.mp hout hxy rfl
    rcases pair_sublist_total hx hy hne with h | h
    · exact List.pairwise_iff_forall_sublist.mp hbefore h
    · -- The sort would have kept `y` before `x`.
      have hyx : [y, x].Sublist (order_desc key t) := List.pair_sublist_insertionSort heq.ge h
      exact absurd hyx (pair_sublist_asymm hout hxy)

end rows
