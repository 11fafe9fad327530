-- A table with a unique key into which several owners insert, with conflicts ignored. The key is
-- one for all owners, so that a row of one of them can keep out a row of another. The table is
-- compared with the one that an owner would fill alone.
import Mathlib.Data.List.Nodup

namespace conflicts

variable {Row Key Owner : Type}

section
variable [DecidableEq Key] (key : Row → Key)

/-- `INSERT .. ON CONFLICT (key) DO NOTHING`. -/
def insert_new (r : Row) (t : List Row) : List Row :=
  if t.any fun x => key x = key r then t else t ++ [r]

variable {key} {r : Row} {t : List Row}

theorem insert_new_of_mem {x : Row} (hx : x ∈ t) (hkey : key x = key r) :
    insert_new key r t = t := by
  apply if_pos
  simp only [List.any_eq_true, decide_eq_true_eq]
  exact ⟨x, hx, hkey⟩

theorem insert_new_of_fresh (h : ∀ x ∈ t, key x ≠ key r) : insert_new key r t = t ++ [r] := by
  apply if_neg
  simpa using h

theorem mem_insert_new {x : Row} (h : x ∈ insert_new key r t) : x ∈ t ∨ x = r := by
  unfold insert_new at h
  split at h
  · exact Or.inl h
  · simpa using h

theorem mem_insert_new_of_mem {x : Row} (h : x ∈ t) : x ∈ insert_new key r t := by
  unfold insert_new
  split
  · exact h
  · simp [h]

end

/-! ## The table and the owner's own -/

/-- A table, and the table in which only the rows of the owner were added to what was there
before. -/
structure Split [DecidableEq Owner] (key : Row → Key) (owner : Row → Owner) (b : Owner)
    (before added t own : List Row) : Prop where
  table : t = before ++ added
  own : own = before ++ added.filter (owner · = b)
  fresh : ∀ r ∈ added, ∀ x ∈ before, key x ≠ key r
  nodup : (added.map key).Nodup

/-- A row of the owner was kept out of the table. -/
def Shadowed (key : Row → Key) (owner : Row → Owner) (b : Owner) (t own : List Row) : Prop :=
  ∃ r ∈ own, owner r = b ∧ (∃ x ∈ t, key x = key r) ∧ ∀ x ∈ t, key x = key r → owner x ≠ b

variable {key : Row → Key} {owner : Row → Owner} {b : Owner} {before added t own : List Row}
  {r : Row}

section
variable [DecidableEq Owner]

theorem Split.start : Split key owner b before [] before before := by
  constructor
  · simp
  · simp
  · simp
  · simp

theorem Split.mem_own (h : Split key owner b before added t own) {x : Row} :
    x ∈ own ↔ x ∈ before ∨ (x ∈ added ∧ owner x = b) := by
  rw [h.own]
  simp

theorem Split.mem_table (h : Split key owner b before added t own) {x : Row} :
    x ∈ t ↔ x ∈ before ∨ x ∈ added := by
  rw [h.table]
  simp

/-- A new row of anyone in the table. -/
theorem Split.append (h : Split key owner b before added t own) (hnew : ∀ x ∈ t, key x ≠ key r) :
    Split key owner b before (added ++ [r]) (t ++ [r])
      (own ++ [r].filter (owner · = b)) := by
  constructor
  · rw [h.table, List.append_assoc]
  · rw [h.own, List.append_assoc, List.filter_append]
  · intro y hy x hx
    rcases List.mem_append.mp hy with hy | hy
    · exact h.fresh y hy x hx
    · rw [List.mem_singleton.mp hy]
      exact hnew x (h.mem_table.mpr (Or.inl hx))
  · rw [List.map_append, List.nodup_append]
    refine ⟨h.nodup, by simp, ?_⟩
    intro k hk k' hk'
    obtain ⟨x, hx, rfl⟩ := List.mem_map.mp hk
    simp only [List.map_cons, List.map_nil, List.mem_singleton] at hk'
    subst hk'
    exact hnew x (h.mem_table.mpr (Or.inr hx))

theorem Split.same (h : Split key owner b before added t own) :
    t.filter (owner · = b) = own.filter (owner · = b) := by
  rw [h.table, h.own, List.filter_append, List.filter_append, List.filter_filter]
  simp

end

/-! ## A row that is kept out stays out -/

section
variable [DecidableEq Key]

theorem Shadowed.insert_table (h : Shadowed key owner b t own) (r : Row) :
    Shadowed key owner b (insert_new key r t) own := by
  obtain ⟨y, hy, hb, ⟨x, hx, hkey⟩, hall⟩ := h
  refine ⟨y, hy, hb, ⟨x, mem_insert_new_of_mem hx, hkey⟩, ?_⟩
  intro z hz hz_key
  by_cases hr : key x = key r
  · rw [insert_new_of_mem hx hr] at hz
    exact hall z hz hz_key
  · rcases mem_insert_new hz with hz | rfl
    · exact hall z hz hz_key
    · exact absurd (hkey.trans hz_key.symm) hr

theorem Shadowed.insert_own (h : Shadowed key owner b t own) (r : Row) :
    Shadowed key owner b t (insert_new key r own) := by
  obtain ⟨y, hy, hrest⟩ := h
  exact ⟨y, mem_insert_new_of_mem hy, hrest⟩

end

section
variable [DecidableEq Owner]

theorem Shadowed.differ (h : Shadowed key owner b t own) :
    t.filter (owner · = b) ≠ own.filter (owner · = b) := by
  obtain ⟨y, hy, hb, -, hall⟩ := h
  intro heq
  have hmem : y ∈ own.filter (owner · = b) := by
    simp [hy, hb]
  rw [← heq] at hmem
  have hin := (List.mem_filter.mp hmem).1
  exact hall y hin rfl hb

/-! ## Inserts -/

variable [DecidableEq Key]

/-- An insert of another owner. -/
theorem Split.other (h : Split key owner b before added t own) (hr : owner r ≠ b) :
    ∃ added, Split key owner b before added (insert_new key r t) own := by
  by_cases hnew : ∀ x ∈ t, key x ≠ key r
  · have happend := h.append hnew
    simp only [List.filter_cons, hr, decide_false, Bool.false_eq_true, ↓reduceIte, List.filter_nil,
      List.append_nil] at happend
    rw [insert_new_of_fresh hnew]
    exact ⟨_, happend⟩
  · simp only [not_forall, not_not] at hnew
    obtain ⟨x, hx, hkey⟩ := hnew
    rw [insert_new_of_mem hx hkey]
    exact ⟨added, h⟩

/-- An insert of the owner, where no one else has added its key. -/
theorem Split.own_insert (h : Split key owner b before added t own) (hr : owner r = b)
    (hfree : ∀ x ∈ t, key x = key r → x ∈ before ∨ owner x = b) :
    ∃ added, Split key owner b before added (insert_new key r t) (insert_new key r own) := by
  by_cases hnew : ∀ x ∈ t, key x ≠ key r
  · have happend := h.append hnew
    simp only [List.filter_cons, hr, decide_true, ↓reduceIte, List.filter_nil] at happend
    have hown : ∀ x ∈ own, key x ≠ key r := by
      intro x hx
      apply hnew
      rcases h.mem_own.mp hx with hx | ⟨hx, -⟩
      · exact h.mem_table.mpr (Or.inl hx)
      · exact h.mem_table.mpr (Or.inr hx)
    rw [insert_new_of_fresh hnew, insert_new_of_fresh hown]
    exact ⟨_, happend⟩
  · simp only [not_forall, not_not] at hnew
    obtain ⟨x, hx, hkey⟩ := hnew
    have hown : x ∈ own := by
      rw [h.mem_own]
      rcases hfree x hx hkey with hbefore | hb
      · exact Or.inl hbefore
      · rcases h.mem_table.mp hx with hbefore | hadded
        · exact Or.inl hbefore
        · exact Or.inr ⟨hadded, hb⟩
    rw [insert_new_of_mem hx hkey, insert_new_of_mem hown hkey]
    exact ⟨added, h⟩

/-- An insert of the owner, where someone else has added its key. -/
theorem Split.shadowed (h : Split key owner b before added t own) (hr : owner r = b) {x : Row}
    (hx : x ∈ t) (hkey : key x = key r) (hadded : x ∉ before) (hother : owner x ≠ b) :
    Shadowed key owner b (insert_new key r t) (insert_new key r own) := by
  have hmem : x ∈ added := by
    rcases h.mem_table.mp hx with hbefore | hmem
    · exact absurd hbefore hadded
    · exact hmem
  -- It is the only row with the key.
  have honly : ∀ y ∈ t, key y = key r → y = x := by
    intro y hy hy_key
    rcases h.mem_table.mp hy with hbefore | hy
    · exact absurd (hy_key.trans hkey.symm) (h.fresh x hmem y hbefore)
    · exact List.inj_on_of_nodup_map h.nodup hy hmem (hy_key.trans hkey.symm)
  have hown : ∀ y ∈ own, key y ≠ key r := by
    intro y hy hy_key
    rcases h.mem_own.mp hy with hbefore | ⟨hy, hb⟩
    · exact h.fresh x hmem y hbefore (hy_key.trans hkey.symm)
    · rw [honly y (h.mem_table.mpr (Or.inr hy)) hy_key] at hb
      exact hother hb
  rw [insert_new_of_mem hx hkey, insert_new_of_fresh hown]
  refine ⟨r, by simp, hr, ⟨x, hx, hkey⟩, ?_⟩
  intro y hy hy_key
  rw [honly y hy hy_key]
  exact hother

end

end conflicts
