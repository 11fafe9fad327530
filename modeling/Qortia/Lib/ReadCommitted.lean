-- Transactions on one table at the isolation level READ COMMITTED. An UPDATE finds its rows when
-- it starts, in what is committed and in what its own transaction wrote. It then takes the rows
-- one by one: it waits for a row that another transaction has changed and not committed, and it
-- changes the row when the WHERE clause still holds.
import Mathlib.Logic.Relation
import Qortia.Lib.Rows

namespace read_committed

variable {Row : Type}

/-! ## Transactions -/

inductive Statement (Row : Type) where
  /-- `UPDATE t SET f WHERE p` -/
  | update (p : Row → Bool) (f : Row → Row)
  /-- `INSERT INTO t`, of a row with a fresh id -/
  | insert (new : Nat → Row)

/-- A change that is not committed. -/
inductive Write (Row : Type) where
  | set (id : Nat) (f : Row → Row)
  | insert (row : Row)

structure Txn (Row : Type) where
  todo : List (Statement Row)
  /-- The rows that the statement under way found and has not taken. -/
  targets : Option (List Nat) := none
  pending : List (Write Row) := []

variable (key : Row → Nat)

def Write.apply (t : List Row) : Write Row → List Row
  | .set id f => rows.update (fun r => key r = id) f t
  | .insert row => t ++ [row]

/-- The table as the transaction sees it. A commit makes it the table. -/
def view (pending : List (Write Row)) (t : List Row) : List Row :=
  pending.foldl (Write.apply key) t

/-- The rows that the transaction inserted. -/
def inserted (pending : List (Write Row)) : List Row :=
  pending.filterMap fun
    | .insert row => some row
    | .set _ _ => none

/-- The transaction changed the row, so that others wait for it. -/
def Txn.holds (x : Txn Row) (id : Nat) : Bool :=
  x.pending.any fun
    | .set k _ => k = id
    | .insert _ => false

/-- The rows that an UPDATE finds when it is about to start. -/
def Txn.found (t : List Row) (x : Txn Row) : List Nat :=
  match x.todo, x.targets with
  | .update p _ :: _, none => ((view key x.pending t).filter p).map key
  | _, _ => []

/-- The next move of a transaction, `none` when it has to wait or has nothing left to do. -/
def Txn.advance (t : List Row) (locked : Nat → Bool) (next : Nat) (x : Txn Row) :
    Option (Nat × Txn Row) :=
  match x.todo, x.targets with
  | [], _ => none
  | .insert new :: rest, _ =>
    some (next + 1, { x with todo := rest, pending := x.pending ++ [.insert (new next)] })
  | .update _ _ :: _, none => some (next, { x with targets := some (x.found key t) })
  | .update _ _ :: rest, some [] => some (next, { x with todo := rest, targets := none })
  | .update p f :: _, some (id :: ids) =>
    if locked id then none
    else if (view key x.pending t).any fun r => key r = id && p r then
      some (next, { x with targets := some ids, pending := x.pending ++ [.set id f] })
    else some (next, { x with targets := some ids })

/-! ## What a transaction leaves alone -/

section
variable {key}

theorem mem_apply {t : List Row} {row : Row} (h : row ∈ t) {wr : Write Row}
    (hne : ∀ id f, wr = .set id f → id ≠ key row) : row ∈ wr.apply key t := by
  unfold Write.apply
  cases wr with
  | set id f =>
    have hid := hne id f rfl
    exact rows.mem_update.mpr ⟨row, h, Or.inr ⟨by simp [Ne.symm hid], rfl⟩⟩
  | insert new => exact List.mem_append_left _ h

/-- A row that no pending change sets is as it was. -/
theorem mem_view {t : List Row} {row : Row} (h : row ∈ t) {pending : List (Write Row)}
    (hne : ∀ id f, .set id f ∈ pending → id ≠ key row) : row ∈ view key pending t := by
  unfold view
  induction pending generalizing t with
  | nil => exact h
  | cons wr pending ih =>
    refine ih (mem_apply h ?_) fun id f hm => hne id f (List.mem_cons_of_mem _ hm)
    rintro id f rfl
    exact hne id f List.mem_cons_self

/-- A row that was inserted and that no pending change sets is there. -/
theorem inserted_mem_view {t : List Row} {row : Row} {pending : List (Write Row)}
    (h : .insert row ∈ pending) (hne : ∀ id f, .set id f ∈ pending → id ≠ key row) :
    row ∈ view key pending t := by
  unfold view
  induction pending generalizing t with
  | nil => cases h
  | cons wr pending ih =>
    have hne' : ∀ id f, .set id f ∈ pending → id ≠ key row :=
      fun id f hm => hne id f (List.mem_cons_of_mem _ hm)
    rcases List.mem_cons.mp h with rfl | h
    · exact mem_view (List.mem_append_right _ List.mem_cons_self) hne'
    · exact ih h hne'

/-- The ids in a view are those of the table and of the inserted rows. -/
theorem key_mem_view {t : List Row} {pending : List (Write Row)}
    (hf : ∀ id f, .set id f ∈ pending → ∀ r, key (f r) = key r) {row : Row}
    (h : row ∈ view key pending t) :
    key row ∈ t.map key ∨ ∃ new, .insert new ∈ pending ∧ key new = key row := by
  unfold view at h
  induction pending generalizing t with
  | nil => exact Or.inl (List.mem_map_of_mem h)
  | cons wr pending ih =>
    have hf' : ∀ id f, .set id f ∈ pending → ∀ r, key (f r) = key r :=
      fun id f hm => hf id f (List.mem_cons_of_mem _ hm)
    rcases ih hf' h with hm | ⟨new, hm, hk⟩
    · cases wr with
      | set id f =>
        obtain ⟨q, hq, hkey⟩ := List.mem_map.mp hm
        unfold Write.apply at hq
        obtain ⟨r, hr, ⟨-, rfl⟩ | ⟨-, rfl⟩⟩ := rows.mem_update.mp hq
        · rw [hf id f List.mem_cons_self] at hkey
          exact Or.inl (List.mem_map.mpr ⟨r, hr, hkey⟩)
        · exact Or.inl (List.mem_map.mpr ⟨q, hr, hkey⟩)
      | insert new =>
        obtain ⟨q, hq, hkey⟩ := List.mem_map.mp hm
        rcases List.mem_append.mp hq with hq | hq
        · exact Or.inl (List.mem_map.mpr ⟨q, hq, hkey⟩)
        · rw [List.mem_singleton] at hq
          exact Or.inr ⟨new, List.mem_cons_self, hq ▸ hkey⟩
    · exact Or.inr ⟨new, List.mem_cons_of_mem _ hm, hk⟩

end

/-! ## A transaction that stays within a set of rows -/

/-- The transaction changed, and is about to change, rows of the set only. -/
structure Txn.Within (S : Nat → Prop) (x : Txn Row) : Prop where
  targets : ∀ ids, x.targets = some ids → ∀ id ∈ ids, S id
  pending : ∀ id f, .set id f ∈ x.pending → S id

variable {key}

/-- A move of a transaction, case by case. -/
theorem advance_cases {t : List Row} {locked : Nat → Bool} {next next' : Nat} {x x' : Txn Row}
    (h : x.advance key t locked next = some (next', x')) :
    (∃ new rest, x.todo = .insert new :: rest ∧ next' = next + 1 ∧
        x' = { x with todo := rest, pending := x.pending ++ [.insert (new next)] }) ∨
      (∃ p f rest, x.todo = .update p f :: rest ∧ next' = next ∧
        (x' = { x with targets := some (x.found key t) } ∨
          (x.targets = some [] ∧ x' = { x with todo := rest, targets := none }) ∨
          ∃ id ids, x.targets = some (id :: ids) ∧ locked id = false ∧
            (x' = { x with targets := some ids, pending := x.pending ++ [.set id f] } ∨
              x' = { x with targets := some ids }))) := by
  unfold Txn.advance at h
  split at h
  · cases h
  · rename_i _ new rest htodo
    cases h
    exact Or.inl ⟨new, rest, htodo, rfl, rfl⟩
  · rename_i p f rest htodo htargets
    cases h
    exact Or.inr ⟨p, f, rest, htodo, rfl, Or.inl rfl⟩
  · rename_i p f rest htodo htargets
    cases h
    exact Or.inr ⟨p, f, rest, htodo, rfl, Or.inr (Or.inl ⟨htargets, rfl⟩)⟩
  · rename_i p f rest id ids htodo htargets
    by_cases hl : locked id = true
    · rw [if_pos hl] at h
      cases h
    · rw [if_neg hl] at h
      rw [Bool.not_eq_true] at hl
      split at h
      · cases h
        exact Or.inr ⟨p, f, rest, htodo, rfl,
          Or.inr (Or.inr ⟨id, ids, htargets, hl, Or.inl rfl⟩)⟩
      · cases h
        exact Or.inr ⟨p, f, rest, htodo, rfl,
          Or.inr (Or.inr ⟨id, ids, htargets, hl, Or.inr rfl⟩)⟩

theorem advance_within {t : List Row} {locked : Nat → Bool} {next next' : Nat} {x x' : Txn Row}
    {S : Nat → Prop} (hx : x.Within S) (hfound : ∀ id ∈ x.found key t, S id)
    (h : x.advance key t locked next = some (next', x')) : x'.Within S := by
  rcases advance_cases h with ⟨new, rest, htodo, -, rfl⟩ | ⟨p, f, rest, htodo, -, hmove⟩
  · refine ⟨hx.targets, fun id f hm => ?_⟩
    rcases List.mem_append.mp hm with hm | hm
    · exact hx.pending id f hm
    · rw [List.mem_singleton] at hm
      cases hm
  · rcases hmove with rfl | ⟨-, rfl⟩ | ⟨id, ids, htargets, -, rfl | rfl⟩
    · refine ⟨fun ids hids id hid => ?_, hx.pending⟩
      cases hids
      exact hfound id hid
    · exact ⟨fun ids hids => (nomatch hids), hx.pending⟩
    · refine ⟨fun ids' hids k hk => ?_, fun k g hm => ?_⟩
      · cases hids
        exact hx.targets _ htargets k (List.mem_cons_of_mem _ hk)
      · rcases List.mem_append.mp hm with hm | hm
        · exact hx.pending k g hm
        · rw [List.mem_singleton] at hm
          cases hm
          exact hx.targets _ htargets id List.mem_cons_self
    · refine ⟨fun ids' hids k hk => ?_, hx.pending⟩
      cases hids
      exact hx.targets _ htargets k (List.mem_cons_of_mem _ hk)

/-! ## A transaction that runs alone

With no other transaction in the way, an UPDATE is the update of its WHERE clause. -/

/-- One statement as a whole, on the rows and the next id. -/
def Statement.exec (s : List Row × Nat) : Statement Row → List Row × Nat
  | .update p f => (rows.update p f s.1, s.2)
  | .insert new => (s.1 ++ [new s.2], s.2 + 1)

/-- The moves of a transaction that waits for nobody. -/
def Alone (key : Row → Nat) (t : List Row) : Nat × Txn Row → Nat × Txn Row → Prop :=
  Relation.ReflTransGen fun a b => a.2.advance key t (fun _ => false) a.1 = some b

theorem view_append (pending : List (Write Row)) (wr : Write Row) (t : List Row) :
    view key (pending ++ [wr]) t = wr.apply key (view key pending t) := by
  unfold view
  rw [List.foldl_append]
  rfl

theorem inserted_append (pending pending' : List (Write Row)) :
    inserted (pending ++ pending') = inserted pending ++ inserted pending' := by
  unfold inserted
  rw [List.filterMap_append]

/-- Taking one row and then the others is taking them all. -/
theorem update_one_then_rest {p : Row → Bool} {f : Row → Row} (hf : ∀ r, key (f r) = key r)
    {t : List Row} (hk : (t.map key).Nodup) {id : Nat} {ids : List Nat} (hid : id ∉ ids)
    (hany : t.any (fun r => key r = id && p r) = true) :
    rows.update (fun r => p r && key r ∈ ids) f (rows.update (fun r => key r = id) f t) =
      rows.update (fun r => p r && key r ∈ id :: ids) f t := by
  obtain ⟨q, hq, hqp⟩ := List.any_eq_true.mp hany
  simp only [Bool.and_eq_true, decide_eq_true_eq] at hqp
  unfold rows.update
  rw [List.map_map]
  refine List.map_congr_left fun r hr => ?_
  simp only [Function.comp]
  by_cases hrid : key r = id
  · have heq : r = q := List.inj_on_of_nodup_map hk hr hq (hrid.trans hqp.1.symm)
    have hp : p r = true := by
      rw [heq]
      exact hqp.2
    simp [hrid, hf, hid, hp]
  · simp [hrid]

theorem take_alone {p : Row → Bool} {f : Row → Row} (hf : ∀ r, key (f r) = key r) (t : List Row)
    (rest : List (Statement Row)) (next : Nat) (ids : List Nat) (hids : ids.Nodup)
    (pending : List (Write Row)) (hk : ((view key pending t).map key).Nodup) :
    ∃ pending', view key pending' t =
        rows.update (fun r => p r && key r ∈ ids) f (view key pending t) ∧
      inserted pending' = inserted pending ∧
      Alone key t (next, ⟨.update p f :: rest, some ids, pending⟩)
        (next, ⟨rest, none, pending'⟩) := by
  induction ids generalizing pending with
  | nil =>
    refine ⟨pending, ?_, rfl, Relation.ReflTransGen.single rfl⟩
    simp [rows.update]
  | cons id ids ih =>
    rw [List.nodup_cons] at hids
    by_cases hany : (view key pending t).any (fun r => key r = id && p r) = true
    · have hview : view key (pending ++ [.set id f]) t =
          (Write.set id f).apply key (view key pending t) := view_append pending (.set id f) t
      have hk' : ((view key (pending ++ [.set id f]) t).map key).Nodup := by
        rw [hview]
        unfold Write.apply
        rw [rows.map_update hf]
        exact hk
      obtain ⟨pending', hv, hins, hrun⟩ := ih hids.2 (pending ++ [.set id f]) hk'
      refine ⟨pending', ?_, ?_, Relation.ReflTransGen.head ?_ hrun⟩
      · rw [hv, hview]
        exact update_one_then_rest hf hk hids.1 hany
      · rw [hins, inserted_append]
        exact List.append_nil _
      · simp only [Txn.advance, Bool.false_eq_true, if_false, hany, if_true]
    · obtain ⟨pending', hv, hins, hrun⟩ := ih hids.2 pending hk
      refine ⟨pending', ?_, hins, Relation.ReflTransGen.head ?_ hrun⟩
      · rw [hv]
        unfold rows.update
        refine List.map_congr_left fun r hr => ?_
        have hnone : ¬ (key r = id ∧ p r = true) := by
          intro h
          exact hany (List.any_eq_true.mpr ⟨r, hr, by simp [h.1, h.2]⟩)
        by_cases hp : p r = true
        · have hrid : key r ≠ id := fun h => hnone ⟨h, hp⟩
          simp [hp, hrid]
        · simp [hp]
      · simp only [Txn.advance, Bool.false_eq_true, if_false, hany]

/-- The row that a statement inserts when it draws the id. -/
def Statement.new_rows (id : Nat) : Statement Row → List Row
  | .update _ _ => []
  | .insert new => [new id]

theorem statement_alone {t : List Row} (st : Statement Row)
    (hf : ∀ p f, st = .update p f → ∀ r, key (f r) = key r) (rest : List (Statement Row))
    (next : Nat) (pending : List (Write Row)) (hk : ((view key pending t).map key).Nodup) :
    ∃ next' pending', (view key pending' t, next') = st.exec (view key pending t, next) ∧
      inserted pending' = inserted pending ++ st.new_rows next ∧
      Alone key t (next, ⟨st :: rest, none, pending⟩) (next', ⟨rest, none, pending'⟩) := by
  cases st with
  | insert new =>
    refine ⟨next + 1, pending ++ [.insert (new next)], ?_, inserted_append _ _,
      Relation.ReflTransGen.single rfl⟩
    rw [view_append]
    rfl
  | update p f =>
    have hids : (((view key pending t).filter p).map key).Nodup :=
      hk.sublist (List.filter_sublist.map _)
    obtain ⟨pending', hv, hins, hrun⟩ := take_alone (hf p f rfl) t rest next _ hids pending hk
    refine ⟨next, pending', ?_, ?_, Relation.ReflTransGen.head rfl hrun⟩
    · rw [hv]
      unfold Statement.exec rows.update
      refine Prod.ext (List.map_congr_left fun r hr => ?_) rfl
      by_cases hp : p r = true
      · have hin : key r ∈ ((view key pending t).filter p).map key :=
          List.mem_map_of_mem (List.mem_filter.mpr ⟨hr, hp⟩)
        simp [hp, hin]
      · simp [hp]
    · rw [hins]
      exact (List.append_nil _).symm

end read_committed
