-- The graph batch when statements raise: what is left of `_populate_graph_batch` after an error in
-- an upsert, in a summary or in the update of `is_graphed`.
import Mathlib.Data.List.TakeWhile
import Qortia.GraphMirror
import Qortia.Lib.Aborting

namespace qortia

variable {K : Type}

/-! ## The batch, statement by statement -/

/-- The statements of the transaction of one row. The number is of the entity. -/
inductive GraphStatement where
  | upsert (entity : Nat)
  | summary (entity : Nat)
  | mark
  deriving DecidableEq, Repr

/-- The statements that raise. -/
abbrev GraphFaults := GraphRow → GraphStatement → Bool

/-- The turn of the loop for one entity. The summary swallows its exception. -/
def graph_entity_checked (o : Outside K) (cfg : Settings) (now : Timestamp)
    (fails : GraphStatement → Bool) (row : GraphRow) (c : aborting.Connection (Db K))
    (ent : (String × String) × Nat) : Option (aborting.Connection (Db K)) := do
  let c ← aborting.statement (fails (.upsert ent.2)) (upsert_entity row ent.1 now) c
  pure (aborting.swallowed (fails (.summary ent.2))
    (maybe_update_entity_summary o cfg row ent.1.1 now) c)

/-- The body of the transaction of one row. -/
def graph_row_checked (o : Outside K) (cfg : Settings) (now : Timestamp)
    (fails : GraphStatement → Bool) (row : GraphRow) (c : aborting.Connection (Db K)) :
    Option (aborting.Connection (Db K)) := do
  let c ← row.entities.zipIdx.foldlM (graph_entity_checked o cfg now fails row) c
  aborting.statement (fails .mark) (set_graphed row) c

/-- The transaction of one row, `none` when it raises. -/
def graph_transaction_checked (o : Outside K) (cfg : Settings) (now : Timestamp)
    (fails : GraphFaults) (db : Db K) (row : GraphRow) : Option (Db K) :=
  aborting.transaction (graph_row_checked o cfg now (fails row) row) db

/-- `_populate_graph_batch`. An exception of a row ends both loops. -/
def populate_graph_checked (o : Outside K) (cfg : Settings) (now : Timestamp)
    (fails : GraphFaults) (private_ids org_ids : List UUID) (db : Db K) : Db K :=
  let (db₁, done) := aborting.each (graph_transaction_checked o cfg now fails)
    (pick_rows private_ids (ungraphed_private db)) db
  if done then
    (aborting.each (graph_transaction_checked o cfg now fails)
      (pick_rows org_ids (ungraphed_org db₁)) db₁).1
  else db₁

/-! ## The row of a fault -/

/-- An upsert or the update of `is_graphed` raises. -/
def GraphRow.write_fails (row : GraphRow) (fails : GraphFaults) : Bool :=
  (row.entities.zipIdx.any fun ent => fails row (.upsert ent.2)) || fails row .mark

/-- Some statement raises. -/
def GraphRow.fails (row : GraphRow) (fails : GraphFaults) : Bool :=
  (row.entities.zipIdx.any fun ent => fails row (.upsert ent.2) || fails row (.summary ent.2)) ||
    fails row .mark

variable {o : Outside K} {cfg : Settings} {now : Timestamp} {fails : GraphFaults}

theorem graph_entity_checked_aborted (row : GraphRow) (f : GraphStatement → Bool) :
    aborting.KeepsAborted (graph_entity_checked o cfg now f row) := by
  intro c ent c' haborted hrun
  unfold graph_entity_checked at hrun
  rw [aborting.statement_aborted haborted] at hrun
  cases hrun

theorem graph_entity_checked_fails {row : GraphRow} {f : GraphStatement → Bool}
    {c c' : aborting.Connection (Db K)} {ent : (String × String) × Nat}
    (h : (f (.upsert ent.2) || f (.summary ent.2)) = true)
    (hrun : graph_entity_checked o cfg now f row c ent = some c') : c'.aborted = true := by
  unfold graph_entity_checked at hrun
  obtain ⟨c₁, hupsert, hrun⟩ := Option.bind_eq_some_iff.mp hrun
  cases hrun
  rcases Bool.or_eq_true_iff.mp h with hfail | hfail
  · rw [hfail, aborting.statement_fails] at hupsert
    cases hupsert
  · rw [hfail]
    exact aborting.swallowed_fails _ _

theorem graph_entity_checked_clean {row : GraphRow} {f : GraphStatement → Bool} (db : Db K)
    {ent : (String × String) × Nat} (h : (f (.upsert ent.2) || f (.summary ent.2)) = false) :
    graph_entity_checked o cfg now f row ⟨db, false⟩ ent =
      some ⟨graph_entity o cfg now row db ent.1, false⟩ := by
  obtain ⟨hupsert, hsummary⟩ := Bool.or_eq_false_iff.mp h
  unfold graph_entity_checked
  rw [hupsert, hsummary]
  rfl

theorem graph_row_checked_fails {row : GraphRow} (h : row.fails fails = true)
    (c : aborting.Connection (Db K)) : graph_row_checked o cfg now (fails row) row c = none := by
  unfold graph_row_checked
  apply Option.bind_eq_none_iff.mpr
  intro c₁ hrun
  rcases Bool.or_eq_true_iff.mp h with hents | hmark
  · -- The exception of a summary is swallowed, but `is_graphed` comes after it.
    apply aborting.statement_aborted
    exact aborting.foldlM_fails (graph_entity_checked_aborted row (fails row))
      (fun _ _ _ => graph_entity_checked_fails) hents hrun
  · rw [hmark]
    exact aborting.statement_fails _ _

theorem graph_row_checked_clean {row : GraphRow} (h : row.fails fails = false) (db : Db K) :
    graph_row_checked o cfg now (fails row) row ⟨db, false⟩ =
      some ⟨graph_transaction o cfg now db row, false⟩ := by
  obtain ⟨hents, hmark⟩ := Bool.or_eq_false_iff.mp h
  have hloop := aborting.foldlM_clean (f := fun db ent => graph_entity o cfg now row db ent.1)
    (fun db _ => graph_entity_checked_clean db) hents db
  have hfold : row.entities.zipIdx.foldl (fun db ent => graph_entity o cfg now row db ent.1) db =
      row.entities.foldl (graph_entity o cfg now row) db := by
    rw [← List.foldl_map, List.zipIdx_map_fst 0 row.entities]
  unfold graph_row_checked graph_transaction
  rw [hloop, hmark, hfold]
  rfl

/-- A row is graphed as a whole, or its first exception rolls it back and gets out. -/
theorem graph_transaction_checked_eq (db : Db K) (row : GraphRow) :
    graph_transaction_checked o cfg now fails db row =
      if row.fails fails then none else some (graph_transaction o cfg now db row) := by
  unfold graph_transaction_checked aborting.transaction
  cases h : row.fails fails with
  | true => rw [graph_row_checked_fails h]; rfl
  | false => rw [graph_row_checked_clean h]; rfl

/-! ## The batch up to the first failure -/

theorem graph_transaction_org {row : GraphRow} {a : UUID} (h : row.agent_id = some a)
    (db : Db K) : (graph_transaction o cfg now db row).org_memory = db.org_memory := by
  unfold graph_transaction
  rw [graph_entities_frame]
  unfold set_graphed
  rw [h]

theorem graph_transactions_org {picked : List GraphRow}
    (h : ∀ row ∈ picked, ∃ a, row.agent_id = some a) (db : Db K) :
    (picked.foldl (graph_transaction o cfg now) db).org_memory = db.org_memory := by
  induction picked generalizing db with
  | nil => rfl
  | cons row picked ih =>
    obtain ⟨a, ha⟩ := h row List.mem_cons_self
    rw [List.foldl_cons, ih fun x hx => h x (List.mem_cons_of_mem _ hx), graph_transaction_org ha]

/-- The rows that the two queries of the batch pick. -/
def graph_selection (private_ids org_ids : List UUID) (db : Db K) : List GraphRow :=
  pick_rows private_ids (ungraphed_private db) ++ pick_rows org_ids (ungraphed_org db)

theorem pick_private_agent {ids : List UUID} {db : Db K} {row : GraphRow}
    (h : row ∈ pick_rows ids (ungraphed_private db)) : ∃ a, row.agent_id = some a := by
  obtain ⟨r, -, rfl⟩ := List.mem_map.mp (mem_pick_rows h)
  exact ⟨_, rfl⟩

theorem pick_org_agent {ids : List UUID} {db : Db K} {row : GraphRow}
    (h : row ∈ pick_rows ids (ungraphed_org db)) : row.agent_id = none := by
  obtain ⟨r, -, rfl⟩ := List.mem_map.mp (mem_pick_rows h)
  rfl

/-- The batch graphs the rows before the first one that fails. -/
theorem populate_graph_checked_eq (private_ids org_ids : List UUID) (db : Db K) :
    populate_graph_checked o cfg now fails private_ids org_ids db =
      ((graph_selection private_ids org_ids db).takeWhile fun row => !row.fails fails).foldl
        (graph_transaction o cfg now) db := by
  have horg : ungraphed_org (aborting.each (graph_transaction_checked o cfg now fails)
      (pick_rows private_ids (ungraphed_private db)) db).1 = ungraphed_org db := by
    unfold ungraphed_org
    rw [aborting.each_eq graph_transaction_checked_eq, graph_transactions_org]
    intro row hrow
    exact pick_private_agent ((List.takeWhile_sublist _).subset hrow)
  have hboth := aborting.each_append (graph_transaction_checked o cfg now fails)
    (pick_rows private_ids (ungraphed_private db)) (pick_rows org_ids (ungraphed_org db)) db
  rw [aborting.each_eq graph_transaction_checked_eq] at hboth
  unfold populate_graph_checked graph_selection
  cases hrun : aborting.each (graph_transaction_checked o cfg now fails)
      (pick_rows private_ids (ungraphed_private db)) db with
  | mk db₁ done =>
    rw [hrun] at horg hboth
    simp only at horg hboth ⊢
    rw [horg]
    cases done with
    | true => exact (congrArg Prod.fst hboth).symm
    | false => exact (congrArg Prod.fst hboth).symm

/-- Without a fault, it is the batch. -/
theorem populate_graph_checked_clean (private_ids org_ids : List UUID) (db : Db K) :
    populate_graph_checked o cfg now (fun _ _ => false) private_ids org_ids db =
      populate_graph_batch o cfg now private_ids org_ids db := by
  have horg : ungraphed_org ((pick_rows private_ids (ungraphed_private db)).foldl
      (graph_transaction o cfg now) db) = ungraphed_org db := by
    unfold ungraphed_org
    rw [graph_transactions_org fun row hrow => pick_private_agent hrow]
  have hnone : ∀ row : GraphRow, (!row.fails fun _ _ => false) = true := by
    intro row
    simp [GraphRow.fails]
  rw [populate_graph_checked_eq, List.takeWhile_eq_self_iff.mpr fun row _ => hnone row]
  unfold graph_selection populate_graph_batch
  rw [List.foldl_append]
  simp only [horg]

/-! ## What a batch graphs -/

/-- The memory of the row is flagged. -/
def GraphRow.flagged (row : GraphRow) (db : Db K) : Prop :=
  match row.agent_id with
  | some _ => ∃ r ∈ db.hindsight_memories, r.id = row.id ∧ r.is_graphed = true
  | none => ∃ q ∈ db.org_memory, q.id = row.id ∧ q.is_graphed = true

/-- The memory of the row is flagged and linked from all its entities. -/
def GraphRow.Graphed (row : GraphRow) (db : Db K) : Prop :=
  row.flagged db ∧ ∀ t ∈ row.entities.map (·.1), db.linked row.scope t row.id

def GraphRow.present (row : GraphRow) (db : Db K) : Prop :=
  match row.agent_id with
  | some _ => ∃ r ∈ db.hindsight_memories, r.id = row.id
  | none => ∃ q ∈ db.org_memory, q.id = row.id

/-- The table and the key of the memory. -/
def GraphRow.place (row : GraphRow) : Bool × UUID := (row.agent_id.isSome, row.id)

theorem transaction_flagged (row other : GraphRow) (db : Db K) :
    row.flagged (graph_transaction o cfg now db other) ↔
      row.flagged db ∨ (other.place = row.place ∧ row.present db) := by
  have hprivate := rows.exists_update_flag HindsightMemory.id HindsightMemory.is_graphed
    (f := fun r => { r with is_graphed := true }) (fun _ => rfl) (fun _ => rfl) other.id row.id
    db.hindsight_memories
  have horg := rows.exists_update_flag OrgMemory.id OrgMemory.is_graphed
    (f := fun q => { q with is_graphed := true }) (fun _ => rfl) (fun _ => rfl) other.id row.id
    db.org_memory
  unfold graph_transaction
  rw [graph_entities_frame]
  unfold set_graphed GraphRow.flagged GraphRow.place GraphRow.present
  cases other.agent_id with
  | some a =>
    cases row.agent_id with
    | some b => simpa using hprivate
    | none => simp
  | none =>
    cases row.agent_id with
    | some b => simp
    | none => simpa using horg

theorem GraphRow.Current.present {row : GraphRow} {db : Db K} (h : row.Current db) :
    row.present db := by
  unfold GraphRow.Current at h
  unfold GraphRow.present
  cases hagent : row.agent_id with
  | some a =>
    rw [hagent] at h
    obtain ⟨r, hr, rfl⟩ := h
    exact ⟨r, hr, rfl⟩
  | none =>
    rw [hagent] at h
    obtain ⟨q, hq, rfl⟩ := h
    exact ⟨q, hq, rfl⟩

theorem transaction_linked (row : GraphRow) (db : Db K) (s : Scope) (t : String) (i : UUID) :
    (graph_transaction o cfg now db row).linked s t i ↔
      db.linked s t i ∨ (i = row.id ∧ s = row.scope ∧ t ∈ row.entities.map (·.1)) := by
  rw [(transaction_frame o cfg now db row).2.2.2]
  exact graph_entities_linked o cfg now row row.entities db s t i

theorem transaction_graphs {row : GraphRow} {db : Db K} (h : row.Current db) :
    row.Graphed (graph_transaction o cfg now db row) :=
  ⟨(transaction_flagged row row db).mpr (Or.inr ⟨rfl, h.present⟩),
    fun t ht => (transaction_linked row db _ t _).mpr (Or.inr ⟨rfl, rfl, ht⟩)⟩

theorem GraphRow.Graphed.transaction {row : GraphRow} {db : Db K} (h : row.Graphed db)
    (other : GraphRow) : row.Graphed (graph_transaction o cfg now db other) :=
  ⟨(transaction_flagged row other db).mpr (Or.inl h.1),
    fun t ht => (transaction_linked other db _ t _).mpr (Or.inl (h.2 t ht))⟩

theorem GraphRow.Graphed.transactions {row : GraphRow} {db : Db K} (h : row.Graphed db)
    (picked : List GraphRow) : row.Graphed (picked.foldl (graph_transaction o cfg now) db) := by
  induction picked generalizing db with
  | nil => exact h
  | cons other picked ih => exact ih (h.transaction other)

/-- Every row of the loop is graphed. -/
theorem transactions_graph {picked : List GraphRow} {db : Db K}
    (h : ∀ row ∈ picked, row.Current db) :
    ∀ row ∈ picked, row.Graphed (picked.foldl (graph_transaction o cfg now) db) := by
  induction picked generalizing db with
  | nil =>
    intro row hrow
    cases hrow
  | cons other picked ih =>
    intro row hrow
    rw [List.foldl_cons]
    rcases List.mem_cons.mp hrow with rfl | hrow
    · exact (transaction_graphs (h row List.mem_cons_self)).transactions picked
    · refine ih (fun x hx => ?_) row hrow
      exact (h x (List.mem_cons_of_mem _ hx)).transaction o cfg now other

/-- A row of another place stays as it is. -/
theorem transactions_flagged_other {row : GraphRow} {picked : List GraphRow} {db : Db K}
    (h : ∀ other ∈ picked, other.place ≠ row.place)
    (hflag : row.flagged (picked.foldl (graph_transaction o cfg now) db)) : row.flagged db := by
  induction picked generalizing db with
  | nil => exact hflag
  | cons other picked ih =>
    have hflag := ih (fun x hx => h x (List.mem_cons_of_mem _ hx)) hflag
    rcases (transaction_flagged row other db).mp hflag with hflag | ⟨hplace, -⟩
    · exact hflag
    · exact absurd hplace (h other List.mem_cons_self)

/-! ## The selection -/

theorem pick_rows_ids (ids : List UUID) (eligible : List GraphRow) :
    ((pick_rows ids eligible).map (·.id)).Nodup := by
  unfold pick_rows
  have hnodup := ids.nodup_dedup
  generalize ids.dedup = ids at hnodup
  refine List.Nodup.sublist ?_ hnodup
  clear hnodup
  induction ids with
  | nil => exact List.Sublist.slnil
  | cons id ids ih =>
    cases hfind : eligible.find? fun row => row.id = id with
    | none =>
      simp only [List.filterMap_cons, hfind]
      exact ih.cons id
    | some row =>
      have hid : row.id = id := by simpa using List.find?_some hfind
      simp only [List.filterMap_cons, hfind, List.map_cons, hid]
      exact ih.cons_cons id

theorem selection_current {private_ids org_ids : List UUID} {db : Db K} {row : GraphRow}
    (h : row ∈ graph_selection private_ids org_ids db) : row.Current db := by
  rcases List.mem_append.mp h with h | h
  · exact ungraphed_private_current (mem_pick_rows h)
  · exact ungraphed_org_current (mem_pick_rows h)

/-- No two selected rows are of one place. -/
theorem selection_places (private_ids org_ids : List UUID) (db : Db K) :
    ((graph_selection private_ids org_ids db).map (·.place)).Nodup := by
  have hplaces : ∀ picked : List GraphRow, (picked.map (·.id)).Nodup →
      (picked.map (·.place)).Nodup := by
    intro picked hids
    apply List.Nodup.of_map Prod.snd
    rw [List.map_map]
    exact hids
  unfold graph_selection
  rw [List.map_append, List.nodup_append]
  refine ⟨hplaces _ (pick_rows_ids _ _), hplaces _ (pick_rows_ids _ _), ?_⟩
  rintro p hp q hq rfl
  obtain ⟨row, hrow, rfl⟩ := List.mem_map.mp hp
  obtain ⟨other, hother, hplace⟩ := List.mem_map.mp hq
  obtain ⟨a, ha⟩ := pick_private_agent hrow
  have hkind := congrArg Prod.fst hplace
  simp [GraphRow.place, ha, pick_org_agent hother] at hkind

/-- No row is flagged when it is selected. -/
theorem selection_not_flagged {db : Db K} (hkeyed : db.Keyed) {private_ids org_ids : List UUID}
    {row : GraphRow} (h : row ∈ graph_selection private_ids org_ids db) : ¬ row.flagged db := by
  intro hflag
  rcases List.mem_append.mp h with h | h
  · obtain ⟨r, hr, rfl⟩ := List.mem_map.mp (mem_pick_rows h)
    obtain ⟨hr, hwhere⟩ := List.mem_filter.mp hr
    obtain ⟨x, hx, hid, hgraphed⟩ := hflag
    rw [List.inj_on_of_nodup_map hkeyed.hindsight_nodup hx hr hid] at hgraphed
    rw [hgraphed] at hwhere
    cases hwhere
  · obtain ⟨q, hq, rfl⟩ := List.mem_map.mp (mem_pick_rows h)
    obtain ⟨hq, hwhere⟩ := List.mem_filter.mp hq
    obtain ⟨x, hx, hid, hgraphed⟩ := hflag
    rw [List.inj_on_of_nodup_map hkeyed.org_nodup hx hq hid] at hgraphed
    rw [hgraphed] at hwhere
    cases hwhere

/-! ## The law -/

/-- Every selected row with no failing write is graphed, if and only if every selected row from the
first one with a failing statement on has a failing write. The private memories come before those
of the organisation. -/
theorem graph_batch_survives_iff (o : Outside K) (cfg : Settings) (now : Timestamp)
    (fails : GraphFaults) (private_ids org_ids : List UUID) (db : Db K) (hkeyed : db.Keyed) :
    (∀ row ∈ graph_selection private_ids org_ids db, row.write_fails fails = false →
      row.Graphed (populate_graph_checked o cfg now fails private_ids org_ids db)) ↔
    ∀ row ∈ (graph_selection private_ids org_ids db).dropWhile (fun row => !row.fails fails),
      row.write_fails fails = true := by
  have hsplit := List.takeWhile_append_dropWhile (p := fun row : GraphRow => !row.fails fails)
    (l := graph_selection private_ids org_ids db)
  rw [populate_graph_checked_eq]
  constructor
  · intro h row hrow
    by_contra hwrite
    have hmem : row ∈ graph_selection private_ids org_ids db := by
      rw [← hsplit]
      exact List.mem_append_right _ hrow
    have hplaces := selection_places private_ids org_ids db
    rw [← hsplit, List.map_append, List.nodup_append] at hplaces
    have hgraphed := h row hmem (eq_false_of_ne_true hwrite)
    apply selection_not_flagged hkeyed hmem
    refine transactions_flagged_other (fun other hother => ?_) hgraphed.1
    exact hplaces.2.2 _ (List.mem_map_of_mem hother) _ (List.mem_map_of_mem hrow)
  · intro h row hrow hwrite
    rw [← hsplit] at hrow
    rcases List.mem_append.mp hrow with hrow | hrow
    · refine transactions_graph (fun x hx => ?_) row hrow
      exact selection_current ((List.takeWhile_sublist _).subset hx)
    · rw [h row hrow] at hwrite
      cases hwrite

def named_lesson (id : UUID) : HindsightMemory ℚ :=
  { id, tenant_id := 7, agent_id := 1, type := .lesson, content := wait_once
    entities := [("CI", "ORG")], valid_from := 0, created_at := 0 }

/-- Two lessons that name an entity. -/
def two_named_lessons : Db ℚ where
  hindsight_memories := [named_lesson 1, named_lesson 2]
  next_id := 3

theorem two_named_lessons_keyed : two_named_lessons.Keyed where
  hindsight_nodup := by decide
  org_nodup := by decide
  disjoint := by decide
  hindsight_lt := by decide
  org_lt := by decide

/-- The summary of the first lesson raises. -/
def first_summary_fails : GraphFaults := fun row st => row.id = 1 ∧ st = .summary 0

theorem graph_batch_survives_iff_lessons :
    (∀ row ∈ graph_selection [1, 2] [] two_named_lessons,
      row.write_fails first_summary_fails = false → row.Graphed
        (populate_graph_checked no_models {} 3 first_summary_fails [1, 2] [] two_named_lessons)) ↔
    ∀ row ∈ (graph_selection [1, 2] [] two_named_lessons).dropWhile
        (fun row => !row.fails first_summary_fails), row.write_fails first_summary_fails = true :=
  graph_batch_survives_iff no_models {} 3 first_summary_fails [1, 2] [] two_named_lessons
    two_named_lessons_keyed

/-- Neither lesson is graphed, though the summary is the only failure. -/
theorem a_summary_stops_the_batch :
    ¬ ∀ row ∈ graph_selection [1, 2] [] two_named_lessons,
      row.write_fails first_summary_fails = false → row.Graphed
        (populate_graph_checked no_models {} 3 first_summary_fails [1, 2] []
          two_named_lessons) := by
  intro h
  have hgraphed := h (named_lesson 2).graph_row (by decide) (by decide)
  obtain ⟨r, hr, -, hflag⟩ := hgraphed.1
  have hnone : ∀ r ∈ (populate_graph_checked no_models {} 3 first_summary_fails [1, 2] []
      two_named_lessons).hindsight_memories, r.is_graphed = false := by decide
  rw [hnone r hr] at hflag
  cases hflag

end qortia
