-- How the graph catches up with the memories. A batch that runs to its end links fifty waiting
-- memories of each table, so what waits shrinks to nothing, and then the graph is the index of all
-- memories.
import Qortia.GraphFaults

namespace qortia

variable {K : Type}

/-! ## The batches of the worker -/

/-- One batch: when it runs, and which memories its two queries pick. -/
structure GraphBatch where
  now : Timestamp
  private_ids : List UUID
  org_ids : List UUID

/-- No other transaction holds a waiting memory, so only `LIMIT 50` cuts the selections. -/
def GraphBatch.Full (db : Db K) (b : GraphBatch) : Prop :=
  (pick_rows b.private_ids (ungraphed_private db)).length =
      min 50 (ungraphed_private db).length ∧
    (pick_rows b.org_ids (ungraphed_org db)).length = min 50 (ungraphed_org db).length

instance (db : Db K) : DecidablePred (GraphBatch.Full db) := fun b => by
  unfold GraphBatch.Full
  infer_instance

def graph_batch_step (o : Outside K) (cfg : Settings) (db : Db K) (b : GraphBatch) :
    Option (Db K) :=
  some (populate_graph_batch o cfg b.now b.private_ids b.org_ids db)

/-- The memories that wait in the fuller table. -/
def Db.graph_backlog (db : Db K) : Nat :=
  max (ungraphed_private db).length (ungraphed_org db).length

/-- The memories as the batch reads them. -/
def Db.graph_rows (db : Db K) : List GraphRow :=
  db.hindsight_memories.map (·.graph_row) ++ db.org_memory.map (·.graph_row)

variable {o : Outside K} {cfg : Settings} {now : Timestamp}

/-! ## What one batch leaves -/

/-- The memory of the row waits no longer. -/
theorem transaction_ungraphed (o : Outside K) (cfg : Settings) (now : Timestamp) (db : Db K)
    (row : GraphRow) :
    ungraphed_private (graph_transaction o cfg now db row) =
        (ungraphed_private db).filter (fun r => r.place ≠ row.place) ∧
      ungraphed_org (graph_transaction o cfg now db row) =
        (ungraphed_org db).filter fun r => r.place ≠ row.place := by
  unfold graph_transaction
  rw [graph_entities_frame]
  unfold set_graphed ungraphed_private ungraphed_org
  rw [List.filter_map, List.filter_map]
  cases hagent : row.agent_id with
  | some a =>
    have hprivate := rows.filter_update_flag HindsightMemory.id HindsightMemory.is_graphed
      (f := fun r => { r with is_graphed := true }) (fun _ => rfl)
      (fun r => decide (r.entities ≠ [])) row.id db.hindsight_memories
    constructor
    · simp only
      rw [hprivate]
      congr 1
      apply List.filter_congr
      intro r _
      simp [GraphRow.place, HindsightMemory.graph_row, hagent]
    · symm
      congr 1
      apply List.filter_eq_self.mpr
      intro q _
      simp [GraphRow.place, OrgMemory.graph_row, hagent]
  | none =>
    have horg := rows.filter_update_flag OrgMemory.id OrgMemory.is_graphed
      (f := fun q => { q with is_graphed := true }) (fun _ => rfl)
      (fun q => decide (q.entities ≠ [])) row.id db.org_memory
    constructor
    · symm
      congr 1
      apply List.filter_eq_self.mpr
      intro r _
      simp [GraphRow.place, HindsightMemory.graph_row, hagent]
    · simp only
      rw [horg]
      congr 1
      apply List.filter_congr
      intro q _
      simp [GraphRow.place, OrgMemory.graph_row, hagent]

theorem transactions_ungraphed (o : Outside K) (cfg : Settings) (now : Timestamp)
    (picked : List GraphRow) (db : Db K) :
    ungraphed_private (picked.foldl (graph_transaction o cfg now) db) =
        (ungraphed_private db).filter (fun r => r.place ∉ picked.map (·.place)) ∧
      ungraphed_org (picked.foldl (graph_transaction o cfg now) db) =
        (ungraphed_org db).filter fun r => r.place ∉ picked.map (·.place) := by
  induction picked generalizing db with
  | nil => simp
  | cons row picked ih =>
    obtain ⟨hprivate, horg⟩ := ih (graph_transaction o cfg now db row)
    obtain ⟨hprivate₁, horg₁⟩ := transaction_ungraphed o cfg now db row
    rw [List.foldl_cons, hprivate, horg, hprivate₁, horg₁, List.filter_filter, List.filter_filter]
    constructor
    · apply List.filter_congr
      intro r _
      simp [Bool.and_comm]
    · apply List.filter_congr
      intro r _
      simp [Bool.and_comm]

theorem transactions_graph_rows (picked : List GraphRow) (db : Db K) :
    (picked.foldl (graph_transaction o cfg now) db).graph_rows = db.graph_rows := by
  induction picked generalizing db with
  | nil => rfl
  | cons row picked ih =>
    obtain ⟨hprivate, horg⟩ := graph_rows_transaction o cfg now db row
    rw [List.foldl_cons, ih]
    unfold Db.graph_rows
    rw [hprivate, horg]

/-- The batch is one loop over both selections. -/
theorem populate_graph_batch_eq (o : Outside K) (cfg : Settings) (now : Timestamp)
    (private_ids org_ids : List UUID) (db : Db K) :
    populate_graph_batch o cfg now private_ids org_ids db =
      (graph_selection private_ids org_ids db).foldl (graph_transaction o cfg now) db := by
  have horg : ungraphed_org ((pick_rows private_ids (ungraphed_private db)).foldl
      (graph_transaction o cfg now) db) = ungraphed_org db := by
    unfold ungraphed_org
    rw [graph_transactions_org fun row hrow => pick_private_agent hrow]
  unfold populate_graph_batch graph_selection
  rw [List.foldl_append]
  simp only [horg]

/-- A selection of one table takes its rows out of what waits. -/
theorem length_left {picked selection waiting : List GraphRow} (hids : (picked.map (·.id)).Nodup)
    (hwait : picked ⊆ waiting) (hsel : picked ⊆ selection)
    (hfull : picked.length = min 50 waiting.length) :
    (waiting.filter fun r => r.place ∉ selection.map (·.place)).length ≤ waiting.length - 50 := by
  have hout : ∀ r ∈ picked, r ∈ waiting ∧ decide (r.place ∉ selection.map (·.place)) = false := by
    intro r hr
    exact ⟨hwait hr, by simpa using ⟨r, hsel hr, rfl⟩⟩
  have hsum := rows.length_filter_add_le hids.of_map hout
  omega

/-- A full batch takes fifty memories of each table off the backlog. -/
theorem batch_backlog {db : Db K} {b : GraphBatch} (h : b.Full db) :
    (populate_graph_batch o cfg b.now b.private_ids b.org_ids db).graph_backlog ≤
      db.graph_backlog - 50 := by
  obtain ⟨hprivate, horg⟩ := transactions_ungraphed o cfg b.now
    (graph_selection b.private_ids b.org_ids db) db
  have hprivate_sub : pick_rows b.private_ids (ungraphed_private db) ⊆
      graph_selection b.private_ids b.org_ids db := List.subset_append_left _ _
  have horg_sub : pick_rows b.org_ids (ungraphed_org db) ⊆
      graph_selection b.private_ids b.org_ids db := List.subset_append_right _ _
  have hprivate_left := length_left (pick_rows_ids b.private_ids (ungraphed_private db))
    (fun _ hr => mem_pick_rows hr) hprivate_sub h.1
  have horg_left := length_left (pick_rows_ids b.org_ids (ungraphed_org db))
    (fun _ hr => mem_pick_rows hr) horg_sub h.2
  unfold Db.graph_backlog
  rw [populate_graph_batch_eq, hprivate, horg]
  omega

/-! ## What the batches come to -/

/-- With no memory waiting, every memory that names an entity is flagged. -/
theorem indexed_of_no_backlog {db : Db K} (h : db.graph_backlog = 0) {d : GraphDoc}
    (hd : d ∈ db.docs) (hterms : d.terms.Nonempty) : d.indexed := by
  unfold Db.graph_backlog at h
  obtain ⟨t, ht⟩ := hterms
  rcases hd with ⟨r, hr, rfl⟩ | ⟨q, hq, rfl⟩
  · have hnone : ungraphed_private db = [] := List.length_eq_zero_iff.mp (by omega)
    have hkept := List.filter_eq_nil_iff.mp (List.map_eq_nil_iff.mp hnone) r hr
    have hne : r.entities ≠ [] := by
      intro hempty
      simp [HindsightMemory.doc, entity_texts, hempty] at ht
    have hflag : r.is_graphed = true := by simpa [hne] using hkept
    exact hflag
  · have hnone : ungraphed_org db = [] := List.length_eq_zero_iff.mp (by omega)
    have hkept := List.filter_eq_nil_iff.mp (List.map_eq_nil_iff.mp hnone) q hq
    have hne : q.entities ≠ [] := by
      intro hempty
      simp [OrgMemory.doc, entity_texts, hempty] at ht
    have hflag : q.is_graphed = true := by simpa [hne] using hkept
    exact hflag

theorem batch_step_good {db db' : Db K} {b : GraphBatch} (h : GoodMirror db)
    (hstep : graph_batch_step o cfg db b = some db') : GoodMirror db' := by
  cases hstep
  exact mirror_after_batch h o cfg b.now b.private_ids b.org_ids

theorem batch_step_backlog {db db' : Db K} {b : GraphBatch} (hfull : b.Full db)
    (hstep : graph_batch_step o cfg db b = some db') :
    db'.graph_backlog ≤ db.graph_backlog - 50 := by
  cases hstep
  exact batch_backlog hfull

theorem batch_step_rows {db db' : Db K} {b : GraphBatch}
    (hstep : graph_batch_step o cfg db b = some db') : db'.graph_rows = db.graph_rows := by
  cases hstep
  rw [populate_graph_batch_eq]
  exact transactions_graph_rows _ db

/-- Whatever requests wrote the memories, under the condition that keeps the graph in step, every
full batch takes fifty memories of each table off the backlog. Once that is gone, an entity links
to a memory exactly when the memory is of its scope and names it. No batch changes what it reads
of a memory. -/
theorem the_graph_catches_up [Field K] [LinearOrder K] [HasSqrt K] (o : Outside K) (cfg : Settings)
    (db₀ db db' : Db K) (hblank : db₀.Blank) (hagents : (db₀.qortia_agents.map (·.id)).Nodup)
    (actions : List MirrorAction)
    (hok : runs.Guarded (mirror_step o cfg) (KeepsMirror o) db₀ actions)
    (hrun : runs.run (mirror_step o cfg) db₀ actions = some db) (batches : List GraphBatch)
    (hfull : runs.Guarded (graph_batch_step o cfg) GraphBatch.Full db batches)
    (hbatches : runs.run (graph_batch_step o cfg) db batches = some db') :
    db'.graph_rows = db.graph_rows ∧
      db'.graph_backlog ≤ db.graph_backlog - 50 * batches.length ∧
      (db.graph_backlog ≤ 50 * batches.length →
        inverted_index.Exact db'.docs db'.linked) := by
  have hgood : GoodMirror db :=
    (runs.always_of_invariant (fun _ h => h)
      (fun _ _ _ h hok hstep => mirror_step_good h hok hstep) (hblank.good_mirror hagents)
      hok).last hrun
  have hgood' : GoodMirror db' :=
    (runs.always_of_invariant (fun _ h => h) (fun _ _ _ h _ hstep => batch_step_good h hstep)
      hgood hfull).last hbatches
  have hrows : db'.graph_rows = db.graph_rows :=
    (runs.always_of_invariant (fun _ h => h)
      (fun _ _ _ (h : _ = db.graph_rows) _ hstep => (batch_step_rows hstep).trans h) rfl
      hfull).last hbatches
  have hbacklog : db'.graph_backlog ≤ db.graph_backlog - 50 * batches.length :=
    runs.run_lowers (fun _ _ _ hok hstep => batch_step_backlog hok hstep) hfull hbatches
  refine ⟨hrows, hbacklog, fun hmany => ?_⟩
  have hnone : db'.graph_backlog = 0 := by omega
  exact hgood'.in_step.exact fun d hd hterms => indexed_of_no_backlog hnone hd hterms

/-- A note and a shared process name an entity. -/
def two_named : List MirrorAction :=
  [.remember chief 0 0
      [{ type := .short_term, content := wait_once, ttl_seconds := some 45
         content_floor := wait_once_words }],
   .remember_org chief 1 deploy_once]

theorem the_graph_catches_up_with_two :
    ∃ db db' : Db ℚ, db.graph_backlog = 1 ∧
      db'.graph_rows = db.graph_rows ∧ db'.graph_backlog ≤ db.graph_backlog - 50 * 1 ∧
      (db.graph_backlog ≤ 50 * 1 → inverted_index.Exact db'.docs db'.linked) := by
  have hend : (runs.run (mirror_step one_entity_model {}) chief_db two_named).map (fun db =>
      (db.graph_backlog, decide (GraphBatch.Full db ⟨3, [0], [1]⟩))) = some (1, true) := by
    decide +kernel
  obtain ⟨db, hdb, hend⟩ := Option.map_eq_some_iff.mp hend
  obtain ⟨hwaiting, hfull⟩ := Prod.mk.inj hend
  refine ⟨db, _, hwaiting, the_graph_catches_up one_entity_model {} chief_db db _ chief_db_blank
    (by decide) two_named (by decide +kernel) hdb [⟨3, [0], [1]⟩]
    ⟨of_decide_eq_true hfull, fun _ _ => trivial⟩ rfl⟩

end qortia
