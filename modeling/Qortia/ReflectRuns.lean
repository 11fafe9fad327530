-- The laws of reflect runs of one agent that overlap. A run reads its snapshot in one transaction
-- and writes in a second one, and the language model answers in between. The statements of the
-- second transaction range over the rows of that moment, whatever the snapshot holds.
import Qortia.Lib.ReadCommitted
import Qortia.Lib.Runs
import Qortia.ReflectWrites

namespace qortia

open read_committed (Txn Statement Write view)

variable {K : Type} [Field K] [LinearOrder K] [HasSqrt K]

/-! ## Runs -/

inductive Phase (K : Type) where
  /-- The language model is asked. -/
  | thinking
  | writing (now : Timestamp) (txn : Txn (HindsightMemory K))
  | committed (new_ids : List UUID)
  | aborted

structure ReflectRun (K : Type) where
  existing : List (HindsightMemory K)
  phase : Phase K

/-- The committed database and the runs of the agent, in the order in which they began. -/
structure Reflecting (K : Type) where
  db : Db K
  runs : List (ReflectRun K) := []

inductive ReflectAction where
  /-- A run begins with its first transaction. -/
  | read
  /-- The answer is there, and the second transaction begins with the count. -/
  | answer (i : Nat) (now : Timestamp) (reflections : List Reflection) (failed : List Nat)
  /-- The second transaction goes on. -/
  | advance (i : Nat)
  | commit (i : Nat)
  | abort (i : Nat)

/-- A statement of `_write_reflections` for the table. -/
def WriteStatement.statement (w : Writer) : WriteStatement K → Statement (HindsightMemory K)
  | .prune ids =>
    .update (fun r => consolidated w.agent_id r && r.id ∉ ids)
      (fun r => { r with is_consolidated := false, valid_until := some w.now })
  | .supersede id =>
    .update (fun r => r.id = id && r.agent_id = w.agent_id)
      (fun r => { r with is_consolidated := false })
  | .insert type content importance entities embedding stability =>
    .insert fun id =>
      { id, tenant_id := w.tenant_id, agent_id := w.agent_id, type, content, importance
        is_consolidated := true, entities, embedding, stability_score := stability
        valid_from := w.now, created_at := w.now }

def ReflectRun.holds (run : ReflectRun K) (id : UUID) : Bool :=
  match run.phase with
  | .writing _ txn => txn.holds id
  | _ => false

/-- Another run changed the row and has not committed. -/
def Reflecting.locked (s : Reflecting K) (i : Nat) (id : UUID) : Bool :=
  s.runs.zipIdx.any fun x => x.2 ≠ i && x.1.holds id

/-- The ids of the rows that a transaction inserted. -/
def inserted_ids (txn : Txn (HindsightMemory K)) : List UUID :=
  (read_committed.inserted txn.pending).map (·.id)

/-- The commit also makes the counter and the history rows of the transaction visible. -/
def commit_txn (cfg : Settings) (w : Writer) (txn : Txn (HindsightMemory K)) (db : Db K) : Db K :=
  write_history w (inserted_ids txn) (decrement_counter cfg.reflection_threshold w
    { db with hindsight_memories := view (·.id) txn.pending db.hindsight_memories })

def reflect_step (o : Outside K) (cfg : Settings) (agent_id tenant_id : UUID)
    (s : Reflecting K) : ReflectAction → Option (Reflecting K)
  | .read =>
    match assert_agent_active agent_id tenant_id s.db with
    | .ok _ => some { s with runs := s.runs ++ [⟨select_existing agent_id s.db, .thinking⟩] }
    | .error _ => none
  | .answer i now reflections failed =>
    match s.runs[i]? with
    | some ⟨existing, .thinking⟩ =>
      match write_statements o reflections (new_embeddings o reflections failed)
          (existing_embeddings o existing) (existing ≠ [])
          (existing_consolidated_count agent_id s.db) with
      | .ok sts =>
        let todo := sts.map (·.statement ⟨agent_id, tenant_id, now⟩)
        some { s with runs := s.runs.set i ⟨existing, .writing now { todo }⟩ }
      | .error _ => some { s with runs := s.runs.set i ⟨existing, .aborted⟩ }
    | _ => none
  | .advance i =>
    match s.runs[i]? with
    | some ⟨existing, .writing now txn⟩ =>
      match txn.advance (·.id) s.db.hindsight_memories (s.locked i) s.db.next_id with
      | some (next_id, txn') =>
        some { db := { s.db with next_id }
               runs := s.runs.set i ⟨existing, .writing now txn'⟩ }
      | none => none
    | _ => none
  | .commit i =>
    match s.runs[i]? with
    | some ⟨existing, .writing now txn⟩ =>
      if txn.todo = [] then
        some { db := commit_txn cfg ⟨agent_id, tenant_id, now⟩ txn s.db
               runs := s.runs.set i ⟨existing, .committed (inserted_ids txn)⟩ }
      else none
    | _ => none
  | .abort i =>
    match s.runs[i]? with
    | some ⟨existing, .thinking⟩ | some ⟨existing, .writing _ _⟩ =>
      some { s with runs := s.runs.set i ⟨existing, .aborted⟩ }
    | _ => none

/-! ## A run that nothing overlaps -/

section
omit [Field K] [LinearOrder K] [HasSqrt K]

theorem statement_exec (w : Writer) (st : WriteStatement K) (db : Db K) (ids : List UUID) :
    (st.statement w).exec (db.hindsight_memories, db.next_id) =
        ((st.exec w (db, ids)).1.hindsight_memories, (st.exec w (db, ids)).1.next_id) ∧
      (st.exec w (db, ids)).2 = ids ++ ((st.statement w).new_rows db.next_id).map (·.id) := by
  cases st with
  | prune => exact ⟨rfl, (List.append_nil _).symm⟩
  | supersede => exact ⟨rfl, (List.append_nil _).symm⟩
  | insert => exact ⟨rfl, rfl⟩

theorem exec_nodup (w : Writer) (st : WriteStatement K) (db : Db K) (ids : List UUID)
    (hk : (db.hindsight_memories.map (·.id)).Nodup)
    (hlt : ∀ r ∈ db.hindsight_memories, r.id < db.next_id) :
    ((st.exec w (db, ids)).1.hindsight_memories.map (·.id)).Nodup ∧
      ∀ r ∈ (st.exec w (db, ids)).1.hindsight_memories, r.id < (st.exec w (db, ids)).1.next_id := by
  have hmap : (db.hindsight_memories.map (st.on_row w ·)).map (·.id) =
      db.hindsight_memories.map (·.id) := by
    simp
  have hnew : ∀ r ∈ st.new_rows w db.next_id, r.id < (st.exec w (db, ids)).1.next_id := by
    intro r hr
    rw [new_rows_id hr]
    cases st with
    | prune => cases hr
    | supersede => cases hr
    | insert => exact Nat.lt_succ_self _
  rw [exec_rows, List.map_append, hmap]
  constructor
  · refine List.Nodup.append hk ?_ fun id hid hid' => ?_
    · cases st <;> simp [WriteStatement.new_rows]
    · obtain ⟨r, hr, rfl⟩ := List.mem_map.mp hid
      obtain ⟨q, hq, heq⟩ := List.mem_map.mp hid'
      rw [new_rows_id hq] at heq
      exact Nat.ne_of_gt (hlt r hr) heq
  · intro r hr
    rcases List.mem_append.mp hr with hr | hr
    · obtain ⟨q, hq, rfl⟩ := List.mem_map.mp hr
      rw [on_row_id]
      exact lt_of_lt_of_le (hlt q hq) (exec_next_id w st db ids)
    · exact hnew r hr

/-- The statements of a transaction that runs alone do what `exec` does. -/
theorem txn_alone (w : Writer) (sts : List (WriteStatement K)) (t : List (HindsightMemory K))
    (pending : List (Write (HindsightMemory K))) (db : Db K)
    (hview : view (·.id) pending t = db.hindsight_memories)
    (hk : (db.hindsight_memories.map (·.id)).Nodup)
    (hlt : ∀ r ∈ db.hindsight_memories, r.id < db.next_id) :
    ∃ txn' next', txn'.todo = [] ∧
      read_committed.Alone (·.id) t
        (db.next_id, { todo := sts.map (·.statement w), pending }) (next', txn') ∧
      (view (·.id) txn'.pending t, next', inserted_ids txn') =
        let s := sts.foldl (fun s st => st.exec w s)
          (db, (read_committed.inserted pending).map (·.id))
        (s.1.hindsight_memories, s.1.next_id, s.2) := by
  induction sts generalizing pending db with
  | nil =>
    refine ⟨{ todo := [], pending }, db.next_id, rfl, Relation.ReflTransGen.refl, ?_⟩
    simp only [hview, List.foldl_nil]
    rfl
  | cons st sts ih =>
    have hf : ∀ p f, st.statement w = .update p f → ∀ r : HindsightMemory K, (f r).id = r.id := by
      intro p f hst r
      cases st with
      | prune => cases hst; rfl
      | supersede => cases hst; rfl
      | insert => cases hst
    obtain ⟨next', pending', hexec, hins, hrun⟩ := read_committed.statement_alone (t := t)
      (st.statement w) hf (sts.map (·.statement w)) db.next_id pending (hview ▸ hk)
    obtain ⟨hst, hids⟩ := statement_exec w st db ((read_committed.inserted pending).map (·.id))
    obtain ⟨hk', hlt'⟩ := exec_nodup w st db ((read_committed.inserted pending).map (·.id)) hk hlt
    rw [hview, hst, Prod.mk.injEq] at hexec
    obtain ⟨txn', next'', htodo, hrest, hfinal⟩ := ih pending' _ hexec.1 hk' hlt'
    refine ⟨txn', next'', htodo, ?_, ?_⟩
    · rw [← hexec.2] at hrest
      exact hrun.trans hrest
    · rw [hfinal, List.foldl_cons, hins, List.map_append, ← hids]

end

/-- A run that nothing overlaps commits what `write_reflections` gives. -/
theorem a_run_alone_commits_write_reflections {o : Outside K} {cfg : Settings} {w : Writer}
    {reflections : List Reflection} {new_embeddings : Nat → Option (List K)}
    {existing_embeddings : String → Option (StoredVector K)}
    {existing : List (HindsightMemory K)} {db db' : Db K} {n : Nat} {counter : Option Int}
    (hk : db.Keyed)
    (h : write_reflections o cfg w reflections new_embeddings existing_embeddings existing db =
      .ok (db', n, counter)) :
    ∃ sts txn next_id, write_statements o reflections new_embeddings existing_embeddings
        (existing ≠ []) (existing_consolidated_count w.agent_id db) = .ok sts ∧
      txn.todo = [] ∧
      read_committed.Alone (·.id) db.hindsight_memories
        (db.next_id, { todo := sts.map (·.statement w) }) (next_id, txn) ∧
      commit_txn cfg w txn { db with next_id } = db' := by
  unfold write_reflections at h
  obtain ⟨sts, hsts, h⟩ := bind_ok h
  obtain ⟨txn, next_id, htodo, hrun, hfinal⟩ := txn_alone w sts db.hindsight_memories [] db rfl
    hk.hindsight_nodup hk.hindsight_lt
  refine ⟨sts, txn, next_id, hsts, htodo, hrun, ?_⟩
  cases h
  have hframe := run_frame w sts (db, [])
  simp only [Prod.mk.injEq] at hfinal
  obtain ⟨hrows, hnext, hids⟩ := hfinal
  unfold commit_txn
  rw [hrows, hnext, hids]
  rw [show (read_committed.inserted ([] : List (Write (HindsightMemory K)))).map (·.id) = []
    from rfl]
  rw [hframe]

/-! ## What overlapping runs may lose -/

/-- The row is in the consolidated set and open. -/
def Live (db : Db K) (id : UUID) : Prop :=
  ∃ r ∈ db.hindsight_memories, r.id = id ∧ r.is_consolidated = true ∧ r.valid_until = none

/-- The run committed, with these new rows. -/
def Reflecting.CommittedWith (s : Reflecting K) (i : Nat) (existing : List (HindsightMemory K))
    (new_ids : List UUID) : Prop :=
  s.runs[i]? = some ⟨existing, .committed new_ids⟩

/-- A commit takes no live row away that another committed run inserted and that is not in the
snapshot of the run that commits. -/
def CommitKeeps (s : Reflecting K) (a : ReflectAction) (s' : Reflecting K) : Prop :=
  ∀ i existing phase, a = .commit i → s.runs[i]? = some ⟨existing, phase⟩ →
    ∀ j existing' new_ids, s.CommittedWith j existing' new_ids →
      ∀ id ∈ new_ids, id ∉ existing.map (·.id) → Live s.db id → Live s'.db id

/-- A row that a committed run inserted is live as long as no other committed run had it in its
snapshot. -/
def KnowledgeKept (s : Reflecting K) : Prop :=
  ∀ j existing new_ids, s.CommittedWith j existing new_ids → ∀ id ∈ new_ids,
    (∀ k existing' new_ids', k ≠ j → s.CommittedWith k existing' new_ids' →
      id ∉ existing'.map (·.id)) → Live s.db id

def ReflectAction.advances : ReflectAction → Option Nat
  | .advance i => some i
  | _ => none

/-- The rows that the WHERE clause of a prune or of an UPDATE holds of, when it starts. -/
def ReflectRun.found (run : ReflectRun K) (db : Db K) : List UUID :=
  match run.phase with
  | .writing _ txn => txn.found (·.id) db.hindsight_memories
  | _ => []

/-- A prune or an UPDATE that starts finds rows of the snapshot only: each row that came into
the consolidated set since then is named, and no UPDATE names a row outside the snapshot. -/
def FindsSnapshotRows (s : Reflecting K) (a : ReflectAction) : Prop :=
  ∀ i ∈ a.advances, ∀ run ∈ s.runs[i]?, ∀ id ∈ run.found s.db, id ∈ run.existing.map (·.id)

instance (s : Reflecting K) (a : ReflectAction) : Decidable (FindsSnapshotRows s a) :=
  inferInstanceAs (Decidable (∀ i ∈ a.advances, ∀ run ∈ s.runs[i]?, ∀ id ∈ run.found s.db,
    id ∈ run.existing.map (·.id)))

/-! ## The invariant -/

/-- A writing transaction changes rows of its snapshot and inserts live rows that are not in
it. -/
structure GoodTxn (next_id : UUID) (snapshot : List UUID) (txn : Txn (HindsightMemory K)) :
    Prop where
  within : txn.Within (· ∈ snapshot)
  updates : ∀ p f, .update p f ∈ txn.todo → ∀ r : HindsightMemory K, (f r).id = r.id
  inserts : ∀ new, .insert new ∈ txn.todo → ∀ id,
    (new id).id = id ∧ (new id).is_consolidated = true ∧ (new id).valid_until = none
  sets : ∀ id f, .set id f ∈ txn.pending → ∀ r : HindsightMemory K, (f r).id = r.id
  inserted : ∀ row, .insert row ∈ txn.pending → row.id ∉ snapshot ∧ row.id < next_id ∧
    row.is_consolidated = true ∧ row.valid_until = none

structure GoodRun (next_id : UUID) (run : ReflectRun K) : Prop where
  snapshot_lt : ∀ r ∈ run.existing, r.id < next_id
  writing : ∀ now txn, run.phase = .writing now txn →
    GoodTxn next_id (run.existing.map (·.id)) txn

structure GoodReflecting (s : Reflecting K) : Prop where
  rows_lt : ∀ r ∈ s.db.hindsight_memories, r.id < s.db.next_id
  runs : ∀ run ∈ s.runs, GoodRun s.db.next_id run
  kept : KnowledgeKept s

omit [Field K] [LinearOrder K] [HasSqrt K]

theorem GoodTxn.mono {next_id next_id' : UUID} (hle : next_id ≤ next_id') {snapshot : List UUID}
    {txn : Txn (HindsightMemory K)} (h : GoodTxn next_id snapshot txn) :
    GoodTxn next_id' snapshot txn := by
  refine ⟨h.within, h.updates, h.inserts, h.sets, fun row hrow => ?_⟩
  obtain ⟨hnot, hlt, hlive⟩ := h.inserted row hrow
  exact ⟨hnot, lt_of_lt_of_le hlt hle, hlive⟩

theorem GoodRun.mono {next_id next_id' : UUID} (hle : next_id ≤ next_id') {run : ReflectRun K}
    (h : GoodRun next_id run) : GoodRun next_id' run :=
  ⟨fun r hr => lt_of_lt_of_le (h.snapshot_lt r hr) hle,
    fun now txn hp => (h.writing now txn hp).mono hle⟩

/-- The statements of `_write_reflections` make a good transaction. -/
theorem good_todo (next_id : UUID) (snapshot : List UUID) (w : Writer)
    (sts : List (WriteStatement K)) :
    GoodTxn next_id snapshot { todo := sts.map (·.statement w) } := by
  refine ⟨⟨fun ids hids => (nomatch hids), fun id f hm => (nomatch hm)⟩, fun p f hm r => ?_,
    fun new hm id => ?_, fun id f hm => (nomatch hm), fun row hm => (nomatch hm)⟩
  · obtain ⟨st, -, hst⟩ := List.mem_map.mp hm
    cases st with
    | prune => cases hst; rfl
    | supersede => cases hst; rfl
    | insert => cases hst
  · obtain ⟨st, -, hst⟩ := List.mem_map.mp hm
    cases st with
    | prune => cases hst
    | supersede => cases hst
    | insert => cases hst; exact ⟨rfl, rfl, rfl⟩

/-- A transaction whose statements find rows of the snapshot only stays good. -/
theorem good_advance {next_id next_id' : UUID} {snapshot : List UUID}
    {txn txn' : Txn (HindsightMemory K)} {t : List (HindsightMemory K)} {locked : UUID → Bool}
    (hlt : ∀ id ∈ snapshot, id < next_id) (hg : GoodTxn next_id snapshot txn)
    (hfound : ∀ id ∈ txn.found (·.id) t, id ∈ snapshot)
    (h : txn.advance (·.id) t locked next_id = some (next_id', txn')) :
    next_id ≤ next_id' ∧ GoodTxn next_id' snapshot txn' := by
  have hwithin := read_committed.advance_within hg.within hfound h
  rcases read_committed.advance_cases h with
    ⟨new, rest, htodo, rfl, rfl⟩ | ⟨p, f, rest, htodo, rfl, hmove⟩
  · have hsub : ∀ st ∈ rest, st ∈ txn.todo := fun st hst => htodo ▸ List.mem_cons_of_mem _ hst
    refine ⟨Nat.le_succ _, hwithin, fun p f hm => hg.updates p f (hsub _ hm),
      fun n hm => hg.inserts n (hsub _ hm), fun id f hm => ?_, fun row hm => ?_⟩
    · rcases List.mem_append.mp hm with hm | hm
      · exact hg.sets id f hm
      · cases List.mem_singleton.mp hm
    · rcases List.mem_append.mp hm with hm | hm
      · exact ((hg.mono (Nat.le_succ _)).inserted row hm)
      · cases List.mem_singleton.mp hm
        obtain ⟨hid, hlive⟩ := hg.inserts new (htodo ▸ List.mem_cons_self) next_id
        rw [hid]
        exact ⟨fun hin => Nat.lt_irrefl _ (hlt _ hin), Nat.lt_succ_self _, hlive⟩
  · have hsub : ∀ st ∈ rest, st ∈ txn.todo := fun st hst => htodo ▸ List.mem_cons_of_mem _ hst
    refine ⟨le_refl _, ?_⟩
    rcases hmove with rfl | ⟨-, rfl⟩ | ⟨id, ids, -, -, rfl | rfl⟩
    · exact ⟨hwithin, hg.updates, hg.inserts, hg.sets, hg.inserted⟩
    · exact ⟨hwithin, fun p f hm => hg.updates p f (hsub _ hm),
        fun n hm => hg.inserts n (hsub _ hm), hg.sets, hg.inserted⟩
    · refine ⟨hwithin, hg.updates, hg.inserts, fun id' g hm => ?_, fun row hm => ?_⟩
      · rcases List.mem_append.mp hm with hm | hm
        · exact hg.sets id' g hm
        · cases List.mem_singleton.mp hm
          exact hg.updates p f (htodo ▸ List.mem_cons_self)
      · rcases List.mem_append.mp hm with hm | hm
        · exact hg.inserted row hm
        · cases List.mem_singleton.mp hm
    · exact ⟨hwithin, hg.updates, hg.inserts, hg.sets, hg.inserted⟩

/-! ## One step -/

/-- A live row that is not in the snapshot is live after the commit. -/
theorem live_after_commit {cfg : Settings} {w : Writer} {next_id : UUID} {snapshot : List UUID}
    {txn : Txn (HindsightMemory K)} (hg : GoodTxn next_id snapshot txn) {db : Db K} {id : UUID}
    (hnot : id ∉ snapshot) (h : Live db id) : Live (commit_txn cfg w txn db) id := by
  obtain ⟨r, hr, rfl, hlive⟩ := h
  refine ⟨r, read_committed.mem_view hr fun k f hm heq => ?_, rfl, hlive⟩
  exact hnot (heq ▸ hg.within.pending k f hm)

/-- The rows that a transaction inserted are live after its commit. -/
theorem inserted_live {cfg : Settings} {w : Writer} {next_id : UUID} {snapshot : List UUID}
    {txn : Txn (HindsightMemory K)} (hg : GoodTxn next_id snapshot txn) (db : Db K) {id : UUID}
    (h : id ∈ inserted_ids txn) : Live (commit_txn cfg w txn db) id := by
  unfold inserted_ids at h
  obtain ⟨row, hrow, rfl⟩ := List.mem_map.mp h
  obtain ⟨wr, hwr, hwrow⟩ := List.mem_filterMap.mp hrow
  cases wr with
  | set k f => cases hwrow
  | insert new =>
    cases hwrow
    obtain ⟨hnot, -, hlive⟩ := hg.inserted row hwr
    refine ⟨row, read_committed.inserted_mem_view hwr fun k f hm heq => ?_, rfl, hlive⟩
    exact hnot (heq ▸ hg.within.pending k f hm)

theorem commit_rows_lt {cfg : Settings} {w : Writer} {snapshot : List UUID}
    {txn : Txn (HindsightMemory K)} {db : Db K} (hg : GoodTxn db.next_id snapshot txn)
    (hlt : ∀ r ∈ db.hindsight_memories, r.id < db.next_id) :
    ∀ r ∈ (commit_txn cfg w txn db).hindsight_memories, r.id < db.next_id := by
  intro r hr
  rcases read_committed.key_mem_view hg.sets hr with hm | ⟨new, hnew, hid⟩
  · obtain ⟨q, hq, hid⟩ := List.mem_map.mp hm
    exact hid ▸ hlt q hq
  · exact hid ▸ (hg.inserted new hnew).2.1

/-- What is kept stays kept while no run commits. -/
theorem KnowledgeKept.of_same {s s' : Reflecting K} (h : KnowledgeKept s)
    (hdb : s'.db.hindsight_memories = s.db.hindsight_memories)
    (hruns : ∀ j existing ids, s'.CommittedWith j existing ids ↔ s.CommittedWith j existing ids) :
    KnowledgeKept s' := by
  intro j existing ids hj id hid hother
  have hlive := h j existing ids ((hruns ..).mp hj) id hid
    fun k ex' ids' hk hc => hother k ex' ids' hk ((hruns ..).mpr hc)
  unfold Live at hlive ⊢
  rw [hdb]
  exact hlive

/-- Another phase of one run leaves the committed runs as they are. -/
theorem committed_set {s : Reflecting K} {i : Nat} {run run' : ReflectRun K} {db : Db K}
    (hi : s.runs[i]? = some run) (hrun : ∀ ids, run.phase ≠ .committed ids)
    (hrun' : ∀ ids, run'.phase ≠ .committed ids) (j : Nat)
    (existing : List (HindsightMemory K)) (ids : List UUID) :
    (Reflecting.mk db (s.runs.set i run')).CommittedWith j existing ids ↔
      s.CommittedWith j existing ids := by
  unfold Reflecting.CommittedWith
  simp only
  by_cases hij : i = j
  · subst hij
    have hlt : i < s.runs.length := by
      rw [List.getElem?_eq_some_iff] at hi
      exact hi.1
    rw [List.getElem?_set_self hlt, hi]
    constructor
    · intro h
      exact absurd (congrArg ReflectRun.phase (Option.some.inj h)) (hrun' ids)
    · intro h
      exact absurd (congrArg ReflectRun.phase (Option.some.inj h)) (hrun ids)
  · rw [List.getElem?_set_ne hij]

/-- A run that begins leaves the committed runs as they are. -/
theorem committed_append {s : Reflecting K} {run : ReflectRun K}
    (hrun : ∀ ids, run.phase ≠ .committed ids) (j : Nat)
    (existing : List (HindsightMemory K)) (ids : List UUID) :
    (Reflecting.mk s.db (s.runs ++ [run])).CommittedWith j existing ids ↔
      s.CommittedWith j existing ids := by
  unfold Reflecting.CommittedWith
  simp only
  by_cases hj : j < s.runs.length
  · rw [List.getElem?_append_left hj]
  · have hnone : s.runs[j]? = none := List.getElem?_eq_none (Nat.not_lt.mp hj)
    rw [hnone, iff_false_right (by simp)]
    intro h
    rw [List.getElem?_append_right (Nat.not_lt.mp hj)] at h
    have hm := List.mem_singleton.mp (List.mem_of_getElem? h)
    exact hrun ids (congrArg ReflectRun.phase hm.symm)

theorem select_existing_lt [LinearOrder K] {agent_id : UUID} {db : Db K}
    (h : ∀ r ∈ db.hindsight_memories, r.id < db.next_id) :
    ∀ r ∈ select_existing agent_id db, r.id < db.next_id := by
  intro r hr
  unfold select_existing at hr
  rw [rows.mem_order_desc, List.mem_filter] at hr
  exact h r hr.1

theorem GoodReflecting.set {s : Reflecting K} (hs : GoodReflecting s) {i : Nat}
    {run' : ReflectRun K} {db : Db K} (hrows : ∀ r ∈ db.hindsight_memories, r.id < db.next_id)
    (hle : s.db.next_id ≤ db.next_id) (hrun' : GoodRun db.next_id run')
    (hkept : KnowledgeKept (Reflecting.mk db (s.runs.set i run'))) :
    GoodReflecting (Reflecting.mk db (s.runs.set i run')) := by
  refine ⟨hrows, fun run hrun => ?_, hkept⟩
  rcases List.mem_or_eq_of_mem_set hrun with hm | rfl
  · exact (hs.runs run hm).mono hle
  · exact hrun'

/-- A run that has not committed gives up. -/
theorem GoodReflecting.give_up {s : Reflecting K} (hs : GoodReflecting s) {i : Nat}
    {run : ReflectRun K} (hi : s.runs[i]? = some run)
    (hrun : ∀ ids, run.phase ≠ .committed ids) :
    GoodReflecting { s with runs := s.runs.set i ⟨run.existing, .aborted⟩ } := by
  refine hs.set hs.rows_lt (le_refl _) ?_ ?_
  · have hgood := hs.runs run (List.mem_of_getElem? hi)
    exact ⟨hgood.snapshot_lt, fun now txn hp => nomatch hp⟩
  · exact hs.kept.of_same rfl (committed_set hi hrun fun ids => nofun)

/-- A commit keeps what was kept, and adds the rows of the run that commits. -/
theorem kept_after_commit {cfg : Settings} {w : Writer} {s : Reflecting K} {i : Nat}
    {existing : List (HindsightMemory K)} {now : Timestamp} {txn : Txn (HindsightMemory K)}
    (hi : s.runs[i]? = some ⟨existing, .writing now txn⟩)
    (hg : GoodTxn s.db.next_id (existing.map (·.id)) txn) (h : KnowledgeKept s) :
    KnowledgeKept (Reflecting.mk (commit_txn cfg w txn s.db)
      (s.runs.set i ⟨existing, .committed (inserted_ids txn)⟩)) := by
  have hlt : i < s.runs.length := by
    rw [List.getElem?_eq_some_iff] at hi
    exact hi.1
  intro j ex ids hj id hid hother
  unfold Reflecting.CommittedWith at hj hother
  simp only at hj hother
  by_cases hij : i = j
  · subst hij
    rw [List.getElem?_set_self hlt] at hj
    cases hj
    exact inserted_live hg s.db hid
  · rw [List.getElem?_set_ne hij] at hj
    -- The run that commits is one of the others, so that its snapshot lacks the row.
    have hnot := hother i existing (inserted_ids txn) hij (List.getElem?_set_self hlt)
    refine live_after_commit hg hnot (h j ex ids hj id hid fun k ex' ids' hk hc => ?_)
    by_cases hik : i = k
    · subst hik
      unfold Reflecting.CommittedWith at hc
      rw [hi] at hc
      cases hc
    · refine hother k ex' ids' hk ?_
      rw [List.getElem?_set_ne hik]
      exact hc

section
variable [Field K] [LinearOrder K] [HasSqrt K] {o : Outside K} {cfg : Settings}
  {agent_id tenant_id : UUID}

theorem reflect_step_good {s s' : Reflecting K} {a : ReflectAction} (hs : GoodReflecting s)
    (hok : FindsSnapshotRows s a) (h : reflect_step o cfg agent_id tenant_id s a = some s') :
    GoodReflecting s' := by
  cases a with
  | read =>
    unfold reflect_step at h
    simp only at h
    split at h
    · cases h
      refine ⟨hs.rows_lt, fun run hrun => ?_,
        hs.kept.of_same rfl (committed_append fun ids => nofun)⟩
      rcases List.mem_append.mp hrun with hm | hm
      · exact hs.runs run hm
      · rw [List.mem_singleton] at hm
        subst hm
        exact ⟨select_existing_lt hs.rows_lt, fun now txn hp => nomatch hp⟩
    · cases h
  | answer i now reflections failed =>
    unfold reflect_step at h
    simp only at h
    split at h
    · rename_i existing hi
      split at h
      · cases h
        have hrun := hs.runs _ (List.mem_of_getElem? hi)
        refine hs.set hs.rows_lt (le_refl _) ⟨hrun.snapshot_lt, fun now' txn hp => ?_⟩
          (hs.kept.of_same rfl (committed_set hi (fun ids => nofun) fun ids => nofun))
        cases hp
        exact good_todo ..
      · cases h
        exact hs.give_up hi fun ids => nofun
    · cases h
  | advance i =>
    unfold reflect_step at h
    simp only at h
    split at h
    · rename_i existing now txn hi
      split at h
      · rename_i next_id txn' hadv
        cases h
        have hrun := hs.runs _ (List.mem_of_getElem? hi)
        have hlt : ∀ id ∈ existing.map (·.id), id < s.db.next_id := by
          intro id hid
          obtain ⟨r, hr, rfl⟩ := List.mem_map.mp hid
          exact hrun.snapshot_lt r hr
        obtain ⟨hle, hg⟩ := good_advance hlt (hrun.writing now txn rfl)
          (hok i rfl _ hi) hadv
        refine hs.set (fun r hr => lt_of_lt_of_le (hs.rows_lt r hr) hle) hle ?_ ?_
        · refine ⟨fun r hr => lt_of_lt_of_le (hrun.snapshot_lt r hr) hle, fun now' txn'' hp => ?_⟩
          cases hp
          exact hg
        · exact hs.kept.of_same rfl (committed_set hi (fun ids => nofun) fun ids => nofun)
      · cases h
    · cases h
  | commit i =>
    unfold reflect_step at h
    simp only at h
    split at h
    · rename_i existing now txn hi
      split at h
      · cases h
        have hrun := hs.runs _ (List.mem_of_getElem? hi)
        have hg := hrun.writing now txn rfl
        exact hs.set (commit_rows_lt hg hs.rows_lt) (le_refl _)
          ⟨hrun.snapshot_lt, fun now txn hp => nomatch hp⟩ (kept_after_commit hi hg hs.kept)
      · cases h
    · cases h
  | abort i =>
    unfold reflect_step at h
    simp only at h
    split at h
    · rename_i existing hi
      cases h
      exact hs.give_up hi fun ids => nofun
    · rename_i existing now txn hi
      cases h
      exact hs.give_up hi fun ids => nofun
    · cases h

theorem reflect_step_commit_keeps {s s' : Reflecting K} {a : ReflectAction}
    (hs : GoodReflecting s) (h : reflect_step o cfg agent_id tenant_id s a = some s') :
    CommitKeeps s a s' := by
  rintro i existing phase rfl hi j existing' new_ids hj id hid hnot hlive
  unfold reflect_step at h
  simp only [hi] at h
  split at h
  · rename_i ex now txn heq
    cases heq
    split at h
    · cases h
      have hrun := hs.runs _ (List.mem_of_getElem? hi)
      exact live_after_commit (hrun.writing now txn rfl) hnot hlive
    · cases h
  · cases h

end

/-! ## Whole runs -/

/-- However the runs of an agent overlap, a commit takes away no live row that another run
inserted and that its snapshot lacks, and what a run inserted stays live, as long as each
statement that starts finds rows of its own snapshot only. -/
theorem overlapping_reflections_lose_no_knowledge [Field K] [LinearOrder K] [HasSqrt K]
    (o : Outside K) (cfg : Settings) (agent_id tenant_id : UUID) (db : Db K) (hk : db.Keyed)
    (actions : List ReflectAction)
    (hok : runs.Guarded (reflect_step o cfg agent_id tenant_id) FindsSnapshotRows ⟨db, []⟩
      actions) :
    runs.EveryStep (reflect_step o cfg agent_id tenant_id) CommitKeeps ⟨db, []⟩ actions ∧
      runs.Always (reflect_step o cfg agent_id tenant_id) KnowledgeKept ⟨db, []⟩ actions := by
  have hstart : GoodReflecting (Reflecting.mk db []) := by
    refine ⟨hk.hindsight_lt, fun run hrun => (nomatch hrun), fun j ex ids hj => ?_⟩
    cases hj
  have hstep : ∀ (s : Reflecting K) a s', GoodReflecting s → FindsSnapshotRows s a →
      reflect_step o cfg agent_id tenant_id s a = some s' → GoodReflecting s' :=
    fun s a s' hs ha h => reflect_step_good hs ha h
  constructor
  · have hkeeps : ∀ (s : Reflecting K) a s', GoodReflecting s → FindsSnapshotRows s a →
        reflect_step o cfg agent_id tenant_id s a = some s' → CommitKeeps s a s' :=
      fun s a s' hs _ h => reflect_step_commit_keeps hs h
    exact runs.every_step_of_invariant hkeeps hstep hstart hok
  · exact runs.always_of_invariant (fun s hs => hs.kept) hstep hstart hok

/-- Agent 20 holds one lesson. -/
def pinned_image : HindsightMemory ℚ :=
  { id := 1, tenant_id := 1, agent_id := 20, type := .lesson, content := "pin the image",
    is_consolidated := true, valid_from := 0, created_at := 0 }

def before_the_runs : Db ℚ :=
  { qortia_agents := [{ id := 20, tenant_id := 1, updated_at := 0 }]
    hindsight_memories := [pinned_image]
    next_id := 2 }

/-- RETAIN of the lesson, and CREATE of another one. -/
def retain_and_create (content : String) (hc : (json.Json.string content).truthy = true)
    (h : (json.Json.string (text.ofUuid 1)).truthy = true) : List Reflection :=
  [.RETAIN ⟨.string (text.ofUuid 1), h⟩,
   .CREATE none { type := .lesson, content := ⟨.string content, hc⟩, importance := .float 1 }]

/-- Two runs read the same snapshot. The first one commits before the second one writes. -/
def two_overlapping_runs : List ReflectAction :=
  [.read, .read,
   .answer 0 5 (retain_and_create "retry on 502" (by decide) (by decide)) [0, 1],
   .advance 0, .advance 0, .advance 0, .commit 0,
   .answer 1 6 (retain_and_create "log the trace" (by decide) (by decide)) [0, 1],
   .advance 1, .advance 1, .advance 1, .advance 1, .commit 1]

/-- The lesson of the run that committed at 5 is closed at 6. -/
def after_the_runs : Reflecting ℚ where
  db := { before_the_runs with
    qortia_agents := [{ id := 20, tenant_id := 1, updated_at := 6 }]
    hindsight_memories :=
      [pinned_image,
       { id := 2, tenant_id := 1, agent_id := 20, type := .lesson, content := "retry on 502",
         importance := 1, is_consolidated := false, valid_from := 5, valid_until := some 6,
         created_at := 5 },
       { id := 3, tenant_id := 1, agent_id := 20, type := .lesson, content := "log the trace",
         importance := 1, is_consolidated := true, valid_from := 6, created_at := 6 }]
    memory_history :=
      [{ tenant_id := 1, agent_id := 20, operation := .reflect,
         target_table := .hindsight_memories, target_id := some 2 },
       { tenant_id := 1, agent_id := 20, operation := .reflect,
         target_table := .hindsight_memories, target_id := some 3 }]
    next_id := 4 }
  runs := [⟨[pinned_image], .committed [2]⟩, ⟨[pinned_image], .committed [3]⟩]

/-- The second run creates only, so that it does not prune. -/
def second_run_creates : List ReflectAction :=
  [.read, .read,
   .answer 0 5 (retain_and_create "retry on 502" (by decide) (by decide)) [0, 1],
   .advance 0, .advance 0, .advance 0, .commit 0,
   .answer 1 6 ((retain_and_create "log the trace" (by decide) (by decide)).drop 1) [0],
   .advance 1, .commit 1]

theorem before_the_runs_keyed : before_the_runs.Keyed := by
  refine ⟨by decide, by decide, ?_, ?_, ?_⟩ <;> decide

theorem overlapping_reflections_lose_no_knowledge_when_the_second_creates :
    runs.EveryStep (reflect_step no_models {} 20 1) CommitKeeps ⟨before_the_runs, []⟩
        second_run_creates ∧
      runs.Always (reflect_step no_models {} 20 1) KnowledgeKept ⟨before_the_runs, []⟩
        second_run_creates :=
  overlapping_reflections_lose_no_knowledge no_models {} 20 1 before_the_runs
    before_the_runs_keyed second_run_creates (by decide +kernel)

/-- The second run closes the lesson of the first one, which no snapshot held. -/
theorem an_overlapping_run_closes_a_new_lesson :
    runs.run (reflect_step no_models {} 20 1) ⟨before_the_runs, []⟩ two_overlapping_runs =
        some after_the_runs ∧
      after_the_runs.CommittedWith 0 [pinned_image] [2] ∧
      after_the_runs.CommittedWith 1 [pinned_image] [3] ∧
      ¬ Live after_the_runs.db 2 ∧
      ¬ runs.Always (reflect_step no_models {} 20 1) KnowledgeKept ⟨before_the_runs, []⟩
        two_overlapping_runs := by
  have hrun : runs.run (reflect_step no_models {} 20 1) ⟨before_the_runs, []⟩
      two_overlapping_runs = some after_the_runs := rfl
  have hlost : ¬ Live after_the_runs.db 2 := by
    unfold Live
    decide +kernel
  refine ⟨hrun, rfl, rfl, hlost, fun h => hlost ?_⟩
  refine h.last hrun 0 [pinned_image] [2] rfl 2 (by decide) fun k ex ids hk hc => ?_
  match k with
  | 0 => exact absurd rfl hk
  | 1 =>
    cases hc
    decide
  | k + 2 => cases hc

end qortia
