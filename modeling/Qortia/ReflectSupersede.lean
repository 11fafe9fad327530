-- The laws of supersession in `_write_reflections`. The prune closes a row with both columns,
-- and an UPDATE entry clears `is_consolidated` alone, unless an earlier entry has its content.
import Qortia.ReflectPrune

namespace qortia

variable {K : Type}

/-! ## The columns that the loop writes -/

/-- Without a prune, a row loses `is_consolidated` when an UPDATE names it, and `valid_until`
stays. -/
theorem on_row_run_of_no_prune (w : Writer) {sts : List (WriteStatement K)}
    (hno : ∀ ids, .prune ids ∉ sts) (r : HindsightMemory K) (hr : r.agent_id = w.agent_id) :
    (on_row_run w sts r).valid_until = r.valid_until ∧
      ((on_row_run w sts r).is_consolidated = true ↔
        r.is_consolidated = true ∧ .supersede r.id ∉ sts) := by
  induction sts generalizing r with
  | nil => simp [on_row_run]
  | cons st sts ih =>
    have hno' : ∀ ids, .prune ids ∉ sts := fun ids hm => hno ids (List.mem_cons_of_mem _ hm)
    have hstep : on_row_run w (st :: sts) r = on_row_run w sts (st.on_row w r) := rfl
    rw [hstep]
    cases st with
    | prune ids => exact absurd List.mem_cons_self (hno ids)
    | insert =>
      obtain ⟨hv, hc⟩ := ih hno' r hr
      refine ⟨hv, hc.trans ?_⟩
      simp
    | supersede id =>
      by_cases hid : r.id = id
      · have hrow : (WriteStatement.supersede (K := K) id).on_row w r =
            { r with is_consolidated := false } := by
          simp [WriteStatement.on_row, hid, hr]
        obtain ⟨hv, hc⟩ := ih hno' { r with is_consolidated := false } hr
        rw [hrow]
        refine ⟨hv, hc.trans ?_⟩
        simp [hid]
      · have hrow : (WriteStatement.supersede (K := K) id).on_row w r = r := by
          simp [WriteStatement.on_row, hid]
        obtain ⟨hv, hc⟩ := ih hno' r hr
        rw [hrow]
        refine ⟨hv, hc.trans ?_⟩
        simp [hid]

/-! ## Which rows are superseded -/

/-- An UPDATE entry names the row. -/
def NamedByUpdate (reflections : List Reflection) (id : UUID) : Prop :=
  ∃ j body, .UPDATE j body ∈ reflections ∧ uuid_of j.1 = .ok id

/-- A consolidated row that no entry named to a prune that ran, or that an UPDATE names. -/
def Superseded (agent_id : UUID) (reflections : List Reflection)
    (existing : List (HindsightMemory K)) (db : Db K) (r : HindsightMemory K) : Prop :=
  consolidated agent_id r = true ∧
    ((∃ ids, RunsPrune agent_id reflections existing db ids ∧ r.id ∉ ids) ∨
      NamedByUpdate reflections r.id)

/-- After the commit, the superseded rows are out of the consolidated set and are closed. -/
def ClosesSuperseded (w : Writer) (reflections : List Reflection)
    (existing : List (HindsightMemory K)) (db db' : Db K) : Prop :=
  ∀ r ∈ db.hindsight_memories, Superseded w.agent_id reflections existing db r →
    ∀ r' ∈ db'.hindsight_memories, r'.id = r.id →
      r'.is_consolidated = false ∧ r'.valid_until = some w.now

theorem named_by_update_mem_active_ids {reflections : List Reflection} {ids : List UUID}
    (hids : active_ids reflections = .ok ids) {id : UUID} (h : NamedByUpdate reflections id) :
    id ∈ ids := by
  obtain ⟨j, body, hmem, hj⟩ := h
  have hnamed : j.1 ∈ reflections.filterMap Reflection.named_id :=
    List.mem_filterMap.mpr ⟨.UPDATE j body, hmem, rfl⟩
  obtain ⟨y, hy, hjy⟩ := mem_of_mapM_ok hids hnamed
  rw [hj] at hjy
  cases hjy
  exact hy

/-! ## A row after the commit -/

section
variable [Field K] [LinearOrder K] [HasSqrt K] {o : Outside K} {w : Writer}
  {reflections : List Reflection} {new_embeddings : Nat → Option (List K)}
  {existing_embeddings : String → Option (StoredVector K)}
  {existing : List (HindsightMemory K)} {db : Db K} {sts : List (WriteStatement K)}

/-- A consolidated row that the prune spares, or that no prune reaches, keeps `valid_until`, and
it leaves the set when an UPDATE that is not skipped names it. -/
theorem on_row_run_of_spared
    (h : write_statements o reflections new_embeddings existing_embeddings (existing ≠ [])
      (existing_consolidated_count w.agent_id db) = .ok sts)
    {r : HindsightMemory K} (hr : consolidated w.agent_id r = true)
    (hspared : ∀ ids, RunsPrune w.agent_id reflections existing db ids → r.id ∈ ids) :
    (on_row_run w sts r).valid_until = r.valid_until ∧
      ((on_row_run w sts r).is_consolidated = false ↔
        NamedByUpdate (written o [] reflections) r.id) := by
  have hcons : r.agent_id = w.agent_id ∧ r.is_consolidated = true := by
    unfold consolidated at hr
    simp only [Bool.and_eq_true, decide_eq_true_eq] at hr
    exact ⟨hr.1.1, hr.2⟩
  obtain ⟨ids, writes, hids, hwrites, hsts⟩ := write_statements_ok h
  have hsame : on_row_run w sts r = on_row_run w writes r := by
    rw [hsts]
    split
    · rename_i hp
      have hmem : WriteStatement.prune ids ∈ sts := by
        rw [hsts, if_pos hp]
        exact List.mem_cons_self
      have hin := hspared ids ((runs_prune_iff h ids).mp hmem)
      have hrow : (WriteStatement.prune (K := K) ids).on_row w r = r := by
        simp [WriteStatement.on_row, hin]
      show on_row_run w writes ((WriteStatement.prune ids).on_row w r) = _
      rw [hrow]
    · rfl
  obtain ⟨hv, hc⟩ := on_row_run_of_no_prune w (prune_not_mem_write_loop hwrites) r hcons.1
  rw [hsame]
  refine ⟨hv, ?_⟩
  rw [← Bool.not_eq_true, hc, superseded_iff_written hwrites]
  unfold NamedByUpdate
  simp [hcons.2]

/-- A row that the prune reaches is closed, and it stays so. -/
theorem on_row_run_of_pruned
    (h : write_statements o reflections new_embeddings existing_embeddings (existing ≠ [])
      (existing_consolidated_count w.agent_id db) = .ok sts)
    {r : HindsightMemory K} (hr : consolidated w.agent_id r = true) {ids : List UUID}
    (hp : RunsPrune w.agent_id reflections existing db ids) (hnot : r.id ∉ ids) :
    (on_row_run w sts r).is_consolidated = false ∧
      (on_row_run w sts r).valid_until = some w.now := by
  obtain ⟨ids', writes, hids, hwrites, hsts⟩ := write_statements_ok h
  have hid : ids' = ids := Except.ok.inj (hids.symm.trans hp.1)
  have hguard : (decide (existing ≠ []) && prune_safe (decide (existing ≠ []))
      (existing_consolidated_count w.agent_id db) ids'.length) = true := by
    rw [hid, decide_eq_true hp.2.1, hp.2.2]
    rfl
  rw [if_pos hguard, hid] at hsts
  have hagent : r.agent_id = w.agent_id := by
    unfold consolidated at hr
    simp only [Bool.and_eq_true, decide_eq_true_eq] at hr
    exact hr.1.1
  have hrow : (WriteStatement.prune (K := K) ids).on_row w r =
      { r with is_consolidated := false, valid_until := some w.now } := by
    simp [WriteStatement.on_row, hr, hnot]
  have hrun : on_row_run w sts r =
      on_row_run w writes { r with is_consolidated := false, valid_until := some w.now } := by
    rw [hsts, ← hrow]
    rfl
  obtain ⟨hv, hc⟩ := on_row_run_of_no_prune w (prune_not_mem_write_loop hwrites)
    { r with is_consolidated := false, valid_until := some w.now } hagent
  rw [hrun]
  refine ⟨?_, hv⟩
  rw [← Bool.not_eq_true, hc]
  simp

end

/-- Under the primary key, the row of an old id is the old row after the statements. -/
theorem row_after {w : Writer} {sts : List (WriteStatement K)} {db : Db K}
    {after new : List (HindsightMemory K)} (hk : db.Keyed)
    (hrows : after = db.hindsight_memories.map (on_row_run w sts) ++ new)
    (hnew : ∀ r ∈ new, db.next_id ≤ r.id) {r r' : HindsightMemory K}
    (hr : r ∈ db.hindsight_memories) (hr' : r' ∈ after) (hid : r'.id = r.id) :
    r' = on_row_run w sts r := by
  rw [hrows] at hr'
  rcases List.mem_append.mp hr' with hm | hm
  · obtain ⟨q, hq, rfl⟩ := List.mem_map.mp hm
    rw [on_row_run_id] at hid
    rw [List.inj_on_of_nodup_map hk.hindsight_nodup hq hr hid]
  · have hlt := hk.hindsight_lt r hr
    have hge := hnew r' hm
    rw [hid] at hge
    exact absurd hge (Nat.not_le.mpr hlt)

/-! ## Superseded rows are closed -/

/-- After a commit, the superseded rows are all closed exactly when each consolidated row that an
UPDATE names was already closed at this very time and is named by an UPDATE that is not
skipped: the prune closes what it reaches, and no UPDATE ever closes a row. -/
theorem superseded_rows_are_closed_iff [Field K] [LinearOrder K] [HasSqrt K] (o : Outside K)
    (cfg : Settings) (w : Writer) (reflections : List Reflection)
    (new_embeddings : Nat → Option (List K))
    (existing_embeddings : String → Option (StoredVector K))
    (existing : List (HindsightMemory K)) (db db' : Db K) (n : Nat) (counter : Option Int)
    (hk : db.Keyed)
    (h : write_reflections o cfg w reflections new_embeddings existing_embeddings existing db =
      .ok (db', n, counter)) :
    ClosesSuperseded w reflections existing db db' ↔
      ∀ r ∈ db.hindsight_memories, consolidated w.agent_id r = true →
        NamedByUpdate reflections r.id →
          r.valid_until = some w.now ∧ NamedByUpdate (written o [] reflections) r.id := by
  obtain ⟨sts, new, hsts, hrows, hnew⟩ := write_reflections_rows h
  have hspared : ∀ r : HindsightMemory K, NamedByUpdate reflections r.id → ∀ ids,
      RunsPrune w.agent_id reflections existing db ids → r.id ∈ ids :=
    fun r hn ids hp => named_by_update_mem_active_ids hp.1 hn
  constructor
  · intro hall r hr hc hn
    obtain ⟨hv, hcons⟩ := on_row_run_of_spared hsts hc (hspared r hn)
    have hmem : on_row_run w sts r ∈ db'.hindsight_memories := by
      rw [hrows]
      exact List.mem_append_left _ (List.mem_map_of_mem hr)
    obtain ⟨hfalse, hclosed⟩ := hall r hr ⟨hc, Or.inr hn⟩ _ hmem (on_row_run_id w sts r)
    rw [hv] at hclosed
    exact ⟨hclosed, hcons.mp hfalse⟩
  · rintro hall r hr ⟨hc, hsup⟩ r' hr' hid
    rw [row_after hk hrows hnew hr hr' hid]
    by_cases hn : NamedByUpdate reflections r.id
    · obtain ⟨hv, hcons⟩ := on_row_run_of_spared hsts hc (hspared r hn)
      obtain ⟨hclosed, hwritten⟩ := hall r hr hc hn
      exact ⟨hcons.mpr hwritten, hv.trans hclosed⟩
    · rcases hsup with ⟨ids, hp, hnot⟩ | hn'
      · exact on_row_run_of_pruned hsts hc hp hnot
      · exact absurd hn' hn

/-- Agent 20 holds one lesson, and the answer writes it anew. -/
def one_lesson : Db ℚ :=
  { hindsight_memories :=
      [{ id := 1, tenant_id := 1, agent_id := 20, type := .lesson, content := "retry on 502",
         is_consolidated := true, valid_from := 0, created_at := 0 }]
    next_id := 2 }

def update_the_lesson (h : (json.Json.string (text.ofUuid 1)).truthy = true)
    (hc : (json.Json.string "retry on 502 and 503").truthy = true) : List Reflection :=
  [.UPDATE ⟨.string (text.ofUuid 1), h⟩
    { type := .lesson, content := ⟨.string "retry on 502 and 503", hc⟩, importance := .int 1 }]

/-- The database after the UPDATE: the lesson is out of the set and stays open. -/
def one_lesson_updated : Db ℚ :=
  { hindsight_memories :=
      [{ id := 1, tenant_id := 1, agent_id := 20, type := .lesson, content := "retry on 502",
         is_consolidated := false, valid_from := 0, created_at := 0 },
       { id := 2, tenant_id := 1, agent_id := 20, type := .lesson,
         content := "retry on 502 and 503", importance := 1, is_consolidated := true,
         valid_from := 5, created_at := 5 }]
    memory_history :=
      [{ tenant_id := 1, agent_id := 20, operation := .reflect,
         target_table := .hindsight_memories, target_id := some 2 }]
    next_id := 3 }

theorem update_the_lesson_commits :
    write_reflections no_models {} ⟨20, 1, 5⟩ (update_the_lesson (by decide) (by decide))
      (fun _ => none) (fun _ => none) one_lesson.hindsight_memories one_lesson =
        .ok (one_lesson_updated, 1, none) := by
  decide +kernel

theorem one_lesson_keyed : one_lesson.Keyed := by
  refine ⟨by decide, by decide, ?_, ?_, ?_⟩ <;> decide

theorem superseded_rows_are_closed_iff_one_lesson :
    ClosesSuperseded ⟨20, 1, 5⟩ (update_the_lesson (by decide) (by decide))
        one_lesson.hindsight_memories one_lesson one_lesson_updated ↔
      ∀ r ∈ one_lesson.hindsight_memories, consolidated 20 r = true →
        NamedByUpdate (update_the_lesson (by decide) (by decide)) r.id →
          r.valid_until = some 5 ∧
            NamedByUpdate (written no_models [] (update_the_lesson (by decide) (by decide))) r.id :=
  superseded_rows_are_closed_iff no_models {} ⟨20, 1, 5⟩ _ _ _ _ _ _ _ _ one_lesson_keyed
    update_the_lesson_commits

/-- The lesson that the UPDATE replaces keeps `valid_until` NULL. -/
theorem an_updated_lesson_stays_open :
    ∃ n counter, write_reflections no_models {} ⟨20, 1, 5⟩
        (update_the_lesson (by decide) (by decide)) (fun _ => none) (fun _ => none)
        (select_existing 20 one_lesson) one_lesson = .ok (one_lesson_updated, n, counter) ∧
      ¬ ClosesSuperseded ⟨20, 1, 5⟩ (update_the_lesson (by decide) (by decide))
        (select_existing 20 one_lesson) one_lesson one_lesson_updated := by
  refine ⟨1, none, by decide +kernel, fun h => ?_⟩
  have hclosed := h _ List.mem_cons_self ⟨rfl, Or.inr ⟨_, _, List.mem_cons_self, rfl⟩⟩ _
    List.mem_cons_self rfl
  cases hclosed.2

end qortia
