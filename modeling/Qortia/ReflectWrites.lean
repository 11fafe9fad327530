-- What one `_write_reflections` does to the rows of `hindsight_memories`: the statements that
-- the loop emits for each entry, and the change that each statement makes to each row.
import Qortia.Reflect

namespace qortia

variable {K : Type}

/-! ## The statements that the loop emits -/

/-- The content hash of a CREATE or UPDATE entry. -/
def Reflection.hash (o : Outside K) : Reflection → Option String
  | .CREATE _ body | .UPDATE _ body =>
    match content_text body.content with
    | .ok content => some (reflection_hash o content)
    | .error _ => none
  | .RETAIN _ => none

def WriteStatement.is_insert : WriteStatement K → Bool
  | .insert .. => true
  | _ => false

section
variable [Field K] [LinearOrder K] [HasSqrt K]

omit [HasSqrt K] in
theorem insert_row_is_insert {o : Outside K} {body : ReflectionBody} {content : String}
    {new_emb : Option (List K)} {stability : Option K} {row : WriteStatement K}
    (h : write_loop.insert_row o body content new_emb stability = .ok row) :
    row.is_insert = true := by
  unfold write_loop.insert_row at h
  obtain ⟨importance, -, h⟩ := bind_ok h
  split at h
  · cases h
    rfl
  · cases h

/-- What one turn of the loop does: the hashes seen after it and the statements it emits. -/
inductive EntryWrites (o : Outside K) (new_emb : Option (List K)) (seen : List String) :
    Reflection → List String → List (WriteStatement K) → Prop where
  | retain (id : Truthy) : EntryWrites o new_emb seen (.RETAIN id) seen []
  | repeated (r : Reflection) (c : String) (hr : r.hash o = some c) (hseen : c ∈ seen) :
    EntryWrites o new_emb seen r seen []
  | create (id : Option json.Json) (body : ReflectionBody) (content : String)
    (row : WriteStatement K) (hc : content_text body.content = .ok content)
    (hseen : reflection_hash o content ∉ seen)
    (hrow : write_loop.insert_row o body content new_emb none = .ok row) :
    EntryWrites o new_emb seen (.CREATE id body) (reflection_hash o content :: seen) [row]
  | update (id : Truthy) (body : ReflectionBody) (content : String) (uuid : UUID)
    (stability : Option K) (row : WriteStatement K)
    (hc : content_text body.content = .ok content)
    (hseen : reflection_hash o content ∉ seen) (huuid : uuid_of id.1 = .ok uuid)
    (hrow : write_loop.insert_row o body content new_emb stability = .ok row) :
    EntryWrites o new_emb seen (.UPDATE id body) (reflection_hash o content :: seen)
      [.supersede uuid, row]

omit [Field K] [LinearOrder K] [HasSqrt K] in
theorem hash_create {o : Outside K} {id : Option json.Json} {body : ReflectionBody}
    {content : String} (hc : content_text body.content = .ok content) :
    (Reflection.CREATE id body).hash o = some (reflection_hash o content) := by
  simp only [Reflection.hash, hc]

omit [Field K] [LinearOrder K] [HasSqrt K] in
theorem hash_update {o : Outside K} {id : Truthy} {body : ReflectionBody}
    {content : String} (hc : content_text body.content = .ok content) :
    (Reflection.UPDATE id body).hash o = some (reflection_hash o content) := by
  simp only [Reflection.hash, hc]

/-- One turn of the loop, then the loop over the rest. -/
theorem write_loop_cons {o : Outside K} {existing_embeddings : String → Option (StoredVector K)}
    {new_embeddings : Nat → Option (List K)} {i : Nat} {seen : List String} {r : Reflection}
    {rest : List Reflection} {sts : List (WriteStatement K)}
    (h : write_loop o existing_embeddings new_embeddings i seen (r :: rest) = .ok sts) :
    ∃ seen' head tail, EntryWrites o (new_embeddings i) seen r seen' head ∧
      write_loop o existing_embeddings new_embeddings (i + 1) seen' rest = .ok tail ∧
      sts = head ++ tail := by
  cases r with
  | RETAIN id => exact ⟨seen, [], sts, .retain id, h, rfl⟩
  | CREATE id body =>
    unfold write_loop at h
    obtain ⟨content, hc, h⟩ := bind_ok h
    simp only at h
    split at h
    · rename_i hseen
      exact ⟨seen, [], sts, .repeated _ _ (hash_create hc) hseen, h, rfl⟩
    · rename_i hseen
      obtain ⟨row, hrow, h⟩ := bind_ok h
      obtain ⟨tail, htail, h⟩ := bind_ok h
      obtain ⟨u, -, h⟩ := bind_ok h
      cases h
      exact ⟨_, [row], tail, .create id body content row hc hseen hrow, htail, rfl⟩
  | UPDATE id body =>
    unfold write_loop at h
    obtain ⟨content, hc, h⟩ := bind_ok h
    simp only at h
    split at h
    · rename_i hseen
      exact ⟨seen, [], sts, .repeated _ _ (hash_update hc) hseen, h, rfl⟩
    · rename_i hseen
      obtain ⟨stability, -, h⟩ := bind_ok h
      obtain ⟨uuid, huuid, h⟩ := bind_ok h
      obtain ⟨row, hrow, h⟩ := bind_ok h
      obtain ⟨tail, htail, h⟩ := bind_ok h
      obtain ⟨u, -, h⟩ := bind_ok h
      cases h
      exact ⟨_, [.supersede uuid, row], tail,
        .update id body content uuid stability row hc hseen huuid hrow, htail, rfl⟩

/-- The loop never prunes. -/
theorem prune_not_mem_write_loop {o : Outside K}
    {existing_embeddings : String → Option (StoredVector K)}
    {new_embeddings : Nat → Option (List K)} {reflections : List Reflection} {i : Nat}
    {seen : List String} {sts : List (WriteStatement K)}
    (h : write_loop o existing_embeddings new_embeddings i seen reflections = .ok sts)
    (ids : List UUID) : .prune ids ∉ sts := by
  induction reflections generalizing i seen sts with
  | nil =>
    cases h
    exact List.not_mem_nil
  | cons r rest ih =>
    obtain ⟨seen', head, tail, hr, htail, rfl⟩ := write_loop_cons h
    intro hmem
    rcases List.mem_append.mp hmem with hm | hm
    · cases hr with
      | retain id => cases hm
      | repeated r c hr hseen => cases hm
      | create id body content row hc hseen hrow =>
        rw [List.mem_singleton] at hm
        have hinsert := insert_row_is_insert hrow
        rw [← hm] at hinsert
        cases hinsert
      | update id body content uuid stability row hc hseen huuid hrow =>
        rcases List.mem_cons.mp hm with hm | hm
        · cases hm
        · rw [List.mem_singleton] at hm
          have hinsert := insert_row_is_insert hrow
          rw [← hm] at hinsert
          cases hinsert
    · exact ih htail hm

theorem write_statements_ok {o : Outside K} {reflections : List Reflection}
    {new_embeddings : Nat → Option (List K)}
    {existing_embeddings : String → Option (StoredVector K)} {has_existing : Bool} {count : Nat}
    {sts : List (WriteStatement K)}
    (h : write_statements o reflections new_embeddings existing_embeddings has_existing count =
      .ok sts) :
    ∃ ids writes, active_ids reflections = .ok ids ∧
      write_loop o existing_embeddings new_embeddings 0 [] reflections = .ok writes ∧
      sts = (if has_existing && prune_safe has_existing count ids.length then [.prune ids] else [])
        ++ writes := by
  unfold write_statements at h
  obtain ⟨ids, hids, h⟩ := bind_ok h
  obtain ⟨writes, hwrites, h⟩ := bind_ok h
  cases h
  exact ⟨ids, writes, hids, hwrites, rfl⟩

end

/-! ## The entries that are written -/

/-- The entries that the loop does not skip: the first one of each content. -/
def written (o : Outside K) : (seen : List String) → List Reflection → List Reflection
  | _, [] => []
  | seen, r :: rest =>
    match r.hash o with
    | none => written o seen rest
    | some h => if h ∈ seen then written o seen rest else r :: written o (h :: seen) rest

theorem superseded_iff_written [Field K] [LinearOrder K] [HasSqrt K] {o : Outside K}
    {existing_embeddings : String → Option (StoredVector K)}
    {new_embeddings : Nat → Option (List K)} {reflections : List Reflection} {i : Nat}
    {seen : List String} {sts : List (WriteStatement K)}
    (h : write_loop o existing_embeddings new_embeddings i seen reflections = .ok sts)
    (uuid : UUID) :
    .supersede uuid ∈ sts ↔
      ∃ id body, .UPDATE id body ∈ written o seen reflections ∧ uuid_of id.1 = .ok uuid := by
  induction reflections generalizing i seen sts with
  | nil =>
    cases h
    simp [written]
  | cons r rest ih =>
    obtain ⟨seen', head, tail, hr, htail, rfl⟩ := write_loop_cons h
    rw [List.mem_append]
    cases hr with
    | retain id =>
      have hw : written o seen (.RETAIN id :: rest) = written o seen rest := by
        simp [written, Reflection.hash]
      rw [hw, ← ih htail]
      simp
    | repeated r c hr hseen =>
      have hw : written o seen (r :: rest) = written o seen rest := by
        simp [written, hr, hseen]
      rw [hw, ← ih htail]
      simp
    | create id body content row hc hseen hrow =>
      have hw : written o seen (.CREATE id body :: rest) =
          .CREATE id body :: written o (reflection_hash o content :: seen) rest := by
        simp [written, hash_create hc, hseen]
      have hne : WriteStatement.supersede uuid ≠ row := by
        rintro rfl
        cases insert_row_is_insert hrow
      rw [hw, ih htail, List.mem_singleton]
      constructor
      · rintro (hm | ⟨id', body', hm, hu⟩)
        · exact absurd hm hne
        · exact ⟨id', body', List.mem_cons_of_mem _ hm, hu⟩
      · rintro ⟨id', body', hm, hu⟩
        rcases List.mem_cons.mp hm with heq | hm
        · cases heq
        · exact Or.inr ⟨id', body', hm, hu⟩
    | update id body content uuid' stability row hc hseen huuid hrow =>
      have hw : written o seen (.UPDATE id body :: rest) =
          .UPDATE id body :: written o (reflection_hash o content :: seen) rest := by
        simp [written, hash_update hc, hseen]
      have hne : WriteStatement.supersede uuid ≠ row := by
        rintro rfl
        cases insert_row_is_insert hrow
      rw [hw, ih htail]
      constructor
      · rintro (hm | ⟨id', body', hm, hu⟩)
        · have heq : uuid = uuid' := by simpa [hne] using hm
          exact ⟨id, body, List.mem_cons_self, heq ▸ huuid⟩
        · exact ⟨id', body', List.mem_cons_of_mem _ hm, hu⟩
      · rintro ⟨id', body', hm, hu⟩
        rcases List.mem_cons.mp hm with heq | hm
        · cases heq
          have : uuid = uuid' := by
            rw [huuid] at hu
            exact (Except.ok.inj hu).symm
          exact Or.inl (by simp [this])
        · exact Or.inr ⟨id', body', hm, hu⟩

/-! ## The change to one row -/

/-- What a statement makes of a row that is there before it. -/
def WriteStatement.on_row (w : Writer) (r : HindsightMemory K) :
    WriteStatement K → HindsightMemory K
  | .prune ids =>
    if consolidated w.agent_id r && r.id ∉ ids
    then { r with is_consolidated := false, valid_until := some w.now } else r
  | .supersede id =>
    if r.id = id && r.agent_id = w.agent_id then { r with is_consolidated := false } else r
  | .insert .. => r

/-- What the statements make of a row, one after another. -/
def on_row_run (w : Writer) (sts : List (WriteStatement K)) (r : HindsightMemory K) :
    HindsightMemory K :=
  sts.foldl (WriteStatement.on_row w) r

@[simp] theorem on_row_id (w : Writer) (r : HindsightMemory K) (st : WriteStatement K) :
    (st.on_row w r).id = r.id := by
  unfold WriteStatement.on_row
  cases st with
  | prune ids => simp only; split <;> rfl
  | supersede id => simp only; split <;> rfl
  | insert => rfl

@[simp] theorem on_row_run_id (w : Writer) (sts : List (WriteStatement K))
    (r : HindsightMemory K) : (on_row_run w sts r).id = r.id := by
  unfold on_row_run
  induction sts generalizing r with
  | nil => rfl
  | cons st sts ih =>
    rw [List.foldl_cons, ih]
    exact on_row_id w r st

/-- The row that a statement inserts, when `gen_random_uuid` draws `id` for it. -/
def WriteStatement.new_rows (w : Writer) (id : UUID) :
    WriteStatement K → List (HindsightMemory K)
  | .insert type content importance entities embedding stability =>
    [{ id, tenant_id := w.tenant_id, agent_id := w.agent_id, type, content, importance
       is_consolidated := true, entities, embedding, stability_score := stability
       valid_from := w.now, created_at := w.now }]
  | _ => []

/-- A statement changes each row by `on_row` and puts its new row at the end. -/
theorem exec_rows (w : Writer) (st : WriteStatement K) (db : Db K) (ids : List UUID) :
    (st.exec w (db, ids)).1.hindsight_memories =
      db.hindsight_memories.map (st.on_row w ·) ++ st.new_rows w db.next_id := by
  cases st with
  | prune => simp [WriteStatement.exec, WriteStatement.on_row, WriteStatement.new_rows, rows.update]
  | supersede =>
    simp [WriteStatement.exec, WriteStatement.on_row, WriteStatement.new_rows, rows.update]
  | insert => simp [WriteStatement.exec, WriteStatement.on_row, WriteStatement.new_rows]

theorem new_rows_id {w : Writer} {id : UUID} {st : WriteStatement K} {r : HindsightMemory K}
    (h : r ∈ st.new_rows w id) : r.id = id := by
  cases st with
  | prune => cases h
  | supersede => cases h
  | insert =>
    unfold WriteStatement.new_rows at h
    rw [List.mem_singleton] at h
    rw [h]

theorem exec_next_id (w : Writer) (st : WriteStatement K) (db : Db K) (ids : List UUID) :
    db.next_id ≤ (st.exec w (db, ids)).1.next_id := by
  cases st with
  | prune => exact le_refl _
  | supersede => exact le_refl _
  | insert => exact Nat.le_succ _

theorem exec_frame (w : Writer) (st : WriteStatement K) (db : Db K) (ids : List UUID) :
    (st.exec w (db, ids)).1 =
      { db with
        hindsight_memories := (st.exec w (db, ids)).1.hindsight_memories
        next_id := (st.exec w (db, ids)).1.next_id } := by
  cases st <;> rfl

theorem run_frame (w : Writer) (sts : List (WriteStatement K)) (s : Db K × List UUID) :
    (sts.foldl (fun s st => st.exec w s) s).1 =
      { s.1 with
        hindsight_memories := (sts.foldl (fun s st => st.exec w s) s).1.hindsight_memories
        next_id := (sts.foldl (fun s st => st.exec w s) s).1.next_id } := by
  induction sts generalizing s with
  | nil => rfl
  | cons st sts ih =>
    rw [List.foldl_cons, ih, exec_frame w st s.1 s.2]

/-- The rows that were there are changed by `on_row`, and the new ones have fresh ids. -/
theorem run_rows (w : Writer) (sts : List (WriteStatement K)) (db : Db K) (ids : List UUID) :
    ∃ new, (sts.foldl (fun s st => st.exec w s) (db, ids)).1.hindsight_memories =
        db.hindsight_memories.map (on_row_run w sts) ++ new ∧
      ∀ r ∈ new, db.next_id ≤ r.id := by
  induction sts generalizing db ids with
  | nil =>
    have hid : on_row_run (K := K) w [] = id := rfl
    exact ⟨[], by simp [hid], by simp⟩
  | cons st sts ih =>
    obtain ⟨new, hrows, hid⟩ := ih (st.exec w (db, ids)).1 (st.exec w (db, ids)).2
    refine ⟨(st.new_rows w db.next_id).map (on_row_run w sts) ++ new, ?_, ?_⟩
    · rw [List.foldl_cons, hrows, exec_rows, List.map_append, List.map_map, List.append_assoc]
      rfl
    · intro r hr
      rcases List.mem_append.mp hr with hr | hr
      · obtain ⟨q, hq, rfl⟩ := List.mem_map.mp hr
        rw [on_row_run_id, new_rows_id hq]
      · exact le_trans (exec_next_id w st db ids) (hid r hr)

/-- The ids that `gen_random_uuid` draws are the ids of the new rows. -/
theorem run_new_ids (w : Writer) (sts : List (WriteStatement K)) (db : Db K) (ids : List UUID) :
    ∃ new, (sts.foldl (fun s st => st.exec w s) (db, ids)).1.hindsight_memories.map (·.id) =
        db.hindsight_memories.map (·.id) ++ new ∧
      (sts.foldl (fun s st => st.exec w s) (db, ids)).2 = ids ++ new ∧
      ∀ i ∈ new, db.next_id ≤ i ∧
        i < (sts.foldl (fun s st => st.exec w s) (db, ids)).1.next_id := by
  induction sts generalizing db ids with
  | nil => exact ⟨[], by simp, by simp, by simp⟩
  | cons st sts ih =>
    obtain ⟨new, hrows, hids, hnew⟩ := ih (st.exec w (db, ids)).1 (st.exec w (db, ids)).2
    have hhead : (st.exec w (db, ids)).2 = ids ++ (st.new_rows w db.next_id).map (·.id) := by
      cases st with
      | prune => exact (List.append_nil _).symm
      | supersede => exact (List.append_nil _).symm
      | insert => simp [WriteStatement.exec, WriteStatement.new_rows]
    have hlast : ∀ (sts : List (WriteStatement K)) (s : Db K × List UUID),
        s.1.next_id ≤ (sts.foldl (fun s st => st.exec w s) s).1.next_id := by
      intro sts
      induction sts with
      | nil => exact fun s => le_refl _
      | cons st sts ih => exact fun s => le_trans (exec_next_id w st s.1 s.2) (ih _)
    refine ⟨(st.new_rows w db.next_id).map (·.id) ++ new, ?_, ?_, ?_⟩
    · rw [List.foldl_cons, hrows, exec_rows, List.map_append, List.map_map, List.append_assoc]
      congr 1
      exact List.map_congr_left fun r _ => on_row_id w r st
    · rw [List.foldl_cons, hids, hhead, List.append_assoc]
    · intro i hi
      rw [List.foldl_cons]
      rcases List.mem_append.mp hi with hi | hi
      · obtain ⟨r, hr, rfl⟩ := List.mem_map.mp hi
        refine ⟨by rw [new_rows_id hr], lt_of_lt_of_le ?_ (hlast sts _)⟩
        rw [new_rows_id hr]
        cases st with
        | prune => cases hr
        | supersede => cases hr
        | insert => exact Nat.lt_succ_self _
      · exact ⟨le_trans (exec_next_id w st db ids) (hnew i hi).1, (hnew i hi).2⟩

/-- What a committed `_write_reflections` makes of the memories. -/
theorem write_reflections_rows [Field K] [LinearOrder K] [HasSqrt K] {o : Outside K}
    {cfg : Settings} {w : Writer} {reflections : List Reflection}
    {new_embeddings : Nat → Option (List K)}
    {existing_embeddings : String → Option (StoredVector K)}
    {existing : List (HindsightMemory K)} {db db' : Db K} {n : Nat} {counter : Option Int}
    (h : write_reflections o cfg w reflections new_embeddings existing_embeddings existing db =
      .ok (db', n, counter)) :
    ∃ sts new, write_statements o reflections new_embeddings existing_embeddings (existing ≠ [])
        (existing_consolidated_count w.agent_id db) = .ok sts ∧
      db'.hindsight_memories = db.hindsight_memories.map (on_row_run w sts) ++ new ∧
      ∀ r ∈ new, db.next_id ≤ r.id := by
  unfold write_reflections at h
  obtain ⟨sts, hsts, h⟩ := bind_ok h
  obtain ⟨new, hrows, hid⟩ := run_rows w sts db []
  cases h
  exact ⟨sts, new, hsts, hrows, hid⟩

/-! ## What the whole request keeps -/

section
variable [Field K] [LinearOrder K] [HasSqrt K] {o : Outside K} {cfg : Settings}
  {agent : AgentIdentity} {now : Timestamp} {answer : Except Failure (List Reflection)}
  {failed : List Nat} {db db' : Db K} {n : Nat} {counter : Option Int}

theorem reflect_active (h : reflect o cfg agent now answer failed db = .ok (db', n, counter)) :
    assert_agent_active agent.agent_id agent.tenant_id db = .ok () := by
  unfold reflect at h
  obtain ⟨u, hu, -⟩ := bind_ok h
  exact hu

/-- The row of a new memory in `memory_history`. -/
def reflect_record (w : Writer) (id : UUID) : MemoryHistory :=
  { tenant_id := w.tenant_id, agent_id := w.agent_id, operation := .reflect
    target_table := .hindsight_memories, target_id := some id }

/-- The memories that a reflection adds, and their records. -/
theorem reflect_new_ids
    (h : reflect o cfg agent now answer failed db = .ok (db', n, counter)) :
    ∃ new, db'.hindsight_memories.map (·.id) = db.hindsight_memories.map (·.id) ++ new ∧
      db'.memory_history = db.memory_history ++
        new.map (reflect_record ⟨agent.agent_id, agent.tenant_id, now⟩) ∧
      db'.org_memory = db.org_memory ∧ ∀ i ∈ new, db.next_id ≤ i ∧ i < db'.next_id := by
  unfold reflect at h
  obtain ⟨u, -, h⟩ := bind_ok h
  simp only at h
  split at h
  · cases h
  · obtain ⟨reflections, -, h⟩ := bind_ok h
    unfold write_reflections at h
    obtain ⟨sts, -, h⟩ := bind_ok h
    obtain ⟨new, hrows, hids, hnew⟩ :=
      run_new_ids ⟨agent.agent_id, agent.tenant_id, now⟩ sts db []
    have hframe := run_frame ⟨agent.agent_id, agent.tenant_id, now⟩ sts (db, [])
    have horg := congrArg Db.org_memory hframe
    cases h
    refine ⟨new, hrows, ?_, ?_, hnew⟩
    · unfold write_history decrement_counter reflect_record
      rw [hids, hframe, List.nil_append]
    · exact horg

/-- What each statement, the counter and the history keep, the transaction keeps. -/
theorem write_reflections_preserves {P : Db K → Prop} {w : Writer}
    {reflections : List Reflection} {new_embeddings : Nat → Option (List K)}
    {existing_embeddings : String → Option (StoredVector K)}
    {existing : List (HindsightMemory K)}
    (h : write_reflections o cfg w reflections new_embeddings existing_embeddings existing db =
      .ok (db', n, counter))
    (hstatement : ∀ db ids (st : WriteStatement K), P db → P (st.exec w (db, ids)).1)
    (hcounter : ∀ db, P db → P (decrement_counter cfg.reflection_threshold w db))
    (hhistory : ∀ db history, P db → P { db with memory_history := history }) (hdb : P db) :
    P db' := by
  unfold write_reflections at h
  obtain ⟨sts, -, h⟩ := bind_ok h
  have hrun : ∀ (sts : List (WriteStatement K)) (s : Db K × List UUID), P s.1 →
      P (sts.foldl (fun s st => st.exec w s) s).1 := by
    intro sts
    induction sts with
    | nil => exact fun s hs => hs
    | cons st sts ih => exact fun s hs => ih _ (hstatement s.1 s.2 st hs)
  have hwritten := hrun sts (db, []) hdb
  cases h
  exact hhistory _ _ (hcounter _ hwritten)

/-- The same for the whole request. -/
theorem reflect_preserves {P : Db K → Prop}
    (h : reflect o cfg agent now answer failed db = .ok (db', n, counter))
    (hstatement : ∀ db ids (st : WriteStatement K), P db →
      P (st.exec ⟨agent.agent_id, agent.tenant_id, now⟩ (db, ids)).1)
    (hcounter : ∀ db, P db →
      P (decrement_counter cfg.reflection_threshold ⟨agent.agent_id, agent.tenant_id, now⟩ db))
    (hhistory : ∀ db history, P db → P { db with memory_history := history }) (hdb : P db) :
    P db' := by
  unfold reflect at h
  obtain ⟨u, -, h⟩ := bind_ok h
  simp only at h
  split at h
  · cases h
  · obtain ⟨reflections, -, h⟩ := bind_ok h
    exact write_reflections_preserves h hstatement hcounter hhistory hdb

end

end qortia
