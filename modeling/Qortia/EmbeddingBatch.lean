-- `_process_embedding_batch` and `_embed_single_row` of `qortia.reflect`, one batch from its claim
-- to its last row. What is done with a row is decided by the type in the row dict, and the query of
-- the batch puts no type there. The laws are about the policy of each memory type.
import Qortia.Dedup
import Qortia.EmbeddingWorker
import Qortia.Links

namespace qortia

variable {K : Type}

/-! ## The claim -/

def EMBEDDING_BATCH_SIZE : Nat := 50

/-- `ORDER BY tenant_id, created_at ASC LIMIT $1`. -/
def first_of_batch {Row : Type} (tenant_id : Row → UUID) (created_at : Row → Timestamp)
    (found : List Row) : List Row :=
  (rows.order_asc tenant_id (rows.order_asc created_at found)).take EMBEDDING_BATCH_SIZE

/-- The query of one table. `FOR UPDATE SKIP LOCKED` leaves out the rows that are locked. -/
def claim_query (locked : UUID → Bool) (db : Db K) : EmbeddedTable → List Claim
  | .hindsight_memories =>
    (first_of_batch (·.tenant_id) (·.created_at) (db.hindsight_memories.filter fun r =>
      r.embedding.isNone && r.embedding_attempts < 3 && !locked r.id)).map
        fun r => ⟨.hindsight_memories, r.id, r.tenant_id, some r.agent_id, r.content⟩
  | .org_memory =>
    (first_of_batch (·.tenant_id) (·.created_at) (db.org_memory.filter fun r =>
      r.embedding.isNone && r.embedding_attempts < 3 && !locked r.id)).map
        fun r => ⟨.org_memory, r.id, r.tenant_id, none, r.content⟩
  | .org_knowledge =>
    (first_of_batch (·.tenant_id) (·.created_at) (db.org_knowledge.filter fun r =>
      r.embedding.isNone && r.embedding_attempts < 3 && !locked r.id)).map
        fun r => ⟨.org_knowledge, r.id, r.tenant_id, none, r.index_summary⟩
  | .qortia_entities =>
    (first_of_batch (·.tenant_id) (·.created_at) (db.qortia_entities.filter fun e =>
      e.embedding.isNone && e.embedding_attempts < 3 && !locked e.id)).map
        fun e => ⟨.qortia_entities, e.id, e.tenant_id, none, e.entity_text⟩

/-- The order in which the claim transaction asks the tables. -/
def embedded_tables : List EmbeddedTable :=
  [.hindsight_memories, .org_memory, .org_knowledge, .qortia_entities]

/-- The rows of a batch. -/
def claim_batch (locked : EmbeddedTable → UUID → Bool) (db : Db K) : List Claim :=
  embedded_tables.flatMap fun tbl => claim_query (locked tbl) db tbl

/-! ## One row -/

/-- A row as a dict. A column that was not selected is `none`. -/
structure EmbeddingRow where
  tbl : EmbeddedTable
  id : UUID
  tenant_id : UUID
  agent_id : Option UUID := none
  text_to_embed : String
  type : Option MemoryType := none

/-- The dict of a claimed row. None of the queries selects a `type`. -/
def Claim.row (c : Claim) : EmbeddingRow where
  tbl := c.tbl
  id := c.id
  tenant_id := c.tenant_id
  agent_id := c.agent_id
  text_to_embed := c.text_to_embed

/-- What the models and the database decide during a batch: the tenants whose key cannot be
fetched, the rows whose vector cannot be computed or written, how many links a memory gets before
the database fails, and the calls of `_maybe_dedup_memory` that raise. -/
structure BatchEnv where
  now : Timestamp
  key_failed : UUID → Bool := fun _ => false
  failed : EmbeddedTable → UUID → Bool := fun _ _ => false
  linked : UUID → Nat := fun _ => LINK_TOP_N
  dedup_failed : UUID → Bool := fun _ => false

/-- The database, the vectors that the batch has written, and the calls of `_maybe_dedup_memory`
that it has made. -/
structure EmbeddingBatch (K : Type) where
  db : Db K
  written : List (EmbeddedTable × UUID) := []
  deduped : List (DedupCall K) := []

section
variable [Field K] [LinearOrder K]

/-- `_maybe_dedup_memory` for a memory that just got its vector. -/
def EmbeddingBatch.dedup (o : Outside K) (cfg : Settings) (env : BatchEnv) (call : DedupCall K)
    (s : EmbeddingBatch K) : EmbeddingBatch K :=
  { s with
    db :=
      if env.dedup_failed call.memory_id then
        count_attempt .hindsight_memories call.memory_id s.db
      else maybe_dedup_memory o cfg env.now call s.db
    deduped := s.deduped ++ [call] }

/-- The rest of `_embed_single_row` for a memory with a new vector: the links, and the search for
duplicates. -/
def EmbeddingBatch.link_and_dedup (o : Outside K) (cfg : Settings) (env : BatchEnv)
    (row : EmbeddingRow) (agent_id : UUID) (embedding : List K) (s : EmbeddingBatch K) :
    EmbeddingBatch K :=
  let similar := find_similar_memories o env.now row.id agent_id embedding s.db
  let s := { s with
    db := (similar.take (env.linked row.id)).foldl
      (fun db similar => upsert_memory_link row.id row.tenant_id similar db) s.db }
  match row.type with
  | some .episodic => s.dedup o cfg env ⟨row.id, embedding, agent_id, .episodic⟩
  | some .experiential => s.dedup o cfg env ⟨row.id, embedding, agent_id, .experiential⟩
  | some .mental_model | some .decision | some .lesson | some .short_term | none => s

/-- `_embed_single_row`. -/
def embed_single_row (o : Outside K) (cfg : Settings) (env : BatchEnv) (s : EmbeddingBatch K)
    (row : EmbeddingRow) : EmbeddingBatch K :=
  if row.text_to_embed = "" then s
  else if row.tbl = .hindsight_memories ∧ row.type = some .short_term then s
  else if env.failed row.tbl row.id then { s with db := count_attempt row.tbl row.id s.db }
  else
    let embedding := o.embedding row.text_to_embed
    let s := { s with
      db := write_embedding row.tbl row.id embedding s.db
      written := s.written ++ [(row.tbl, row.id)] }
    match row.tbl, row.agent_id with
    | .hindsight_memories, some agent_id => s.link_and_dedup o cfg env row agent_id embedding
    -- `row["agent_id"]` raises.
    | .hindsight_memories, none => { s with db := count_attempt row.tbl row.id s.db }
    | .org_memory, _ | .org_knowledge, _ | .qortia_entities, _ => s

/-! ## The batch -/

/-- The rows of one tenant. -/
def embed_tenant (o : Outside K) (cfg : Settings) (env : BatchEnv) (rows : List EmbeddingRow)
    (s : EmbeddingBatch K) (tenant_id : UUID) : EmbeddingBatch K :=
  if env.key_failed tenant_id then s
  else (rows.filter (·.tenant_id = tenant_id)).foldl (embed_single_row o cfg env) s

/-- The rows of the claims, tenant by tenant. -/
def embed_claims (o : Outside K) (cfg : Settings) (env : BatchEnv) (claims : List Claim)
    (db : Db K) : EmbeddingBatch K :=
  let rows := claims.map Claim.row
  (rows.map (·.tenant_id)).eraseDups.foldl (embed_tenant o cfg env rows) { db }

/-- `_process_embedding_batch`. `locked` are the rows that other transactions hold. -/
def process_embedding_batch (o : Outside K) (cfg : Settings) (env : BatchEnv)
    (locked : EmbeddedTable → UUID → Bool) (db : Db K) : EmbeddingBatch K :=
  embed_claims o cfg env (claim_batch locked db) db

end

/-! ## What has to hold -/

/-- The embedding of the claimed row succeeds. -/
def Claim.gets_vector (env : BatchEnv) (c : Claim) : Bool :=
  c.text_to_embed ≠ "" && !env.key_failed c.tenant_id && !env.failed c.tbl c.id

/-- The types whose memories are compared with their neighbours. -/
def deduplicated : MemoryType → Bool
  | .episodic | .experiential => true
  | .mental_model | .decision | .lesson | .short_term => false

/-- What the batch did with the memory is what its type asks for. -/
structure FollowsPolicy (env : BatchEnv) (claims : List Claim) (batch : EmbeddingBatch K)
    (r : HindsightMemory K) : Prop where
  short_term : r.type = .short_term → (.hindsight_memories, r.id) ∉ batch.written
  passed_on : deduplicated r.type = true → (.hindsight_memories, r.id) ∈ batch.written →
    ∃ call ∈ batch.deduped, call.memory_id = r.id ∧ call.memory_type = r.type
  others : r.type ≠ .short_term → deduplicated r.type = false →
    (∀ call ∈ batch.deduped, call.memory_id ≠ r.id) ∧
      ((∃ c ∈ claims, c.tbl = .hindsight_memories ∧ c.id = r.id ∧ c.gets_vector env = true) →
        (.hindsight_memories, r.id) ∈ batch.written)

/-! ## One row -/

/-- The vector of the row is written. -/
def EmbeddingRow.gets_vector (env : BatchEnv) (row : EmbeddingRow) : Bool :=
  row.text_to_embed ≠ "" && !(row.tbl = .hindsight_memories && row.type = some .short_term) &&
    !env.failed row.tbl row.id

/-- The call of `_maybe_dedup_memory` for a row with a new vector. -/
def EmbeddingRow.dedup_call (o : Outside K) (row : EmbeddingRow) : Option (DedupCall K) :=
  match row.tbl, row.agent_id, row.type with
  | .hindsight_memories, some agent_id, some memory_type =>
    if deduplicated memory_type then
      some ⟨row.id, o.embedding row.text_to_embed, agent_id, memory_type⟩
    else none
  | _, _, _ => none

section
variable [Field K] [LinearOrder K] (o : Outside K) (cfg : Settings) (env : BatchEnv)

theorem link_and_dedup_log (row : EmbeddingRow) (agent_id : UUID) (s : EmbeddingBatch K)
    (htbl : row.tbl = .hindsight_memories) (hagent : row.agent_id = some agent_id) :
    (s.link_and_dedup o cfg env row agent_id (o.embedding row.text_to_embed)).written = s.written ∧
      (s.link_and_dedup o cfg env row agent_id (o.embedding row.text_to_embed)).deduped =
        s.deduped ++ (row.dedup_call o).toList := by
  unfold EmbeddingBatch.link_and_dedup EmbeddingRow.dedup_call
  rw [htbl, hagent]
  cases row.type with
  | none => simp
  | some memory_type => cases memory_type <;> simp [deduplicated, EmbeddingBatch.dedup]

/-- What one row adds to the vectors and to the calls. -/
theorem embed_single_row_log (s : EmbeddingBatch K) (row : EmbeddingRow) :
    (embed_single_row o cfg env s row).written =
        s.written ++ (if row.gets_vector env then [(row.tbl, row.id)] else []) ∧
      (embed_single_row o cfg env s row).deduped =
        s.deduped ++ (if row.gets_vector env then (row.dedup_call o).toList else []) := by
  unfold embed_single_row
  by_cases htext : row.text_to_embed = ""
  · simp [EmbeddingRow.gets_vector, htext]
  · by_cases hshort : row.tbl = .hindsight_memories ∧ row.type = some .short_term
    · simp [EmbeddingRow.gets_vector, htext, hshort]
    · by_cases hfailed : env.failed row.tbl row.id = true
      · simp [EmbeddingRow.gets_vector, htext, hshort, hfailed]
      · have hgets : row.gets_vector env = true := by
          simp [EmbeddingRow.gets_vector, htext, not_and_or.mp hshort, hfailed]
        rw [if_neg htext, if_neg hshort, if_neg hfailed, if_pos hgets, if_pos hgets]
        simp only
        split
        · rename_i agent_id htbl hagent
          exact link_and_dedup_log o cfg env row agent_id _ htbl hagent
        · rename_i htbl hagent
          simp [EmbeddingRow.dedup_call, htbl, hagent]
        all_goals
          rename_i htbl
          simp [EmbeddingRow.dedup_call, htbl]

/-- A row dict that carries the type of its memory gets what the type asks for. -/
theorem embed_single_row_typed (s : EmbeddingBatch K) {row : EmbeddingRow} {agent_id : UUID}
    {memory_type : MemoryType} (htbl : row.tbl = .hindsight_memories)
    (hagent : row.agent_id = some agent_id) (htype : row.type = some memory_type) :
    (embed_single_row o cfg env s row).written = s.written ++
        (if row.text_to_embed ≠ "" ∧ memory_type ≠ .short_term ∧
            env.failed .hindsight_memories row.id = false then
          [(.hindsight_memories, row.id)] else []) ∧
      (embed_single_row o cfg env s row).deduped = s.deduped ++
        (if row.text_to_embed ≠ "" ∧ deduplicated memory_type = true ∧
            env.failed .hindsight_memories row.id = false then
          [⟨row.id, o.embedding row.text_to_embed, agent_id, memory_type⟩] else []) := by
  obtain ⟨hwritten, hdeduped⟩ := embed_single_row_log o cfg env s row
  rw [hwritten, hdeduped]
  unfold EmbeddingRow.gets_vector EmbeddingRow.dedup_call
  rw [htbl, hagent, htype]
  constructor
  · simp [and_assoc]
  · cases memory_type <;> simp [deduplicated]

/-! ## The batch -/

theorem mem_embed_rows (rows : List EmbeddingRow) (s : EmbeddingBatch K)
    (x : EmbeddedTable × UUID) :
    x ∈ (rows.foldl (embed_single_row o cfg env) s).written ↔
      x ∈ s.written ∨ ∃ row ∈ rows, row.gets_vector env = true ∧ x = (row.tbl, row.id) := by
  induction rows generalizing s with
  | nil => simp
  | cons row rows ih =>
    rw [List.foldl_cons, ih, (embed_single_row_log o cfg env s row).1, List.mem_append, or_assoc,
      List.exists_mem_cons_iff]
    apply or_congr_right
    apply or_congr_left
    by_cases hgets : row.gets_vector env = true
    · simp [hgets]
    · simp [hgets]

omit [Field K] [LinearOrder K] in
theorem dedup_call_of_no_type {row : EmbeddingRow} (h : row.type = none) :
    row.dedup_call o = none := by
  unfold EmbeddingRow.dedup_call
  rw [h]
  cases row.tbl <;> cases row.agent_id <;> rfl

theorem embed_rows_deduped {rows : List EmbeddingRow} (h : ∀ row ∈ rows, row.type = none)
    (s : EmbeddingBatch K) :
    (rows.foldl (embed_single_row o cfg env) s).deduped = s.deduped := by
  induction rows generalizing s with
  | nil => rfl
  | cons row rows ih =>
    have hcall := dedup_call_of_no_type o (h row List.mem_cons_self)
    rw [List.foldl_cons, ih fun x hx => h x (List.mem_cons_of_mem _ hx),
      (embed_single_row_log o cfg env s row).2, hcall]
    simp

theorem mem_embed_tenants (rows : List EmbeddingRow) (tenants : List UUID) (s : EmbeddingBatch K)
    (x : EmbeddedTable × UUID) :
    x ∈ (tenants.foldl (embed_tenant o cfg env rows) s).written ↔
      x ∈ s.written ∨ ∃ row ∈ rows, row.tenant_id ∈ tenants ∧
        env.key_failed row.tenant_id = false ∧ row.gets_vector env = true ∧
          x = (row.tbl, row.id) := by
  induction tenants generalizing s with
  | nil => simp
  | cons t tenants ih =>
    rw [List.foldl_cons, ih]
    unfold embed_tenant
    by_cases hkey : env.key_failed t = true
    · rw [if_pos hkey]
      apply or_congr_right
      refine exists_congr fun row => and_congr_right fun _ => ?_
      rw [List.mem_cons, or_and_right]
      constructor
      · exact Or.inr
      · rintro (⟨rfl, hok, -⟩ | h)
        · rw [hkey] at hok
          cases hok
        · exact h
    · rw [if_neg hkey, mem_embed_rows, or_assoc]
      apply or_congr_right
      rw [Bool.not_eq_true] at hkey
      constructor
      · rintro (⟨row, hrow, hgets, hx⟩ | ⟨row, hrow, ht, hrest⟩)
        · obtain ⟨hrow, ht⟩ := List.mem_filter.mp hrow
          have ht := of_decide_eq_true ht
          exact ⟨row, hrow, List.mem_cons.mpr (Or.inl ht), by rw [ht]; exact hkey, hgets, hx⟩
        · exact ⟨row, hrow, List.mem_cons_of_mem _ ht, hrest⟩
      · rintro ⟨row, hrow, ht, hok, hgets, hx⟩
        rcases List.mem_cons.mp ht with rfl | ht
        · exact Or.inl ⟨row, List.mem_filter.mpr ⟨hrow, by simp⟩, hgets, hx⟩
        · exact Or.inr ⟨row, hrow, ht, hok, hgets, hx⟩

theorem embed_tenants_deduped {rows : List EmbeddingRow} (h : ∀ row ∈ rows, row.type = none)
    (tenants : List UUID) (s : EmbeddingBatch K) :
    (tenants.foldl (embed_tenant o cfg env rows) s).deduped = s.deduped := by
  induction tenants generalizing s with
  | nil => rfl
  | cons t tenants ih =>
    rw [List.foldl_cons, ih]
    unfold embed_tenant
    split
    · rfl
    · exact embed_rows_deduped o cfg env (fun row hrow => h row (List.mem_filter.mp hrow).1) s

omit [Field K] [LinearOrder K] in
theorem claim_gets_vector_iff (c : Claim) :
    c.gets_vector env = true ↔
      env.key_failed c.tenant_id = false ∧ c.row.gets_vector env = true := by
  have htype : c.row.type ≠ some .short_term := by simp [Claim.row]
  unfold Claim.gets_vector EmbeddingRow.gets_vector
  simp only [htype, decide_false, Bool.and_false, Bool.not_false, Bool.and_true, Bool.and_eq_true,
    Bool.not_eq_true']
  exact ⟨fun h => ⟨h.1.2, h.1.1, h.2⟩, fun h => ⟨⟨h.2.1, h.1⟩, h.2.2⟩⟩

/-- A batch writes the vectors of the claimed rows, whatever their types are. -/
theorem mem_embed_claims (claims : List Claim) (db : Db K) (x : EmbeddedTable × UUID) :
    x ∈ (embed_claims o cfg env claims db).written ↔
      ∃ c ∈ claims, c.gets_vector env = true ∧ x = (c.tbl, c.id) := by
  unfold embed_claims
  simp only
  rw [mem_embed_tenants]
  constructor
  · rintro (hx | ⟨row, hrow, -, hok, hgets, hx⟩)
    · cases hx
    · obtain ⟨c, hc, rfl⟩ := List.mem_map.mp hrow
      exact ⟨c, hc, (claim_gets_vector_iff env c).mpr ⟨hok, hgets⟩, hx⟩
  · rintro ⟨c, hc, hgets, hx⟩
    have hmem : c.row ∈ claims.map Claim.row := List.mem_map_of_mem hc
    obtain ⟨hok, hgets⟩ := (claim_gets_vector_iff env c).mp hgets
    exact Or.inr ⟨c.row, hmem, List.mem_eraseDups.mpr (List.mem_map_of_mem hmem), hok, hgets, hx⟩

/-- A batch never looks for duplicates. -/
theorem embed_claims_deduped (claims : List Claim) (db : Db K) :
    (embed_claims o cfg env claims db).deduped = [] := by
  refine embed_tenants_deduped o cfg env (fun row hrow => ?_) _ _
  obtain ⟨c, -, rfl⟩ := List.mem_map.mp hrow
  rfl

/-! ## The policy -/

/-- A batch does with each memory what its type asks for exactly when no memory of a type with a
rule of its own gets its vector. -/
theorem process_embedding_batch_follows_policy_iff (locked : EmbeddedTable → UUID → Bool)
    (db : Db K) :
    (∀ r ∈ db.hindsight_memories, FollowsPolicy env (claim_batch locked db)
        (process_embedding_batch o cfg env locked db) r) ↔
      ∀ r ∈ db.hindsight_memories, r.type = .short_term ∨ deduplicated r.type = true →
        ∀ c ∈ claim_batch locked db, c.tbl = .hindsight_memories → c.id = r.id →
          c.gets_vector env = false := by
  unfold process_embedding_batch
  refine forall₂_congr fun r _ => ?_
  have hwritten := mem_embed_claims o cfg env (claim_batch locked db) db
    (.hindsight_memories, r.id)
  have hdeduped := embed_claims_deduped o cfg env (claim_batch locked db) db
  constructor
  · intro h htype c hc htbl hid
    by_contra hgets
    rw [Bool.not_eq_false] at hgets
    have hmem := hwritten.mpr ⟨c, hc, hgets, by rw [htbl, hid]⟩
    rcases htype with hshort | hdedup
    · exact h.short_term hshort hmem
    · obtain ⟨call, hcall, -⟩ := h.passed_on hdedup hmem
      rw [hdeduped] at hcall
      cases hcall
  · intro h
    have hnot : r.type = .short_term ∨ deduplicated r.type = true →
        (.hindsight_memories, r.id) ∉
          (embed_claims o cfg env (claim_batch locked db) db).written := by
      intro htype hmem
      obtain ⟨c, hc, hgets, hx⟩ := hwritten.mp hmem
      rw [Prod.mk.injEq] at hx
      rw [h htype c hc hx.1.symm hx.2.symm] at hgets
      cases hgets
    refine ⟨fun hshort => hnot (Or.inl hshort), fun hdedup hmem => ?_, fun _ _ => ⟨?_, ?_⟩⟩
    · exact absurd hmem (hnot (Or.inr hdedup))
    · intro call hcall
      rw [hdeduped] at hcall
      cases hcall
    · rintro ⟨c, hc, htbl, hid, hgets⟩
      exact hwritten.mpr ⟨c, hc, hgets, by rw [htbl, hid]⟩

end

/-- A short-term memory, or an episodic one, that waits for its vector. -/
def unembedded (type : MemoryType) : Db ℚ :=
  { hindsight_memories :=
      [{ id := 0, tenant_id := 1, agent_id := 20, type, content := "the deploy is running"
         valid_from := 0, created_at := 0 }]
    next_id := 1 }

/-- The short-term memory gets a vector, and nothing looks for duplicates of the episodic one. -/
theorem a_batch_ignores_the_types :
    (¬ ∀ r ∈ (unembedded .short_term).hindsight_memories,
      FollowsPolicy { now := 1 } (claim_batch (fun _ _ => false) (unembedded .short_term))
        (process_embedding_batch no_models {} { now := 1 } (fun _ _ => false)
          (unembedded .short_term)) r) ∧
      ¬ ∀ r ∈ (unembedded .episodic).hindsight_memories,
        FollowsPolicy { now := 1 } (claim_batch (fun _ _ => false) (unembedded .episodic))
          (process_embedding_batch no_models {} { now := 1 } (fun _ _ => false)
            (unembedded .episodic)) r := by
  constructor
  · intro h
    have hshort := (h _ List.mem_cons_self).short_term rfl
    revert hshort
    decide +kernel
  · intro h
    obtain ⟨call, hcall, -⟩ := (h _ List.mem_cons_self).passed_on rfl (by decide +kernel)
    revert call
    decide +kernel

end qortia
