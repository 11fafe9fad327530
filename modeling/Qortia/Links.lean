-- `qortia.links`: the links between similar memories, which the embedding worker adds once a
-- memory has its vector and which a recall follows.
import Mathlib.Algebra.Order.Field.Basic
import Qortia.RecallHelpers

namespace qortia

variable {K : Type}

def LINK_TOP_N : Nat := 3

/-! ## Writing the links -/

/-- `ON CONFLICT (source_id, target_id) DO NOTHING`. -/
def insert_link (l : MemoryLink K) (links : List (MemoryLink K)) : List (MemoryLink K) :=
  if links.any fun l' => l'.source_id = l.source_id && l'.target_id = l.target_id then links
  else links ++ [l]

/-- The INSERT of `_upsert_memory_links` for one similar memory: a link in each direction. -/
def upsert_memory_link (memory_id tenant_id : UUID) (similar : UUID × K) (db : Db K) : Db K :=
  { db with
    memory_links := insert_link ⟨tenant_id, similar.1, memory_id, similar.2⟩
      (insert_link ⟨tenant_id, memory_id, similar.1, similar.2⟩ db.memory_links) }

theorem mem_insert_link {l x : MemoryLink K} {links : List (MemoryLink K)}
    (h : x ∈ insert_link l links) : x ∈ links ∨ x = l := by
  unfold insert_link at h
  split at h
  · exact Or.inl h
  · rcases List.mem_append.mp h with h | h
    · exact Or.inl h
    · exact Or.inr (List.mem_singleton.mp h)

/-! ## Finding similar memories -/

variable [Field K] [LinearOrder K]

def LINK_SIMILARITY_THRESHOLD : K := (7 / 10 : ℚ)

/-- A row of the query of `_find_similar_memories`. Row-level security adds nothing to it. -/
def similar_row (o : Outside K) (now : Timestamp) (memory_id agent_id : UUID) (embedding : List K)
    (r : HindsightMemory K) : Option (UUID × K) :=
  match r.embedding with
  | none => none
  | some v =>
    if r.agent_id = agent_id ∧ r.id ≠ memory_id ∧ r.type ≠ .short_term ∧ r.tier = .active ∧
        r.expires_at.all (now < ·) ∧ r.valid_until.all (now < ·) ∧
        LINK_SIMILARITY_THRESHOLD ≤ o.similarity v embedding then
      some (r.id, o.similarity v embedding)
    else none

/-- `_find_similar_memories`. -/
def find_similar_memories (o : Outside K) (now : Timestamp) (memory_id agent_id : UUID)
    (embedding : List K) (db : Db K) : List (UUID × K) :=
  (rows.order_desc (·.2)
    (db.hindsight_memories.filterMap (similar_row o now memory_id agent_id embedding))).take
    LINK_TOP_N

/-- What is found is another memory of the agent, and similar. -/
theorem find_similar_memories_mem {o : Outside K} {now : Timestamp} {memory_id agent_id : UUID}
    {embedding : List K} {db : Db K} {similar : UUID × K}
    (h : similar ∈ find_similar_memories o now memory_id agent_id embedding db) :
    ∃ r ∈ db.hindsight_memories, r.id = similar.1 ∧ r.agent_id = agent_id ∧
      memory_id ≠ similar.1 ∧ LINK_SIMILARITY_THRESHOLD ≤ similar.2 := by
  unfold find_similar_memories at h
  have hmem := rows.mem_order_desc.mp (List.mem_of_mem_take h)
  obtain ⟨r, hr, hrow⟩ := List.mem_filterMap.mp hmem
  unfold similar_row at hrow
  split at hrow
  · cases hrow
  · split at hrow
    · rename_i hwhere
      cases hrow
      exact ⟨r, hr, rfl, hwhere.1, Ne.symm hwhere.2.1, hwhere.2.2.2.2.2.2⟩
    · cases hrow

/-! ## Following the links -/

def EXPAND_TOP_RESULTS : Nat := 5

def EXPAND_LIMIT_PER_RESULT : Nat := 2

omit [Field K] [LinearOrder K] in
/-- One turn of the loop over the link rows, which fills `per_source` and `new_ids`. -/
def collect_link (existing_ids : List UUID) (limit_per_result : Nat)
    (s : List (UUID × List UUID) × List UUID) (link : MemoryLink K) :
    List (UUID × List UUID) × List UUID :=
  let (per_source, new_ids) := s
  if link.target_id ∈ existing_ids then s
  else
    let per_source :=
      if per_source.any fun b => b.1 = link.source_id then per_source
      else per_source ++ [(link.source_id, [])]
    let bucket := ((per_source.find? fun b => b.1 = link.source_id).map (·.2)).getD []
    if limit_per_result ≤ bucket.length then (per_source, new_ids)
    else
      (rows.update (fun b => b.1 = link.source_id) (fun b => (b.1, b.2 ++ [link.target_id]))
        per_source,
       if link.target_id ∈ new_ids then new_ids else new_ids ++ [link.target_id])

/-- `target_to_source.get(id)`: the first source whose bucket has the id. -/
def target_to_source (per_source : List (UUID × List UUID)) (id : UUID) : Option UUID :=
  (per_source.find? fun b => id ∈ b.2).map (·.1)

omit [LinearOrder K] in
/-- The result of a linked memory. -/
def linked_result (per_source : List (UUID × List UUID)) (r : HindsightMemory K) :
    RecallResult K where
  id := r.id
  type := .memory r.type
  scope := .private_
  content := r.content
  importance := some r.importance
  created_at := r.created_at
  linked_via := target_to_source per_source r.id
  recall_count := r.recall_count
  last_recalled_at := r.last_recalled_at
  score := 0

/-- `_expand_with_links`. `failed` is a database error, and `unordered` gives the order of a query
without ORDER BY. -/
def expand_with_links (now : Timestamp) (tenant_id agent_id : UUID) (failed : Bool)
    (unordered : ∀ {α : Type}, List α → List α) (results : List (RecallResult K)) (db : Db K) :
    List (RecallResult K) :=
  if results = [] ∨ failed then results
  else
    let existing_ids := results.map (·.id)
    let source_ids := (results.take EXPAND_TOP_RESULTS).map (·.id)
    let link_rows := rows.order_desc (·.similarity)
      (db.memory_links.filter fun l => l.source_id ∈ source_ids && l.tenant_id = tenant_id)
    let (per_source, new_ids) :=
      link_rows.foldl (collect_link existing_ids EXPAND_LIMIT_PER_RESULT) ([], [])
    let mem_rows := db.hindsight_memories.filter fun r =>
      r.id ∈ new_ids && r.tenant_id = tenant_id && r.agent_id = agent_id && r.tier = .active &&
        r.expires_at.all (now < ·) && r.valid_until.all (now < ·)
    results ++ (unordered (mem_rows.map (linked_result per_source))).filter fun r =>
      r.id ∉ existing_ids

end qortia
