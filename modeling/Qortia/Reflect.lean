-- `qortia.reflect`: the entries that the language model answers with, and the transaction
-- `_write_reflections` that writes them.
import Qortia.Lib.Text
import Qortia.Ner

namespace qortia

open json (Json)

/-! ## The entries that `_call_litellm_reflect` accepts -/

inductive ReflectionType where
  | mental_model
  | lesson
  deriving DecidableEq, Repr

def ReflectionType.memory_type : ReflectionType → MemoryType
  | .mental_model => .mental_model
  | .lesson => .lesson

/-- A value that passes `if r.get(key):`. -/
abbrev Truthy := { v : Json // v.truthy = true }

/-- What CREATE and UPDATE entries carry. -/
structure ReflectionBody where
  type : ReflectionType
  content : Truthy
  importance : json.Number
  lang : Option Json := none

/-- An accepted entry. A CREATE entry may carry an id too, and nothing checks it. -/
inductive Reflection where
  | CREATE (id : Option Json) (body : ReflectionBody)
  | UPDATE (id : Truthy) (body : ReflectionBody)
  | RETAIN (id : Truthy)

/-- `value.get(key)`, which only a dict has. -/
def get (v : Json) (key : String) : Except Failure (Option Json) :=
  match v with
  | .object kvs => .ok (json.get kvs key)
  | _ => .error .AttributeError

/-- `r.get(key)` has to be a true value. -/
def require_truthy (v : Option Json) : Except Failure Truthy :=
  match v with
  | some x => if h : x.truthy = true then .ok ⟨x, h⟩ else .error .ValueError
  | none => .error .ValueError

/-- `isinstance(v, int | float)`. A bool is an int. -/
def require_numeric : Option Json → Except Failure json.Number
  | some (.number n) => .ok n
  | some (.bool b) => .ok (.int (if b then 1 else 0))
  | _ => .error .ValueError

/-- The message of the error reads `r['type']`, so a missing type is a `KeyError`. -/
def require_type : Option Json → Except Failure ReflectionType
  | some (.string "mental_model") => .ok .mental_model
  | some (.string "lesson") => .ok .lesson
  | some _ => .error .ValueError
  | none => .error .KeyError

def validate_body (r : Json) : Except Failure ReflectionBody := do
  let type ← require_type (← get r "type")
  let importance ← require_numeric (← get r "importance")
  let content ← require_truthy (← get r "content")
  return { type, importance, content, lang := ← get r "lang" }

/-- The body of `for r in reflections:` in `_call_litellm_reflect`. -/
def validate_reflection (r : Json) : Except Failure Reflection := do
  let action ← get r "action"
  if action = some (.string "CREATE") then
    return .CREATE (← get r "id") (← validate_body r)
  else if action = some (.string "UPDATE") then
    let id ← require_truthy (← get r "id")
    return .UPDATE id (← validate_body r)
  else if action = some (.string "RETAIN") then
    return .RETAIN (← require_truthy (← get r "id"))
  else .error .ValueError

/-- The validation of `_call_litellm_reflect`, from the parsed answer on. -/
def validate_reflections (parsed : Json) : Except Failure (List Reflection) := do
  match (← get parsed "reflections").getD (.array []) with
  | .array rs => if rs = [] then .error .ValueError else rs.mapM validate_reflection
  -- A dict gives its keys and a string gives its characters, which have no `get`.
  | .object kvs => if kvs = [] then .error .ValueError else .error .AttributeError
  | .string s => if s = "" then .error .ValueError else .error .AttributeError
  -- A number and a bool are no iterables.
  | v => if v.truthy then .error .TypeError else .error .ValueError

/-! ## Reading an entry -/

/-- `UUID(r["id"])`. -/
def uuid_of (id : Json) : Except Failure UUID :=
  match id with
  | .string s => ((text.toUuid s).map Except.ok).getD (.error .ValueError)
  | _ => .error .AttributeError

/-- The id that UPDATE and RETAIN entries name. -/
def Reflection.named_id : Reflection → Option Json
  | .CREATE _ _ => none
  | .UPDATE id _ => some id.1
  | .RETAIN id => some id.1

/-- The list `active_ids`. -/
def active_ids (reflections : List Reflection) : Except Failure (List UUID) :=
  (reflections.filterMap Reflection.named_id).mapM uuid_of

/-- `float(r["importance"])` as the column takes it: the CHECK lets `[0, 1]` through, and an
integer from about `2 ** 1024` on is no float. -/
def column_importance : json.Number → Except Failure ℚ
  | .int i =>
    if i.natAbs ≥ 2 ^ 1024 - 2 ^ 970 then .error .OverflowError
    else if 0 ≤ i ∧ i ≤ 1 then .ok i else .error .PostgresError
  | .float q => if 0 ≤ q ∧ q ≤ 1 then .ok q else .error .PostgresError
  | .nan => .error .PostgresError
  | .infinity _ => .error .PostgresError

/-- `r["content"]`, on which `lower` is called: only a text has it. -/
def content_text (v : Truthy) : Except Failure String :=
  match v.1 with
  | .string s => .ok s
  | _ => .error .AttributeError

section
variable {K : Type}

/-- `sha256(r["content"].lower().strip())`. -/
def reflection_hash (o : Outside K) (content : String) : String :=
  o.sha256 (String.ofList (text.strip (o.lower content).toList))

/-- The entities of a reflection. A language that cannot be a key of a set raises. -/
def reflection_entities (o : Outside K) (content : String) (lang : Option Json) :
    List (String × String) :=
  match lang.getD (.string "en") with
  | .string l => (extract_entities_with_types o content l).getD []
  | .array _ | .object _ => []
  | _ => (extract_entities_with_types o content).getD []

end

/-! ## The statements of `_write_reflections` -/

variable {K : Type} [Field K] [LinearOrder K] [HasSqrt K]

/-- A row of the query for the consolidated set: `agent_id = $1 AND type IN ('mental_model',
'lesson') AND is_consolidated = true`. -/
def consolidated (agent_id : UUID) (r : HindsightMemory K) : Bool :=
  r.agent_id = agent_id && (r.type = .mental_model || r.type = .lesson) && r.is_consolidated

/-- The query `existing` of `reflect` and `_reflect_agent`. -/
def select_existing (agent_id : UUID) (db : Db K) : List (HindsightMemory K) :=
  rows.order_desc (·.importance) (db.hindsight_memories.filter (consolidated agent_id))

/-- A row of the count: also `valid_until IS NULL`. -/
def open_consolidated (agent_id : UUID) (r : HindsightMemory K) : Bool :=
  consolidated agent_id r && r.valid_until.isNone

/-- The count that the guard compares with. -/
def existing_consolidated_count (agent_id : UUID) (db : Db K) : Nat :=
  (db.hindsight_memories.filter (open_consolidated agent_id)).length

/-- The guard `prune_safe`. -/
def prune_safe (has_existing : Bool) (count : Nat) (active : Nat) : Bool :=
  if has_existing then
    if count > 0 ∧ active = 0 then false
    else if count > 0 ∧ 2 * active < count then false
    else true
  else true

inductive WriteStatement (K : Type) where
  /-- `SET is_consolidated = false, valid_until = now()` on the set, `id != ALL(active_ids)` -/
  | prune (active_ids : List UUID)
  /-- `SET is_consolidated = false WHERE id = $1 AND agent_id = $2` -/
  | supersede (id : UUID)
  /-- `INSERT INTO hindsight_memories .. RETURNING id` -/
  | insert (type : MemoryType) (content : String) (importance : ℚ)
      (entities : List (String × String)) (embedding : Option (List K)) (stability : Option K)

/-- The stability of an UPDATE: both embeddings have to be there, and the CHECK lets `[0, 1]`
through. -/
def stability_score (existing_embeddings : String → Option (StoredVector K)) (id : Json)
    (new_emb : Option (List K)) : Except Failure (Option K) :=
  match id with
  | .string s =>
    match new_emb, existing_embeddings s with
    | some new, some old =>
      if new ≠ [] ∧ old.truthy then (cosine_stored new old).map some else .ok none
    | _, _ => .ok none
  | _ => .ok none

/-- The `metadata` of the history row of an entry. It is written after the loop, as a JSONB. -/
def parent_metadata (id : Option Json) : Except Failure Unit :=
  match id with
  | some parent_id =>
    if parent_id.truthy && !parent_id.is_jsonb then .error .PostgresError else .ok ()
  | none => .ok ()

/-- The loop over the reflections, which writes an entry unless its content was seen. -/
def write_loop (o : Outside K) (existing_embeddings : String → Option (StoredVector K))
    (new_embeddings : Nat → Option (List K)) :
    (i : Nat) → (seen : List String) → List Reflection → Except Failure (List (WriteStatement K))
  | _, _, [] => .ok []
  | i, seen, .RETAIN _ :: rest => write_loop o existing_embeddings new_embeddings (i + 1) seen rest
  | i, seen, .CREATE id body :: rest => do
    let content ← content_text body.content
    let hash := reflection_hash o content
    if hash ∈ seen then write_loop o existing_embeddings new_embeddings (i + 1) seen rest
    else
      let row ← insert_row body content (new_embeddings i) none
      let rows ← write_loop o existing_embeddings new_embeddings (i + 1) (hash :: seen) rest
      parent_metadata id
      return row :: rows
  | i, seen, .UPDATE id body :: rest => do
    let content ← content_text body.content
    let hash := reflection_hash o content
    if hash ∈ seen then write_loop o existing_embeddings new_embeddings (i + 1) seen rest
    else
      let stability ← stability_score existing_embeddings id.1 (new_embeddings i)
      let uuid ← uuid_of id.1
      let row ← insert_row body content (new_embeddings i) stability
      let rows ← write_loop o existing_embeddings new_embeddings (i + 1) (hash :: seen) rest
      parent_metadata (some id.1)
      return .supersede uuid :: row :: rows
where
  /-- The INSERT of an entry, with what its columns let through. An empty embedding is NULL. -/
  insert_row (body : ReflectionBody) (content : String) (new_emb : Option (List K))
      (stability : Option K) : Except Failure (WriteStatement K) := do
    let importance ← column_importance body.importance
    if json.no_nul content && stability.all fun s => 0 ≤ s ∧ s ≤ 1 then
      return .insert body.type.memory_type content importance
        (reflection_entities o content body.lang) (new_emb.filter (· ≠ [])) stability
    else .error .PostgresError

/-- The statements of one `_write_reflections`, given the count that its guard reads. -/
def write_statements (o : Outside K) (reflections : List Reflection)
    (new_embeddings : Nat → Option (List K))
    (existing_embeddings : String → Option (StoredVector K)) (has_existing : Bool) (count : Nat) :
    Except Failure (List (WriteStatement K)) := do
  let ids ← active_ids reflections
  let writes ← write_loop o existing_embeddings new_embeddings 0 [] reflections
  return (if has_existing && prune_safe has_existing count ids.length then [.prune ids] else []) ++
    writes

/-- Who writes, and the time of the transaction. -/
structure Writer where
  agent_id : UUID
  tenant_id : UUID
  now : Timestamp

/-- One statement. `new_ids` are the ids of the rows inserted so far. -/
def WriteStatement.exec (w : Writer) (st : WriteStatement K) (s : Db K × List UUID) :
    Db K × List UUID :=
  let (db, new_ids) := s
  match st with
  | .prune ids =>
    ({ db with
        hindsight_memories := rows.update
          (fun r => consolidated w.agent_id r && r.id ∉ ids)
          (fun r => { r with is_consolidated := false, valid_until := some w.now })
          db.hindsight_memories }, new_ids)
  | .supersede id =>
    ({ db with
        hindsight_memories := rows.update
          (fun r => r.id = id && r.agent_id = w.agent_id)
          (fun r => { r with is_consolidated := false }) db.hindsight_memories }, new_ids)
  | .insert type content importance entities embedding stability =>
    ({ db with
        hindsight_memories := db.hindsight_memories ++
          [{ id := db.next_id, tenant_id := w.tenant_id, agent_id := w.agent_id, type, content
             importance, is_consolidated := true, entities, embedding
             stability_score := stability, valid_from := w.now, created_at := w.now }]
        next_id := db.next_id + 1 }, new_ids ++ [db.next_id])

/-- `UPDATE qortia_agents SET reflection_counter = GREATEST(reflection_counter - $1, 0)`. -/
def decrement_counter (threshold : Int) (w : Writer) (db : Db K) : Db K :=
  { db with
    qortia_agents := rows.update (fun a => a.id = w.agent_id)
      (fun a => { a with
        reflection_counter := max (a.reflection_counter - threshold) 0, updated_at := w.now })
      db.qortia_agents }

/-- One `reflect` history row for each new memory. -/
def write_history (w : Writer) (new_ids : List UUID) (db : Db K) : Db K :=
  { db with
    memory_history := db.memory_history ++ new_ids.map fun id =>
      { tenant_id := w.tenant_id, agent_id := w.agent_id, operation := .reflect
        target_table := .hindsight_memories, target_id := some id } }

/-- `_write_reflections`: the database after the commit, the number of memories written and the
new counter. -/
def write_reflections (o : Outside K) (cfg : Settings) (w : Writer)
    (reflections : List Reflection) (new_embeddings : Nat → Option (List K))
    (existing_embeddings : String → Option (StoredVector K))
    (existing : List (HindsightMemory K)) (db : Db K) :
    Except Failure (Db K × Nat × Option Int) := do
  let sts ← write_statements o reflections new_embeddings existing_embeddings
    (existing ≠ []) (existing_consolidated_count w.agent_id db)
  let (db₁, new_ids) := sts.foldl (fun s st => st.exec w s) (db, [])
  let db₂ := decrement_counter cfg.reflection_threshold w db₁
  let new_counter :=
    (db₂.qortia_agents.find? fun a => a.id = w.agent_id).map (·.reflection_counter)
  return (write_history w new_ids db₂, new_ids.length, new_counter)

/-! ## The whole request -/

/-- `existing_embeddings`, which is keyed by `str(r["id"])`. -/
def existing_embeddings (o : Outside K) (existing : List (HindsightMemory K)) (key : String) :
    Option (StoredVector K) :=
  (existing.find? fun r => text.ofUuid r.id = key).bind fun r => r.embedding.map o.fetch_vector

/-- `new_embeddings`: the vectors of the contents, where the calls in `failed` raised. -/
def new_embeddings (o : Outside K) (reflections : List Reflection) (failed : List Nat) (i : Nat) :
    Option (List K) :=
  match reflections[i]? with
  | some (.CREATE _ body) | some (.UPDATE _ body) =>
    match body.content.1 with
    | .string s => if i ∈ failed then none else some (o.embedding s)
    | _ => none
  | _ => none

/-- `reflect`, from the answer of the language model on. `_reflect_agent` does the same for an
agent that has recent memories. -/
def reflect (o : Outside K) (cfg : Settings) (agent : AgentIdentity) (now : Timestamp)
    (answer : Except Failure (List Reflection)) (failed : List Nat) (db : Db K) :
    Except Failure (Db K × Nat × Option Int) := do
  assert_agent_active agent.agent_id agent.tenant_id db
  let existing := select_existing agent.agent_id db
  if cfg.rerank_model = "" then
    throw (.HTTPException 503 "reflection is unavailable — no rerank_model configured")
  let reflections ← answer
  write_reflections o cfg ⟨agent.agent_id, agent.tenant_id, now⟩ reflections
    (new_embeddings o reflections failed) (existing_embeddings o existing) existing db

end qortia
