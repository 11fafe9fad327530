-- `qortia.entity_graph`: linking memories to the entities they name, and the running summary of
-- each entity. A batch reads its rows first and then writes each of them in a transaction.
import Mathlib.Data.List.Dedup
import Qortia.Lib.Text
import Qortia.Outside

namespace qortia

variable {K : Type}

/-! ## The rows of a batch -/

/-- A row that the batch reads. An organisation memory has no agent. -/
structure GraphRow where
  id : UUID
  tenant_id : UUID
  agent_id : Option UUID
  entities : List (String × String)
  content : String
  deriving DecidableEq

def HindsightMemory.graph_row (r : HindsightMemory K) : GraphRow :=
  ⟨r.id, r.tenant_id, some r.agent_id, r.entities, r.content⟩

def OrgMemory.graph_row (r : OrgMemory K) : GraphRow :=
  ⟨r.id, r.tenant_id, none, r.entities, r.content⟩

/-- `WHERE is_graphed = false AND entities != '[]'`, of the private memories. -/
def ungraphed_private (db : Db K) : List GraphRow :=
  (db.hindsight_memories.filter fun r => !r.is_graphed && r.entities ≠ []).map (·.graph_row)

/-- The same, of the organisation memories. -/
def ungraphed_org (db : Db K) : List GraphRow :=
  (db.org_memory.filter fun r => !r.is_graphed && r.entities ≠ []).map (·.graph_row)

/-! ## One entity -/

/-- The row of an entity: of the agent, or of the tenant where there is none. -/
def same_entity (row : GraphRow) (ent_text : String) (e : Entity K) : Bool :=
  e.tenant_id = row.tenant_id && e.agent_id = row.agent_id && e.entity_text = ent_text

/-- `DO UPDATE SET .. WHERE NOT ($id = ANY(linked_memory_ids))`. -/
def link_entity (row : GraphRow) (ent_type : String) (now : Timestamp) (e : Entity K) : Entity K :=
  if row.id ∈ e.linked_memory_ids then e
  else { e with
    entity_type := ent_type, linked_memory_ids := e.linked_memory_ids ++ [row.id]
    updated_at := now }

/-- The INSERT of an entity. The uuid of a row that is not inserted is drawn too. -/
def upsert_entity (row : GraphRow) (ent : String × String) (now : Timestamp) (db : Db K) : Db K :=
  { db with
    qortia_entities := rows.upsert (same_entity row ent.1) (link_entity row ent.2 now)
      { id := db.next_entity_id, tenant_id := row.tenant_id, agent_id := row.agent_id
        entity_text := ent.1, entity_type := ent.2, linked_memory_ids := [row.id]
        created_at := now, updated_at := now } db.qortia_entities
    next_entity_id := db.next_entity_id + 1 }

def first_chars (n : Nat) (s : String) : String := String.ofList (s.toList.take n)

/-- The prompt of `_update_entity_summary`. -/
def summary_prompt (existing_summary new_memory_content : String) : String :=
  "Existing summary: " ++ existing_summary ++ "\n\nNew information: " ++
    first_chars 300 new_memory_content ++ "\n\nUpdate the summary to incorporate the new " ++
    "information. Be concise (2-3 sentences). Preserve named entities and temporal qualifiers."

/-- `_update_entity_summary`. -/
def update_entity_summary (o : Outside K) (cfg : Settings) (existing_summary : Option String)
    (new_memory_content : String) : Option String :=
  match existing_summary with
  | none => some (first_chars 500 new_memory_content)
  | some existing =>
    if existing = "" then some (first_chars 500 new_memory_content)
    else if cfg.rerank_model = "" then some existing
    else
      match o.chat_completion (summary_prompt existing new_memory_content) with
      | some answer => some (String.ofList (text.strip answer.toList))
      | none => some existing

/-- The summary that `_maybe_update_entity_summary` writes for an entity, `none` when it leaves
the entity alone. -/
def new_summary (o : Outside K) (cfg : Settings) (content : String) (e : Entity K) :
    Option (Option String) :=
  let link_count := e.linked_memory_ids.length
  if link_count = 1 then some (some (first_chars 500 content))
  else if link_count ≥ 3 ∧ link_count % 3 = 0 then
    some (update_entity_summary o cfg e.summary content)
  else none

/-- `_maybe_update_entity_summary`. -/
def maybe_update_entity_summary (o : Outside K) (cfg : Settings) (row : GraphRow)
    (ent_text : String) (now : Timestamp) (db : Db K) : Db K :=
  match (db.qortia_entities.find? (same_entity row ent_text)).bind
      (new_summary o cfg row.content) with
  | none => db
  | some summary =>
    { db with
      qortia_entities := rows.update (same_entity row ent_text)
        (fun e => { e with summary, updated_at := now }) db.qortia_entities }

/-! ## One row, and the batch -/

/-- `UPDATE .. SET is_graphed = true WHERE id = $1`. -/
def set_graphed (row : GraphRow) (db : Db K) : Db K :=
  match row.agent_id with
  | some _ =>
    { db with
      hindsight_memories := rows.update (fun r => r.id = row.id)
        (fun r => { r with is_graphed := true }) db.hindsight_memories }
  | none =>
    { db with
      org_memory := rows.update (fun r => r.id = row.id) (fun r => { r with is_graphed := true })
        db.org_memory }

/-- The turn of the loop for one entity. -/
def graph_entity (o : Outside K) (cfg : Settings) (now : Timestamp) (row : GraphRow) (db : Db K)
    (ent : String × String) : Db K :=
  maybe_update_entity_summary o cfg row ent.1 now (upsert_entity row ent now db)

/-- The transaction of one row. -/
def graph_transaction (o : Outside K) (cfg : Settings) (now : Timestamp) (db : Db K)
    (row : GraphRow) : Db K :=
  set_graphed row (row.entities.foldl (graph_entity o cfg now row) db)

/-- The rows that a batch picks: some of the eligible ones, in some order. -/
def pick_rows (ids : List UUID) (eligible : List GraphRow) : List GraphRow :=
  ids.dedup.filterMap fun id => eligible.find? fun row => row.id = id

/-- `_populate_graph_batch` as one step. -/
def populate_graph_batch (o : Outside K) (cfg : Settings) (now : Timestamp)
    (private_ids org_ids : List UUID) (db : Db K) : Db K :=
  let db₁ := (pick_rows private_ids (ungraphed_private db)).foldl (graph_transaction o cfg now) db
  (pick_rows org_ids (ungraphed_org db₁)).foldl (graph_transaction o cfg now) db₁

end qortia
