-- The embedding worker (`qortia.reflect`) next to the requests. It reads the text of a row in one
-- transaction and writes the vector in a later one, while the requests go on.
import Qortia.EntityGraph
import Qortia.Knowledge
import Qortia.Lib.Derived
import Qortia.Lib.Runs
import Qortia.ReflectWrites
import Qortia.Remember

namespace qortia

open derived (Entry Task Fresh)

variable {K : Type}

/-! ## The worker -/

/-- The tables with an `embedding` column. -/
inductive EmbeddedTable where
  | hindsight_memories
  | org_memory
  | org_knowledge
  | qortia_entities
  deriving DecidableEq, Repr

/-- A row that `_process_embedding_batch` claims. The query does not select the type of a
memory. -/
structure Claim where
  tbl : EmbeddedTable
  id : UUID
  tenant_id : UUID
  agent_id : Option UUID := none
  text_to_embed : String
  deriving DecidableEq

/-- `WHERE embedding IS NULL AND embedding_attempts < 3`, on the four tables. -/
def claimable (db : Db K) : List Claim :=
  (db.hindsight_memories.filter fun r => r.embedding.isNone && r.embedding_attempts < 3).map
      (fun r => ⟨.hindsight_memories, r.id, r.tenant_id, some r.agent_id, r.content⟩) ++
    (db.org_memory.filter fun r => r.embedding.isNone && r.embedding_attempts < 3).map
      (fun r => ⟨.org_memory, r.id, r.tenant_id, none, r.content⟩) ++
    (db.org_knowledge.filter fun r => r.embedding.isNone && r.embedding_attempts < 3).map
      (fun r => ⟨.org_knowledge, r.id, r.tenant_id, none, r.index_summary⟩) ++
    (db.qortia_entities.filter fun e => e.embedding.isNone && e.embedding_attempts < 3).map
      (fun e => ⟨.qortia_entities, e.id, e.tenant_id, none, e.entity_text⟩)

/-- `UPDATE {tbl} SET embedding = $1 WHERE id = $2`. -/
def write_embedding (tbl : EmbeddedTable) (id : UUID) (v : List K) (db : Db K) : Db K :=
  match tbl with
  | .hindsight_memories =>
    { db with
      hindsight_memories := rows.update (fun r => r.id = id)
        (fun r => { r with embedding := some v }) db.hindsight_memories }
  | .org_memory =>
    { db with
      org_memory := rows.update (fun r => r.id = id) (fun r => { r with embedding := some v })
        db.org_memory }
  | .org_knowledge =>
    { db with
      org_knowledge := rows.update (fun r => r.id = id) (fun r => { r with embedding := some v })
        db.org_knowledge }
  | .qortia_entities =>
    { db with
      qortia_entities := rows.update (fun e => e.id = id)
        (fun e => { e with embedding := some v }) db.qortia_entities }

/-- `UPDATE {tbl} SET embedding_attempts = embedding_attempts + 1 WHERE id = $1`. -/
def count_attempt (tbl : EmbeddedTable) (id : UUID) (db : Db K) : Db K :=
  match tbl with
  | .hindsight_memories =>
    { db with
      hindsight_memories := rows.update (fun r => r.id = id)
        (fun r => { r with embedding_attempts := r.embedding_attempts + 1 })
        db.hindsight_memories }
  | .org_memory =>
    { db with
      org_memory := rows.update (fun r => r.id = id)
        (fun r => { r with embedding_attempts := r.embedding_attempts + 1 }) db.org_memory }
  | .org_knowledge =>
    { db with
      org_knowledge := rows.update (fun r => r.id = id)
        (fun r => { r with embedding_attempts := r.embedding_attempts + 1 }) db.org_knowledge }
  | .qortia_entities =>
    { db with
      qortia_entities := rows.update (fun e => e.id = id)
        (fun e => { e with embedding_attempts := e.embedding_attempts + 1 }) db.qortia_entities }

/-! ## The worker next to the requests -/

/-- A claimed row, and its vector once the model gave it. -/
structure Claimed (K : Type) where
  claim : Claim
  embedding : Option (List K) := none
  deriving DecidableEq

structure Embedding (K : Type) where
  db : Db K
  claimed : List (Claimed K) := []
  deriving DecidableEq

/-- The requests and the steps of the worker. `choice` stands for what a `LIMIT 1` without an
order gives, and `existing` for the snapshot that a reflect run read before. -/
inductive EmbeddingAction (K : Type) where
  | remember (agent : AgentIdentity) (now : Timestamp) (choice : Nat) (memories : List MemoryItem)
  | remember_org (agent : AgentIdentity) (now : Timestamp) (body : RememberOrgRequest)
  | reflect (w : Writer) (existing : List (HindsightMemory K)) (reflections : List Reflection)
      (failed : List Nat)
  | ingest_knowledge (agent : AgentIdentity) (now : Timestamp) (choice : Nat → Nat)
      (body : KnowledgeIngestRequest)
  | delete_knowledge (agent : AgentIdentity) (source_path : String)
  | forget (agent : AgentIdentity) (now : Timestamp) (id : UUID)
  | populate_graph (now : Timestamp) (private_ids org_ids : List UUID)
  | claim (picked : List Claim)
  | embed (i : Nat)
  | write (i : Nat)
  | fail (i : Nat)

/-- A request that raises changes nothing. -/
def committed {α : Type} (s : Embedding K) (db : α → Db K) : Except Failure α → Embedding K
  | .ok a => { s with db := db a }
  | .error _ => s

def embedding_step [Field K] [LinearOrder K] [HasSqrt K] (o : Outside K) (cfg : Settings)
    (s : Embedding K) : EmbeddingAction K → Option (Embedding K)
  | .remember agent now choice memories =>
    some (committed s (·.1) (remember o agent now choice memories s.db))
  | .remember_org agent now body => some (committed s (·.1) (remember_org o agent now body s.db))
  | .reflect w existing reflections failed =>
    some (committed s (·.1) (write_reflections o cfg w reflections
      (new_embeddings o reflections failed) (existing_embeddings o existing) existing s.db))
  | .ingest_knowledge agent now choice body =>
    some (committed s (·.1) (ingest_knowledge o agent now choice body s.db))
  | .delete_knowledge agent source_path =>
    some (committed s (·.1) (delete_knowledge agent source_path s.db))
  | .forget agent now id => some (committed s (fun db => db) (forget o agent now id s.db))
  | .populate_graph now private_ids org_ids =>
    some { s with db := populate_graph_batch o cfg now private_ids org_ids s.db }
  | .claim picked =>
    if picked ⊆ claimable s.db then
      some { s with claimed := s.claimed ++ picked.map fun claim => { claim } }
    else none
  | .embed i =>
    match s.claimed[i]? with
    | some ⟨claim, none⟩ =>
      if claim.text_to_embed = "" then some { s with claimed := s.claimed.eraseIdx i }
      else some { s with
        claimed := s.claimed.set i ⟨claim, some (o.embedding claim.text_to_embed)⟩ }
    | _ => none
  | .write i =>
    match s.claimed[i]? with
    | some ⟨claim, some v⟩ =>
      some { db := write_embedding claim.tbl claim.id v s.db, claimed := s.claimed.eraseIdx i }
    | _ => none
  | .fail i =>
    match s.claimed[i]? with
    | some ⟨claim, _⟩ =>
      some { db := count_attempt claim.tbl claim.id s.db, claimed := s.claimed.eraseIdx i }
    | none => none

/-! ## Texts and vectors -/

/-- A row as an entry: the id, the text that is selected as `text_to_embed`, and the vector. -/
def HindsightMemory.entry (r : HindsightMemory K) : Entry String (List K) :=
  ⟨r.id, r.content, r.embedding⟩

def OrgMemory.entry (r : OrgMemory K) : Entry String (List K) := ⟨r.id, r.content, r.embedding⟩

def OrgKnowledge.entry (r : OrgKnowledge K) : Entry String (List K) :=
  ⟨r.id, r.index_summary, r.embedding⟩

def Entity.entry (e : Entity K) : Entry String (List K) := ⟨e.id, e.entity_text, e.embedding⟩

def Db.entries (db : Db K) : EmbeddedTable → List (Entry String (List K))
  | .hindsight_memories => db.hindsight_memories.map HindsightMemory.entry
  | .org_memory => db.org_memory.map OrgMemory.entry
  | .org_knowledge => db.org_knowledge.map OrgKnowledge.entry
  | .qortia_entities => db.qortia_entities.map Entity.entry

def Db.next (db : Db K) : EmbeddedTable → Nat
  | .qortia_entities => db.next_entity_id
  | _ => db.next_id

/-- What the worker carries for a table. -/
def Embedding.tasks (s : Embedding K) (tbl : EmbeddedTable) : List (Task String (List K)) :=
  (s.claimed.filter fun c => c.claim.tbl = tbl).map fun c =>
    ⟨c.claim.id, c.claim.text_to_embed, c.embedding⟩

/-- No vector of any table is stale. -/
def NoStaleEmbedding (o : Outside K) (s : Embedding K) : Prop :=
  ∀ tbl, ∀ e ∈ s.db.entries tbl, ∀ v, e.value = some v → v = o.embedding e.src

/-- The texts that an upsert or an ingest puts next to a vector belong to it. An upsert leaves
the content of a row with a vector, or of a row that the worker carries, as it is. An ingest
finds a vector to copy only in rows with the index summary of the new one. -/
def KeepsTexts (o : Outside K) (s : Embedding K) : EmbeddingAction K → Prop
  | .remember_org agent _ body =>
    ∀ r ∈ s.db.org_memory, org_conflict agent body r = true →
      (r.embedding ≠ none ∨ ∃ c ∈ s.claimed, c.claim.tbl = .org_memory ∧ c.claim.id = r.id) →
        r.content = body.content
  | .ingest_knowledge agent _ _ body =>
    ∀ r ∈ s.db.org_knowledge, r.tenant_id = agent.tenant_id → r.source_path ≠ body.source_path →
      r.embedding ≠ none → ∀ sec ∈ split_into_sections body.content,
        r.content_hash = section_hash o sec →
          r.index_summary = (extract_index_fields o sec.heading sec.text body.lang).index_summary
  | _ => True

instance [DecidableEq K] (o : Outside K) (s : Embedding K) (a : EmbeddingAction K) :
    Decidable (KeepsTexts o s a) :=
  match a with
  | .remember_org agent _ body =>
    inferInstanceAs (Decidable (∀ r ∈ s.db.org_memory, org_conflict agent body r = true →
      (r.embedding ≠ none ∨ ∃ c ∈ s.claimed, c.claim.tbl = .org_memory ∧ c.claim.id = r.id) →
        r.content = body.content))
  | .ingest_knowledge agent _ _ body =>
    inferInstanceAs (Decidable (∀ r ∈ s.db.org_knowledge, r.tenant_id = agent.tenant_id →
      r.source_path ≠ body.source_path → r.embedding ≠ none →
        ∀ sec ∈ split_into_sections body.content, r.content_hash = section_hash o sec →
          r.index_summary =
            (extract_index_fields o sec.heading sec.text body.lang).index_summary))
  | .remember .. | .reflect .. | .delete_knowledge .. | .forget .. | .populate_graph .. | .claim _
  | .embed _ | .write _ | .fail _ => isTrue trivial

end qortia
