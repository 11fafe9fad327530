-- The transactions of `ingest_knowledge` and `delete_knowledge`, one statement after the other, as
-- READ COMMITTED lets them overlap. The law is about what a document can be in a committed state.
import Qortia.Knowledge
import Qortia.Lib.Replacing
import Qortia.Lib.Runs

namespace qortia

open replacing (Work Layout)

variable {K : Type}

/-! ## The transactions -/

inductive KnowledgeRequest where
  | ingest (agent : AgentIdentity) (now : Timestamp) (body : KnowledgeIngestRequest)
  | delete (agent : AgentIdentity) (source_path : String)

def KnowledgeRequest.agent : KnowledgeRequest → AgentIdentity
  | .ingest agent _ _ | .delete agent _ => agent

/-- `$1` and `$2` of the statements. -/
def KnowledgeRequest.document : KnowledgeRequest → UUID × String
  | .ingest agent _ body => (agent.tenant_id, body.source_path)
  | .delete agent source_path => (agent.tenant_id, source_path)

def KnowledgeRequest.forbidden : KnowledgeRequest → String
  | .ingest .. => "Only chief agent can ingest knowledge"
  | .delete .. => "Only chief agent can delete knowledge"

/-- What a request does next: the check of its role, the SELECT of the hashes, the start of the
DELETE, the next row of it, or the INSERT of a section. -/
inductive KnowledgePhase where
  | check
  | select
  | delete
  | deleting
  | insert (idx : Nat)
  | committed
  | aborted
  deriving DecidableEq

structure KnowledgeTx (K : Type) where
  request : KnowledgeRequest
  phase : KnowledgePhase := .check
  work : Work (OrgKnowledge K) := {}

/-- What is committed, and the transactions in the order in which their requests came. -/
structure KnowledgeState (K : Type) where
  db : Db K
  txs : List (KnowledgeTx K) := []

/-- A request comes, a transaction does its next statement or takes the next row of it, or it is
rolled back. `choice` says which of the rows is taken, and which of the embeddings is read. -/
inductive KnowledgeAction where
  | request (r : KnowledgeRequest)
  | statement (i : Nat) (choice : Nat)
  | rollback (i : Nat)

/-- `UNIQUE (tenant_id, source_path, chunk_index)`. -/
def chunk_layout : Layout (OrgKnowledge K) (UUID × String) where
  id r := r.id
  group r := (r.tenant_id, r.source_path)
  index r := r.chunk_index

def same_chunk (r q : OrgKnowledge K) : Bool :=
  r.tenant_id = q.tenant_id && r.source_path = q.source_path && r.chunk_index = q.chunk_index

def KnowledgeState.work (s : KnowledgeState K) (i : Nat) : Work (OrgKnowledge K) :=
  ((s.txs[i]?).map (·.work)).getD {}

/-- The work of the other transactions. -/
def KnowledgeState.others (s : KnowledgeState K) (i : Nat) : List (Work (OrgKnowledge K)) :=
  ((List.range s.txs.length).filter (· ≠ i)).map s.work

def KnowledgeState.put (s : KnowledgeState K) (i : Nat) (tx : KnowledgeTx K) (db : Db K) :
    KnowledgeState K :=
  { db, txs := s.txs.set i tx }

/-- The database as the transaction sees it. -/
def KnowledgeTx.view (tx : KnowledgeTx K) (db : Db K) : Db K :=
  { db with org_knowledge := tx.work.view chunk_layout db.org_knowledge }

def KnowledgeTx.ended (tx : KnowledgeTx K) : Bool :=
  tx.phase = .committed || tx.phase = .aborted

/-- The transaction is rolled back. -/
def KnowledgeState.abort (s : KnowledgeState K) (i : Nat) (tx : KnowledgeTx K) :
    KnowledgeState K :=
  s.put i { tx with phase := .aborted, work := {} } s.db

/-- The INSERT into the history, and the commit. -/
def KnowledgeState.commit (s : KnowledgeState K) (i : Nat) (tx : KnowledgeTx K)
    (operation : Operation) : KnowledgeState K :=
  let db := tx.view s.db
  s.put i { tx with phase := .committed, work := {} }
    { db with
      memory_history := db.memory_history ++ [knowledge_history tx.request.agent operation] }

/-- The committed rows with the key of the new one that the transaction has not deleted. -/
def standing (db : Db K) (w : Work (OrgKnowledge K)) (row : OrgKnowledge K) :
    List (OrgKnowledge K) :=
  db.org_knowledge.filter fun q => same_chunk row q && q.id ∉ w.deleted

/-- The unique index has the INSERT wait for the transactions that hold the key. -/
def insert_waits (s : KnowledgeState K) (i : Nat) (w : Work (OrgKnowledge K))
    (row : OrgKnowledge K) : Bool :=
  (s.others i).any fun w' =>
    w'.inserted.any (same_chunk row) || (standing s.db w row).any fun q => q.id ∈ w'.deleted

/-- `INSERT INTO org_knowledge`. -/
def insert_chunk (s : KnowledgeState K) (i : Nat) (tx : KnowledgeTx K) (idx : Nat)
    (row : OrgKnowledge K) : Option (KnowledgeState K) :=
  if insert_waits s i tx.work row then none
  -- unique_violation
  else if standing s.db tx.work row ≠ [] ∨ tx.work.inserted.any (same_chunk row) then
    some (s.abort i tx)
  else
    some (s.put i { tx with phase := .insert (idx + 1), work := tx.work.insert row }
      { s.db with next_id := s.db.next_id + 1 })

/-- The next statement of a transaction, `none` when it waits or has ended. -/
def knowledge_statement (o : Outside K) (s : KnowledgeState K) (i : Nat) (tx : KnowledgeTx K)
    (choice : Nat) : Option (KnowledgeState K) :=
  match tx.phase, tx.request with
  | .check, r =>
    match assert_chief r.agent r.forbidden s.db, r with
    | .error _, _ => some (s.abort i tx)
    | .ok _, .ingest .. => some (s.put i { tx with phase := .select } s.db)
    | .ok _, .delete .. => some (s.put i { tx with phase := .delete } s.db)
  | .select, .ingest agent _ body =>
    let existing := select_document agent.tenant_id body.source_path (tx.view s.db)
    let incoming_hashes := (split_into_sections body.content).map (section_hash o)
    if existing.map (·.content_hash) = incoming_hashes then
      some (s.put i { tx with phase := .committed } s.db)
    else if existing ≠ [] then some (s.put i { tx with phase := .delete } s.db)
    else some (s.put i { tx with phase := .insert 0 } s.db)
  | .delete, r =>
    let work := tx.work.find chunk_layout r.document s.db.org_knowledge
    some (s.put i { tx with phase := .deleting, work } s.db)
  | .deleting, r =>
    match tx.work.targets[choice % tx.work.targets.length]?, r with
    | some k, _ =>
      if (s.others i).any (fun w => k ∈ w.deleted) then none
      else some (s.put i { tx with work := tx.work.take chunk_layout s.db.org_knowledge k } s.db)
    | none, .ingest .. => some (s.put i { tx with phase := .insert 0 } s.db)
    | none, .delete .. => some (s.commit i tx .knowledge_delete)
  | .insert idx, .ingest agent now body =>
    match (split_into_sections body.content)[idx]? with
    | some sec =>
      let embedding :=
        existing_embedding choice agent.tenant_id (section_hash o sec) (tx.view s.db)
      insert_chunk s i tx idx (knowledge_row o agent now body s.db.next_id idx sec embedding)
    | none => some (s.commit i tx .knowledge_ingest)
  | _, _ => none

def knowledge_step (o : Outside K) (s : KnowledgeState K) :
    KnowledgeAction → Option (KnowledgeState K)
  | .request r => some { s with txs := s.txs ++ [{ request := r }] }
  | .statement i choice => (s.txs[i]?).bind fun tx => knowledge_statement o s i tx choice
  | .rollback i => (s.txs[i]?).bind fun tx => if tx.ended then none else some (s.abort i tx)

/-! ## What a document can be -/

/-- The rows are the chunks of the first `n` sections of a request. -/
structure Chunks (o : Outside K) (agent : AgentIdentity) (now : Timestamp)
    (body : KnowledgeIngestRequest) (n : Nat) (rows : List (OrgKnowledge K)) : Prop where
  length : rows.length = n
  row : ∀ idx r, rows[idx]? = some r → ∃ sec id embedding,
    (split_into_sections body.content)[idx]? = some sec ∧
      r = knowledge_row o agent now body id idx sec embedding

/-- The rows are all the chunks of an ingest that has committed. -/
def CommittedIngest (o : Outside K) (txs : List (KnowledgeTx K)) (rows : List (OrgKnowledge K)) :
    Prop :=
  ∃ tx ∈ txs, tx.phase = .committed ∧ ∃ agent now body, tx.request = .ingest agent now body ∧
    Chunks o agent now body (split_into_sections body.content).length rows

/-- Every document is empty, or it is what one ingest has made it. -/
def OneIngest (o : Outside K) (s : KnowledgeState K) : Prop :=
  ∀ tenant_id source_path, select_document tenant_id source_path s.db = [] ∨
    CommittedIngest o s.txs (select_document tenant_id source_path s.db)

/-- What is committed changes when a transaction commits. One that is rolled back leaves it. -/
def ChangesAtCommit (s : KnowledgeState K) (a : KnowledgeAction) (s' : KnowledgeState K) : Prop :=
  (s'.db.org_knowledge = s.db.org_knowledge ∧ s'.db.memory_history = s.db.memory_history) ∨
    ∃ i choice tx, a = .statement i choice ∧ s'.txs[i]? = some tx ∧ tx.phase = .committed

/-! ## What a statement can do -/

/-- Where a transaction stands says what it has done. -/
def TxOk (o : Outside K) (tx : KnowledgeTx K) : Prop :=
  match tx.phase with
  | .deleting => tx.work.inserted = []
  | .insert idx => tx.work.targets = [] ∧ ∃ agent now body,
      tx.request = .ingest agent now body ∧ Chunks o agent now body idx tx.work.inserted
  | _ => tx.work = {}

/-- What a transaction becomes, and the database. -/
inductive KnowledgeMove (o : Outside K) (s : KnowledgeState K) (i : Nat) (tx : KnowledgeTx K) :
    KnowledgeTx K → Db K → Prop where
  /-- It goes on, or ends with nothing done. -/
  | stay (phase : KnowledgePhase) (hok : TxOk o { tx with phase }) :
      KnowledgeMove o s i tx { tx with phase } s.db
  | find (hwork : tx.work = {}) :
      KnowledgeMove o s i tx
        { tx with
          phase := .deleting
          work := tx.work.find chunk_layout tx.request.document s.db.org_knowledge } s.db
  | take (k : Nat) (hphase : tx.phase = .deleting) (hk : k ∈ tx.work.targets)
      (hfree : ∀ w ∈ s.others i, k ∉ w.deleted) :
      KnowledgeMove o s i tx
        { tx with work := tx.work.take chunk_layout s.db.org_knowledge k } s.db
  | insert (idx : Nat) (agent : AgentIdentity) (now : Timestamp) (body : KnowledgeIngestRequest)
      (sec : Section) (embedding : Option (List K)) (hphase : tx.phase = .insert idx)
      (hrequest : tx.request = .ingest agent now body)
      (hsec : (split_into_sections body.content)[idx]? = some sec)
      (hfree : standing s.db tx.work
        (knowledge_row o agent now body s.db.next_id idx sec embedding) = [])
      (hothers : ∀ w ∈ s.others i, ∀ q ∈ w.inserted,
        same_chunk (knowledge_row o agent now body s.db.next_id idx sec embedding) q = false) :
      KnowledgeMove o s i tx
        { tx with
          phase := .insert (idx + 1)
          work := tx.work.insert
            (knowledge_row o agent now body s.db.next_id idx sec embedding) }
        { s.db with next_id := s.db.next_id + 1 }
  | abort : KnowledgeMove o s i tx { tx with phase := .aborted, work := {} } s.db
  | commit (history : List MemoryHistory) (htargets : tx.work.targets = [])
      (hinserted : tx.work.inserted = [] ∨ ∃ agent now body, tx.request = .ingest agent now body ∧
        Chunks o agent now body (split_into_sections body.content).length tx.work.inserted) :
      KnowledgeMove o s i tx { tx with phase := .committed, work := {} }
        { tx.view s.db with memory_history := history }

theorem Chunks.nil (o : Outside K) (agent : AgentIdentity) (now : Timestamp)
    (body : KnowledgeIngestRequest) : Chunks o agent now body 0 [] := by
  refine ⟨rfl, ?_⟩
  simp

theorem Chunks.snoc {o : Outside K} {agent : AgentIdentity} {now : Timestamp}
    {body : KnowledgeIngestRequest} {idx : Nat} {rows : List (OrgKnowledge K)}
    (h : Chunks o agent now body idx rows) {sec : Section} {id : UUID}
    {embedding : Option (List K)} (hsec : (split_into_sections body.content)[idx]? = some sec) :
    Chunks o agent now body (idx + 1)
      (rows ++ [knowledge_row o agent now body id idx sec embedding]) := by
  refine ⟨by simp [h.length], fun k r hr => ?_⟩
  by_cases hk : k < rows.length
  · rw [List.getElem?_append_left hk] at hr
    exact h.row k r hr
  · rw [List.getElem?_append_right (Nat.le_of_not_lt hk), List.getElem?_singleton] at hr
    split at hr
    · rename_i hlast
      have hidx : k = idx := by
        have hlength := h.length
        omega
      cases hr
      exact ⟨sec, id, embedding, hidx ▸ hsec, hidx ▸ rfl⟩
    · cases hr

theorem Chunks.le {o : Outside K} {agent : AgentIdentity} {now : Timestamp}
    {body : KnowledgeIngestRequest} {n : Nat} {rows : List (OrgKnowledge K)}
    (h : Chunks o agent now body n rows) : n ≤ (split_into_sections body.content).length := by
  by_contra hlt
  have hlast : n - 1 < rows.length := by
    rw [h.length]
    omega
  obtain ⟨sec, -, -, hsec, -⟩ := h.row (n - 1) _ (List.getElem?_eq_getElem hlast)
  have hin := (List.getElem?_eq_some_iff.mp hsec).1
  omega

theorem insert_chunk_moves {o : Outside K} {s : KnowledgeState K} {i : Nat} {tx : KnowledgeTx K}
    {idx : Nat} {agent : AgentIdentity} {now : Timestamp} {body : KnowledgeIngestRequest}
    {sec : Section} {embedding : Option (List K)} {s' : KnowledgeState K}
    (hphase : tx.phase = .insert idx) (hrequest : tx.request = .ingest agent now body)
    (hsec : (split_into_sections body.content)[idx]? = some sec)
    (h : insert_chunk s i tx idx
      (knowledge_row o agent now body s.db.next_id idx sec embedding) = some s') :
    ∃ tx' db', KnowledgeMove o s i tx tx' db' ∧ s' = s.put i tx' db' := by
  unfold insert_chunk at h
  split at h
  · cases h
  rename_i hwaits
  split at h
  · cases h
    exact ⟨_, _, .abort, rfl⟩
  · rename_i hviolates
    cases h
    rw [not_or, not_not] at hviolates
    refine ⟨_, _, .insert idx agent now body sec embedding hphase hrequest hsec hviolates.1 ?_, rfl⟩
    intro w hw q hq
    by_contra hsame
    apply hwaits
    unfold insert_waits
    rw [List.any_eq_true]
    refine ⟨w, hw, ?_⟩
    rw [Bool.or_eq_true, List.any_eq_true]
    exact Or.inl ⟨q, hq, by simpa using hsame⟩

/-- There is no choice among the rows only when there are no rows. -/
theorem eq_nil_of_choice {α : Type} {xs : List α} {choice : Nat}
    (h : xs[choice % xs.length]? = none) : xs = [] := by
  by_contra hne
  have hlt := Nat.mod_lt choice (List.length_pos_iff.mpr hne)
  rw [List.getElem?_eq_none_iff] at h
  omega

theorem knowledge_statement_moves {o : Outside K} {s : KnowledgeState K} {i : Nat}
    {tx : KnowledgeTx K} {choice : Nat} {s' : KnowledgeState K} (hok : TxOk o tx)
    (h : knowledge_statement o s i tx choice = some s') :
    ∃ tx' db', KnowledgeMove o s i tx tx' db' ∧ s' = s.put i tx' db' := by
  unfold knowledge_statement at h
  split at h
  · -- the check of the role
    rename_i hphase
    have hwork : tx.work = {} := by simpa [TxOk, hphase] using hok
    split at h
    · cases h
      exact ⟨_, _, .abort, rfl⟩
    · cases h
      exact ⟨_, _, .stay .select (by simp [TxOk, hwork]), rfl⟩
    · cases h
      exact ⟨_, _, .stay .delete (by simp [TxOk, hwork]), rfl⟩
  · -- the SELECT of the hashes
    rename_i agent now body hphase hrequest
    have hwork : tx.work = {} := by simpa [TxOk, hphase] using hok
    simp only at h
    split at h
    · cases h
      exact ⟨_, _, .stay .committed (by simp [TxOk, hwork]), rfl⟩
    split at h
    · cases h
      exact ⟨_, _, .stay .delete (by simp [TxOk, hwork]), rfl⟩
    · cases h
      refine ⟨_, _, .stay (.insert 0) ⟨by simp [hwork], agent, now, body, hrequest, ?_⟩, rfl⟩
      simpa [hwork] using Chunks.nil o agent now body
  · -- the start of the DELETE
    rename_i hphase
    have hwork : tx.work = {} := by simpa [TxOk, hphase] using hok
    cases h
    exact ⟨_, _, .find hwork, rfl⟩
  · -- a row of the DELETE, or its end
    rename_i hphase
    have hnone : tx.work.inserted = [] := by simpa [TxOk, hphase] using hok
    split at h
    · rename_i k hk
      split at h
      · cases h
      · rename_i hlocked
        cases h
        refine ⟨_, _, .take k hphase (List.mem_of_getElem? hk) ?_, rfl⟩
        intro w hw hd
        exact hlocked (List.any_eq_true.mpr ⟨w, hw, by simpa using hd⟩)
    · rename_i agent now body hk hrequest
      have htargets := eq_nil_of_choice hk
      cases h
      refine ⟨_, _, .stay (.insert 0) ⟨htargets, agent, now, body, hrequest, ?_⟩, rfl⟩
      simpa [hnone] using Chunks.nil o agent now body
    · rename_i hk _
      cases h
      exact ⟨_, _, .commit _ (eq_nil_of_choice hk) (Or.inl hnone), rfl⟩
  · -- the INSERT of a section, or the end
    rename_i idx agent now body hphase hrequest
    have hdone : tx.work.targets = [] ∧ ∃ agent now body,
        tx.request = .ingest agent now body ∧ Chunks o agent now body idx tx.work.inserted := by
      simpa [TxOk, hphase] using hok
    split at h
    · rename_i sec hsec
      exact insert_chunk_moves hphase hrequest hsec h
    · rename_i hsec
      obtain ⟨htargets, agent', now', body', hrequest', hchunks⟩ := hdone
      obtain ⟨rfl, rfl, rfl⟩ : agent = agent' ∧ now = now' ∧ body = body' := by
        simpa [hrequest] using hrequest'
      have hall : idx = (split_into_sections body.content).length := by
        have hle := hchunks.le
        rw [List.getElem?_eq_none_iff] at hsec
        omega
      cases h
      refine ⟨_, _, .commit _ htargets (Or.inr ⟨agent, now, body, hrequest, ?_⟩), rfl⟩
      exact hall ▸ hchunks
  · cases h

/-! ## The invariant -/

/-- The document that a transaction is about. -/
def KnowledgeState.document (s : KnowledgeState K) (i : Nat) : UUID × String :=
  ((s.txs[i]?).map (·.request.document)).getD (0, "")

def Whole (o : Outside K) (txs : List (KnowledgeTx K)) (rows : List (OrgKnowledge K)) : Prop :=
  rows ≠ [] ∧ CommittedIngest o txs rows

structure KnowledgeInv (o : Outside K) (s : KnowledgeState K) : Prop where
  good : replacing.Good chunk_layout (Whole o s.txs) s.document s.db.org_knowledge s.db.next_id
    s.work
  ok : ∀ tx ∈ s.txs, TxOk o tx

section
variable {o : Outside K} {s : KnowledgeState K} {i : Nat} {tx tx' : KnowledgeTx K} {db : Db K}

theorem work_of (h : s.txs[i]? = some tx) : s.work i = tx.work := by
  simp [KnowledgeState.work, h]

theorem document_of (h : s.txs[i]? = some tx) : s.document i = tx.request.document := by
  simp [KnowledgeState.document, h]

theorem work_put (h : s.txs[i]? = some tx) :
    (s.put i tx' db).work = Function.update s.work i tx'.work := by
  have hlt := (List.getElem?_eq_some_iff.mp h).1
  funext j
  by_cases hj : j = i
  · subst hj
    simp [KnowledgeState.work, KnowledgeState.put, hlt]
  · rw [Function.update_of_ne hj]
    simp [KnowledgeState.work, KnowledgeState.put, List.getElem?_set_ne (Ne.symm hj)]

theorem document_put (h : s.txs[i]? = some tx) (hrequest : tx'.request = tx.request) :
    (s.put i tx' db).document = s.document := by
  have hlt := (List.getElem?_eq_some_iff.mp h).1
  funext j
  by_cases hj : j = i
  · subst hj
    rw [document_of h]
    simp [KnowledgeState.document, KnowledgeState.put, hlt, hrequest]
  · simp [KnowledgeState.document, KnowledgeState.put, List.getElem?_set_ne (Ne.symm hj)]

/-- Each of the other transactions is among the others, or has done nothing. -/
theorem work_others {j : Nat} (hj : j ≠ i) : s.work j ∈ s.others i ∨ s.work j = {} := by
  by_cases hlt : j < s.txs.length
  · left
    unfold KnowledgeState.others
    exact List.mem_map_of_mem (List.mem_filter.mpr ⟨List.mem_range.mpr hlt, by simpa using hj⟩)
  · right
    simp [KnowledgeState.work, List.getElem?_eq_none (Nat.le_of_not_lt hlt)]

/-- What has committed stays committed. -/
theorem Whole.put (h : s.txs[i]? = some tx) (hopen : tx.phase ≠ .committed)
    (rows : List (OrgKnowledge K)) (hw : Whole o s.txs rows) : Whole o (s.txs.set i tx') rows := by
  obtain ⟨hne, x, hx, hphase, hrest⟩ := hw
  refine ⟨hne, x, ?_, hphase, hrest⟩
  obtain ⟨j, hj⟩ := List.mem_iff_getElem?.mp hx
  have hji : i ≠ j := by
    rintro rfl
    rw [h] at hj
    exact hopen (Option.some.inj hj ▸ hphase)
  rw [List.mem_iff_getElem?]
  exact ⟨j, by rw [List.getElem?_set_ne hji, hj]⟩

/-- The chunk of index 0 is there. -/
theorem Whole.first {txs : List (KnowledgeTx K)} (rows : List (OrgKnowledge K))
    (h : Whole o txs rows) : ∃ r ∈ rows, (chunk_layout (K := K)).index r = 0 := by
  obtain ⟨hne, -, -, -, agent, now, body, -, hchunks⟩ := h
  obtain ⟨r, rest, rfl⟩ := List.exists_cons_of_ne_nil hne
  obtain ⟨sec, id, embedding, -, rfl⟩ := hchunks.row 0 r (by simp)
  exact ⟨_, List.mem_cons_self, rfl⟩

theorem same_chunk_iff {r q : OrgKnowledge K} :
    same_chunk r q = true ↔ replacing.SameKey chunk_layout r q := by
  simp [same_chunk, replacing.SameKey, chunk_layout]

theorem move_request {tx' : KnowledgeTx K} (h : KnowledgeMove o s i tx tx' db) :
    tx'.request = tx.request := by
  cases h <;> rfl

/-- At an INSERT, the transaction has inserted the chunks before it. -/
theorem insert_ok {idx : Nat} {agent : AgentIdentity} {now : Timestamp}
    {body : KnowledgeIngestRequest} (hok : TxOk o tx) (hphase : tx.phase = .insert idx)
    (hrequest : tx.request = .ingest agent now body) :
    tx.work.targets = [] ∧ Chunks o agent now body idx tx.work.inserted := by
  obtain ⟨htargets, agent', now', body', hrequest', hchunks⟩ :
      tx.work.targets = [] ∧ ∃ agent now body,
        tx.request = .ingest agent now body ∧ Chunks o agent now body idx tx.work.inserted := by
    simpa [TxOk, hphase] using hok
  obtain ⟨rfl, rfl, rfl⟩ : agent = agent' ∧ now = now' ∧ body = body' := by
    simpa [hrequest] using hrequest'
  exact ⟨htargets, hchunks⟩

/-- A transaction that moves is where it says it is. -/
theorem move_ok (hok : TxOk o tx) (h : KnowledgeMove o s i tx tx' db) : TxOk o tx' := by
  cases h with
  | stay phase h => exact h
  | find hwork => simp [TxOk, replacing.Work.find, hwork]
  | take k hphase hk hfree =>
    have hnone : tx.work.inserted = [] := by simpa [TxOk, hphase] using hok
    simp [TxOk, hphase, replacing.Work.take, hnone]
  | insert idx agent now body sec embedding hphase hrequest hsec hfree hothers =>
    obtain ⟨htargets, hchunks⟩ := insert_ok hok hphase hrequest
    exact ⟨htargets, agent, now, body, hrequest, hchunks.snoc hsec⟩
  | abort => simp [TxOk]
  | commit history htargets hinserted => simp [TxOk]

/-- Every move is one of the steps of a replacement. -/
theorem move_good {whole : List (OrgKnowledge K) → Prop}
    (hgood : replacing.Good chunk_layout whole s.document s.db.org_knowledge s.db.next_id s.work)
    (hfirst : ∀ rows, whole rows → ∃ r ∈ rows, (chunk_layout (K := K)).index r = 0)
    (htx : s.txs[i]? = some tx) (hok : TxOk o tx)
    (hcommit : tx'.phase = .committed → ∀ agent now body rows,
      tx.request = .ingest agent now body → rows ≠ [] →
      Chunks o agent now body (split_into_sections body.content).length rows → whole rows)
    (hmove : KnowledgeMove o s i tx tx' db) :
    replacing.Good chunk_layout whole s.document db.org_knowledge db.next_id
      (Function.update s.work i tx'.work) := by
  have hwork := work_of htx
  cases hmove with
  | stay phase hstay =>
    rw [← hwork, Function.update_eq_self]
    exact hgood
  | find hempty =>
    rw [← hwork, ← document_of htx]
    apply hgood.find
    simp [hwork, hempty]
  | take k hphase hk hfree =>
    rw [← hwork]
    apply hgood.take
    · rwa [hwork]
    · intro j hj
      rcases work_others hj with hw | hw
      · exact hfree _ hw
      · simp [hw]
  | insert idx agent now body sec embedding hphase hrequest hsec hfree hothers =>
    have hchunks := (insert_ok hok hphase hrequest).2
    rw [← hwork]
    apply hgood.insert
    · rfl
    · rw [document_of htx, hrequest]
      rfl
    · intro hnil
      have hlength := hchunks.length
      rw [hwork] at hnil
      have hzero : idx = 0 := by simpa [hnil] using hlength.symm
      exact hzero
    · intro q hq hkey
      by_contra hd
      rw [hwork] at hd
      have hmem : q ∈ standing s.db tx.work
          (knowledge_row o agent now body s.db.next_id idx sec embedding) := by
        unfold standing
        rw [List.mem_filter, Bool.and_eq_true]
        exact ⟨hq, same_chunk_iff.mpr hkey, decide_eq_true hd⟩
      rw [hfree] at hmem
      exact absurd hmem List.not_mem_nil
    · intro j hj q hq hkey
      rcases work_others hj with hw | hw
      · have hapart := hothers _ hw q hq
        rw [same_chunk_iff.mpr hkey] at hapart
        cases hapart
      · rw [hw] at hq
        exact absurd hq List.not_mem_nil
  | abort => exact hgood.release i
  | commit history htargets hinserted =>
    have hview : (tx.view s.db).org_knowledge =
        (s.work i).view chunk_layout s.db.org_knowledge := by
      rw [hwork]
      rfl
    have hnext : (tx.view s.db).next_id = s.db.next_id := rfl
    simp only [hview, hnext]
    apply hgood.commit hfirst
    · rw [hwork, htargets]
    · rw [hwork]
      by_cases hnil : tx.work.inserted = []
      · exact Or.inl hnil
      rcases hinserted with hnil' | ⟨agent, now, body, hrequest, hchunks⟩
      · exact absurd hnil' hnil
      · exact Or.inr (hcommit rfl agent now body _ hrequest hnil hchunks)

theorem move_inv (h : KnowledgeInv o s) (htx : s.txs[i]? = some tx) (hopen : tx.phase ≠ .committed)
    (hmove : KnowledgeMove o s i tx tx' db) : KnowledgeInv o (s.put i tx' db) := by
  have hok := h.ok tx (List.mem_of_getElem? htx)
  have hwhole : ∀ rows, Whole o s.txs rows → Whole o (s.txs.set i tx') rows :=
    Whole.put htx hopen
  have hgood := h.good.mono hwhole
  constructor
  · rw [document_put htx (move_request hmove), work_put htx]
    refine move_good hgood Whole.first htx hok ?_ hmove
    intro hphase agent now body rows hrequest hne hchunks
    refine ⟨hne, tx', List.mem_set ?_ _, hphase, agent, now, body, ?_, hchunks⟩
    · exact (List.getElem?_eq_some_iff.mp htx).1
    · rw [move_request hmove, hrequest]
  · intro x hx
    rcases List.mem_or_eq_of_mem_set hx with hx | rfl
    · exact h.ok x hx
    · exact move_ok hok hmove

theorem statement_open {choice : Nat} {s' : KnowledgeState K}
    (h : knowledge_statement o s i tx choice = some s') : tx.phase ≠ .committed := by
  intro hphase
  simp [knowledge_statement, hphase] at h

/-- A request begins a transaction that has done nothing. -/
theorem request_inv (h : KnowledgeInv o s) (r : KnowledgeRequest) :
    KnowledgeInv o { s with txs := s.txs ++ [{ request := r }] } := by
  have hwork :
      ({ s with txs := s.txs ++ [{ request := r }] } : KnowledgeState K).work = s.work := by
    funext j
    unfold KnowledgeState.work
    simp only
    by_cases hlt : j < s.txs.length
    · rw [List.getElem?_append_left hlt]
    · rw [List.getElem?_append_right (Nat.le_of_not_lt hlt), List.getElem?_singleton,
        List.getElem?_eq_none (Nat.le_of_not_lt hlt)]
      split <;> rfl
  constructor
  · rw [hwork]
    refine (h.good.mono fun rows hrows => ?_).reassign fun j => ?_
    · obtain ⟨hne, x, hx, hrest⟩ := hrows
      exact ⟨hne, x, List.mem_append_left _ hx, hrest⟩
    · by_cases hlt : j < s.txs.length
      · right
        simp [KnowledgeState.document, List.getElem?_append_left hlt]
      · left
        simp [KnowledgeState.work, List.getElem?_eq_none (Nat.le_of_not_lt hlt)]
  · intro x hx
    rcases List.mem_append.mp hx with hx | hx
    · exact h.ok x hx
    · rw [List.mem_singleton.mp hx]
      rfl

theorem knowledge_step_inv {a : KnowledgeAction} {s' : KnowledgeState K} (h : KnowledgeInv o s)
    (hstep : knowledge_step o s a = some s') : KnowledgeInv o s' := by
  cases a with
  | request r =>
    cases hstep
    exact request_inv h r
  | statement i choice =>
    obtain ⟨tx, htx, hstep⟩ := Option.bind_eq_some_iff.mp hstep
    obtain ⟨tx', db', hmove, rfl⟩ :=
      knowledge_statement_moves (h.ok tx (List.mem_of_getElem? htx)) hstep
    exact move_inv h htx (statement_open hstep) hmove
  | rollback i =>
    obtain ⟨tx, htx, hstep⟩ := Option.bind_eq_some_iff.mp hstep
    split at hstep
    · cases hstep
    · rename_i hopen
      cases hstep
      refine move_inv h htx ?_ .abort
      intro hphase
      simp [KnowledgeTx.ended, hphase] at hopen

/-- The committed chunks of one ingest are the document, in the order of their indexes. -/
theorem chunks_sorted {agent : AgentIdentity} {now : Timestamp} {body : KnowledgeIngestRequest}
    {n : Nat} {rows : List (OrgKnowledge K)} (h : Chunks o agent now body n rows) :
    rows.Pairwise fun r q => r.chunk_index ≤ q.chunk_index := by
  rw [List.pairwise_iff_getElem]
  intro j k hj hk hlt
  have hindex : ∀ l (hl : l < rows.length), rows[l].chunk_index = l := by
    intro l hl
    obtain ⟨sec, id, embedding, -, hrow⟩ := h.row l _ (List.getElem?_eq_getElem hl)
    rw [hrow]
    rfl
  rw [hindex j hj, hindex k hk]
  omega

theorem rows_of_document (tenant_id : UUID) (source_path : String) (t : List (OrgKnowledge K)) :
    replacing.rows_of chunk_layout (tenant_id, source_path) t =
      t.filter (of_document tenant_id source_path) := by
  unfold replacing.rows_of
  apply List.filter_congr
  intro r _
  simp [chunk_layout, of_document]

theorem one_ingest_of_inv (h : KnowledgeInv o s) : OneIngest o s := by
  intro tenant_id source_path
  have hgroup := h.good.groups (tenant_id, source_path)
  rw [rows_of_document] at hgroup
  unfold select_document rows.order_asc
  rcases hgroup with hnil | ⟨-, x, hx, hphase, agent, now, body, hrequest, hchunks⟩
  · left
    rw [hnil]
    rfl
  · right
    rw [(chunks_sorted hchunks).insertionSort_eq]
    exact ⟨x, hx, hphase, agent, now, body, hrequest, hchunks⟩

/-- A move that is no commit leaves what is committed. -/
theorem move_frame (hmove : KnowledgeMove o s i tx tx' db) :
    (db.org_knowledge = s.db.org_knowledge ∧ db.memory_history = s.db.memory_history) ∨
      tx'.phase = .committed := by
  cases hmove with
  | commit history htargets hinserted => exact Or.inr rfl
  | _ => exact Or.inl ⟨rfl, rfl⟩

theorem knowledge_step_frame {a : KnowledgeAction} {s' : KnowledgeState K} (h : KnowledgeInv o s)
    (hstep : knowledge_step o s a = some s') : ChangesAtCommit s a s' := by
  cases a with
  | request r =>
    cases hstep
    exact Or.inl ⟨rfl, rfl⟩
  | statement i choice =>
    obtain ⟨tx, htx, hstep⟩ := Option.bind_eq_some_iff.mp hstep
    obtain ⟨tx', db', hmove, rfl⟩ :=
      knowledge_statement_moves (h.ok tx (List.mem_of_getElem? htx)) hstep
    refine (move_frame hmove).imp_right fun hphase => ⟨i, choice, tx', rfl, ?_, hphase⟩
    have hlt := (List.getElem?_eq_some_iff.mp htx).1
    simp [KnowledgeState.put, hlt]
  | rollback i =>
    obtain ⟨tx, htx, hstep⟩ := Option.bind_eq_some_iff.mp hstep
    split at hstep
    · cases hstep
    · cases hstep
      exact Or.inl ⟨rfl, rfl⟩

end

/-! ## Every run -/

theorem knowledge_inv_start (o : Outside K) {db : Db K} (hempty : db.org_knowledge = []) :
    KnowledgeInv o { db } := by
  constructor
  · have hwork : ({ db } : KnowledgeState K).work = fun _ => {} := by
      funext j
      simp [KnowledgeState.work]
    rw [hwork]
    apply replacing.Good.start
    all_goals simp [hempty, replacing.rows_of]
  · simp

/-- However the statements of ingests and deletes overlap, every committed document is empty or
consists of the chunks of one ingest, and a transaction that does not commit changes nothing. -/
theorem documents_come_from_one_ingest (o : Outside K) {db : Db K} (hempty : db.org_knowledge = [])
    (actions : List KnowledgeAction) :
    runs.Always (knowledge_step o) (OneIngest o) { db } actions ∧
      runs.EveryStep (knowledge_step o) ChangesAtCommit { db } actions := by
  have hguarded : runs.Guarded (knowledge_step o) (fun _ _ => True) { db } actions :=
    runs.guarded_of_forall _ (fun _ _ => trivial) _ _
  have hinv : ∀ s a s', KnowledgeInv o s → True → knowledge_step o s a = some s' →
      KnowledgeInv o s' := by
    intro s a s' h _ hstep
    exact knowledge_step_inv h hstep
  have hframe : ∀ s a s', KnowledgeInv o s → True → knowledge_step o s a = some s' →
      ChangesAtCommit s a s' := by
    intro s a s' h _ hstep
    exact knowledge_step_frame h hstep
  have hstart := knowledge_inv_start o hempty
  constructor
  · exact runs.always_of_invariant (fun _ h => one_ingest_of_inv h) hinv hstart hguarded
  · exact runs.every_step_of_invariant hframe hinv hstart hguarded

/-- Two ingests of a new document, of which the second one reads before the first one commits. -/
def two_new_runbooks : List KnowledgeAction :=
  [.request (.ingest ⟨20, 1, 2, "all"⟩ 5 restrict_runbook),
   .request (.ingest ⟨20, 1, 2, "all"⟩ 6 restrict_runbook),
   .statement 0 0, .statement 0 0, .statement 1 0, .statement 1 0, .statement 0 0,
   .statement 0 0, .statement 1 0]

def no_runbook_db : Db ℚ := { runbook_db with org_knowledge := [] }

theorem documents_come_from_one_ingest_runbook :
    runs.Always (knowledge_step no_models) (OneIngest no_models) { db := no_runbook_db }
        two_new_runbooks ∧
      runs.EveryStep (knowledge_step no_models) ChangesAtCommit { db := no_runbook_db }
        two_new_runbooks :=
  documents_come_from_one_ingest no_models rfl two_new_runbooks

example : (runs.run (knowledge_step no_models) { db := no_runbook_db } two_new_runbooks).map
    (fun s => s.txs.map (·.phase)) = some [.committed, .aborted] := by
  decide +kernel

end qortia
