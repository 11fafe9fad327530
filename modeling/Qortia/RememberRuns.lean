-- The laws of `remember` requests that overlap. A request looks up a duplicate and inserts, in two
-- statements, and a lookup sees what is committed and what its own transaction inserted. No unique
-- index stands behind it.
import Qortia.Lib.CheckThenInsert
import Qortia.RememberBatch

namespace qortia

variable {K : Type}

/-! ## Runs -/

/-- The transaction of a request that has not ended. `now` is the time at which it began, which is
`now()` in all its statements. -/
structure RememberTxn (K : Type) where
  agent : AgentIdentity
  now : Timestamp
  todo : List MemoryItem
  /-- The memory whose INSERT is next, after a lookup in vain. -/
  checked : Option (MemoryItem × Option Timestamp) := none
  /-- The record that is next, after the INSERT of its row. -/
  unrecorded : Option MemoryHistory := none
  rows : List (HindsightMemory K) := []
  history : List MemoryHistory := []
  ids : List UUID := []
  episodic_count : Nat := 0
  /-- The UPDATE of the counter is done, and the row of the agent is locked. -/
  counted : Bool := false

inductive RememberPhase (K : Type) where
  | running (txn : RememberTxn K)
  | committed (ids : List UUID)
  | aborted

/-- The committed database and the requests, in the order in which they began. -/
structure Requests (K : Type) where
  db : Db K
  requests : List (RememberPhase K) := []

inductive RememberAction where
  | begin (agent : AgentIdentity) (now : Timestamp) (memories : List MemoryItem)
  /-- The next statement of a request. -/
  | advance (i : Nat) (choice : Nat)
  | commit (i : Nat)
  | abort (i : Nat)

/-- What a statement of the transaction sees. -/
def RememberTxn.view (x : RememberTxn K) (db : Db K) : Db K :=
  { db with
    hindsight_memories := db.hindsight_memories ++ x.rows
    memory_history := db.memory_history ++ x.history }

/-- The lookup, which the other types do without. -/
def RememberTxn.lookup (o : Outside K) (x : RememberTxn K) (choice : Nat) (mem : MemoryItem)
    (db : Db K) : Option (HindsightMemory K) :=
  if mem.deduplicated then
    pick choice (recent_duplicates x.agent.agent_id (o.sha256 mem.content) x.now (x.view db))
  else none

/-- The next statement: the next id of a memory, and what becomes of the request. -/
def RememberTxn.advance (o : Outside K) (choice : Nat) (locked : Bool) (db : Db K)
    (x : RememberTxn K) : Option (UUID × RememberPhase K) :=
  match x.unrecorded, x.checked, x.todo with
  | some h, _, _ =>
    some (db.next_id, .running { x with history := x.history ++ [h], unrecorded := none })
  | none, some (mem, expires), _ =>
    some (db.next_id + 1, .running { x with
      rows := x.rows ++ [memory_row o x.agent x.now mem expires db.next_id]
      checked := none
      unrecorded := some (remember_record o x.agent mem db.next_id)
      ids := x.ids ++ [db.next_id]
      episodic_count := x.episodic_count + if mem.type = .episodic then 1 else 0 })
  | none, none, mem :: todo =>
    match expires_at x.now mem with
    | .error _ => some (db.next_id, .aborted)
    | .ok expires =>
      match x.lookup o choice mem db with
      | some existing => some (db.next_id, .running { x with todo, ids := x.ids ++ [existing.id] })
      | none => some (db.next_id, .running { x with todo, checked := some (mem, expires) })
  | none, none, [] =>
    if x.episodic_count > 0 ∧ x.counted = false ∧ locked = false then
      some (db.next_id, .running { x with counted := true })
    else none

def RememberPhase.locks (agent_id : UUID) : RememberPhase K → Bool
  | .running x => x.counted && x.agent.agent_id = agent_id
  | _ => false

/-- Another request has changed the row of the agent and has not ended. -/
def Requests.locked (s : Requests K) (i : Nat) (agent_id : UUID) : Bool :=
  s.requests.zipIdx.any fun x => x.2 ≠ i && x.1.locks agent_id

/-- All the statements are done. -/
def RememberTxn.done (x : RememberTxn K) : Bool :=
  x.todo.isEmpty && x.checked.isNone && x.unrecorded.isNone &&
    (x.counted || x.episodic_count = 0)

/-- The COMMIT makes the rows, the records and the counter visible. -/
def RememberTxn.commit (x : RememberTxn K) (db : Db K) : Db K :=
  qortia.counted x.agent.agent_id x.now x.episodic_count (x.view db)

def remember_step (o : Outside K) (s : Requests K) : RememberAction → Option (Requests K)
  | .begin agent now memories =>
    match assert_agent_active agent.agent_id agent.tenant_id s.db with
    | .ok _ =>
      some { s with requests := s.requests ++ [.running { agent, now, todo := memories }] }
    | .error _ => none
  | .advance i choice =>
    match s.requests[i]? with
    | some (.running x) =>
      match x.advance o choice (s.locked i x.agent.agent_id) s.db with
      | some (next_id, phase) =>
        some { db := { s.db with next_id }, requests := s.requests.set i phase }
      | none => none
    | _ => none
  | .commit i =>
    match s.requests[i]? with
    | some (.running x) =>
      if x.done then some { db := x.commit s.db, requests := s.requests.set i (.committed x.ids) }
      else none
    | _ => none
  | .abort i =>
    match s.requests[i]? with
    | some (.running _) => some { s with requests := s.requests.set i .aborted }
    | _ => none

/-! ## Duplicates -/

/-- What makes two rows duplicates. -/
structure DedupKey where
  agent_id : UUID
  content_hash : String
  created_at : Timestamp
  deriving DecidableEq

/-- Less than 24 hours apart. -/
def DedupKey.conflict (k k' : DedupKey) : Prop :=
  k.agent_id = k'.agent_id ∧ k.content_hash = k'.content_hash ∧
    k.created_at - k'.created_at < DAY ∧ k'.created_at - k.created_at < DAY

instance (k k' : DedupKey) : Decidable (k.conflict k') :=
  inferInstanceAs (Decidable (_ ∧ _))

/-- The key of an active episodic or experiential row. -/
def HindsightMemory.dedup_key (r : HindsightMemory K) : Option DedupKey :=
  if r.tier = .active ∧ (r.type = .episodic ∨ r.type = .experiential) then
    r.content_hash.map fun content_hash => ⟨r.agent_id, content_hash, r.created_at⟩
  else none

def dedup_keys (rows : List (HindsightMemory K)) : List DedupKey :=
  rows.filterMap HindsightMemory.dedup_key

/-- No two active episodic or experiential rows of an agent that were created less than 24 hours
apart have the same hash. -/
def NoDuplicates (db : Db K) : Prop :=
  (dedup_keys db.hindsight_memories).Pairwise fun k k' => ¬ k.conflict k'

instance (db : Db K) : Decidable (NoDuplicates db) := by
  unfold NoDuplicates
  infer_instance

/-- The key under which the transaction inserts a memory. -/
def RememberTxn.key (o : Outside K) (x : RememberTxn K) (mem : MemoryItem) : DedupKey :=
  ⟨x.agent.agent_id, o.sha256 mem.content, x.now⟩

/-- The keys of the rows that the transaction inserted, and of the one that it is about to. -/
def RememberPhase.keys (o : Outside K) : RememberPhase K → List DedupKey
  | .running x => dedup_keys x.rows ++
    ((x.checked.filter (·.1.deduplicated)).map fun c => x.key o c.1).toList
  | _ => []

/-- What a request holds that is not committed. -/
def Requests.held (o : Outside K) (s : Requests K) (i : Nat) : List DedupKey :=
  (s.requests[i]?).elim [] (·.keys o)

/-- The key that the next statement looks up in vain. -/
def RememberTxn.checks (o : Outside K) (x : RememberTxn K) (db : Db K) : Option DedupKey :=
  match x.unrecorded, x.checked, x.todo with
  | none, none, mem :: _ =>
    if mem.deduplicated ∧
        recent_duplicates x.agent.agent_id (o.sha256 mem.content) x.now (x.view db) = []
    then some (x.key o mem) else none
  | _, _, _ => none

def Requests.checks (o : Outside K) (s : Requests K) (i : Nat) : Option DedupKey :=
  match s.requests[i]? with
  | some (.running x) => x.checks o s.db
  | _ => none

/-- While a lookup finds no duplicate, no other open request holds one. -/
def ChecksAlone (o : Outside K) (s : Requests K) : RememberAction → Prop
  | .advance i _ => ∀ k ∈ s.checks o i, ∀ j < s.requests.length, j ≠ i →
      ∀ k' ∈ s.held o j, ¬ k'.conflict k
  | _ => True

instance (o : Outside K) (s : Requests K) : DecidablePred (ChecksAlone o s)
  | .advance i _ => inferInstanceAs (Decidable (∀ k ∈ s.checks o i, ∀ j < s.requests.length, j ≠ i →
      ∀ k' ∈ s.held o j, ¬ k'.conflict k))
  | .begin .. => isTrue trivial
  | .commit _ => isTrue trivial
  | .abort _ => isTrue trivial

/-! ## What a request holds -/

theorem DedupKey.conflict_symm (k k' : DedupKey) (h : k.conflict k') : k'.conflict k :=
  ⟨h.1.symm, h.2.1.symm, h.2.2.2, h.2.2.1⟩

theorem dedup_key_eq_some {r : HindsightMemory K} {k : DedupKey} :
    r.dedup_key = some k ↔ r.tier = .active ∧ (r.type = .episodic ∨ r.type = .experiential) ∧
      r.content_hash = some k.content_hash ∧ r.agent_id = k.agent_id ∧
        r.created_at = k.created_at := by
  unfold HindsightMemory.dedup_key
  obtain ⟨agent_id, content_hash, created_at⟩ := k
  by_cases hdedup : r.tier = .active ∧ (r.type = .episodic ∨ r.type = .experiential)
  · rw [if_pos hdedup]
    simp only [Option.map_eq_some_iff, DedupKey.mk.injEq]
    constructor
    · rintro ⟨h, hh, hagent, rfl, htime⟩
      exact ⟨hdedup.1, hdedup.2, hh, hagent, htime⟩
    · rintro ⟨-, -, hh, hagent, htime⟩
      exact ⟨content_hash, hh, hagent, rfl, htime⟩
  · rw [if_neg hdedup]
    constructor
    · intro h
      cases h
    · rintro ⟨hactive, htype, -⟩
      exact absurd ⟨hactive, htype⟩ hdedup

theorem dedup_key_row (o : Outside K) (x : RememberTxn K) (mem : MemoryItem)
    (expires : Option Timestamp) (id : UUID) :
    (memory_row o x.agent x.now mem expires id).dedup_key =
      if mem.deduplicated then some (x.key o mem) else none := by
  by_cases hdedup : mem.deduplicated
  · rw [if_pos hdedup]
    exact dedup_key_eq_some.mpr ⟨rfl, hdedup, rfl, rfl, rfl⟩
  · rw [if_neg hdedup]
    apply Option.eq_none_iff_forall_ne_some.mpr
    intro k hk
    exact hdedup (dedup_key_eq_some.mp hk).2.1

theorem mem_dedup_keys {rows : List (HindsightMemory K)} {k : DedupKey} :
    k ∈ dedup_keys rows ↔ ∃ r ∈ rows, r.dedup_key = some k :=
  List.mem_filterMap

/-- A lookup in vain: no key that the transaction sees is in conflict with the one it checks. -/
theorem checks_spec {o : Outside K} {x : RememberTxn K} {db : Db K} {key : DedupKey}
    (h : x.checks o db = some key) :
    ∀ k ∈ dedup_keys db.hindsight_memories ++ (RememberPhase.running x).keys o,
      ¬ k.conflict key := by
  unfold RememberTxn.checks at h
  split at h
  · rename_i mem todo hunrecorded hchecked htodo
    split at h
    · rename_i hcheck
      cases h
      intro k hk hconflict
      have hrow : k ∈ dedup_keys (x.view db).hindsight_memories := by
        simpa [RememberPhase.keys, hchecked, RememberTxn.view, dedup_keys] using hk
      obtain ⟨r, hr, hkey⟩ := mem_dedup_keys.mp hrow
      obtain ⟨hactive, -, hhash, hagent, htime⟩ := dedup_key_eq_some.mp hkey
      obtain ⟨hsame, hsame', -, hday⟩ := hconflict
      have hrecent : r ∈ recent_duplicates x.agent.agent_id (o.sha256 mem.content) x.now
          (x.view db) := by
        refine mem_recent_duplicates.mpr ⟨hr, hagent.trans hsame, hhash.trans (by rw [hsame']; rfl),
          hactive, ?_⟩
        rw [htime]
        exact Int.sub_lt_of_sub_lt hday
      rw [hcheck.2] at hrecent
      cases hrecent
    · cases h
  · cases h

/-- A statement leaves what the request holds as it is, or adds the key of a lookup in vain. -/
theorem advance_keys {o : Outside K} {choice : Nat} {locked : Bool} {db : Db K}
    {x : RememberTxn K} {next_id : UUID} {phase : RememberPhase K}
    (h : x.advance o choice locked db = some (next_id, phase)) :
    phase.keys o = (RememberPhase.running x).keys o ∨ phase.keys o = [] ∨
      ∃ key, x.checks o db = some key ∧
        phase.keys o = (RememberPhase.running x).keys o ++ [key] := by
  unfold RememberTxn.advance at h
  split at h
  · cases h
    exact .inl rfl
  · rename_i mem expires hunrecorded hchecked
    cases h
    left
    simp only [RememberPhase.keys, hchecked, dedup_keys, List.filterMap_append,
      List.filterMap_cons, List.filterMap_nil, dedup_key_row]
    by_cases hdedup : mem.deduplicated
    · simp [hdedup, Option.filter_some, RememberTxn.key]
    · simp [hdedup, Option.filter_some]
  · rename_i mem todo hunrecorded hchecked htodo
    cases hexpires : expires_at x.now mem with
    | error e =>
      rw [hexpires] at h
      cases h
      exact .inr (.inl rfl)
    | ok expires =>
      rw [hexpires] at h
      cases hlookup : x.lookup o choice mem db with
      | some existing =>
        simp only [hlookup] at h
        cases h
        exact .inl rfl
      | none =>
        simp only [hlookup] at h
        cases h
        unfold RememberTxn.lookup at hlookup
        by_cases hdedup : mem.deduplicated
        · rw [if_pos hdedup, pick_none_iff] at hlookup
          refine .inr (.inr ⟨x.key o mem, ?_, ?_⟩)
          · simp [RememberTxn.checks, hunrecorded, hchecked, htodo, hdedup, hlookup]
          · simp [RememberPhase.keys, hchecked, hdedup, Option.filter_some, RememberTxn.key]
        · left
          simp [RememberPhase.keys, hchecked, hdedup, Option.filter_some]
  · split at h
    · cases h
      exact .inl rfl
    · cases h

theorem held_set {o : Outside K} {s : Requests K} {i : Nat} {phase : RememberPhase K}
    (h : s.requests[i]? = some phase) (db : Db K) (phase' : RememberPhase K) :
    Requests.held o { db, requests := s.requests.set i phase' } =
      Function.update (s.held o) i (phase'.keys o) := by
  have hlt := (List.getElem?_eq_some_iff.mp h).1
  funext j
  unfold Requests.held
  by_cases hj : j = i
  · subst hj
    rw [Function.update_self, List.getElem?_set_self hlt]
    rfl
  · rw [Function.update_of_ne hj, List.getElem?_set_ne (Ne.symm hj)]

theorem held_running {o : Outside K} {s : Requests K} {i : Nat} {phase : RememberPhase K}
    (h : s.requests[i]? = some phase) : s.held o i = phase.keys o := by
  unfold Requests.held
  rw [h]
  rfl

/-! ## What one step keeps -/

/-- What is committed and what is held are free of duplicates. -/
def GoodRequests (o : Outside K) (s : Requests K) : Prop :=
  check_then_insert.Good DedupKey.conflict (dedup_keys s.db.hindsight_memories) (s.held o)

theorem commit_rows (x : RememberTxn K) (db : Db K) :
    (x.commit db).hindsight_memories = db.hindsight_memories ++ x.rows := by
  unfold RememberTxn.commit qortia.counted
  by_cases hn : x.episodic_count > 0
  · rw [if_pos hn]
    rfl
  · rw [if_neg hn]
    rfl

/-- A request that begins holds nothing. -/
theorem held_begin (o : Outside K) (s : Requests K) (agent : AgentIdentity) (now : Timestamp)
    (memories : List MemoryItem) :
    Requests.held o { s with
      requests := s.requests ++ [.running { agent, now, todo := memories }] } = s.held o := by
  funext j
  unfold Requests.held
  rcases Nat.lt_trichotomy j s.requests.length with hj | hj | hj
  · rw [List.getElem?_append_left hj]
  · subst hj
    simp [RememberPhase.keys, dedup_keys]
  · have hle := Nat.le_of_lt hj
    rw [List.getElem?_append_right hle, List.getElem?_eq_none hle]
    rw [List.getElem?_eq_none (by simp; omega)]

/-- A request that is done holds the keys of its rows. -/
theorem held_of_done {o : Outside K} {s : Requests K} {i : Nat} {x : RememberTxn K}
    (hx : s.requests[i]? = some (.running x)) (hdone : x.done = true) :
    s.held o i = dedup_keys x.rows := by
  rw [held_running hx]
  simp only [RememberTxn.done, Bool.and_eq_true, Option.isNone_iff_eq_none] at hdone
  simp [RememberPhase.keys, hdone.1.1.2]

theorem remember_step_good {o : Outside K} {s s' : Requests K} {a : RememberAction}
    (h : GoodRequests o s) (hok : ChecksAlone o s a) (hstep : remember_step o s a = some s') :
    GoodRequests o s' := by
  cases a with
  | begin agent now memories =>
    simp only [remember_step] at hstep
    split at hstep
    · cases hstep
      unfold GoodRequests
      rw [held_begin]
      exact h
    · cases hstep
  | advance i choice =>
    simp only [remember_step] at hstep
    split at hstep
    · rename_i x hx
      split at hstep
      · rename_i next_id phase hadvance
        cases hstep
        unfold GoodRequests
        rw [held_set hx]
        rcases advance_keys hadvance with hkeys | hkeys | ⟨key, hchecks, hkeys⟩
        · rw [hkeys, ← held_running hx, Function.update_eq_self]
          exact h
        · rw [hkeys]
          exact check_then_insert.Good.release h i
        · rw [hkeys, ← held_running hx]
          refine check_then_insert.Good.check h DedupKey.conflict_symm ?_ fun j hj k hk => ?_
          · rw [held_running hx]
            exact checks_spec hchecks
          · have hkey : s.checks o i = some key := by
              unfold Requests.checks
              rw [hx]
              exact hchecks
            refine hok key hkey j ?_ hj k hk
            by_contra hlt
            unfold Requests.held at hk
            rw [List.getElem?_eq_none (Nat.le_of_not_lt hlt)] at hk
            cases hk
      · cases hstep
    · cases hstep
  | commit i =>
    simp only [remember_step] at hstep
    split at hstep
    · rename_i x hx
      split at hstep
      · rename_i hdone
        cases hstep
        unfold GoodRequests
        rw [held_set hx, commit_rows]
        have hcommit := check_then_insert.Good.commit h i
        rw [held_of_done hx hdone] at hcommit
        unfold dedup_keys at hcommit ⊢
        rw [List.filterMap_append]
        exact hcommit
      · cases hstep
    · cases hstep
  | abort i =>
    simp only [remember_step] at hstep
    split at hstep
    · rename_i x hx
      cases hstep
      unfold GoodRequests
      rw [held_set hx]
      exact check_then_insert.Good.release h i
    · cases hstep

/-! ## A request that nothing overlaps -/

/-- The statements of request `i`, one after another. -/
def Alone (o : Outside K) (choice : Nat) (i : Nat) : Requests K → Requests K → Prop :=
  Relation.ReflTransGen fun s s' => remember_step o s (.advance i choice) = some s'

section
variable {o : Outside K} {choice : Nat} {before : List (RememberPhase K)}

theorem locked_last {db : Db K} {x : RememberTxn K} {agent_id : UUID}
    (hidle : ∀ p ∈ before, p.locks agent_id = false) :
    Requests.locked { db, requests := before ++ [.running x] } before.length agent_id = false := by
  unfold Requests.locked
  rw [List.zipIdx_append, List.any_append, Bool.or_eq_false_iff]
  constructor
  · apply List.any_eq_false.mpr
    rintro ⟨p, j⟩ hp
    simp [hidle p (List.fst_mem_of_mem_zipIdx hp)]
  · simp

/-- One statement of the last request. -/
theorem alone_step {db : Db K} {x x' : RememberTxn K} {next_id : UUID}
    (hidle : ∀ p ∈ before, p.locks x.agent.agent_id = false)
    (h : x.advance o choice false db = some (next_id, .running x')) :
    Alone o choice before.length { db, requests := before ++ [.running x] }
      { db := { db with next_id }, requests := before ++ [.running x'] } := by
  apply Relation.ReflTransGen.single
  simp only [remember_step, List.getElem?_concat_length, locked_last hidle, h]
  simp

/-- The three statements of a memory that is no duplicate: the lookup in vain, the INSERT of the
row and the INSERT of its record. -/
theorem alone_insert {agent : AgentIdentity} {now : Timestamp} {mem : MemoryItem}
    {expires : Option Timestamp} {memories : List MemoryItem} {db : Db K}
    {rows : List (HindsightMemory K)} {history : List MemoryHistory} {ids : List UUID}
    {episodic_count : Nat} (hidle : ∀ p ∈ before, p.locks agent.agent_id = false)
    (hexpires : expires_at now mem = .ok expires)
    (hlookup : RememberTxn.lookup o
      { agent, now, todo := mem :: memories, rows, history, ids, episodic_count } choice mem db =
        none) :
    Alone o choice before.length
      { db, requests := before ++
        [.running { agent, now, todo := mem :: memories, rows, history, ids, episodic_count }] }
      { db := { db with next_id := db.next_id + 1 }, requests := before ++
        [.running
          { agent, now, todo := memories
            rows := rows ++ [memory_row o agent now mem expires db.next_id]
            history := history ++ [remember_record o agent mem db.next_id]
            ids := ids ++ [db.next_id]
            episodic_count := episodic_count + if mem.type = .episodic then 1 else 0 }] } := by
  have hlooked : RememberTxn.advance o choice false db
      { agent, now, todo := mem :: memories, rows, history, ids, episodic_count } =
        some (db.next_id, .running
          { agent, now, todo := memories, checked := some (mem, expires), rows, history, ids
            episodic_count }) := by
    unfold RememberTxn.advance
    simp only [hexpires, hlookup]
  have hinserted : RememberTxn.advance o choice false db
      { agent, now, todo := memories, checked := some (mem, expires), rows, history, ids
        episodic_count } =
        some (db.next_id + 1, .running
          { agent, now, todo := memories
            unrecorded := some (remember_record o agent mem db.next_id)
            rows := rows ++ [memory_row o agent now mem expires db.next_id], history
            ids := ids ++ [db.next_id]
            episodic_count := episodic_count + if mem.type = .episodic then 1 else 0 }) := rfl
  have hrecorded : RememberTxn.advance o choice false { db with next_id := db.next_id + 1 }
      { agent, now, todo := memories
        unrecorded := some (remember_record o agent mem db.next_id)
        rows := rows ++ [memory_row o agent now mem expires db.next_id], history
        ids := ids ++ [db.next_id]
        episodic_count := episodic_count + if mem.type = .episodic then 1 else 0 } =
        some (db.next_id + 1, .running
          { agent, now, todo := memories
            rows := rows ++ [memory_row o agent now mem expires db.next_id]
            history := history ++ [remember_record o agent mem db.next_id]
            ids := ids ++ [db.next_id]
            episodic_count := episodic_count + if mem.type = .episodic then 1 else 0 }) := rfl
  have hrow := (alone_step hidle hlooked).trans (alone_step hidle hinserted)
  exact hrow.trans (alone_step hidle hrecorded)

/-- The loop of a request that nothing overlaps. -/
theorem Batch.alone {agent : AgentIdentity} {now : Timestamp} {v v' : Db K}
    {memories : List MemoryItem} {new_ids : List UUID} {n : Nat}
    (h : Batch o agent now choice v memories v' new_ids n)
    (hidle : ∀ p ∈ before, p.locks agent.agent_id = false) {db : Db K}
    {rows : List (HindsightMemory K)} {history : List MemoryHistory} {ids : List UUID}
    {episodic_count : Nat}
    (hview : RememberTxn.view
      { agent, now, todo := memories, rows, history, ids, episodic_count } db = v) :
    ∃ next_id rows' history',
      let x' : RememberTxn K :=
        { agent, now, todo := [], rows := rows', history := history', ids := ids ++ new_ids
          episodic_count := episodic_count + n }
      Alone o choice before.length
        { db, requests := before ++
          [.running { agent, now, todo := memories, rows, history, ids, episodic_count }] }
        { db := { db with next_id }, requests := before ++ [.running x'] } ∧
      x'.view { db with next_id } = v' := by
  induction h generalizing db rows history ids episodic_count with
  | nil v =>
    refine ⟨db.next_id, rows, history, ?_, hview⟩
    rw [List.append_nil]
    exact Relation.ReflTransGen.refl
  | @duplicate v v' mem memories new_ids n expires existing hexpires hdedup hpick hrest ih =>
    subst hview
    have hstep : RememberTxn.advance o choice false db
        { agent, now, todo := mem :: memories, rows, history, ids, episodic_count } =
          some (db.next_id, .running
            { agent, now, todo := memories, rows, history, ids := ids ++ [existing.id]
              episodic_count }) := by
      unfold RememberTxn.advance
      simp only [hexpires, RememberTxn.lookup, if_pos hdedup]
      rw [show recent_duplicates agent.agent_id (o.sha256 mem.content) now _ = _ from rfl, hpick]
    obtain ⟨next_id, rows', history', hrun, hview'⟩ :=
      @ih db rows history (ids ++ [existing.id]) episodic_count rfl
    refine ⟨next_id, rows', history', ?_, hview'⟩
    have hrest := (alone_step hidle hstep).trans hrun
    rw [List.append_assoc] at hrest
    exact hrest
  | @insert v v' mem memories new_ids n expires hexpires hnew hstorable hrest ih =>
    subst hview
    have hlookup : RememberTxn.lookup o
        { agent, now, todo := mem :: memories, rows, history, ids, episodic_count } choice mem db =
          none := by
      unfold RememberTxn.lookup
      by_cases hdedup : mem.deduplicated
      · rw [if_pos hdedup]
        exact pick_none_iff.mpr (hnew hdedup)
      · rw [if_neg hdedup]
    obtain ⟨next_id, rows', history', hrun, hview'⟩ :=
      @ih { db with next_id := db.next_id + 1 }
        (rows ++ [memory_row o agent now mem expires db.next_id])
        (history ++ [remember_record o agent mem db.next_id]) (ids ++ [db.next_id])
        (episodic_count + if mem.type = .episodic then 1 else 0)
        (by simp [RememberTxn.view, insert_memory])
    refine ⟨next_id, rows', history', ?_, ?_⟩
    · have hrest := (alone_insert hidle hexpires hlookup).trans hrun
      simp only [List.append_assoc, Nat.add_assoc] at hrest
      exact hrest
    · rw [← hview']
      rfl

end

/-- A request that nothing overlaps commits what `remember` gives. -/
theorem a_request_alone_is_remember {o : Outside K} {agent : AgentIdentity} {now : Timestamp}
    {choice : Nat} {memories : List MemoryItem} {s : Requests K} {db' : Db K} {ids : List UUID}
    (hidle : ∀ p ∈ s.requests, p.locks agent.agent_id = false)
    (h : remember o agent now choice memories s.db = .ok (db', ids)) :
    ∃ s₀ s₁, remember_step o s (.begin agent now memories) = some s₀ ∧
      Alone o choice s.requests.length s₀ s₁ ∧
      remember_step o s₁ (.commit s.requests.length) =
        some { db := db', requests := s.requests ++ [.committed ids] } := by
  obtain ⟨hactive, db₁, n, hbatch, rfl⟩ := remember_iff_batch.mp h
  have hbegin : remember_step o s (.begin agent now memories) =
      some { s with requests := s.requests ++ [.running { agent, now, todo := memories }] } := by
    simp only [remember_step, hactive]
  obtain ⟨next_id, rows, history, hrun, hview⟩ :=
    @Batch.alone K o choice s.requests agent now s.db db₁ memories ids n hbatch hidle s.db
      [] [] [] 0 (by simp [RememberTxn.view])
  simp only [List.nil_append, Nat.zero_add] at hrun hview
  have hcommit : ∀ counted, (counted = true ∨ n = 0) → remember_step o
      { db := { s.db with next_id }, requests := s.requests ++ [.running
        { agent, now, todo := [], rows, history, ids, episodic_count := n, counted }] }
      (.commit s.requests.length) =
        some { db := qortia.counted agent.agent_id now n db₁
               requests := s.requests ++ [.committed ids] } := by
    intro counted hcounted
    have hdone : RememberTxn.done (K := K)
        { agent, now, todo := [], rows, history, ids, episodic_count := n, counted } = true := by
      rcases hcounted with hc | hn
      · simp [RememberTxn.done, hc]
      · simp [RememberTxn.done, hn]
    simp only [remember_step, List.getElem?_concat_length, hdone, if_true, ← hview]
    simp [RememberTxn.commit, RememberTxn.view]
  by_cases hn : n > 0
  · have hcount : RememberTxn.advance o choice false { s.db with next_id }
        { agent, now, todo := [], rows, history, ids, episodic_count := n } =
          some (next_id, .running
            { agent, now, todo := [], rows, history, ids, episodic_count := n,
              counted := true }) := by
      unfold RememberTxn.advance
      simp [hn]
    exact ⟨_, _, hbegin, hrun.trans (alone_step hidle hcount), hcommit true (.inl rfl)⟩
  · exact ⟨_, _, hbegin, hrun, hcommit false (.inr (by omega))⟩

/-! ## The laws -/

/-- However the requests overlap, no duplicate is stored, as long as no lookup finds nothing
while another open request holds the same key. -/
theorem overlapping_requests_store_no_duplicate (o : Outside K) {db : Db K}
    (hstart : NoDuplicates db) {actions : List RememberAction}
    (hguard : runs.Guarded (remember_step o) (ChecksAlone o) { db } actions) :
    runs.Always (remember_step o) (fun s => NoDuplicates s.db) { db } actions := by
  refine runs.always_of_invariant (fun s h => h.committed_apart)
    (fun s a s' h hok hstep => remember_step_good h hok hstep) ?_ hguard
  exact check_then_insert.Good.start hstart

/-- A client that sends its request again before the first one has ended. The second lookup comes
after the COMMIT of the first request. -/
def retry_after_the_commit : List RememberAction :=
  [.begin chief 1 [standup_cancelled], .begin chief 2 [standup_cancelled], .advance 0 0,
    .advance 0 0, .advance 0 0, .advance 0 0, .commit 0, .advance 1 0, .commit 1]

theorem overlapping_requests_store_no_duplicate_retry :
    runs.Always (remember_step no_models) (fun s => NoDuplicates s.db) { db := standup_db }
      retry_after_the_commit :=
  overlapping_requests_store_no_duplicate no_models (by decide) (by decide +kernel)

/-- Both requests look up before one of them inserts. -/
def retry_before_the_insert : List RememberAction :=
  [.begin chief 1 [standup_cancelled], .begin chief 2 [standup_cancelled], .advance 0 0,
    .advance 1 0, .advance 0 0, .advance 0 0, .advance 0 0, .commit 0, .advance 1 0, .advance 1 0,
    .advance 1 0, .commit 1]

theorem a_retry_stores_the_memory_twice :
    ¬ ∀ (o : Outside ℚ) (db : Db ℚ) (actions : List RememberAction), Function.Injective o.sha256 →
      db.Keyed → NoDuplicates db →
        runs.Always (remember_step o) (fun s => NoDuplicates s.db) { db } actions := by
  intro h
  have hnot : ∀ s : Requests ℚ, (!decide (NoDuplicates s.db)) = true → ¬ NoDuplicates s.db := by
    intro s hs hno
    simp [hno] at hs
  refine runs.not_always_of_check hnot ?_
    (h no_models standup_db retry_before_the_insert Function.injective_id standup_db_keyed
      (by decide))
  decide +kernel

end qortia
