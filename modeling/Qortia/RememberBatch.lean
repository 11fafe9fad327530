-- The laws of one `remember` request: what a batch of memories adds to the tables, what the ids of
-- the answer name, and what is left of a request that fails on the way.
import Qortia.AuditTrail
import Qortia.Lib.Transaction

namespace qortia

variable {K : Type}

/-! ## A batch, memory by memory -/

/-- `Batch o agent now choice db memories db' ids n`: the loop over the memories leads from `db` to
`db'`, gives `ids`, and counts `n` new episodic memories. -/
inductive Batch (o : Outside K) (agent : AgentIdentity) (now : Timestamp) (choice : Nat) :
    Db K → List MemoryItem → Db K → List UUID → Nat → Prop where
  | nil (db : Db K) : Batch o agent now choice db [] db [] 0
  | duplicate {db db' : Db K} {mem : MemoryItem} {memories : List MemoryItem} {ids : List UUID}
    {n : Nat} (expires : Option Timestamp) (existing : HindsightMemory K)
    (hexpires : expires_at now mem = .ok expires) (hdedup : mem.deduplicated)
    (hpick : pick choice (recent_duplicates agent.agent_id (o.sha256 mem.content) now db) =
      some existing)
    (hrest : Batch o agent now choice db memories db' ids n) :
    Batch o agent now choice db (mem :: memories) db' (existing.id :: ids) n
  | insert {db db' : Db K} {mem : MemoryItem} {memories : List MemoryItem} {ids : List UUID}
    {n : Nat} (expires : Option Timestamp) (hexpires : expires_at now mem = .ok expires)
    (hnew : mem.deduplicated →
      recent_duplicates agent.agent_id (o.sha256 mem.content) now db = [])
    (hstorable : mem.storable = true)
    (hrest : Batch o agent now choice
      (insert_memory (memory_row o agent now mem expires db.next_id)
        (db.memory_history ++ [remember_record o agent mem db.next_id]) db) memories db' ids n) :
    Batch o agent now choice db (mem :: memories) db' (db.next_id :: ids)
      ((if mem.type = .episodic then 1 else 0) + n)

section
variable {o : Outside K} {agent : AgentIdentity} {now : Timestamp} {choice : Nat}
  {db db' : Db K} {memories : List MemoryItem} {ids : List UUID} {n : Nat}

theorem batch_of_loop {s s' : Remembering K}
    (h : memories.foldlM (remember_one o agent now choice) s = .ok s') :
    ∃ ids n, Batch o agent now choice s.db memories s'.db ids n ∧ s'.ids = s.ids ++ ids ∧
      s'.episodic_count = s.episodic_count + n := by
  induction memories generalizing s with
  | nil =>
    cases h
    exact ⟨[], 0, .nil _, (List.append_nil _).symm, rfl⟩
  | cons mem memories ih =>
    rw [List.foldlM_cons] at h
    obtain ⟨s₁, hs₁, h⟩ := bind_ok h
    obtain ⟨ids, n, hbatch, hids, hn⟩ := ih h
    obtain ⟨expires, hexpires, ⟨hdedup, existing, hpick, rfl⟩ | ⟨hnew, hstorable, rfl⟩⟩ :=
      remember_one_cases hs₁
    · exact ⟨existing.id :: ids, n, .duplicate expires existing hexpires hdedup hpick hbatch,
        by simp [hids], hn⟩
    · refine ⟨s.db.next_id :: ids, _, .insert expires hexpires hnew hstorable hbatch, ?_, ?_⟩
      · simp [hids, remembered]
      · rw [hn]
        exact Nat.add_assoc _ _ _

theorem Batch.loop (h : Batch o agent now choice db memories db' ids n) (s : Remembering K)
    (hs : s.db = db) :
    memories.foldlM (remember_one o agent now choice) s =
      .ok { db := db', ids := s.ids ++ ids, episodic_count := s.episodic_count + n } := by
  induction h generalizing s with
  | nil db =>
    subst hs
    simp [pure, Except.pure]
  | duplicate expires existing hexpires hdedup hpick hrest ih =>
    subst hs
    have hone := remember_one_duplicate hexpires hdedup hpick
    rw [List.foldlM_cons, hone]
    simp only [bind, Except.bind]
    rw [ih { s with ids := s.ids ++ [existing.id] } rfl]
    simp
  | insert expires hexpires hnew hstorable hrest ih =>
    subst hs
    have hone := remember_one_insert choice hexpires hnew hstorable
    rw [List.foldlM_cons, hone]
    simp only [bind, Except.bind]
    rw [ih (remembered o agent now _ expires s) rfl]
    simp [remembered, Nat.add_assoc]

/-- The counter after the batch. -/
def counted (agent_id : UUID) (now : Timestamp) (n : Nat) (db : Db K) : Db K :=
  if n > 0 then count_episodic agent_id now n db else db

theorem remember_iff_batch :
    remember o agent now choice memories db = .ok (db', ids) ↔
      assert_agent_active agent.agent_id agent.tenant_id db = .ok () ∧
        ∃ db₁ n, Batch o agent now choice db memories db₁ ids n ∧
          db' = counted agent.agent_id now n db₁ := by
  unfold remember counted
  constructor
  · intro h
    obtain ⟨u, hactive, h⟩ := bind_ok h
    obtain ⟨s, hs, h⟩ := bind_ok h
    obtain ⟨ids, n, hbatch, hids, hn⟩ := batch_of_loop hs
    cases h
    simp only [List.nil_append, Nat.zero_add] at hids hn
    rw [hids, hn]
    exact ⟨hactive, s.db, n, hbatch, rfl⟩
  · rintro ⟨hactive, db₁, n, hbatch, rfl⟩
    rw [hactive]
    simp only [bind, Except.bind]
    rw [hbatch.loop { db } rfl]
    simp [pure, Except.pure]

/-- The rows that are there stay. -/
theorem Batch.subset (h : Batch o agent now choice db memories db' ids n) :
    db.hindsight_memories ⊆ db'.hindsight_memories := by
  induction h with
  | nil db => exact List.Subset.refl _
  | duplicate expires existing hexpires hdedup hpick hrest ih => exact ih
  | insert expires hexpires hnew hstorable hrest ih =>
    intro r hr
    exact ih (List.mem_append_left _ hr)

theorem Batch.inserted_mem {mem : MemoryItem} {expires : Option Timestamp}
    (h : Batch o agent now choice
      (insert_memory (memory_row o agent now mem expires db.next_id)
        (db.memory_history ++ [remember_record o agent mem db.next_id]) db) memories db' ids n) :
    memory_row o agent now mem expires db.next_id ∈ db'.hindsight_memories :=
  h.subset (List.mem_append_right _ (List.mem_singleton_self _))

theorem Batch.keyed (h : Batch o agent now choice db memories db' ids n) (hkeyed : db.Keyed) :
    db'.Keyed := by
  induction h with
  | nil db => exact hkeyed
  | duplicate expires existing hexpires hdedup hpick hrest ih => exact ih hkeyed
  | insert expires hexpires hnew hstorable hrest ih => exact ih (hkeyed.insert_memory (by rfl) _)

/-- The rows do not depend on the duplicates that `LIMIT 1` gives. -/
theorem Batch.other_choice (h : Batch o agent now choice db memories db' ids n) (choice' : Nat) :
    ∃ ids', Batch o agent now choice' db memories db' ids' n := by
  induction h with
  | nil db => exact ⟨[], .nil db⟩
  | @duplicate db _ mem _ _ _ expires existing hexpires hdedup hpick hrest ih =>
    obtain ⟨ids', hrest'⟩ := ih
    cases hpick' :
        pick choice' (recent_duplicates agent.agent_id (o.sha256 mem.content) now db) with
    | some existing' => exact ⟨_, .duplicate expires existing' hexpires hdedup hpick' hrest'⟩
    | none =>
      rw [pick_none_iff.mp hpick'] at hpick
      cases hpick
  | insert expires hexpires hnew hstorable hrest ih =>
    obtain ⟨ids', hrest'⟩ := ih
    exact ⟨_, .insert expires hexpires hnew hstorable hrest'⟩

/-! ## What the ids name -/

theorem mem_recent_duplicates {r : HindsightMemory K} {agent_id : UUID} {content_hash : String} :
    r ∈ recent_duplicates agent_id content_hash now db ↔
      r ∈ db.hindsight_memories ∧ r.agent_id = agent_id ∧ r.content_hash = some content_hash ∧
        r.tier = .active ∧ now - DAY < r.created_at := by
  unfold recent_duplicates
  rw [List.mem_filter]
  simp [and_assoc]

/-- A new row is a recent duplicate of what has its hash. -/
theorem mem_recent_insert {r : HindsightMemory K} {mem : MemoryItem} {expires : Option Timestamp}
    {content_hash : String} {history : List MemoryHistory} :
    r ∈ recent_duplicates agent.agent_id content_hash now
        (insert_memory (memory_row o agent now mem expires db.next_id) history db) ↔
      r ∈ recent_duplicates agent.agent_id content_hash now db ∨
        r = memory_row o agent now mem expires db.next_id ∧
          o.sha256 mem.content = content_hash := by
  have hday : now - DAY < now := Int.sub_lt_self now (by decide)
  simp only [mem_recent_duplicates, insert_memory, List.mem_append, List.mem_singleton]
  constructor
  · rintro ⟨hr | rfl, hrest⟩
    · exact .inl ⟨hr, hrest⟩
    · exact .inr ⟨rfl, Option.some.inj hrest.2.1⟩
  · rintro (⟨hr, hrest⟩ | ⟨rfl, rfl⟩)
    · exact ⟨.inl hr, hrest⟩
    · exact ⟨.inr rfl, rfl, rfl, rfl, hday⟩

/-- The id names a row of the agent that has the content and the type of the memory. -/
def Stored (agent : AgentIdentity) (db : Db K) (mem : MemoryItem) (id : UUID) : Prop :=
  ∃ r ∈ db.hindsight_memories, r.id = id ∧ r.agent_id = agent.agent_id ∧
    r.content = mem.content ∧ r.type = mem.type

/-- What a memory is taken to be a duplicate of is of its type and content: the recent rows with
its hash, and the memories before it in the batch with its hash. -/
structure DuplicatesAlike (o : Outside K) (agent : AgentIdentity) (now : Timestamp)
    (memories : List MemoryItem) (db : Db K) : Prop where
  stored : ∀ mem ∈ memories, mem.deduplicated →
    ∀ r ∈ recent_duplicates agent.agent_id (o.sha256 mem.content) now db,
      r.type = mem.type ∧ r.content = mem.content
  batch : memories.Pairwise fun earlier later => later.deduplicated →
    o.sha256 earlier.content = o.sha256 later.content →
      earlier.type = later.type ∧ earlier.content = later.content

theorem DuplicatesAlike.tail {mem : MemoryItem}
    (h : DuplicatesAlike o agent now (mem :: memories) db) :
    DuplicatesAlike o agent now memories db :=
  ⟨fun m hm => h.stored m (List.mem_cons_of_mem _ hm), (List.pairwise_cons.mp h.batch).2⟩

/-- The row of a memory counts for the memories after it. -/
theorem duplicates_alike_insert {mem : MemoryItem} {expires : Option Timestamp}
    {history : List MemoryHistory} :
    DuplicatesAlike o agent now memories
        (insert_memory (memory_row o agent now mem expires db.next_id) history db) ↔
      DuplicatesAlike o agent now memories db ∧
        ∀ later ∈ memories, later.deduplicated → o.sha256 mem.content = o.sha256 later.content →
          mem.type = later.type ∧ mem.content = later.content := by
  constructor
  · intro h
    refine ⟨⟨fun m hm hdedup r hr => ?_, h.batch⟩, fun later hlater hdedup hhash => ?_⟩
    · exact h.stored m hm hdedup r (mem_recent_insert.mpr (.inl hr))
    · exact h.stored later hlater hdedup _ (mem_recent_insert.mpr (.inr ⟨rfl, hhash⟩))
  · rintro ⟨h, hmem⟩
    refine ⟨fun m hm hdedup r hr => ?_, h.batch⟩
    rcases mem_recent_insert.mp hr with hr | ⟨rfl, hhash⟩
    · exact h.stored m hm hdedup r hr
    · exact hmem m hm hdedup hhash

theorem Batch.stored (h : Batch o agent now choice db memories db' ids n)
    (halike : DuplicatesAlike o agent now memories db) :
    List.Forall₂ (Stored agent db') memories ids := by
  induction h with
  | nil db => exact .nil
  | duplicate expires existing hexpires hdedup hpick hrest ih =>
    refine .cons ?_ (ih halike.tail)
    have hmem := pick_mem hpick
    obtain ⟨htype, hcontent⟩ := halike.stored _ List.mem_cons_self hdedup existing hmem
    obtain ⟨hrow, hagent, -⟩ := mem_recent_duplicates.mp hmem
    exact ⟨existing, hrest.subset hrow, rfl, hagent, hcontent, htype⟩
  | insert expires hexpires hnew hstorable hrest ih =>
    refine .cons ⟨_, hrest.inserted_mem, rfl, rfl, rfl, rfl⟩ (ih ?_)
    exact duplicates_alike_insert.mpr ⟨halike.tail, (List.pairwise_cons.mp halike.batch).1⟩

/-- If the ids are right whichever duplicate `LIMIT 1` gives, the duplicates are alike. -/
theorem Batch.duplicates_alike (h : Batch o agent now choice db memories db' ids n)
    (hkeyed : db'.Keyed)
    (hstored : ∀ choice' ids', Batch o agent now choice' db memories db' ids' n →
      List.Forall₂ (Stored agent db') memories ids') :
    DuplicatesAlike o agent now memories db := by
  induction h with
  | nil db => exact ⟨by simp, List.Pairwise.nil⟩
  | @duplicate db db' mem memories _ _ expires existing hexpires hdedup hpick hrest ih =>
    have halike : DuplicatesAlike o agent now memories db := by
      refine ih hkeyed fun choice' ids' hrest' => ?_
      cases hpick' : pick choice'
          (recent_duplicates agent.agent_id (o.sha256 mem.content) now db) with
      | none =>
        rw [pick_none_iff.mp hpick'] at hpick
        cases hpick
      | some existing' =>
        have hall := hstored choice' _ (.duplicate expires existing' hexpires hdedup hpick' hrest')
        exact (List.forall₂_cons.mp hall).2
    -- Each duplicate is the one that some choice gives.
    have hhead : ∀ r ∈ recent_duplicates agent.agent_id (o.sha256 mem.content) now db,
        r.type = mem.type ∧ r.content = mem.content := by
      intro r hr
      obtain ⟨k, hk, hget⟩ := List.mem_iff_getElem.mp hr
      have hpick' : pick k (recent_duplicates agent.agent_id (o.sha256 mem.content) now db) =
          some r := by
        unfold pick
        rw [Nat.mod_eq_of_lt hk, List.getElem?_eq_getElem hk, hget]
      obtain ⟨ids', hrest'⟩ := hrest.other_choice k
      have hall := hstored k _ (.duplicate expires r hexpires hdedup hpick' hrest')
      obtain ⟨x, hx, hid, -, hcontent, htype⟩ := (List.forall₂_cons.mp hall).1
      have hrow := hrest.subset (mem_recent_duplicates.mp hr).1
      rw [← List.inj_on_of_nodup_map hkeyed.hindsight_nodup hx hrow hid]
      exact ⟨htype, hcontent⟩
    have hexisting := mem_recent_duplicates.mp (pick_mem hpick)
    refine ⟨?_, List.pairwise_cons.mpr ⟨fun later hlater hdedup' hhash => ?_, halike.batch⟩⟩
    · rw [List.forall_mem_cons]
      exact ⟨fun _ => hhead, halike.stored⟩
    · -- The duplicate of the memory is one of the later memory too.
      have hsame := hhead existing (pick_mem hpick)
      rw [hhash] at hexisting
      have hlater' := halike.stored later hlater hdedup' existing
        (mem_recent_duplicates.mpr hexisting)
      exact ⟨hsame.1.symm.trans hlater'.1, hsame.2.symm.trans hlater'.2⟩
  | insert expires hexpires hnew hstorable hrest ih =>
    have halike := ih hkeyed fun choice' ids' hrest' =>
      (List.forall₂_cons.mp (hstored choice' _ (.insert expires hexpires hnew hstorable hrest'))).2
    obtain ⟨hold, hmem⟩ := duplicates_alike_insert.mp halike
    refine ⟨?_, List.pairwise_cons.mpr ⟨hmem, hold.batch⟩⟩
    rw [List.forall_mem_cons]
    refine ⟨fun hdedup r hr => ?_, hold.stored⟩
    rw [hnew hdedup] at hr
    cases hr

end

/-- A request that commits gives ids of rows with the contents and the types of its memories,
whichever duplicates it finds first, exactly when what it takes for duplicates is of the same
type and content. -/
theorem the_ids_name_what_was_sent_iff {o : Outside K} {agent : AgentIdentity} {now : Timestamp}
    {memories : List MemoryItem} {db : Db K} (hkeyed : db.Keyed)
    (hcommits : ∃ choice answer, remember o agent now choice memories db = .ok answer) :
    (∀ choice db' ids, remember o agent now choice memories db = .ok (db', ids) →
        List.Forall₂ (Stored agent db') memories ids) ↔
      DuplicatesAlike o agent now memories db := by
  have hcounted : ∀ n (db₁ : Db K) mem id,
      Stored agent (counted agent.agent_id now n db₁) mem id ↔ Stored agent db₁ mem id := by
    intro n db₁ mem id
    unfold counted
    by_cases hn : n > 0
    · rw [if_pos hn]
      rfl
    · rw [if_neg hn]
  constructor
  · intro hstored
    obtain ⟨choice, ⟨db', ids⟩, hrequest⟩ := hcommits
    obtain ⟨hactive, db₁, n, hbatch, rfl⟩ := remember_iff_batch.mp hrequest
    refine hbatch.duplicates_alike (hbatch.keyed hkeyed) fun choice' ids' hbatch' => ?_
    have hall := hstored choice' _ ids' (remember_iff_batch.mpr ⟨hactive, db₁, n, hbatch', rfl⟩)
    exact hall.imp fun mem id => (hcounted n db₁ mem id).mp
  · intro halike choice db' ids hrequest
    obtain ⟨-, db₁, n, hbatch, rfl⟩ := remember_iff_batch.mp hrequest
    exact (hbatch.stored halike).imp fun mem id => (hcounted n db₁ mem id).mpr

def moved_to_ten : String := "the standup moved to ten"

def cancelled_today : String := "the standup is cancelled today"

theorem moved_to_ten_words : 5 ≤ (text.words moved_to_ten.toList).length := by decide

theorem cancelled_today_words : 5 ≤ (text.words cancelled_today.toList).length := by decide

/-- A note that expires in a minute. -/
def standup_db : Db ℚ :=
  { chief_db with
    hindsight_memories :=
      [{ id := 0, tenant_id := 1, agent_id := 20, type := .short_term
         content := moved_to_ten, expires_at := some 60000000
         content_hash := some moved_to_ten, valid_from := 0, created_at := 0 }]
    next_id := 1 }

theorem standup_db_keyed : standup_db.Keyed := by
  refine ⟨?_, ?_, ?_, ?_, ?_⟩ <;> decide

def standup_moved : MemoryItem :=
  { type := .episodic, content := moved_to_ten, content_floor := moved_to_ten_words }

def standup_cancelled : MemoryItem :=
  { type := .episodic, content := cancelled_today, content_floor := cancelled_today_words }

theorem the_ids_name_what_was_sent_standup :
    DuplicatesAlike no_models chief 1 [standup_cancelled, standup_cancelled] standup_db ∧
      ∀ choice db' ids, remember no_models chief 1 choice [standup_cancelled, standup_cancelled]
          standup_db = .ok (db', ids) →
        List.Forall₂ (Stored chief db') [standup_cancelled, standup_cancelled] ids := by
  have halike : DuplicatesAlike no_models chief 1 [standup_cancelled, standup_cancelled]
      standup_db := by
    constructor
    · decide
    · decide
  exact ⟨halike, (the_ids_name_what_was_sent_iff standup_db_keyed ⟨0, _, by rfl⟩).mpr halike⟩

/-- The episodic memory is answered with the id of the note that expires. -/
theorem an_episodic_memory_is_lost_to_a_note :
    ¬ ∀ (o : Outside ℚ) (agent : AgentIdentity) (now : Timestamp) (choice : Nat)
      (memories : List MemoryItem) (db db' : Db ℚ) (ids : List UUID), Function.Injective o.sha256 →
      db.Keyed → remember o agent now choice memories db = .ok (db', ids) →
        List.Forall₂ (Stored agent db') memories ids := by
  intro h
  have hstored := h no_models chief 1 0 [standup_moved] standup_db standup_db [0]
    Function.injective_id standup_db_keyed (by rfl)
  obtain ⟨r, hr, -, -, -, htype⟩ := (List.forall₂_cons.mp hstored).1
  rw [List.mem_singleton.mp hr] at htype
  cases htype

/-! ## The request, statement by statement -/

section
open transaction

/-- The answer of the loop: `ids` and `episodic_count`. -/
abbrev Answer := List UUID × Nat

/-- The lookup, which the other types do without. -/
def lookup_duplicate (o : Outside K) (raises : Faults Failure) (agent : AgentIdentity)
    (now : Timestamp) (choice : Nat) (mem : MemoryItem) :
    Script (Db K) Failure (Option (HindsightMemory K)) :=
  if mem.deduplicated then
    statement raises fun db =>
      (pick choice (recent_duplicates agent.agent_id (o.sha256 mem.content) now db), db)
  else compute (.ok none)

/-- One turn of the loop as the statements that it sends. -/
def remember_one_script (o : Outside K) (raises : Faults Failure) (agent : AgentIdentity)
    (now : Timestamp) (choice : Nat) (answer : Answer) (mem : MemoryItem) :
    Script (Db K) Failure Answer := do
  let expires_at ← compute (expires_at now mem)
  let existing ← lookup_duplicate o raises agent now choice mem
  match existing with
  | some existing => compute (.ok (answer.1 ++ [existing.id], answer.2))
  | none =>
    -- the INSERT of a row that PostgreSQL does not take
    compute (check_storable mem.storable)
    let row_id ← statement raises fun db =>
      (db.next_id, insert_memory (memory_row o agent now mem expires_at db.next_id)
        db.memory_history db)
    statement raises fun db =>
      ((), { db with memory_history := db.memory_history ++ [remember_record o agent mem row_id] })
    compute (.ok (answer.1 ++ [row_id], answer.2 + if mem.type = .episodic then 1 else 0))

/-- The UPDATE of the counter, if there is something to count. -/
def count_script (raises : Faults Failure) (agent : AgentIdentity) (now : Timestamp) (n : Nat) :
    Script (Db K) Failure Unit :=
  if n > 0 then statement raises fun db => ((), count_episodic agent.agent_id now n db)
  else compute (.ok ())

/-- The body of `remember`. -/
def remember_script (o : Outside K) (raises : Faults Failure) (agent : AgentIdentity)
    (now : Timestamp) (choice : Nat) (memories : List MemoryItem) :
    Script (Db K) Failure (List UUID) := do
  let active ← statement raises fun db =>
    (assert_agent_active agent.agent_id agent.tenant_id db, db)
  compute active
  let answer ← memories.foldlM (remember_one_script o raises agent now choice) ([], 0)
  count_script raises agent now answer.2
  compute (.ok answer.1)

variable {o : Outside K} {raises : Faults Failure} {agent : AgentIdentity} {now : Timestamp}
  {choice : Nat}

theorem lookup_duplicate_does (mem : MemoryItem) :
    Does raises (lookup_duplicate (K := K) o raises agent now choice mem)
      (fun db => .ok (if mem.deduplicated then
        pick choice (recent_duplicates agent.agent_id (o.sha256 mem.content) now db)
      else none, db)) := by
  unfold lookup_duplicate
  by_cases hdedup : mem.deduplicated
  · simp only [if_pos hdedup]
    exact does_statement _
  · simp only [if_neg hdedup]
    exact (does_compute _).congr fun _ => rfl

/-- The statements of one turn do what the turn does. -/
theorem remember_one_script_does (answer : Answer) (mem : MemoryItem) :
    Does raises (remember_one_script (K := K) o raises agent now choice answer mem)
      (fun db => (remember_one o agent now choice ⟨db, answer.1, answer.2⟩ mem).map fun s =>
        ((s.ids, s.episodic_count), s.db)) := by
  have hgiven : ∀ expires (existing : Option (HindsightMemory K)),
      Does raises
        (match existing with
        | some existing => compute (.ok (answer.1 ++ [existing.id], answer.2))
        | none => do
          compute (check_storable mem.storable)
          let row_id ← statement raises fun db =>
            (db.next_id, insert_memory (memory_row o agent now mem expires db.next_id)
              db.memory_history db)
          statement raises fun db =>
            ((), { db with
              memory_history := db.memory_history ++ [remember_record o agent mem row_id] })
          compute (.ok (answer.1 ++ [row_id],
            answer.2 + if mem.type = .episodic then 1 else 0)))
        (fun db => match existing with
          | some existing => .ok ((answer.1 ++ [existing.id], answer.2), db)
          | none => (check_storable mem.storable).map fun _ =>
              (fun s : Remembering K => ((s.ids, s.episodic_count), s.db))
                (remembered o agent now mem expires ⟨db, answer.1, answer.2⟩)) := by
    intro expires existing
    cases existing with
    | some existing => exact (does_compute _).congr fun _ => rfl
    | none =>
      refine (Does.bind (does_compute _) fun _ => Does.bind (does_statement _) fun _ =>
        Does.bind (does_statement _) fun _ => does_compute _).congr fun db => ?_
      cases check_storable mem.storable <;> rfl
  refine (Does.bind (does_compute _) fun expires =>
    Does.bind (lookup_duplicate_does mem) (hgiven expires)).congr fun db => ?_
  cases hexpires : expires_at now mem with
  | error e =>
    unfold remember_one
    rw [hexpires]
    rfl
  | ok expires =>
    simp only [Except.map, bind, Except.bind]
    by_cases hdedup : mem.deduplicated
    · cases hpick : pick choice
          (recent_duplicates agent.agent_id (o.sha256 mem.content) now db) with
      | some existing =>
        rw [remember_one_duplicate hexpires hdedup hpick, if_pos hdedup]
      | none =>
        rw [remember_one_new choice hexpires fun _ => pick_none_iff.mp hpick, if_pos hdedup]
        cases check_storable mem.storable <;> rfl
    · rw [remember_one_new choice hexpires fun h => absurd h hdedup, if_neg hdedup]
      cases check_storable mem.storable <;> rfl

theorem remember_loop_script_does (memories : List MemoryItem) (answer : Answer) :
    Does raises (memories.foldlM (remember_one_script (K := K) o raises agent now choice) answer)
      (fun db => (memories.foldlM (remember_one o agent now choice)
        ⟨db, answer.1, answer.2⟩).map fun s => ((s.ids, s.episodic_count), s.db)) := by
  induction memories generalizing answer with
  | nil => exact (does_compute (.ok answer)).congr fun _ => rfl
  | cons mem memories ih =>
    rw [List.foldlM_cons]
    refine (Does.bind (remember_one_script_does answer mem) ih).congr fun db => ?_
    rw [List.foldlM_cons]
    simp only [bind, Except.bind]
    cases remember_one o agent now choice ⟨db, answer.1, answer.2⟩ mem <;> rfl

theorem count_script_does (n : Nat) :
    Does raises (count_script (K := K) raises agent now n)
      (fun db => .ok ((), if n > 0 then count_episodic agent.agent_id now n db else db)) := by
  unfold count_script
  by_cases hn : n > 0
  · simp only [if_pos hn]
    exact does_statement _
  · simp only [if_neg hn]
    exact (does_compute _).congr fun _ => rfl

/-- The statements of `remember` do what `remember` does. -/
theorem remember_script_does (memories : List MemoryItem) :
    Does raises (remember_script (K := K) o raises agent now choice memories)
      (fun db => (remember o agent now choice memories db).map Prod.swap) := by
  refine (Does.bind (does_statement _) fun active => Does.bind (does_compute active) fun _ =>
    Does.bind (remember_loop_script_does memories _) fun answer =>
    Does.bind (count_script_does answer.2) fun _ => does_compute _).congr fun db => ?_
  unfold remember
  simp only [bind, Except.bind]
  cases assert_agent_active agent.agent_id agent.tenant_id db with
  | error e => rfl
  | ok u =>
    simp only [Except.map]
    cases memories.foldlM (remember_one o agent now choice) { db } <;> rfl

theorem map_swap_eq_ok {α β : Type} {x : Except Failure (α × β)} {a : α} {b : β} :
    x.map Prod.swap = .ok (b, a) ↔ x = .ok (a, b) := by
  cases x with
  | error e => simp [Except.map]
  | ok r => simp [Except.map, Prod.ext_iff, and_comm]

/-- A body that returns has done what `remember` does. -/
theorem remember_script_ok {memories : List MemoryItem} {ids : List UUID} {c c' : Connection (Db K)}
    (h : remember_script o raises agent now choice memories c = (.ok ids, c')) :
    remember o agent now choice memories c.state = .ok (c'.state, ids) :=
  map_swap_eq_ok.mp ((remember_script_does memories).done h)

/-- The request as the client sees it: an exception rolls the transaction back. -/
def remember_request (o : Outside K) (raises : Faults Failure) (agent : AgentIdentity)
    (now : Timestamp) (choice : Nat) (memories : List MemoryItem) (db : Db K) :
    Except Failure (List UUID) × Db K :=
  atomically raises (remember_script o raises agent now choice memories) db

/-- When no statement raises, the request is `remember`. -/
theorem remember_request_iff {memories : List MemoryItem} {db db' : Db K} {ids : List UUID} :
    remember_request o (fun _ => none) agent now choice memories db = (.ok ids, db') ↔
      remember o agent now choice memories db = .ok (db', ids) := by
  unfold remember_request
  rw [(remember_script_does memories).atomically_ok_iff, map_swap_eq_ok]

end

/-! ## What a request adds -/

/-- The record of a new row. -/
def new_record (o : Outside K) (r : HindsightMemory K) : MemoryHistory :=
  { tenant_id := r.tenant_id, agent_id := r.agent_id, operation := .remember
    target_table := .hindsight_memories, target_id := some r.id
    content_hash := some (o.sha256 r.content) }

def new_episodic (new : List (HindsightMemory K)) : Nat := new.countP (·.type = .episodic)

/-- The tables with the new rows, a record for each one, and the counter of the agent moved by the
episodic ones. -/
def with_new_rows (o : Outside K) (agent : AgentIdentity) (now : Timestamp)
    (new : List (HindsightMemory K)) (db : Db K) : Db K :=
  { db with
    qortia_agents :=
      if new_episodic new = 0 then db.qortia_agents
      else db.qortia_agents.map fun a =>
        if a.id = agent.agent_id then
          { a with
            reflection_counter := a.reflection_counter + new_episodic new, updated_at := now }
        else a
    hindsight_memories := db.hindsight_memories ++ new
    memory_history := db.memory_history ++ new.map (new_record o)
    next_id := db.next_id + new.length }

section
variable {o : Outside K} {agent : AgentIdentity} {now : Timestamp} {choice : Nat}
  {db db' : Db K} {memories : List MemoryItem} {ids : List UUID} {n : Nat}

/-- The new rows of a batch are the agent's, and their ids are new. -/
theorem Batch.added (h : Batch o agent now choice db memories db' ids n) :
    ∃ new, db' = { db with
        hindsight_memories := db.hindsight_memories ++ new
        memory_history := db.memory_history ++ new.map (new_record o)
        next_id := db.next_id + new.length } ∧
      n = new_episodic new ∧ new.map (·.id) = List.range' db.next_id new.length ∧
      ∀ r ∈ new, r.agent_id = agent.agent_id ∧ r.tenant_id = agent.tenant_id := by
  induction h with
  | nil db => exact ⟨[], by simp, rfl, rfl, by simp⟩
  | duplicate expires existing hexpires hdedup hpick hrest ih => exact ih
  | @insert db db' mem _ _ _ expires hexpires hnew hstorable hrest ih =>
    obtain ⟨new, rfl, hn, hids, howner⟩ := ih
    refine ⟨memory_row o agent now mem expires db.next_id :: new, ?_, ?_, ?_, ?_⟩
    · simp only [insert_memory, List.append_assoc, List.singleton_append, List.map_cons,
        List.length_cons, Nat.add_assoc, Nat.add_comm 1]
      rfl
    · rw [hn]
      unfold new_episodic
      rw [List.countP_cons, Nat.add_comm]
      by_cases hepisodic : mem.type = .episodic
      · simp [memory_row, hepisodic]
      · simp [memory_row, hepisodic]
    · rw [List.map_cons, hids, List.length_cons, List.range'_succ]
      rfl
    · rw [List.forall_mem_cons]
      exact ⟨⟨rfl, rfl⟩, howner⟩

/-- A hash that a row carries is the hash of its content. -/
def Db.Hashed (o : Outside K) (db : Db K) : Prop :=
  ∀ r ∈ db.hindsight_memories, ∀ h, r.content_hash = some h → h = o.sha256 r.content

theorem Db.Hashed.insert_memory (h : db.Hashed o) {r : HindsightMemory K}
    (hr : ∀ x, r.content_hash = some x → x = o.sha256 r.content) (history : List MemoryHistory) :
    (qortia.insert_memory r history db).Hashed o := by
  intro x hx
  rcases List.mem_append.mp hx with hx | hx
  · exact h x hx
  · rw [List.mem_singleton.mp hx]
    exact hr

theorem memory_row_hashed (mem : MemoryItem) (expires : Option Timestamp) (id : UUID)
    (h : String) (hhash : (memory_row o agent now mem expires id).content_hash = some h) :
    h = o.sha256 (memory_row o agent now mem expires id).content :=
  (Option.some.inj hhash).symm

/-- Where no two contents have one hash, each id names a row with the content of its memory. -/
theorem Batch.contents (h : Batch o agent now choice db memories db' ids n)
    (hsha : Function.Injective o.sha256) (hhashed : db.Hashed o) :
    List.Forall₂ (fun mem id => ∃ r ∈ db'.hindsight_memories,
      r.id = id ∧ r.agent_id = agent.agent_id ∧ r.content = mem.content) memories ids := by
  induction h with
  | nil db => exact .nil
  | duplicate expires existing hexpires hdedup hpick hrest ih =>
    obtain ⟨hrow, hagent, hhash, -⟩ := mem_recent_duplicates.mp (pick_mem hpick)
    have hcontent := hsha (hhashed existing hrow _ hhash)
    exact .cons ⟨existing, hrest.subset hrow, rfl, hagent, hcontent.symm⟩ (ih hhashed)
  | insert expires hexpires hnew hstorable hrest ih =>
    refine .cons ⟨_, hrest.inserted_mem, rfl, rfl, rfl⟩ (ih ?_)
    exact hhashed.insert_memory (memory_row_hashed _ _ _) _

end

/-! ## The hashes along a run -/

theorem Db.Hashed.update {o : Outside K} {db : Db K} (h : db.Hashed o)
    {p : HindsightMemory K → Bool} {f : HindsightMemory K → HindsightMemory K}
    (hf : ∀ r, (f r).content_hash = r.content_hash ∧ (f r).content = r.content) :
    Db.Hashed o { db with hindsight_memories := rows.update p f db.hindsight_memories } := by
  intro x hx
  obtain ⟨r, hr, ⟨-, rfl⟩ | ⟨-, rfl⟩⟩ := rows.mem_update.mp hx
  · rw [(hf r).1, (hf r).2]
    exact h r hr
  · exact h x hr

theorem statement_hashed {o : Outside K} {db : Db K} (h : db.Hashed o) (w : Writer)
    (st : WriteStatement K) (ids : List UUID) : (st.exec w (db, ids)).1.Hashed o := by
  cases st with
  | prune ids' => exact h.update fun r => ⟨rfl, rfl⟩
  | supersede id => exact h.update fun r => ⟨rfl, rfl⟩
  | insert => exact h.insert_memory (by simp) db.memory_history

theorem audit_step_hashed [Field K] [LinearOrder K] [HasSqrt K] {o : Outside K} {cfg : Settings}
    {db db' : Db K} {call : AuditCall} (h : db.Hashed o)
    (hstep : audit_step o cfg db call = some db') : db'.Hashed o := by
  unfold audit_step at hstep
  by_cases hinterrupted : call.interrupted = true
  · rw [if_pos hinterrupted] at hstep
    cases hstep
    exact h
  · rw [if_neg hinterrupted] at hstep
    cases hrequest : call.request with
    | remember agent now choice memories =>
      rw [hrequest] at hstep
      cases hstep
      refine after_keeps h fun x hx => remember_preserves hx (fun db₁ mem expires hdb₁ => ?_)
        (fun _ _ hdb₁ => hdb₁) h
      exact hdb₁.insert_memory (memory_row_hashed mem expires _) _
    | remember_org agent now body =>
      rw [hrequest] at hstep
      cases hstep
      refine after_keeps h fun x hx => ?_
      obtain ⟨-, -, -, hdb'⟩ := remember_org_eq hx
      rw [hdb']
      exact h
    | forget agent now id =>
      rw [hrequest] at hstep
      cases hstep
      refine after_keeps h fun x hx => ?_
      obtain ⟨-, table, content, -, rfl⟩ := forget_eq hx
      cases table with
      | hindsight_memories => exact fun r hr => h r (rows.mem_delete.mp hr).1
      | org_memory => exact h
      | org_knowledge => exact h
    | reflect agent now answer failed =>
      rw [hrequest] at hstep
      cases hstep
      exact after_keeps h fun x hx => reflect_preserves hx
        (fun db₁ ids st hdb₁ => statement_hashed hdb₁ _ st ids) (fun _ hdb₁ => hdb₁)
        (fun _ _ hdb₁ => hdb₁) h

/-- Whatever the agents request, a hash that a row carries is the hash of its content. -/
theorem the_hashes_are_of_the_contents [Field K] [LinearOrder K] [HasSqrt K] (o : Outside K)
    (cfg : Settings) {db : Db K} (hblank : db.Blank) (calls : List AuditCall) :
    runs.Always (audit_step o cfg) (Db.Hashed o) db calls := by
  refine runs.always_of_invariant (fun _ h => h) (fun _ _ _ h _ hstep => audit_step_hashed h hstep)
    ?_ (runs.guarded_of_forall _ (fun _ _ => trivial) db calls)
  intro r hr
  rw [hblank.hindsight_memories] at hr
  cases hr

/-! ## All or nothing -/

/-- The counter of the agent, and nothing else, moves by a number that is not zero. -/
theorem counted_eq (agent_id : UUID) (now : Timestamp) (n : Nat) (db : Db K) :
    counted agent_id now n db = { db with
      qortia_agents :=
        if n = 0 then db.qortia_agents
        else db.qortia_agents.map fun a =>
          if a.id = agent_id then
            { a with reflection_counter := a.reflection_counter + n, updated_at := now }
          else a } := by
  unfold counted
  by_cases hn : n = 0
  · rw [if_neg (by omega), if_pos hn]
  · rw [if_pos (by omega), if_neg hn]
    unfold count_episodic rows.update
    simp only [decide_eq_true_eq]

/-- A request fails and changes no table, or it answers with one id for each memory, adds rows
with one record each, and moves the counter by the new episodic ones. -/
theorem a_request_is_all_or_nothing {o : Outside K} (hsha : Function.Injective o.sha256)
    {db db' : Db K} (hhashed : db.Hashed o) {raises : transaction.Faults Failure}
    {agent : AgentIdentity} {now : Timestamp} {choice : Nat} {memories : List MemoryItem}
    {result : Except Failure (List UUID)}
    (h : remember_request o raises agent now choice memories db = (result, db')) :
    (∃ e, result = .error e ∧ db' = db) ∨
      ∃ ids new, result = .ok ids ∧ db' = with_new_rows o agent now new db ∧
        List.Forall₂ (fun mem id => ∃ r ∈ db'.hindsight_memories,
          r.id = id ∧ r.agent_id = agent.agent_id ∧ r.content = mem.content) memories ids ∧
        new.map (·.id) = List.range' db.next_id new.length ∧
        ∀ r ∈ new, r.agent_id = agent.agent_id ∧ r.tenant_id = agent.tenant_id := by
  rcases transaction.atomically_cases h with hfails | ⟨ids, c, rfl, hbody, rfl⟩
  · exact .inl hfails
  · obtain ⟨-, db₁, n, hbatch, hdb'⟩ := remember_iff_batch.mp (remember_script_ok hbody)
    obtain ⟨new, hadded, rfl, hids, howner⟩ := hbatch.added
    have hcontents := hbatch.contents hsha hhashed
    have hrows : c.state.hindsight_memories = db₁.hindsight_memories := by
      rw [hdb']
      unfold counted
      by_cases hn : new_episodic new > 0
      · rw [if_pos hn]
        rfl
      · rw [if_neg hn]
    refine .inr ⟨ids, new, rfl, ?_, ?_, hids, howner⟩
    · rw [hdb', hadded, counted_eq]
      rfl
    · rw [hrows]
      exact hcontents

/-- A memory that was stored, a new one and its repetition. -/
theorem a_request_is_all_or_nothing_standup :
    let sent := remember_request no_models (fun _ => none) chief 1 0
      [standup_moved, standup_cancelled, standup_cancelled] standup_db
    ∃ ids new, sent.1 = .ok ids ∧ sent.2 = with_new_rows no_models chief 1 new standup_db ∧
      List.Forall₂ (fun mem id => ∃ r ∈ sent.2.hindsight_memories,
        r.id = id ∧ r.agent_id = chief.agent_id ∧ r.content = mem.content)
        [standup_moved, standup_cancelled, standup_cancelled] ids ∧
      new.map (·.id) = List.range' standup_db.next_id new.length ∧
      ∀ r ∈ new, r.agent_id = chief.agent_id ∧ r.tenant_id = chief.tenant_id := by
  intro sent
  have hhashed : standup_db.Hashed no_models := by
    intro r hr h hh
    rw [List.mem_singleton.mp hr] at hh ⊢
    exact (Option.some.inj hh).symm
  rcases a_request_is_all_or_nothing Function.injective_id hhashed
      (show remember_request no_models (fun _ => none) chief 1 0
        [standup_moved, standup_cancelled, standup_cancelled] standup_db = (sent.1, sent.2)
        from rfl)
    with ⟨e, he, -⟩ | ⟨ids, new, hsent⟩
  · cases he
  · exact ⟨ids, new, hsent⟩

end qortia
