-- `_maybe_dedup_memory` of `qortia.entity_graph`: a memory is archived as the duplicate of an
-- active one that is nearly the same. The query and the UPDATE are committed one by one, so that
-- the calls for several memories overlap. The laws are about the copy that should be left.
import Qortia.Lib.Forwarding
import Qortia.Lib.Runs
import Qortia.Outside

namespace qortia

variable {K : Type}

/-! ## One call -/

/-- The arguments of `_maybe_dedup_memory`, without the tenant, which it does not read. -/
structure DedupCall (K : Type) where
  memory_id : UUID
  embedding : List K
  agent_id : UUID
  memory_type : MemoryType
  deriving DecidableEq

/-- `str(id)`. -/
def uuid_text (id : UUID) : String := toString id

section
variable [Field K] [LinearOrder K]

/-- A row of the query. -/
def neighbour_row (o : Outside K) (now : Timestamp) (call : DedupCall K) (r : HindsightMemory K) :
    Option (UUID × K) :=
  r.embedding.bind fun v =>
    if r.agent_id = call.agent_id ∧ r.type = call.memory_type ∧ r.tier = .active ∧
        r.id ≠ call.memory_id ∧ now - 7 * DAY < r.created_at then
      some (r.id, o.similarity v call.embedding)
    else none

/-- The nearest neighbour with its similarity. -/
def dedup_neighbour (o : Outside K) (now : Timestamp) (call : DedupCall K) (db : Db K) :
    Option (UUID × K) :=
  (rows.order_desc (·.2) (db.hindsight_memories.filterMap (neighbour_row o now call))).head?

/-- The neighbour that the memory duplicates. -/
def duplicated (cfg : Settings) (neighbour : Option (UUID × K)) : Option UUID :=
  neighbour.bind fun n =>
    if (cfg.qortia_dedup_similarity_threshold : K) ≤ n.2 then some n.1 else none

end

/-- `UPDATE .. SET tier = 'archive', metadata = metadata || $1 WHERE id = $2`. -/
def archive_duplicate (memory_id dedup_of : UUID) (db : Db K) : Db K :=
  { db with
    hindsight_memories := rows.update (fun r => r.id = memory_id)
      (fun r => { r with
        tier := .archive
        metadata := json.put r.metadata "dedup_of" (.string (uuid_text dedup_of)) })
      db.hindsight_memories }

/-- The statement after the query. -/
def archive_if_duplicated [Field K] [LinearOrder K] (cfg : Settings) (call : DedupCall K)
    (neighbour : Option (UUID × K)) (db : Db K) : Db K :=
  match duplicated cfg neighbour with
  | some n => archive_duplicate call.memory_id n db
  | none => db

/-- `_maybe_dedup_memory`. -/
def maybe_dedup_memory [Field K] [LinearOrder K] (o : Outside K) (cfg : Settings) (now : Timestamp)
    (call : DedupCall K) (db : Db K) : Db K :=
  archive_if_duplicated cfg call (dedup_neighbour o now call db) db

/-! ## Calls that overlap -/

/-- Where a call stands. -/
inductive DedupState (K : Type) where
  | called
  | compared (neighbour : Option (UUID × K))
  | finished
  deriving DecidableEq

structure Dedup (K : Type) where
  db : Db K
  calls : List (DedupCall K × DedupState K)

inductive DedupAction where
  | neighbour (i : Nat) (now : Timestamp)
  | archive (i : Nat)

def dedup_step [Field K] [LinearOrder K] (o : Outside K) (cfg : Settings) (s : Dedup K) :
    DedupAction → Option (Dedup K)
  | .neighbour i now =>
    match s.calls[i]? with
    | some (call, .called) =>
      some { s with calls := s.calls.set i (call, .compared (dedup_neighbour o now call s.db)) }
    | _ => none
  | .archive i =>
    match s.calls[i]? with
    | some (call, .compared neighbour) =>
      some { db := archive_if_duplicated cfg call neighbour s.db
             calls := s.calls.set i (call, .finished) }
    | _ => none

/-! ## What has to hold -/

/-- The memory that the `dedup_of` of a memory names. -/
def Db.dedup_of (db : Db K) (r : HindsightMemory K) : Option UUID :=
  (db.hindsight_memories.find? fun q =>
    json.get r.metadata "dedup_of" = some (.string (uuid_text q.id))).map (·.id)

/-- Where an archived memory leads. -/
def Db.dedup_next (db : Db K) (id : UUID) : Option UUID :=
  (db.hindsight_memories.find? fun r => r.id = id && r.tier = .archive).bind db.dedup_of

/-- From each memory that a call has archived, following `dedup_of` reaches an active memory. -/
def KeepsACopy (s : Dedup K) : Prop :=
  ∀ c ∈ s.calls, ∀ m ∈ s.db.hindsight_memories, m.id = c.1.memory_id → m.tier = .archive →
    ∀ n, s.db.dedup_of m = some n →
      ∃ a ∈ s.db.hindsight_memories, a.tier = .active ∧ forwarding.Leads s.db.dedup_next n a.id

/-- The memory that is about to be archived is not the one where following `dedup_of` from its
neighbour ends. -/
def ArchivesNoLastCopy [Field K] [LinearOrder K] (cfg : Settings) (s : Dedup K) :
    DedupAction → Prop
  | .neighbour .. => True
  | .archive i => ∀ call neighbour, s.calls[i]? = some (call, .compared neighbour) →
      ∀ n, duplicated cfg neighbour = some n →
        ¬ forwarding.Leads s.db.dedup_next n call.memory_id

/-! ## Ids as texts -/

theorem uuid_text_injective {i j : UUID} (h : uuid_text i = uuid_text j) : i = j := by
  have hdigits : Nat.toDigits 10 i = Nat.toDigits 10 j := by
    have hlists := congrArg String.toList h
    simpa [uuid_text, toString, Nat.repr] using hlists
  have hvalue := congrArg (fun l => Nat.ofDigitChars 10 l 0) hdigits
  simpa [Nat.ofDigitChars_ten_toDigits] using hvalue

/-! ## Following `dedup_of` -/

/-- `dedup_of` reads the ids of the memories only. -/
theorem dedup_of_eq (db : Db K) (r : HindsightMemory K) :
    db.dedup_of r = (db.hindsight_memories.map (·.id)).find? fun i =>
      json.get r.metadata "dedup_of" = some (.string (uuid_text i)) := by
  unfold Db.dedup_of
  rw [List.find?_map]
  rfl

/-- The one memory with the id decides where it leads. -/
theorem dedup_next_eq {db : Db K} (hkeyed : (db.hindsight_memories.map (·.id)).Nodup)
    {r : HindsightMemory K} (hr : r ∈ db.hindsight_memories) :
    db.dedup_next r.id = if r.tier = .archive then db.dedup_of r else none := by
  unfold Db.dedup_next
  by_cases htier : r.tier = .archive
  · cases hfind : db.hindsight_memories.find? fun q => q.id = r.id && q.tier = .archive with
    | none =>
      have hnot := List.find?_eq_none.mp hfind r hr
      simp [htier] at hnot
    | some q =>
      have hq := List.find?_some hfind
      rw [Bool.and_eq_true, decide_eq_true_eq] at hq
      have hsame := List.inj_on_of_nodup_map hkeyed (List.mem_of_find?_eq_some hfind) hr hq.1
      rw [hsame, if_pos htier]
      rfl
  · rw [if_neg htier]
    have hnone : db.hindsight_memories.find? (fun q => q.id = r.id && q.tier = .archive) =
        none := by
      rw [List.find?_eq_none]
      intro q hq hwhere
      rw [Bool.and_eq_true, decide_eq_true_eq] at hwhere
      have hsame := List.inj_on_of_nodup_map hkeyed hq hr hwhere.1
      rw [hsame] at hwhere
      exact htier (of_decide_eq_true hwhere.2)
    rw [hnone]
    rfl

/-! ## The archiving -/

theorem archive_duplicate_ids (memory_id n : UUID) (db : Db K) :
    (archive_duplicate memory_id n db).hindsight_memories.map (·.id) =
      db.hindsight_memories.map (·.id) :=
  rows.map_update (by intro r; rfl) _ _

theorem archive_duplicate_dedup_of (memory_id n : UUID) (db : Db K) (r : HindsightMemory K) :
    (archive_duplicate memory_id n db).dedup_of r = db.dedup_of r := by
  rw [dedup_of_eq, dedup_of_eq, archive_duplicate_ids]

/-- A memory after the UPDATE is another one that was there, or the archived one. -/
theorem mem_archive_duplicate {memory_id n : UUID} {db : Db K} {r : HindsightMemory K}
    (h : r ∈ (archive_duplicate memory_id n db).hindsight_memories) :
    (r ∈ db.hindsight_memories ∧ r.id ≠ memory_id) ∨
      (r.id = memory_id ∧ r.tier = .archive ∧
        json.get r.metadata "dedup_of" = some (.string (uuid_text n))) := by
  obtain ⟨q, hq, ⟨hid, rfl⟩ | ⟨hid, rfl⟩⟩ := rows.mem_update.mp h
  · exact Or.inr ⟨of_decide_eq_true hid, rfl, json.get_put _ _ _⟩
  · exact Or.inl ⟨hq, of_decide_eq_false hid⟩

theorem mem_archive_duplicate_of_ne {memory_id n : UUID} {db : Db K} {r : HindsightMemory K}
    (hr : r ∈ db.hindsight_memories) (hne : r.id ≠ memory_id) :
    r ∈ (archive_duplicate memory_id n db).hindsight_memories :=
  rows.mem_update.mpr ⟨r, hr, Or.inr ⟨decide_eq_false hne, rfl⟩⟩

/-- The `dedup_of` that names a memory leads to it. -/
theorem dedup_of_named {db : Db K} {r : HindsightMemory K} {n : UUID}
    (hn : n ∈ db.hindsight_memories.map (·.id))
    (hname : json.get r.metadata "dedup_of" = some (.string (uuid_text n))) :
    db.dedup_of r = some n := by
  rw [dedup_of_eq]
  cases hfind : (db.hindsight_memories.map (·.id)).find? fun i =>
      json.get r.metadata "dedup_of" = some (.string (uuid_text i)) with
  | none =>
    have hnot := List.find?_eq_none.mp hfind n hn
    simp [hname] at hnot
  | some i =>
    have hi := List.find?_some hfind
    rw [hname] at hi
    simp only [Option.some.injEq, json.Json.string.injEq, decide_eq_true_eq] at hi
    rw [uuid_text_injective hi]

theorem archive_duplicate_next_self {memory_id n : UUID} {db : Db K}
    (hkeyed : (db.hindsight_memories.map (·.id)).Nodup)
    (hm : memory_id ∈ db.hindsight_memories.map (·.id))
    (hn : n ∈ db.hindsight_memories.map (·.id)) :
    (archive_duplicate memory_id n db).dedup_next memory_id = some n := by
  have hids := archive_duplicate_ids memory_id n db
  rw [← hids] at hkeyed hm hn
  obtain ⟨r, hr, hid⟩ := List.mem_map.mp hm
  rcases mem_archive_duplicate hr with ⟨-, hne⟩ | ⟨-, htier, hname⟩
  · exact absurd hid hne
  · have hnext := dedup_next_eq hkeyed hr
    rw [hid, if_pos htier, dedup_of_named hn hname] at hnext
    exact hnext

theorem archive_duplicate_next_of_ne {memory_id n z : UUID} {db : Db K}
    (hkeyed : (db.hindsight_memories.map (·.id)).Nodup) (hne : z ≠ memory_id) :
    (archive_duplicate memory_id n db).dedup_next z = db.dedup_next z := by
  have hids := archive_duplicate_ids memory_id n db
  by_cases hz : z ∈ db.hindsight_memories.map (·.id)
  · obtain ⟨r, hr, rfl⟩ := List.mem_map.mp hz
    have hr' := mem_archive_duplicate_of_ne (n := n) hr hne
    rw [dedup_next_eq hkeyed hr, dedup_next_eq (by rwa [hids]) hr', archive_duplicate_dedup_of]
  · have hnone : ∀ db' : Db K, z ∉ db'.hindsight_memories.map (·.id) → db'.dedup_next z = none := by
      intro db' hz'
      unfold Db.dedup_next
      rw [List.find?_eq_none.mpr]
      · rfl
      · intro r hr hwhere
        rw [Bool.and_eq_true, decide_eq_true_eq] at hwhere
        exact hz' (List.mem_map.mpr ⟨r, hr, hwhere.1⟩)
    rw [hnone db hz, hnone _ (by rwa [hids])]

/-! ## The invariant -/

def Dedup.ids (s : Dedup K) : List UUID := s.calls.map (·.1.memory_id)

/-- `A` has the ids that were active at first. A memory leaves the tier through its own call, and
then its `dedup_of` names another one of them. -/
structure GoodDedup (A : UUID → Prop) (s : Dedup K) : Prop where
  keyed : (s.db.hindsight_memories.map (·.id)).Nodup
  active : ∀ r ∈ s.db.hindsight_memories, r.tier = .active → A r.id
  kept : ∀ i, A i → ∃ r ∈ s.db.hindsight_memories, r.id = i ∧
    (r.tier = .active ∨
      (r.tier = .archive ∧ i ∈ s.ids ∧ ∃ n, A n ∧ s.db.dedup_of r = some n))
  calls : ∀ i ∈ s.ids, A i
  calls_nodup : s.ids.Nodup
  open_calls : ∀ c ∈ s.calls, c.2 ≠ .finished →
    ∃ r ∈ s.db.hindsight_memories, r.id = c.1.memory_id ∧ r.tier = .active
  compared : ∀ c ∈ s.calls, ∀ n, c.2 = .compared (some n) → A n.1

namespace GoodDedup

variable {A : UUID → Prop} {s : Dedup K}

theorem next_of_active (h : GoodDedup A s) {r : HindsightMemory K}
    (hr : r ∈ s.db.hindsight_memories) (htier : r.tier = .active) :
    s.db.dedup_next r.id = none := by
  rw [dedup_next_eq h.keyed hr, htier]
  rfl

theorem closed (h : GoodDedup A s) {i j : UUID} (hi : A i) (hij : s.db.dedup_next i = some j) :
    A j := by
  obtain ⟨r, hr, rfl, htier | ⟨htier, -, n, hn, hof⟩⟩ := h.kept i hi
  · rw [h.next_of_active hr htier] at hij
    cases hij
  · rw [dedup_next_eq h.keyed hr, if_pos htier, hof] at hij
    cases hij
    exact hn

/-- Where following ends, there is an active memory. -/
theorem active_of_next (h : GoodDedup A s) {i : UUID} (hi : A i)
    (hnone : s.db.dedup_next i = none) :
    ∃ r ∈ s.db.hindsight_memories, r.id = i ∧ r.tier = .active := by
  obtain ⟨r, hr, rfl, htier | ⟨htier, -, n, hn, hof⟩⟩ := h.kept i hi
  · exact ⟨r, hr, rfl, htier⟩
  · rw [dedup_next_eq h.keyed hr, if_pos htier, hof] at hnone
    cases hnone

theorem keeps_a_copy_iff (h : GoodDedup A s) :
    KeepsACopy s ↔ ∀ i, A i → forwarding.Ends s.db.dedup_next i := by
  constructor
  · intro hkeeps i hi
    obtain ⟨r, hr, rfl, htier | ⟨htier, hcall, n, -, hof⟩⟩ := h.kept i hi
    · exact ⟨r.id, Relation.ReflTransGen.refl, h.next_of_active hr htier⟩
    · obtain ⟨c, hc, hid⟩ := List.mem_map.mp hcall
      obtain ⟨a, ha, hactive, hleads⟩ := hkeeps c hc r hr hid.symm htier n hof
      refine ⟨a.id, Relation.ReflTransGen.head ?_ hleads, h.next_of_active ha hactive⟩
      rw [dedup_next_eq h.keyed hr, if_pos htier, hof]
  · intro hends c hc m hm hid htier n hof
    have hA : A m.id := h.calls m.id (List.mem_map.mpr ⟨c, hc, hid.symm⟩)
    have hnext : s.db.dedup_next m.id = some n := by
      rw [dedup_next_eq h.keyed hm, if_pos htier, hof]
    have hn := h.closed hA hnext
    obtain ⟨last, hleads, hnone⟩ := hends n hn
    obtain ⟨a, ha, rfl, hactive⟩ :=
      h.active_of_next (forwarding.mem_of_leads h.closed hn hleads) hnone
    exact ⟨a, ha, hactive, hleads⟩

/-! ## The steps -/

theorem ids_set {i : Nat} {call : DedupCall K} {st : DedupState K}
    (hi : s.calls[i]? = some (call, st)) (st' : DedupState K) (db : Db K) :
    (⟨db, s.calls.set i (call, st')⟩ : Dedup K).ids = s.ids := by
  unfold Dedup.ids
  rw [List.map_set]
  apply List.ext_getElem?
  intro k
  rw [List.getElem?_set]
  split
  · rename_i hik
    subst hik
    rw [List.length_map, List.getElem?_map, hi]
    split
    · rfl
    · rename_i hlt
      rw [List.getElem?_eq_none (Nat.le_of_not_lt hlt)] at hi
      cases hi
  · rfl

/-- A call goes on and the memories stay as they are. -/
theorem advance (h : GoodDedup A s) {i : Nat} {call : DedupCall K} {st st' : DedupState K}
    (hi : s.calls[i]? = some (call, st)) (hst : st ≠ .finished)
    (hfound : ∀ n, st' = .compared (some n) → A n.1) :
    GoodDedup A ⟨s.db, s.calls.set i (call, st')⟩ := by
  have hmem := List.mem_of_getElem? hi
  have hids := ids_set hi st' s.db
  refine ⟨h.keyed, h.active, ?_, ?_, ?_, fun c hc hopen => ?_, fun c hc n hn => ?_⟩
  · rw [hids]
    exact h.kept
  · rw [hids]
    exact h.calls
  · rw [hids]
    exact h.calls_nodup
  · rcases List.mem_or_eq_of_mem_set hc with hc | rfl
    · exact h.open_calls c hc hopen
    · exact h.open_calls (call, st) hmem hst
  · rcases List.mem_or_eq_of_mem_set hc with hc | rfl
    · exact h.compared c hc n hn
    · exact hfound n hn

theorem neighbour_active [Field K] [LinearOrder K] {o : Outside K} {now : Timestamp}
    {call : DedupCall K} {db : Db K} {n : UUID × K} (h : dedup_neighbour o now call db = some n) :
    ∃ r ∈ db.hindsight_memories, r.id = n.1 ∧ r.tier = .active := by
  have hmem := rows.mem_order_desc.mp (List.mem_of_mem_head? h)
  obtain ⟨r, hr, hrow⟩ := List.mem_filterMap.mp hmem
  obtain ⟨v, -, hrow⟩ := Option.bind_eq_some_iff.mp hrow
  obtain ⟨hwhere, hrow⟩ := Option.ite_none_right_eq_some.mp hrow
  cases hrow
  exact ⟨r, hr, rfl, hwhere.2.2.1⟩

/-- The call archives its memory, which was active until then. -/
theorem archive (h : GoodDedup A s) {i : Nat} {call : DedupCall K} {st : DedupState K}
    (hi : s.calls[i]? = some (call, st)) {n : UUID} (hn : A n) :
    GoodDedup A ⟨archive_duplicate call.memory_id n s.db, s.calls.set i (call, .finished)⟩ := by
  have hmem := List.mem_of_getElem? hi
  have hids := ids_set hi .finished (archive_duplicate call.memory_id n s.db)
  have hrows := archive_duplicate_ids call.memory_id n s.db
  have hthere : ∀ i, A i → i ∈ (archive_duplicate call.memory_id n s.db).hindsight_memories.map
      (·.id) := by
    intro i hA
    obtain ⟨r, hr, hid, -⟩ := h.kept i hA
    rw [hrows]
    exact List.mem_map.mpr ⟨r, hr, hid⟩
  have hcall : call.memory_id ∈ s.ids := List.mem_map.mpr ⟨_, hmem, rfl⟩
  refine ⟨?_, fun r hr htier => ?_, fun j hA => ?_, ?_, ?_, fun c hc hopen => ?_,
    fun c hc m hm => ?_⟩
  · rw [hrows]
    exact h.keyed
  · rcases mem_archive_duplicate hr with ⟨hr, -⟩ | ⟨-, harchive, -⟩
    · exact h.active r hr htier
    · rw [harchive] at htier
      cases htier
  · rw [hids]
    by_cases hj : j = call.memory_id
    · obtain ⟨r, hr, hid⟩ := List.mem_map.mp (hthere j hA)
      rcases mem_archive_duplicate hr with ⟨-, hne⟩ | ⟨-, htier, hname⟩
      · exact absurd (hid.trans hj) hne
      · rw [hj]
        exact ⟨r, hr, hid.trans hj,
          Or.inr ⟨htier, hcall, n, hn, dedup_of_named (hthere n hn) hname⟩⟩
    · obtain ⟨r, hr, hid, hstate⟩ := h.kept j hA
      refine ⟨r, mem_archive_duplicate_of_ne hr (by rwa [hid]), hid, ?_⟩
      rw [archive_duplicate_dedup_of]
      exact hstate
  · rw [hids]
    exact h.calls
  · rw [hids]
    exact h.calls_nodup
  · -- Another open call is about another memory.
    obtain ⟨j, hj⟩ := List.mem_iff_getElem?.mp hc
    rw [List.getElem?_set] at hj
    split at hj
    · split at hj
      · cases hj
        exact absurd rfl hopen
      · cases hj
    · rename_i hij
      obtain ⟨r, hr, hid, htier⟩ := h.open_calls c (List.mem_of_getElem? hj) hopen
      refine ⟨r, mem_archive_duplicate_of_ne hr ?_, hid, htier⟩
      intro hsame
      apply hij
      have hlt : i < s.ids.length := by
        unfold Dedup.ids
        rw [List.length_map]
        exact (List.getElem?_eq_some_iff.mp hi).1
      apply (List.getElem?_inj hlt h.calls_nodup).mp
      unfold Dedup.ids
      rw [List.getElem?_map, List.getElem?_map, hi, hj, Option.map_some, Option.map_some, ← hid,
        hsame]
  · rcases List.mem_or_eq_of_mem_set hc with hc | rfl
    · exact h.compared c hc m hm
    · cases hm

/-- After the archiving a copy is kept exactly when the memory was not the last one. -/
theorem archive_keeps_iff (h : GoodDedup A s) (hkeeps : KeepsACopy s) {i : Nat}
    {call : DedupCall K} {st : DedupState K} (hi : s.calls[i]? = some (call, st))
    (hst : st ≠ .finished) {n : UUID} (hn : A n) :
    KeepsACopy ⟨archive_duplicate call.memory_id n s.db, s.calls.set i (call, .finished)⟩ ↔
      ¬ forwarding.Leads s.db.dedup_next n call.memory_id := by
  have hcall : call.memory_id ∈ s.ids := List.mem_map.mpr ⟨_, List.mem_of_getElem? hi, rfl⟩
  obtain ⟨r, hr, hid, htier⟩ := h.open_calls _ (List.mem_of_getElem? hi) hst
  obtain ⟨q, hq, hqid, -⟩ := h.kept n hn
  have hnone : s.db.dedup_next call.memory_id = none := by
    rw [← hid]
    exact h.next_of_active hr htier
  have hself : (archive_duplicate call.memory_id n s.db).dedup_next call.memory_id = some n :=
    archive_duplicate_next_self h.keyed (List.mem_map.mpr ⟨r, hr, hid⟩)
      (List.mem_map.mpr ⟨q, hq, hqid⟩)
  rw [(h.archive hi hn).keeps_a_copy_iff]
  exact forwarding.ends_forward_iff (h.calls _ hcall) hn hnone hself
    (fun z hz => archive_duplicate_next_of_ne h.keyed hz) (h.keeps_a_copy_iff.mp hkeeps)

end GoodDedup

section
variable [Field K] [LinearOrder K] {o : Outside K} {cfg : Settings} {A : UUID → Prop}
  {s s' : Dedup K} {a : DedupAction}

theorem duplicated_eq {neighbour : Option (UUID × K)} {n : UUID}
    (h : duplicated cfg neighbour = some n) : ∃ similarity, neighbour = some (n, similarity) := by
  obtain ⟨m, rfl, hm⟩ := Option.bind_eq_some_iff.mp h
  obtain ⟨-, hm⟩ := Option.ite_none_right_eq_some.mp hm
  cases hm
  exact ⟨m.2, rfl⟩

/-- What a step does: it reads a neighbour, it leaves the memories alone, or it archives. -/
theorem dedup_step_cases (h : dedup_step o cfg s a = some s') :
    (∃ i now call, a = .neighbour i now ∧ s.calls[i]? = some (call, .called) ∧
      s' = ⟨s.db, s.calls.set i (call, .compared (dedup_neighbour o now call s.db))⟩) ∨
    ∃ i call neighbour, a = .archive i ∧ s.calls[i]? = some (call, .compared neighbour) ∧
      ((duplicated cfg neighbour = none ∧ s' = ⟨s.db, s.calls.set i (call, .finished)⟩) ∨
        ∃ n, duplicated cfg neighbour = some n ∧
          s' = ⟨archive_duplicate call.memory_id n s.db, s.calls.set i (call, .finished)⟩) := by
  cases a with
  | neighbour i now =>
    simp only [dedup_step] at h
    split at h
    · rename_i call hi
      cases h
      exact Or.inl ⟨i, now, call, rfl, hi, rfl⟩
    · cases h
  | archive i =>
    simp only [dedup_step] at h
    split at h
    · rename_i call neighbour hi
      cases h
      refine Or.inr ⟨i, call, neighbour, rfl, hi, ?_⟩
      unfold archive_if_duplicated
      cases hdup : duplicated cfg neighbour with
      | none => exact Or.inl ⟨rfl, rfl⟩
      | some n => exact Or.inr ⟨n, rfl, rfl⟩
    · cases h

theorem dedup_step_good (h : GoodDedup A s) (hstep : dedup_step o cfg s a = some s') :
    GoodDedup A s' := by
  rcases dedup_step_cases hstep with ⟨i, now, call, -, hi, rfl⟩ |
    ⟨i, call, neighbour, -, hi, ⟨-, rfl⟩ | ⟨n, hdup, rfl⟩⟩
  · refine h.advance hi (by simp) fun n hn => ?_
    obtain ⟨r, hr, hid, htier⟩ := GoodDedup.neighbour_active (DedupState.compared.inj hn)
    rw [← hid]
    exact h.active r hr htier
  · exact h.advance hi (by simp) (by simp)
  · obtain ⟨similarity, rfl⟩ := duplicated_eq hdup
    exact h.archive hi (h.compared _ (List.mem_of_getElem? hi) _ rfl)

/-- A step keeps a copy of every memory exactly when it archives no last copy. -/
theorem dedup_step_iff (h : GoodDedup A s) (hkeeps : KeepsACopy s)
    (hstep : dedup_step o cfg s a = some s') : KeepsACopy s' ↔ ArchivesNoLastCopy cfg s a := by
  have hgood := dedup_step_good h hstep
  -- The property is about the memories, which only an archiving changes.
  have hsame : s'.db = s.db → KeepsACopy s' := by
    intro hdb
    rw [hgood.keeps_a_copy_iff, hdb]
    exact h.keeps_a_copy_iff.mp hkeeps
  rcases dedup_step_cases hstep with ⟨i, now, call, rfl, hi, rfl⟩ |
    ⟨i, call, neighbour, rfl, hi, ⟨hdup, rfl⟩ | ⟨n, hdup, rfl⟩⟩
  · exact ⟨fun _ => trivial, fun _ => hsame rfl⟩
  · refine ⟨fun _ call' neighbour' hi' n hn => ?_, fun _ => hsame rfl⟩
    rw [hi] at hi'
    cases hi'
    rw [hdup] at hn
    cases hn
  · have hn : A n := by
      obtain ⟨similarity, rfl⟩ := duplicated_eq hdup
      exact h.compared _ (List.mem_of_getElem? hi) _ rfl
    rw [h.archive_keeps_iff hkeeps hi (by simp) hn]
    constructor
    · intro hfree call' neighbour' hi' n' hn'
      rw [hi] at hi'
      cases hi'
      rw [hdup] at hn'
      cases hn'
      exact hfree
    · intro hfree
      exact hfree call neighbour hi n hdup

/-- A call that nothing overlaps. -/
theorem dedup_step_alone {i : Nat} {call : DedupCall K} (now : Timestamp)
    (hi : s.calls[i]? = some (call, .called)) :
    runs.run (dedup_step o cfg) s [.neighbour i now, .archive i] =
      some ⟨maybe_dedup_memory o cfg now call s.db, s.calls.set i (call, .finished)⟩ := by
  have hlt : i < s.calls.length := (List.getElem?_eq_some_iff.mp hi).1
  have hquery : dedup_step o cfg s (.neighbour i now) =
      some ⟨s.db, s.calls.set i (call, .compared (dedup_neighbour o now call s.db))⟩ := by
    simp only [dedup_step, hi]
  unfold runs.run
  rw [hquery, Option.bind_some]
  simp [runs.run, dedup_step, List.getElem?_set_self hlt, maybe_dedup_memory]

theorem archives_no_last_copy_of_none (h : dedup_step o cfg s a = none) :
    ArchivesNoLastCopy cfg s a := by
  cases a with
  | neighbour i now => trivial
  | archive i =>
    intro call neighbour hi
    simp [dedup_step, hi] at h

/-! ## The copy that is left -/

/-- For any calls about different active memories and any order of their statements, a copy of
every archived memory stays active exactly when no call archives the memory to which its neighbour
already leads. -/
theorem dedup_keeps_a_copy_iff (o : Outside K) (cfg : Settings) (db : Db K)
    (calls : List (DedupCall K)) (hkeyed : (db.hindsight_memories.map (·.id)).Nodup)
    (hcalls : (calls.map (·.memory_id)).Nodup)
    (hactive : ∀ c ∈ calls, ∃ r ∈ db.hindsight_memories, r.id = c.memory_id ∧ r.tier = .active)
    (actions : List DedupAction) :
    runs.Always (dedup_step o cfg) KeepsACopy ⟨db, calls.map fun c => (c, .called)⟩ actions ↔
      runs.Guarded (dedup_step o cfg) (ArchivesNoLastCopy cfg)
        ⟨db, calls.map fun c => (c, .called)⟩ actions := by
  have hids : (⟨db, calls.map fun c => (c, .called)⟩ : Dedup K).ids = calls.map (·.memory_id) := by
    unfold Dedup.ids
    rw [List.map_map]
    rfl
  have hcall : ∀ c ∈ calls.map (fun c => (c, (DedupState.called : DedupState K))),
      c.1 ∈ calls ∧ c.2 = .called := by
    intro c hc
    obtain ⟨call, hcall, rfl⟩ := List.mem_map.mp hc
    exact ⟨hcall, rfl⟩
  have hstart : GoodDedup (fun i => ∃ r ∈ db.hindsight_memories, r.id = i ∧ r.tier = .active)
      ⟨db, calls.map fun c => (c, .called)⟩ := by
    refine ⟨hkeyed, fun r hr htier => ⟨r, hr, rfl, htier⟩, ?_, ?_, ?_, fun c hc _ => ?_,
      fun c hc n hn => ?_⟩
    · rintro i ⟨r, hr, hid, htier⟩
      exact ⟨r, hr, hid, Or.inl htier⟩
    · intro i hi
      rw [hids] at hi
      obtain ⟨c, hc, rfl⟩ := List.mem_map.mp hi
      exact hactive c hc
    · rw [hids]
      exact hcalls
    · exact hactive c.1 (hcall c hc).1
    · rw [(hcall c hc).2] at hn
      cases hn
  have hkeeps : KeepsACopy (⟨db, calls.map fun c => (c, .called)⟩ : Dedup K) := by
    intro c hc m hm hid htier
    obtain ⟨r, hr, hrid, hractive⟩ := hactive c.1 (hcall c hc).1
    rw [List.inj_on_of_nodup_map hkeyed hm hr (hid.trans hrid.symm), hractive] at htier
    cases htier
  exact runs.always_iff_guarded (fun _ _ => archives_no_last_copy_of_none)
    (fun _ _ _ h hP => dedup_step_iff h hP) (fun _ _ _ h _ _ => dedup_step_good h) hstart hkeeps

end

/-! ## Twins -/

/-- All texts are alike. -/
def alike_model : Outside ℚ := { no_models with similarity := fun _ _ => 1 }

def twin_memory (id : UUID) : HindsightMemory ℚ :=
  { id, tenant_id := 1, agent_id := 20, type := .experiential, content := "the deploy was retried"
    embedding := some [1], valid_from := 0, created_at := 0 }

def twins_db : Db ℚ := { hindsight_memories := [twin_memory 0, twin_memory 1], next_id := 2 }

def twin_call (id : UUID) : DedupCall ℚ :=
  { memory_id := id, embedding := [1], agent_id := 20, memory_type := .experiential }

theorem dedup_keeps_a_copy_iff_twins :
    runs.Always (dedup_step alike_model {}) KeepsACopy
        ⟨twins_db, [twin_call 0, twin_call 1].map fun c => (c, .called)⟩
        [.neighbour 0 1, .archive 0, .neighbour 1 2, .archive 1] ↔
      runs.Guarded (dedup_step alike_model {}) (ArchivesNoLastCopy {})
        ⟨twins_db, [twin_call 0, twin_call 1].map fun c => (c, .called)⟩
        [.neighbour 0 1, .archive 0, .neighbour 1 2, .archive 1] :=
  dedup_keeps_a_copy_iff alike_model {} twins_db [twin_call 0, twin_call 1] (by decide) (by decide)
    (by decide) [.neighbour 0 1, .archive 0, .neighbour 1 2, .archive 1]

/-- All memories are archived, one of them by a call. -/
def no_copy_left (s : Dedup K) : Bool :=
  (s.db.hindsight_memories.all fun r => r.tier = .archive) &&
    s.calls.any fun c => s.db.hindsight_memories.any fun m =>
      m.id = c.1.memory_id && (s.db.dedup_of m).isSome

theorem no_copy_left_keeps_none {s : Dedup K} (h : no_copy_left s = true) : ¬ KeepsACopy s := by
  intro hkeeps
  unfold no_copy_left at h
  simp only [Bool.and_eq_true, List.all_eq_true, List.any_eq_true, decide_eq_true_eq] at h
  obtain ⟨hall, c, hc, m, hm, hid, hsome⟩ := h
  obtain ⟨n, hn⟩ := Option.isSome_iff_exists.mp hsome
  obtain ⟨a, ha, hactive, -⟩ := hkeeps c hc m hm hid (hall m hm) n hn
  rw [hall a ha] at hactive
  cases hactive

/-- Two memories that are embedded at the same time archive each other. -/
theorem twins_archive_each_other :
    ¬ runs.Always (dedup_step alike_model {}) KeepsACopy
      ⟨twins_db, [twin_call 0, twin_call 1].map fun c => (c, .called)⟩
      [.neighbour 0 1, .neighbour 1 1, .archive 0, .archive 1] :=
  runs.not_always_of_check (fun _ => no_copy_left_keeps_none) (by decide +kernel)

end qortia
