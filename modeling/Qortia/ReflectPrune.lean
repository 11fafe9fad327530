-- The laws of the prune of `_write_reflections`: how much of the consolidated set has to be
-- named before the guard lets the prune run. The guard counts the entries of the answer, and
-- an entry may repeat an id or name no row of the set.
import Mathlib.Data.List.Dedup
import Mathlib.Data.List.Perm.Subperm
import Qortia.ReflectWrites

namespace qortia

/-! ## What the guard compares -/

section
variable {K : Type}

/-- The open consolidated rows that an UPDATE or RETAIN entry names. -/
def named_open (agent_id : UUID) (ids : List UUID) (db : Db K) : List (HindsightMemory K) :=
  db.hindsight_memories.filter fun r => open_consolidated agent_id r && r.id ∈ ids

/-- The open consolidated rows that no entry names, which the prune closes. -/
def unnamed_open (agent_id : UUID) (ids : List UUID) (db : Db K) : List (HindsightMemory K) :=
  db.hindsight_memories.filter fun r => open_consolidated agent_id r && r.id ∉ ids

/-- The ids of the answer, each one once, that belong to open consolidated rows. -/
def open_ids (agent_id : UUID) (ids : List UUID) (db : Db K) : List UUID :=
  ids.dedup.filter fun id =>
    db.hindsight_memories.any fun r => open_consolidated agent_id r && r.id = id

theorem mem_open_ids {agent_id : UUID} {ids : List UUID} {db : Db K} {id : UUID} :
    id ∈ open_ids agent_id ids db ↔
      id ∈ ids ∧ ∃ r ∈ db.hindsight_memories, open_consolidated agent_id r = true ∧ r.id = id := by
  unfold open_ids
  simp

/-- Under the primary key, a row is named for each id of an open row. -/
theorem named_open_length {db : Db K} (hk : (db.hindsight_memories.map (·.id)).Nodup)
    (agent_id : UUID) (ids : List UUID) :
    (named_open agent_id ids db).length = (open_ids agent_id ids db).length := by
  have hrows : ((named_open agent_id ids db).map (·.id)).Nodup :=
    hk.sublist (List.filter_sublist.map _)
  have hids : (open_ids agent_id ids db).Nodup := (List.nodup_dedup ids).filter _
  have hperm : ((named_open agent_id ids db).map (·.id)).Perm (open_ids agent_id ids db) := by
    rw [List.perm_ext_iff_of_nodup hrows hids]
    intro id
    rw [mem_open_ids]
    constructor
    · intro h
      obtain ⟨r, hr, rfl⟩ := List.mem_map.mp h
      unfold named_open at hr
      simp only [List.mem_filter, Bool.and_eq_true, decide_eq_true_eq] at hr
      exact ⟨hr.2.2, r, hr.1, hr.2.1, rfl⟩
    · rintro ⟨hid, r, hr, hopen, rfl⟩
      refine List.mem_map.mpr ⟨r, ?_, rfl⟩
      unfold named_open
      simp [hr, hopen, hid]
  have hlen := hperm.length_eq
  rw [List.length_map] at hlen
  exact hlen

theorem named_add_unnamed (agent_id : UUID) (ids : List UUID) (db : Db K) :
    (named_open agent_id ids db).length + (unnamed_open agent_id ids db).length =
      existing_consolidated_count agent_id db := by
  unfold named_open unnamed_open existing_consolidated_count
  induction db.hindsight_memories with
  | nil => rfl
  | cons r t ih =>
    simp only [List.filter_cons]
    by_cases hopen : open_consolidated agent_id r = true
    · by_cases hid : r.id ∈ ids
      · simp only [hopen, hid, decide_true, not_true_eq_false, decide_false, Bool.and_self,
          Bool.and_false, if_true, List.length_cons]
        simp only [Bool.false_eq_true, if_false]
        omega
      · simp only [hopen, hid, decide_true, not_false_eq_true, decide_false, Bool.and_self,
          Bool.and_false, if_true, List.length_cons]
        simp only [Bool.false_eq_true, if_false]
        omega
    · rw [Bool.not_eq_true] at hopen
      simp only [hopen, Bool.false_and, Bool.false_eq_true, if_false]
      exact ih

end

/-! ## When the prune runs -/

theorem prune_safe_iff {count active : Nat} (hn : 0 < count) :
    prune_safe true count active = true ↔ count ≤ 2 * active := by
  unfold prune_safe
  split
  · split
    · simp
      omega
    · split
      · simp
        omega
      · simp
        omega
  · contradiction

variable {K : Type}

/-- `_write_reflections` runs its prune, and these are the ids that it spares. -/
def RunsPrune (agent_id : UUID) (reflections : List Reflection)
    (existing : List (HindsightMemory K)) (db : Db K) (ids : List UUID) : Prop :=
  active_ids reflections = .ok ids ∧ existing ≠ [] ∧
    prune_safe true (existing_consolidated_count agent_id db) ids.length = true

theorem runs_prune_iff [Field K] [LinearOrder K] [HasSqrt K] {o : Outside K} {agent_id : UUID}
    {reflections : List Reflection} {new_embeddings : Nat → Option (List K)}
    {existing_embeddings : String → Option (StoredVector K)}
    {existing : List (HindsightMemory K)} {db : Db K} {sts : List (WriteStatement K)}
    (h : write_statements o reflections new_embeddings existing_embeddings (existing ≠ [])
      (existing_consolidated_count agent_id db) = .ok sts) (ids : List UUID) :
    .prune ids ∈ sts ↔ RunsPrune agent_id reflections existing db ids := by
  obtain ⟨ids', writes, hids, hwrites, rfl⟩ := write_statements_ok h
  have hnot := prune_not_mem_write_loop hwrites ids
  unfold RunsPrune
  rw [List.mem_append, hids]
  by_cases he : existing = []
  · simp [he, hnot]
  · by_cases hs : prune_safe true (existing_consolidated_count agent_id db) ids'.length = true
    · simp only [he, hs, hnot, ne_eq, not_false_eq_true, decide_true, Bool.and_self, if_true,
        List.mem_singleton, or_false, true_and, WriteStatement.prune.injEq, Except.ok.injEq]
      constructor
      · rintro rfl
        exact ⟨rfl, hs⟩
      · rintro ⟨rfl, -⟩
        rfl
    · simp only [he, hs, hnot, ne_eq, not_false_eq_true, decide_true, Bool.and_false,
        Bool.false_eq_true, if_false, List.not_mem_nil, or_false, true_and, false_iff,
        Except.ok.injEq]
      rintro ⟨rfl, hs'⟩
      exact hs hs'

/-! ## How much the prune spares -/

/-- Where the prune runs, half of the open set is named, so that at most half is dropped. -/
def PruneSparesHalf (agent_id : UUID) (reflections : List Reflection)
    (existing : List (HindsightMemory K)) (db : Db K) : Prop :=
  ∀ ids, RunsPrune agent_id reflections existing db ids →
    existing_consolidated_count agent_id db ≤ 2 * (named_open agent_id ids db).length ∧
      2 * (unnamed_open agent_id ids db).length ≤ existing_consolidated_count agent_id db

/-- The number of entries and the number of different open rows behind them fall on one side of
half of the open set. -/
def EntriesCountRows (agent_id : UUID) (ids : List UUID) (db : Db K) : Prop :=
  existing_consolidated_count agent_id db ≤ 2 * ids.length →
    existing_consolidated_count agent_id db ≤ 2 * (open_ids agent_id ids db).length

/-- An answer spares half of an open set that is not empty exactly when nothing is pruned at
all, or its entries count rows: repeated ids and ids of no open row do not tip the guard. -/
theorem the_prune_spares_half_iff (agent_id : UUID) (reflections : List Reflection)
    (existing : List (HindsightMemory K)) (db : Db K)
    (hk : (db.hindsight_memories.map (·.id)).Nodup)
    (hn : 0 < existing_consolidated_count agent_id db) :
    PruneSparesHalf agent_id reflections existing db ↔
      existing = [] ∨
        ∀ ids, active_ids reflections = .ok ids → EntriesCountRows agent_id ids db := by
  unfold PruneSparesHalf RunsPrune EntriesCountRows
  simp only [prune_safe_iff hn]
  by_cases he : existing = []
  · simp [he]
  · constructor
    · intro h
      refine Or.inr fun ids hids hguard => ?_
      have hhalf := (h ids ⟨hids, he, hguard⟩).1
      rw [named_open_length hk] at hhalf
      exact hhalf
    · rintro (h | h) ids ⟨hids, -, hguard⟩
      · contradiction
      · have hsum := named_add_unnamed agent_id ids db
        have hhalf := h ids hids hguard
        rw [← named_open_length hk] at hhalf
        omega

/-- Two lessons of agent 20. -/
def two_lessons : Db ℚ :=
  { hindsight_memories :=
      [{ id := 1, tenant_id := 1, agent_id := 20, type := .lesson, content := "retry on 502",
         is_consolidated := true, valid_from := 0, created_at := 0 },
       { id := 2, tenant_id := 1, agent_id := 20, type := .lesson, content := "pin the image",
         is_consolidated := true, valid_from := 0, created_at := 0 }]
    next_id := 3 }

/-- An answer that retains the ids, one entry each. -/
def retain_all (ids : List UUID) : json.Json :=
  .object [("reflections", .array (ids.map fun id =>
    .object [("action", .string "RETAIN"), ("id", .string (text.ofUuid id))]))]

def retained (id : UUID) (h : (json.Json.string (text.ofUuid id)).truthy = true) : Reflection :=
  .RETAIN ⟨.string (text.ofUuid id), h⟩

theorem the_prune_spares_half_iff_two_lessons :
    PruneSparesHalf 20 [retained 1 (by decide)] two_lessons.hindsight_memories two_lessons ↔
      two_lessons.hindsight_memories = [] ∨
        ∀ ids, active_ids [retained 1 (by decide)] = .ok ids →
          EntriesCountRows 20 ids two_lessons :=
  the_prune_spares_half_iff 20 _ _ two_lessons (by decide +kernel) (by decide +kernel)

/-- The id 9 is of no row, and an answer that retains it twice lets the prune close both
lessons. -/
theorem two_unknown_ids_wipe_both_lessons :
    validate_reflections (retain_all [9, 9]) =
        .ok [retained 9 (by decide), retained 9 (by decide)] ∧
      ¬ PruneSparesHalf 20 [retained 9 (by decide), retained 9 (by decide)]
        (select_existing 20 two_lessons) two_lessons ∧
      unnamed_open 20 [9, 9] two_lessons = two_lessons.hindsight_memories := by
  refine ⟨rfl, fun h => ?_, by decide +kernel⟩
  have hhalf := h [9, 9] ⟨by decide +kernel, by decide +kernel, by decide +kernel⟩
  exact absurd hhalf.1 (by decide +kernel)

end qortia
