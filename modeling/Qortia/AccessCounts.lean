-- What the access task of a recall does to the counts of the memories that were returned. Its
-- UPDATEs are one transaction, so that one count at the end of its SMALLINT rolls all of them back.
import Qortia.OutcomeApart

namespace qortia

variable {K : Type}

/-! ## The rows that are returned -/

def HindsightMemory.returned (results : List (RecallResult K)) (tenant_id : UUID)
    (r : HindsightMemory K) : Bool :=
  r.id ∈ ids_of .private_ results && r.tenant_id = tenant_id

def OrgMemory.returned (results : List (RecallResult K)) (tenant_id : UUID) (r : OrgMemory K) :
    Bool :=
  r.id ∈ ids_of .org results && r.tenant_id = tenant_id

def OrgKnowledge.returned (results : List (RecallResult K)) (tenant_id : UUID)
    (r : OrgKnowledge K) : Bool :=
  r.id ∈ ids_of .knowledge results && r.tenant_id = tenant_id

/-- `recall_count` of the returned rows, in the three tables. -/
def Db.returned_counts (results : List (RecallResult K)) (tenant_id : UUID) (db : Db K) :
    List Nat :=
  (db.hindsight_memories.filter (·.returned results tenant_id)).map (·.recall_count) ++
    (db.org_memory.filter (·.returned results tenant_id)).map (·.recall_count) ++
      (db.org_knowledge.filter (·.returned results tenant_id)).map (·.recall_count)

/-! ## What has to hold -/

/-- One higher, or as it is at the end of the SMALLINT. -/
def one_more (n : Nat) : Nat := if 32767 ≤ n then n else n + 1

/-- The returned rows of a table are counted, and the others stay as they are. -/
def CountsRows {Row : Type} (id : Row → UUID) (recall_count : Row → Nat) (returned : Row → Bool)
    (t t' : List Row) : Prop :=
  List.Forall₂ (fun r r' => id r' = id r ∧
    if returned r = true then recall_count r' = one_more (recall_count r) else r' = r) t t'

/-- The returned rows of each table are counted, and nothing else changes. -/
structure AccessCounted (results : List (RecallResult K)) (tenant_id : UUID) (db db' : Db K) :
    Prop where
  hindsight_memories : CountsRows (·.id) (·.recall_count) (·.returned results tenant_id)
    db.hindsight_memories db'.hindsight_memories
  org_memory : CountsRows (·.id) (·.recall_count) (·.returned results tenant_id) db.org_memory
    db'.org_memory
  org_knowledge : CountsRows (·.id) (·.recall_count) (·.returned results tenant_id)
    db.org_knowledge db'.org_knowledge
  others : db' = { db with
    hindsight_memories := db'.hindsight_memories
    org_memory := db'.org_memory
    org_knowledge := db'.org_knowledge }

/-- An access task counts exactly what its recall returned. -/
def CountsAccess (s : OutcomeState K) (a : OutcomeAction K) (s' : OutcomeState K) : Prop :=
  match a with
  | .record_access id _ => ∀ t, s.accesses.find? (·.id = id) = some t →
      AccessCounted t.results id.agent.tenant_id s.db s'.db
  | _ => True

/-- When an access task runs, none of the rows that its recall returned has reached the end of the
SMALLINT, or all of them have. -/
def FullTogether (s : OutcomeState K) (a : OutcomeAction K) : Prop :=
  match a with
  | .record_access id _ => ∀ t, s.accesses.find? (·.id = id) = some t →
      (∀ n ∈ s.db.returned_counts t.results id.agent.tenant_id, n < 32767) ∨
        ∀ n ∈ s.db.returned_counts t.results id.agent.tenant_id, 32767 ≤ n
  | _ => True

/-! ## One table -/

section
variable {Row : Type} {id : Row → UUID} {recall_count : Row → Nat} {returned : Row → Bool}
  {t : List Row}

theorem one_more_eq_self_iff (n : Nat) : n = one_more n ↔ 32767 ≤ n := by
  unfold one_more
  split
  · rename_i h
    exact ⟨fun _ => h, fun _ => rfl⟩
  · omega

theorem counts_rows_update {f : Row → Row} (hid : ∀ r, id (f r) = id r)
    (hcount : ∀ r, recall_count (f r) = recall_count r + 1)
    (hbelow : ∀ r ∈ t, returned r = true → recall_count r < 32767) :
    CountsRows id recall_count returned t (rows.update returned f t) := by
  unfold CountsRows rows.update
  rw [List.forall₂_map_right_iff, List.forall₂_same]
  intro r hr
  by_cases hret : returned r = true
  · have hlt := hbelow r hr hret
    rw [if_pos hret, if_pos hret, hcount]
    unfold one_more
    rw [if_neg (Nat.not_le.mpr hlt)]
    exact ⟨hid r, rfl⟩
  · rw [if_neg hret, if_neg hret]
    exact ⟨rfl, rfl⟩

theorem counts_rows_self_iff :
    CountsRows id recall_count returned t t ↔
      ∀ r ∈ t, returned r = true → 32767 ≤ recall_count r := by
  unfold CountsRows
  rw [List.forall₂_same]
  constructor
  · intro h r hr hret
    have hrow := (h r hr).2
    rw [if_pos hret] at hrow
    exact (one_more_eq_self_iff _).mp hrow
  · intro h r hr
    refine ⟨rfl, ?_⟩
    split
    · rename_i hret
      exact (one_more_eq_self_iff _).mpr (h r hr hret)
    · rfl

end

/-! ## One access task -/

theorem record_recall_access_eq (results : List (RecallResult K)) (tenant_id : UUID)
    (now : Timestamp) (db : Db K) :
    record_recall_access results tenant_id now db =
      if db.hindsight_memories.any (fun r =>
            r.returned results tenant_id && 32767 ≤ r.recall_count) ||
          db.org_memory.any (fun r => r.returned results tenant_id && 32767 ≤ r.recall_count) ||
          db.org_knowledge.any (fun r => r.returned results tenant_id && 32767 ≤ r.recall_count)
      then db
      else
        { db with
          hindsight_memories := rows.update (·.returned results tenant_id)
            (fun r => { r with recall_count := r.recall_count + 1, last_recalled_at := some now })
            db.hindsight_memories
          org_memory := rows.update (·.returned results tenant_id)
            (fun r => { r with recall_count := r.recall_count + 1, last_recalled_at := some now })
            db.org_memory
          org_knowledge := rows.update (·.returned results tenant_id)
            (fun r => { r with recall_count := r.recall_count + 1, last_recalled_at := some now })
            db.org_knowledge } := rfl

theorem forall_returned_counts {results : List (RecallResult K)} {tenant_id : UUID} {db : Db K}
    {P : Nat → Prop} :
    (∀ n ∈ db.returned_counts results tenant_id, P n) ↔
      (∀ r ∈ db.hindsight_memories, r.returned results tenant_id = true → P r.recall_count) ∧
        (∀ r ∈ db.org_memory, r.returned results tenant_id = true → P r.recall_count) ∧
        ∀ r ∈ db.org_knowledge, r.returned results tenant_id = true → P r.recall_count := by
  simp only [Db.returned_counts, List.forall_mem_append, List.forall_mem_map, List.mem_filter,
    and_imp, and_assoc]

/-- Nothing changes, which is right when no returned row can be counted. -/
theorem access_counted_self_iff (results : List (RecallResult K)) (tenant_id : UUID) (db : Db K) :
    AccessCounted results tenant_id db db ↔
      ∀ n ∈ db.returned_counts results tenant_id, 32767 ≤ n := by
  rw [forall_returned_counts]
  constructor
  · intro h
    exact ⟨counts_rows_self_iff.mp h.hindsight_memories, counts_rows_self_iff.mp h.org_memory,
      counts_rows_self_iff.mp h.org_knowledge⟩
  · rintro ⟨hprivate, horg, hknowledge⟩
    exact ⟨counts_rows_self_iff.mpr hprivate, counts_rows_self_iff.mpr horg,
      counts_rows_self_iff.mpr hknowledge, rfl⟩

theorem access_counted_iff (results : List (RecallResult K)) (tenant_id : UUID) (now : Timestamp)
    (db : Db K) :
    AccessCounted results tenant_id db (record_recall_access results tenant_id now db) ↔
      (∀ n ∈ db.returned_counts results tenant_id, n < 32767) ∨
        ∀ n ∈ db.returned_counts results tenant_id, 32767 ≤ n := by
  rw [record_recall_access_eq]
  split
  · rename_i hfull
    -- A full count rolls the transaction back.
    have hsome : ¬ ∀ n ∈ db.returned_counts results tenant_id, n < 32767 := by
      rw [forall_returned_counts]
      rintro ⟨hprivate, horg, hknowledge⟩
      simp only [Bool.or_eq_true, List.any_eq_true, Bool.and_eq_true, decide_eq_true_eq] at hfull
      rcases hfull with (⟨r, hr, hret, hn⟩ | ⟨r, hr, hret, hn⟩) | ⟨r, hr, hret, hn⟩
      · exact absurd (hprivate r hr hret) (Nat.not_lt.mpr hn)
      · exact absurd (horg r hr hret) (Nat.not_lt.mpr hn)
      · exact absurd (hknowledge r hr hret) (Nat.not_lt.mpr hn)
    rw [access_counted_self_iff]
    exact ⟨Or.inr, fun h => h.resolve_left hsome⟩
  · rename_i hroom
    simp only [Bool.or_eq_true, List.any_eq_true, Bool.and_eq_true, decide_eq_true_eq, not_or,
      not_exists, not_and, Nat.not_le] at hroom
    obtain ⟨⟨hprivate, horg⟩, hknowledge⟩ := hroom
    refine ⟨fun _ => Or.inl (forall_returned_counts.mpr ⟨hprivate, horg, hknowledge⟩), fun _ => ?_⟩
    exact ⟨counts_rows_update (by intro r; rfl) (by intro r; rfl) hprivate,
      counts_rows_update (by intro r; rfl) (by intro r; rfl) horg,
      counts_rows_update (by intro r; rfl) (by intro r; rfl) hknowledge, rfl⟩

/-! ## Every run -/

/-- In a run each access task counts exactly what its recall returned, if and only if at each of
them the returned rows have all room for one more, or none has. -/
theorem access_counts_are_exact_iff [Field K] [LinearOrder K] [HasSqrt K] (o : Outside K)
    (cfg : Settings) (s : OutcomeState K) (actions : List (OutcomeAction K)) :
    runs.EveryStep (outcome_step o cfg) CountsAccess s actions ↔
      runs.Guarded (outcome_step o cfg) FullTogether s actions := by
  refine runs.every_step_iff_guarded (fun s a hnone => ?_) (fun s a s' (_ : True) hstep => ?_)
    (fun _ _ _ _ _ _ => trivial) trivial
  · cases a with
    | record_access id now =>
      intro t ht
      have hfound : s.accesses.find? (·.id = id) = none := Option.map_eq_none_iff.mp hnone
      rw [hfound] at ht
      cases ht
    | «recall» | log_session_reads | report | select_reads | commit_outcome | fail | service =>
      trivial
  · cases a with
    | record_access id now =>
      obtain ⟨task, htask, rfl⟩ := Option.map_eq_some_iff.mp hstep
      simp only [CountsAccess, FullTogether, htask, Option.some.injEq, forall_eq']
      exact access_counted_iff task.results id.agent.tenant_id now s.db
    | «recall» | log_session_reads | report | select_reads | commit_outcome | fail | service =>
      exact Iff.rfl

/-! ## A memory that is recalled until its count is full -/

/-- The memory after it was recalled `n` times. -/
def standup_row (n : Nat) : HindsightMemory ℚ :=
  { id := 0, tenant_id := 1, agent_id := 20, type := .episodic, content := moved_to_ten
    importance := 3 / 10, recall_count := n
    last_recalled_at := match n with
      | 0 => none
      | _ + 1 => some 10
    content_hash := some moved_to_ten, valid_from := 0, created_at := 0 }

def cancelled_row : HindsightMemory ℚ :=
  { id := 1, tenant_id := 1, agent_id := 20, type := .episodic, content := cancelled_today
    importance := 3 / 10, content_hash := some cancelled_today, valid_from := 1
    created_at := 1 }

def stored (id : UUID) (content : String) : MemoryHistory :=
  { tenant_id := 1, agent_id := 20, operation := .remember, target_table := .hindsight_memories
    target_id := some id, content_hash := some content }

/-- The reporter has one memory. -/
def recalled_standup (n : Nat) : Db ℚ :=
  count_episodic 20 0 1 { tenants_db with
    hindsight_memories := [standup_row n]
    memory_history := [stored 0 moved_to_ten], next_id := 1 }

/-- It has stored another memory since. -/
def recalled_standups (n : Nat) : Db ℚ :=
  count_episodic 20 1 1 { recalled_standup n with
    hindsight_memories := [standup_row n, cancelled_row]
    memory_history := [stored 0 moved_to_ten, stored 1 cancelled_today]
    next_id := 2 }

def last_standups : RecallRequest := { query := "standup", type := some .episodic }

def standup_result (r : HindsightMemory ℚ) : RecallResult ℚ :=
  to_result (ranked_columns no_models last_standups r) .private_

/-- A recall and its access task. -/
def recall_standup (k : Nat) : List (OutcomeAction ℚ) :=
  [.«recall» ⟨reporter, k⟩ close_env none last_standups none, .record_access ⟨reporter, k⟩ 10]

def store (item : MemoryItem) (now : Timestamp) : OutcomeAction ℚ :=
  .service (.memory (.remember reporter now 0 [item]))

/-- The first memory is recalled until its count is full, and another one is stored. -/
def recall_until_full : List (OutcomeAction ℚ) :=
  store standup_moved 0 :: (List.range 32767).flatMap recall_standup ++ [store standup_cancelled 1]

theorem remember_standup : remember no_models reporter 0 0 [standup_moved] tenants_db =
    .ok (recalled_standup 0, [0]) := by
  rfl

theorem remember_cancelled (n : Nat) :
    remember no_models reporter 1 0 [standup_cancelled] (recalled_standup n) =
      .ok (recalled_standups n, [1]) := by
  rfl

theorem apply_char_budget_singleton (r : RecallResult ℚ) (max_chars : Int) :
    apply_char_budget [r] max_chars = [r] := by
  simp [apply_char_budget, char_budget_loop]

theorem recall_one (n : Nat) :
    «recall» no_models {} close_env none last_standups reporter (recalled_standup n) =
      .ok [standup_result (standup_row n)] := by
  have hactive : assert_agent_active reporter.agent_id reporter.tenant_id (recalled_standup n) =
      .ok () := rfl
  have hroute : route no_models {} close_env last_standups reporter (recalled_standup n) =
      .ok [standup_result (standup_row n)] := rfl
  unfold «recall»
  rw [hactive, hroute]
  simp only [bind, Except.bind, pure, Except.pure, List.length_singleton, Nat.reduceLeDiff,
    and_false, if_false, apply_char_budget_singleton, ite_self]

def both_standups : List (RecallResult ℚ) :=
  [standup_result (standup_row 32767), standup_result cancelled_row]

theorem recall_both :
    «recall» no_models {} close_env none last_standups reporter (recalled_standups 32767) =
      .ok both_standups := by
  decide +kernel

theorem record_one (n : Nat) (hn : n < 32767) :
    record_recall_access [standup_result (standup_row n)] 1 10 (recalled_standup n) =
      recalled_standup (n + 1) := by
  rw [record_recall_access_eq, if_neg]
  · rfl
  · intro hfull
    simp only [Bool.or_eq_true, List.any_eq_true, Bool.and_eq_true, decide_eq_true_eq] at hfull
    rcases hfull with (⟨r, hr, -, hle⟩ | ⟨r, hr, -⟩) | ⟨r, hr, -⟩
    · rw [List.mem_singleton.mp hr] at hle
      exact absurd hn (Nat.not_lt.mpr hle)
    · cases hr
    · cases hr

/-- After `n` recalls and their access tasks. -/
def RecalledTimes (n : Nat) (s : OutcomeState ℚ) : Prop :=
  s.accesses = [] ∧ s.recall_ids = (List.range n).map fun k => ⟨reporter, k⟩

section
variable {s : OutcomeState ℚ} {n : Nat} {results : List (RecallResult ℚ)}

theorem recall_step (h : RecalledTimes n s)
    (hresults : «recall» no_models {} close_env none last_standups reporter s.db = .ok results) :
    outcome_step no_models {} s (.«recall» ⟨reporter, n⟩ close_env none last_standups none) =
      some (s.respond ⟨reporter, n⟩ none results) := by
  have hnew : (⟨reporter, n⟩ : RequestId) ∉ s.recall_ids := by
    rw [h.2]
    simp
  simp only [outcome_step, hnew, if_false, hresults]

theorem respond_accesses (h : RecalledTimes n s) :
    (s.respond ⟨reporter, n⟩ none results).accesses = [⟨⟨reporter, n⟩, results⟩] := by
  simp [OutcomeState.respond, h.1]

/-- The state after a recall and its access task. -/
def OutcomeState.accessed (s : OutcomeState ℚ) (id : RequestId)
    (results : List (RecallResult ℚ)) : OutcomeState ℚ :=
  { (s.respond id none results).with_db
      (record_recall_access results id.agent.tenant_id 10 s.db) with accesses := [] }

theorem record_step (h : RecalledTimes n s) :
    outcome_step no_models {} (s.respond ⟨reporter, n⟩ none results)
      (.record_access ⟨reporter, n⟩ 10) = some (s.accessed ⟨reporter, n⟩ results) := by
  simp only [outcome_step, respond_accesses h, List.find?_cons, decide_true, Option.map_some,
    rows.delete, List.filter_cons, Bool.not_true, Bool.false_eq_true, if_false, List.filter_nil]
  rfl

theorem RecalledTimes.accessed (h : RecalledTimes n s) :
    RecalledTimes (n + 1) (s.accessed ⟨reporter, n⟩ results) := by
  refine ⟨rfl, ?_⟩
  rw [List.range_succ, List.map_append, ← h.2]
  rfl

/-- A recall of the first memory counts it. -/
theorem recalled_once_more (h : RecalledTimes n s) (hdb : s.db = recalled_standup n)
    (hn : n < 32767) : ∃ s', runs.run (outcome_step no_models {}) s (recall_standup n) = some s' ∧
      RecalledTimes (n + 1) s' ∧ s'.db = recalled_standup (n + 1) := by
  have hone : «recall» no_models {} close_env none last_standups reporter s.db =
      .ok [standup_result (standup_row n)] := by
    rw [hdb]
    exact recall_one n
  refine ⟨s.accessed ⟨reporter, n⟩ [standup_result (standup_row n)], ?_, h.accessed, ?_⟩
  · simp only [recall_standup, runs.run, recall_step h hone, record_step h, Option.bind_some]
  · rw [← record_one n hn, ← hdb]
    rfl

theorem recalled_times {s : OutcomeState ℚ} (h : RecalledTimes 0 s)
    (hdb : s.db = recalled_standup 0) {n : Nat} (hn : n ≤ 32767) :
    ∃ s', runs.run (outcome_step no_models {}) s ((List.range n).flatMap recall_standup) = some s' ∧
      RecalledTimes n s' ∧ s'.db = recalled_standup n := by
  induction n with
  | zero => exact ⟨s, rfl, h, hdb⟩
  | succ n ih =>
    obtain ⟨t, hrun, ht, hdb'⟩ := ih (Nat.le_of_succ_le hn)
    obtain ⟨s', hs', h'⟩ := recalled_once_more ht hdb' hn
    refine ⟨s', ?_, h'⟩
    rw [List.range_succ, List.flatMap_append, runs.run_append, hrun, List.flatMap_singleton]
    exact hs'

theorem full_and_another : ∃ s, runs.run (outcome_step no_models {})
      { service := ⟨{ db := tenants_db }, []⟩ } recall_until_full = some s ∧
    RecalledTimes 32767 s ∧ s.db = recalled_standups 32767 := by
  have hfirst : outcome_step no_models {} { service := ⟨{ db := tenants_db }, []⟩ }
      (store standup_moved 0) = some { service := ⟨{ db := recalled_standup 0 }, []⟩ } := by
    simp only [outcome_step, store, service_step, forget_step, remember_standup]
    rfl
  obtain ⟨s, hrun, htimes, hdb⟩ := recalled_times
    (s := { service := ⟨{ db := recalled_standup 0 }, []⟩ }) ⟨rfl, rfl⟩ rfl (le_refl 32767)
  have hsecond : outcome_step no_models {} s (store standup_cancelled 1) =
      some (s.with_db (recalled_standups 32767)) := by
    have hremember := remember_cancelled 32767
    rw [← hdb] at hremember
    simp only [OutcomeState.db] at hremember
    simp only [outcome_step, store, service_step, forget_step, hremember]
    rfl
  refine ⟨s.with_db (recalled_standups 32767), ?_, htimes, rfl⟩
  rw [recall_until_full, runs.run_append, runs.run, hfirst, Option.bind_some, hrun,
    Option.bind_some, runs.run, hsecond]
  rfl

end

/-- The second memory is returned with the first one, whose count is full, and is not counted. -/
theorem a_full_count_stops_the_others :
    ¬ runs.EveryStep (outcome_step no_models {}) CountsAccess
        { service := ⟨{ db := tenants_db }, []⟩ } (recall_until_full ++ recall_standup 32767) ∧
      (runs.run (outcome_step no_models {}) { service := ⟨{ db := tenants_db }, []⟩ }
        (recall_until_full ++ recall_standup 32767)).map
          (fun s => s.db.hindsight_memories.map (·.recall_count)) = some [32767, 0] := by
  obtain ⟨s, hrun, htimes, hdb⟩ := full_and_another
  have hboth : «recall» no_models {} close_env none last_standups reporter s.db =
      .ok both_standups := by
    rw [hdb]
    exact recall_both
  constructor
  · intro h
    have hrecall : runs.run (outcome_step no_models {}) { service := ⟨{ db := tenants_db }, []⟩ }
        (recall_until_full ++ [.«recall» ⟨reporter, 32767⟩ close_env none last_standups none]) =
          some (s.respond ⟨reporter, 32767⟩ none both_standups) := by
      rw [runs.run_append, hrun, Option.bind_some, runs.run, recall_step htimes hboth]
      rfl
    rw [recall_standup, List.append_cons] at h
    have haccess := h.at hrecall (record_step htimes)
    have hcounted : AccessCounted both_standups 1 s.db
        (record_recall_access both_standups 1 10 s.db) :=
      haccess ⟨⟨reporter, 32767⟩, both_standups⟩ (by rw [respond_accesses htimes]; rfl)
    have hcounts : (recalled_standups 32767).returned_counts both_standups 1 = [32767, 0] := by
      decide +kernel
    rw [access_counted_iff, hdb, hcounts] at hcounted
    revert hcounted
    decide
  · rw [runs.run_append, hrun]
    simp only [recall_standup, runs.run, recall_step htimes hboth, record_step htimes,
      Option.bind_some, Option.map_some]
    have hcounts : (record_recall_access both_standups 1 10
        (recalled_standups 32767)).hindsight_memories.map (·.recall_count) = [32767, 0] := by
      decide +kernel
    rw [← hcounts, ← hdb]
    rfl

end qortia
