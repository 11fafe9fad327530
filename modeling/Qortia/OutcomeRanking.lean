-- What the outcomes do to the ranking. In every run the confidence of a memory stays between 0.10
-- and 1, so that a success moves its dynamic importance up and a failure moves it down, if at all.
import Mathlib.Data.Rat.Cast.Order
import Qortia.OutcomeApart

namespace qortia

variable {K : Type}

/-! ## The dynamic importance -/

/-- The memory was recalled no earlier. A memory that was never recalled counts as the earliest. -/
def NoEarlier : Option Timestamp → Option Timestamp → Prop
  | none, _ => True
  | some _, none => False
  | some t, some t' => t ≤ t'

section
variable [Field K] [LinearOrder K] [IsStrictOrderedRing K] {o : Outside K} {now : Timestamp}

theorem dynamic_importance_bounds (o : Outside K) (now : Timestamp) (b : K) (n : Nat)
    (last : Option Timestamp) (c : K) :
    0 ≤ dynamic_importance o now b n last c ∧ dynamic_importance o now b n last c ≤ 1 := by
  rw [dynamic_importance_eq]
  exact ⟨le_max_left _ _, max_le zero_le_one (min_le_left _ _)⟩

theorem recency_boost_mono {last last' : Option Timestamp} (h : NoEarlier last last') :
    (recency_boost now last : K) ≤ recency_boost now last' := by
  have hfifth : (0 : K) ≤ 2 / 10 := by positivity
  cases last with
  | none =>
    cases last' with
    | none => exact le_refl _
    | some t' => exact mul_nonneg (le_max_left _ _) hfifth
  | some t =>
    cases last' with
    | none => exact absurd h not_false
    | some t' =>
      have hdays : (now - t') / DAY ≤ (now - t) / DAY :=
        Int.ediv_le_ediv (by decide) (Int.sub_le_sub_left h now)
      have hcast : (((now - t') / DAY : Int) : K) ≤ (((now - t) / DAY : Int) : K) :=
        Int.cast_le.mpr hdays
      refine mul_le_mul_of_nonneg_right (max_le_max (le_refl _) ?_) hfifth
      exact sub_le_sub_left (div_le_div_of_nonneg_right hcast (by positivity)) 1

/-- A product between the clamps. A negative one is 0 with either factor. -/
theorem clamp_mul_mono {x x' c c' : K} (hx : x ≤ x') (hc : 0 ≤ c) (hcc : c ≤ c') :
    max 0 (min 1 (x * c)) ≤ max 0 (min 1 (x' * c')) := by
  by_cases hneg : x ≤ 0
  · have hzero : min 1 (x * c) ≤ 0 :=
      (min_le_right _ _).trans (mul_nonpos_of_nonpos_of_nonneg hneg hc)
    rw [max_eq_left hzero]
    exact le_max_left _ _
  · have hpos := (not_le.mp hneg).le
    exact max_le_max (le_refl _)
      (min_le_min (le_refl _) (mul_le_mul hx hcc hc (hpos.trans hx)))

/-- The dynamic importance grows with each of the values that it is made of. -/
theorem dynamic_importance_mono (hlog : Monotone o.log1p) {b b' c c' : K} {n n' : Nat}
    {last last' : Option Timestamp} (hb : b ≤ b') (hn : n ≤ n') (hlast : NoEarlier last last')
    (hc : 0 ≤ c) (hcc : c ≤ c') :
    dynamic_importance o now b n last c ≤ dynamic_importance o now b' n' last' c' := by
  rw [dynamic_importance_eq, dynamic_importance_eq]
  refine clamp_mul_mono (min_le_min (le_refl _) (add_le_add (add_le_add hb ?_) ?_)) hc hcc
  · exact div_le_div_of_nonneg_right (hlog hn) (by positivity)
  · exact recency_boost_mono hlast

end

theorem NoEarlier.refl (last : Option Timestamp) : NoEarlier last last := by
  cases last with
  | none => trivial
  | some t => exact le_refl t

/-! ## One report -/

/-- `confidence_multiplier` after the UPDATE of a report with the ids that it selected. -/
def HindsightMemory.reported (r : HindsightMemory K) (outcome : Outcome) (memory_ids : List UUID)
    (tenant_id : UUID) : HindsightMemory K :=
  if r.id ∈ memory_ids && r.tenant_id = tenant_id then
    { r with confidence_multiplier := outcome.scale r.confidence_multiplier }
  else r

theorem commit_outcome_rows (p : Report) (memory_ids : List UUID) (db : Db K) :
    (commit_outcome p memory_ids db).hindsight_memories =
      db.hindsight_memories.map fun r => r.reported p.outcome memory_ids p.id.agent.tenant_id := by
  unfold commit_outcome scale_confidence
  by_cases hnone : memory_ids = []
  · simp [hnone, HindsightMemory.reported]
  · simp only [hnone, if_false]
    rfl

theorem reported_id (r : HindsightMemory K) (outcome : Outcome) (memory_ids : List UUID)
    (tenant_id : UUID) : (r.reported outcome memory_ids tenant_id).id = r.id := by
  unfold HindsightMemory.reported
  split
  · rfl
  · rfl

theorem le_scale_success {c : ℚ} (hlow : 1 / 10 ≤ c) (hhigh : c ≤ 1) :
    c ≤ Outcome.SUCCESS.scale c := by
  unfold Outcome.scale Outcome.multiplier
  exact le_max_of_le_right (le_min hhigh (by linarith))

theorem scale_minor_le {c : ℚ} (hlow : 1 / 10 ≤ c) : Outcome.MINOR_FAILURE.scale c ≤ c := by
  unfold Outcome.scale Outcome.multiplier
  exact max_le hlow ((min_le_right _ _).trans (by linarith))

theorem scale_critical_le {c : ℚ} (hlow : 1 / 10 ≤ c) :
    Outcome.CRITICAL_FAILURE.scale c ≤ Outcome.MINOR_FAILURE.scale c := by
  unfold Outcome.scale Outcome.multiplier
  exact max_le_max (le_refl _) (min_le_min (le_refl _) (by linarith))

/-- The `dynamic_importance` of the result that a private memory is returned as. -/
def HindsightMemory.ranked [Field K] [LinearOrder K] (o : Outside K) (now : Timestamp)
    (r : HindsightMemory K) : K :=
  (to_result (private_columns r none none) .private_).dynamic_importance o now

theorem ranked_eq [Field K] [LinearOrder K] (o : Outside K) (now : Timestamp)
    {r : HindsightMemory K} (hr : r.confidence_multiplier ≠ 0) :
    r.ranked o now = dynamic_importance o now (r.importance : K) r.recall_count r.last_recalled_at
      (r.confidence_multiplier : K) := by
  unfold HindsightMemory.ranked RecallResult.dynamic_importance to_result private_columns
  simp [Option.filter, hr]

/-- Which way an outcome moves what a memory is ranked by. -/
def Outcome.Moves [LE K] (outcome : Outcome) (before after : K) : Prop :=
  match outcome with
  | .SUCCESS => before ≤ after
  | .MINOR_FAILURE | .CRITICAL_FAILURE => after ≤ before

/-! ## The confidences -/

def Db.confidences (db : Db K) : List ℚ := db.hindsight_memories.map (·.confidence_multiplier)

/-- Every confidence is between 0.10 and 1. -/
def Db.Confident (db : Db K) : Prop := ∀ c ∈ db.confidences, 1 / 10 ≤ c ∧ c ≤ 1

theorem Db.Confident.of_sublist {db db' : Db K} (h : db.Confident)
    (hsub : db'.confidences.Sublist db.confidences) : db'.Confident :=
  fun c hc => h c (hsub.subset hc)

/-- A new memory has the default. -/
theorem Db.Confident.insert {db db' : Db K} (h : db.Confident)
    (hnew : db'.confidences = db.confidences ++ [1]) : db'.Confident := by
  intro c hc
  rw [hnew] at hc
  rcases List.mem_append.mp hc with hold | hone
  · exact h c hold
  · rw [List.mem_singleton.mp hone]
    norm_num

theorem confidences_update {f : HindsightMemory K → HindsightMemory K}
    (hf : ∀ r, (f r).confidence_multiplier = r.confidence_multiplier)
    (p : HindsightMemory K → Bool) (t : List (HindsightMemory K)) :
    ((rows.update p f t).map (·.confidence_multiplier)).Sublist
      (t.map (·.confidence_multiplier)) :=
  rows.sublist_update hf p t

theorem confidences_delete (p : HindsightMemory K → Bool) (t : List (HindsightMemory K)) :
    ((rows.delete p t).map (·.confidence_multiplier)).Sublist
      (t.map (·.confidence_multiplier)) :=
  List.filter_sublist.map _

theorem remember_confident {db db' : Db K} (h : db.Confident) {o : Outside K}
    {agent : AgentIdentity} {now : Timestamp} {choice : Nat} {memories : List MemoryItem}
    {ids : List UUID} (hreq : remember o agent now choice memories db = .ok (db', ids)) :
    db'.Confident := by
  refine remember_preserves hreq (fun db₁ mem expires_at hdb₁ => ?_) (fun db₁ n hdb₁ => hdb₁) h
  refine hdb₁.insert ?_
  unfold Db.confidences insert_memory
  rw [List.map_append]
  rfl

theorem remember_org_confident {db db' : Db K} (h : db.Confident) {o : Outside K}
    {agent : AgentIdentity} {now : Timestamp} {body : RememberOrgRequest} {row_id : UUID}
    (hreq : remember_org o agent now body db = .ok (db', row_id)) : db'.Confident := by
  obtain ⟨-, history, rfl⟩ := remember_org_ok hreq
  exact h

theorem statement_confident {w : Writer} (st : WriteStatement K) {db : Db K} {ids : List UUID}
    (h : db.Confident) : (st.exec w (db, ids)).1.Confident := by
  cases st with
  | prune ids' => exact h.of_sublist (confidences_update (by intro r; rfl) _ _)
  | supersede id => exact h.of_sublist (confidences_update (by intro r; rfl) _ _)
  | insert type content importance entities embedding stability =>
    refine h.insert ?_
    unfold Db.confidences WriteStatement.exec
    simp

theorem forget_confident {db db' : Db K} (h : db.Confident) {o : Outside K}
    {agent : AgentIdentity} {now : Timestamp} {id : UUID}
    (hreq : forget o agent now id db = .ok db') : db'.Confident := by
  obtain ⟨-, table, content, -, rfl⟩ := forget_eq hreq
  cases table with
  | hindsight_memories => exact h.of_sublist (confidences_delete _ _)
  | org_memory => exact h
  | org_knowledge => exact h

theorem graph_transaction_confident {db : Db K} (h : db.Confident) (o : Outside K)
    (cfg : Settings) (now : Timestamp) (row : GraphRow) [Field K] [LinearOrder K] :
    (graph_transaction o cfg now db row).Confident := by
  unfold graph_transaction
  rw [graph_entities_frame]
  unfold set_graphed
  split
  · exact h.of_sublist (confidences_update (by intro r; rfl) _ _)
  · exact h

theorem write_embedding_confident {db : Db K} (h : db.Confident) (tbl : EmbeddedTable) (id : UUID)
    (v : List K) : (write_embedding tbl id v db).Confident := by
  cases tbl with
  | hindsight_memories => exact h.of_sublist (confidences_update (by intro r; rfl) _ _)
  | org_memory | org_knowledge | qortia_entities => exact h

theorem count_attempt_confident {db : Db K} (h : db.Confident) (tbl : EmbeddedTable) (id : UUID) :
    (count_attempt tbl id db).Confident := by
  cases tbl with
  | hindsight_memories => exact h.of_sublist (confidences_update (by intro r; rfl) _ _)
  | org_memory | org_knowledge | qortia_entities => exact h

theorem reflect_confident {db db' : Db K} (h : db.Confident) [Field K] [LinearOrder K] [HasSqrt K]
    {o : Outside K} {cfg : Settings} {agent : AgentIdentity} {now : Timestamp}
    {answer : Except Failure (List Reflection)} {failed : List Nat} {n : Nat} {counter : Option Int}
    (hreq : reflect o cfg agent now answer failed db = .ok (db', n, counter)) : db'.Confident :=
  reflect_preserves hreq (fun _ _ st hdb => statement_confident st hdb) (fun _ hdb => hdb)
    (fun _ _ hdb => hdb) h

theorem insert_sections_confident (o : Outside K) (agent : AgentIdentity) (now : Timestamp)
    (choice : Nat → Nat) (body : KnowledgeIngestRequest) (idx : Nat) (sections : List Section)
    (acc : Db K × Nat × Nat) (h : acc.1.Confident) :
    (insert_sections o agent now choice body idx sections acc).1.Confident := by
  induction sections generalizing idx acc with
  | nil => exact h
  | cons s rest ih =>
    obtain ⟨db, created, deduped⟩ := acc
    unfold insert_sections
    apply ih
    split
    · exact h
    · exact h

theorem ingest_confident {db db' : Db K} (h : db.Confident) {o : Outside K} {agent : AgentIdentity}
    {now : Timestamp} {choice : Nat → Nat} {body : KnowledgeIngestRequest} {resp : IngestResponse}
    (hreq : ingest_knowledge o agent now choice body db = .ok (db', resp)) : db'.Confident := by
  obtain ⟨-, ⟨-, rfl⟩ | ⟨-, -, db₂, hdb₂, rfl⟩⟩ := ingest_cases hreq
  · exact h
  · have hinsert := insert_sections_confident o agent now choice body 0
      (split_into_sections body.content)
      (delete_document agent.tenant_id body.source_path db, 0, 0) h
    rw [← hdb₂] at hinsert
    exact hinsert

theorem delete_knowledge_confident {db db' : Db K} (h : db.Confident) {agent : AgentIdentity}
    {source_path : String} {n : Nat}
    (hreq : delete_knowledge agent source_path db = .ok (db', n)) : db'.Confident := by
  obtain ⟨-, rfl⟩ := delete_knowledge_ok hreq
  exact h

/-! ## Every step -/

section
variable [Field K] [LinearOrder K]

theorem worker_step_confident {o : Outside K} {cfg : Settings} {now : Timestamp} {ids : List UUID}
    {db db' : Db K} {w w' : Worker K} (h : db.Confident)
    (hstep : worker_step o cfg now ids db w = some (db', w')) : db'.Confident := by
  rcases worker_step_db hstep with rfl | ⟨row, rfl⟩ | ⟨id, v, rfl⟩ | ⟨_, _, _, rfl⟩
  · exact h
  · exact graph_transaction_confident h o cfg now row
  · exact write_embedding_confident h .hindsight_memories id v
  · exact h

omit [Field K] [LinearOrder K] in
theorem worker_stop_confident {db : Db K} (h : db.Confident) (w : Worker K) :
    (worker_stop db w).Confident := by
  cases w with
  | claimed memory_id => exact count_attempt_confident h .hindsight_memories memory_id
  | private_rows | org_rows | embedded | linking | finished => exact h

variable [HasSqrt K] {o : Outside K} {cfg : Settings}

theorem forget_step_confident {s s' : Forgetting K} {a : ForgetAction} (h : s.db.Confident)
    (hstep : forget_step o cfg s a = some s') : s'.db.Confident := by
  have hrequest : ∀ {α : Type} {f : α → Db K} {result : Except Failure α},
      (∀ x, result = .ok x → (f x).Confident) → s.request f result = some s' → s'.db.Confident := by
    intro α f result hok
    exact request_keeps (P := fun s => s.db.Confident) h hok
  cases a with
  | remember agent now choice memories => exact hrequest (fun _ => remember_confident h) hstep
  | remember_org agent now body => exact hrequest (fun _ => remember_org_confident h) hstep
  | reflect agent now answer failed => exact hrequest (fun _ => reflect_confident h) hstep
  | purge_expired now =>
    cases hstep
    exact h.of_sublist (confidences_delete _ _)
  | forget agent now id =>
    rcases forget_answered hstep with rfl | ⟨db', hreq, rfl⟩
    · exact h
    · exact forget_confident h hreq
  | start_graph_batch ids =>
    cases hstep
    exact h
  | start_embedding claim =>
    obtain ⟨r, -, -, -, rfl⟩ := embedding_started hstep
    exact h
  | advance i now ids =>
    obtain ⟨w, db', w', -, hws, rfl⟩ := worker_advanced hstep
    exact worker_step_confident h hws
  | stop i =>
    obtain ⟨w, -, rfl⟩ := Option.map_eq_some_iff.mp hstep
    exact worker_stop_confident h w

theorem service_step_confident {s s' : Service K} {a : ServiceAction}
    (h : s.requests.db.Confident) (hstep : service_step o cfg s a = some s') :
    s'.requests.db.Confident := by
  rcases service_step_cases hstep with ⟨b, requests, hforget, rfl⟩ | ⟨db', claimed, hwrite, rfl⟩
  · exact forget_step_confident h hforget
  · cases hwrite with
    | none => exact h
    | ingest hreq => exact ingest_confident h hreq
    | delete hreq => exact delete_knowledge_confident h hreq
    | embedding tbl id v => exact write_embedding_confident h tbl id v
    | attempt tbl id => exact count_attempt_confident h tbl id

omit [Field K] [LinearOrder K] [HasSqrt K] in
theorem record_recall_access_confident {db : Db K} (h : db.Confident)
    (results : List (RecallResult K)) (tenant_id : UUID) (now : Timestamp) :
    (record_recall_access results tenant_id now db).Confident := by
  unfold record_recall_access
  dsimp only
  split
  · exact h
  · exact h.of_sublist (confidences_update (by intro r; rfl) _ _)

omit [Field K] [LinearOrder K] [HasSqrt K] in
/-- A report scales some of the confidences. -/
theorem commit_outcome_confident {db : Db K} (h : db.Confident) (p : Report)
    (memory_ids : List UUID) : (commit_outcome p memory_ids db).Confident := by
  intro c hc
  unfold Db.confidences at hc
  rw [commit_outcome_rows, List.map_map] at hc
  obtain ⟨r, hr, rfl⟩ := List.mem_map.mp hc
  simp only [Function.comp, HindsightMemory.reported]
  split
  · exact scale_bounds p.outcome r.confidence_multiplier
  · exact h _ (List.mem_map_of_mem hr)

theorem outcome_step_confident {s s' : OutcomeState K} {a : OutcomeAction K} (h : s.db.Confident)
    (hstep : outcome_step o cfg s a = some s') : s'.db.Confident := by
  rcases outcome_step_db hstep with hdb | ⟨results, tenant_id, now, hdb⟩ | ⟨t, hdb⟩ |
    ⟨id, p, memory_ids, -, -, -, hdb⟩ | ⟨b, service, -, hservice, hdb⟩
  · rwa [hdb]
  · rw [hdb]
    exact record_recall_access_confident h _ _ _
  · rw [hdb]
    exact h
  · rw [hdb]
    exact commit_outcome_confident h p memory_ids
  · rw [hdb]
    exact service_step_confident h hservice

theorem confident_of_run {db : Db K} (hblank : db.Blank) {actions : List (OutcomeAction K)}
    {s : OutcomeState K}
    (hrun : runs.run (outcome_step o cfg) { service := ⟨{ db }, []⟩ } actions = some s) :
    s.db.Confident := by
  have hstart : db.Confident := by
    intro c hc
    unfold Db.confidences at hc
    rw [hblank.hindsight_memories] at hc
    cases hc
  have hok : runs.Guarded (outcome_step o cfg) (fun _ _ => True)
      { service := ⟨{ db }, []⟩ } actions :=
    runs.guarded_of_forall _ (fun _ _ => trivial) _ _
  have halways : runs.Always (outcome_step o cfg) (fun s => s.db.Confident)
      { service := ⟨{ db }, []⟩ } actions :=
    runs.always_of_invariant (fun _ h => h)
      (fun _ _ _ h _ hstep => outcome_step_confident h hstep) hstart hok
  exact halways.last hrun

/-! ## What a report does to the ranking -/

section
variable [IsStrictOrderedRing K] {now : Timestamp}

omit [HasSqrt K] in
theorem ranked_mono (hlog : Monotone o.log1p) (r : HindsightMemory K) {c c' : ℚ} (hc : 1 / 10 ≤ c)
    (hcc : c ≤ c') :
    ({ r with confidence_multiplier := c } : HindsightMemory K).ranked o now ≤
      ({ r with confidence_multiplier := c' } : HindsightMemory K).ranked o now := by
  have hpos : 0 < c := lt_of_lt_of_le (by norm_num) hc
  rw [ranked_eq o now hpos.ne', ranked_eq o now (hpos.trans_le hcc).ne']
  exact dynamic_importance_mono hlog (le_refl _) (le_refl _) (NoEarlier.refl _)
    (Rat.cast_nonneg.mpr hpos.le) (Rat.cast_le.mpr hcc)

omit [HasSqrt K] in
theorem reported_moves (hlog : Monotone o.log1p) {r : HindsightMemory K}
    (hr : 1 / 10 ≤ r.confidence_multiplier ∧ r.confidence_multiplier ≤ 1) (outcome : Outcome)
    (memory_ids : List UUID) (tenant_id : UUID) :
    outcome.Moves (r.ranked o now) ((r.reported outcome memory_ids tenant_id).ranked o now) := by
  unfold HindsightMemory.reported
  split
  · cases outcome with
    | SUCCESS => exact ranked_mono hlog r hr.1 (le_scale_success hr.1 hr.2)
    | MINOR_FAILURE =>
      exact ranked_mono hlog r (scale_bounds .MINOR_FAILURE _).1 (scale_minor_le hr.1)
    | CRITICAL_FAILURE =>
      have hle := (scale_critical_le hr.1).trans (scale_minor_le hr.1)
      exact ranked_mono hlog r (scale_bounds .CRITICAL_FAILURE _).1 hle
  · cases outcome with
    | SUCCESS | MINOR_FAILURE | CRITICAL_FAILURE => exact le_refl _

omit [HasSqrt K] in
theorem reported_critical_le (hlog : Monotone o.log1p) {r : HindsightMemory K}
    (hr : 1 / 10 ≤ r.confidence_multiplier) (memory_ids : List UUID) (tenant_id : UUID) :
    (r.reported .CRITICAL_FAILURE memory_ids tenant_id).ranked o now ≤
      (r.reported .MINOR_FAILURE memory_ids tenant_id).ranked o now := by
  unfold HindsightMemory.reported
  split
  · exact ranked_mono hlog r (scale_bounds .CRITICAL_FAILURE _).1 (scale_critical_le hr)
  · exact le_refl _

/-- At the end of every run each confidence is between 0.10 and 1, a report of success moves no
memory down and one of a failure none up, a critical failure moves each at least as far down as a
minor one, and the dynamic importance is between 0 and 1 and grows with each of its values. -/
theorem outcomes_move_the_ranking (o : Outside K) (hlog : Monotone o.log1p) (cfg : Settings)
    (db : Db K) (hblank : db.Blank) (actions : List (OutcomeAction K)) (s : OutcomeState K)
    (hrun : runs.run (outcome_step o cfg) { service := ⟨{ db }, []⟩ } actions = some s)
    (now : Timestamp) :
    s.db.Confident ∧
      (∀ (p : Report) memory_ids, List.Forall₂
        (fun r r' => r'.id = r.id ∧ p.outcome.Moves (r.ranked o now) (r'.ranked o now))
        s.db.hindsight_memories (commit_outcome p memory_ids s.db).hindsight_memories) ∧
      (∀ (p : Report) memory_ids, List.Forall₂
        (fun r r' => r'.id = r.id ∧ r'.ranked o now ≤ r.ranked o now)
        (commit_outcome { p with outcome := .MINOR_FAILURE } memory_ids s.db).hindsight_memories
        (commit_outcome { p with outcome := .CRITICAL_FAILURE } memory_ids
          s.db).hindsight_memories) ∧
      (∀ b n last c, 0 ≤ dynamic_importance o now b n last c ∧
        dynamic_importance o now b n last c ≤ 1) ∧
      ∀ b b' n n' last last' c c', b ≤ b' → n ≤ n' → NoEarlier last last' → 0 ≤ c → c ≤ c' →
        dynamic_importance o now b n last c ≤ dynamic_importance o now b' n' last' c' := by
  have hconfident := confident_of_run hblank hrun
  have hr : ∀ r ∈ s.db.hindsight_memories,
      1 / 10 ≤ r.confidence_multiplier ∧ r.confidence_multiplier ≤ 1 :=
    fun r hr => hconfident _ (List.mem_map_of_mem hr)
  refine ⟨hconfident, fun p memory_ids => ?_, fun p memory_ids => ?_, ?_, ?_⟩
  · rw [commit_outcome_rows, List.forall₂_map_right_iff, List.forall₂_same]
    exact fun r hmem => ⟨reported_id .., reported_moves hlog (hr r hmem) _ _ _⟩
  · rw [commit_outcome_rows, commit_outcome_rows, List.forall₂_map_right_iff,
      List.forall₂_map_left_iff, List.forall₂_same]
    refine fun r hmem => ⟨?_, reported_critical_le hlog (hr r hmem).1 _ _⟩
    rw [reported_id, reported_id]
  · exact fun b n last c => dynamic_importance_bounds o now b n last c
  · exact fun b b' n n' last last' c c' hb hn hlast hc hcc =>
      dynamic_importance_mono hlog hb hn hlast hc hcc

end

end

/-! ## A memory with a minor failure -/

/-- The memory is stored, recalled under a work order, and its outcome is reported. -/
def remember_and_report : List (OutcomeAction ℚ) :=
  .service (.memory (.remember reporter 0 0 [standup_moved])) ::
    recall_and_report reporter 7 .MINOR_FAILURE

theorem a_minor_failure_is_ranked_lower :
    ∃ s, runs.run (outcome_step no_models {}) { service := ⟨{ db := tenants_db }, []⟩ }
        remember_and_report = some s ∧
      s.db.confidences = [17 / 20] ∧ s.db.Confident ∧
      ∀ p memory_ids, List.Forall₂
        (fun r r' => r'.id = r.id ∧ p.outcome.Moves (r.ranked no_models 0) (r'.ranked no_models 0))
        s.db.hindsight_memories (commit_outcome p memory_ids s.db).hindsight_memories := by
  have hend : (runs.run (outcome_step no_models {}) { service := ⟨{ db := tenants_db }, []⟩ }
      remember_and_report).map (·.db.confidences) = some [17 / 20] := by
    decide +kernel
  obtain ⟨s, hs, hconfidences⟩ := Option.map_eq_some_iff.mp hend
  obtain ⟨hconfident, hmoves, -⟩ := outcomes_move_the_ranking no_models (fun _ _ _ => le_refl _) {}
    tenants_db ⟨rfl, rfl, rfl, rfl, rfl⟩ remember_and_report s hs 0
  exact ⟨s, hs, hconfidences, hconfident, hmoves⟩

end qortia
