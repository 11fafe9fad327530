-- Where the summary of an entity is shown. The hybrid pipeline puts it on its first result, before
-- the model reranks the results and the budget cuts them.
import Qortia.RecallClearance
import Qortia.RecallResults

namespace qortia

variable {K : Type}

/-! ## What has to hold -/

/-- The first result of a response carries the summary, and no other one. -/
def SummaryOnTop (summary : String) (results : List (RecallResult K)) : Prop :=
  ranking.OnTop (fun r : RecallResult K => r.entity_summary = some summary) results

instance (summary : String) (results : List (RecallResult K)) :
    Decidable (SummaryOnTop summary results) :=
  ranking.OnTop.decidable _ results

/-- The first place that the answer picks is the first one, and it is not picked again for one of
the places that are shown. An answer that picks nothing leaves the order. -/
def picks_first_once (shown : Nat) : Except Failure (List Nat) → Bool
  | .ok (pick :: picks) => pick = 0 && 0 ∉ picks.take (shown - 1)
  | .ok [] | .error _ => true

/-- If the results are reranked, the answer of the model has the first one of the pipeline first,
and once. -/
def KeepsFirst (cfg : Settings) (answer : Option json.Json) (body : RecallRequest)
    (found : List (RecallResult K)) : Prop :=
  body.rerank = true ∧ 2 ≤ found.length ∧ cfg.rerank_model ≠ "" →
    (answer.map (picked_places found.length)).all
      (picks_first_once (shown_count cfg answer body found)) = true

instance (cfg : Settings) (answer : Option json.Json) (body : RecallRequest)
    (found : List (RecallResult K)) : Decidable (KeepsFirst cfg answer body found) :=
  inferInstanceAs (Decidable (_ → _))

/-! ## The places -/

theorem shown_places_first_once_iff {cfg : Settings} {answer : Option json.Json}
    {body : RecallRequest} {found : List (RecallResult K)} (hfound : found ≠ []) :
    ranking.FirstOnce (shown_places cfg answer body found) ↔ KeepsFirst cfg answer body found := by
  have hlength := List.length_pos_of_ne_nil hfound
  have hcount := shown_count_pos cfg answer body hfound
  have hrange : ranking.FirstOnce ((List.range found.length).take
      (shown_count cfg answer body found)) := ranking.range_first_once hlength hcount
  unfold KeepsFirst shown_places ordered_places reranked_places
  by_cases hrerank : body.rerank = true ∧ 2 ≤ found.length
  · by_cases hmodel : cfg.rerank_model = ""
    · simp only [hrerank, hmodel, and_self, if_true, hrange, ne_eq, not_true, and_false,
        false_implies]
    · simp only [hrerank, hmodel, if_true, if_false, ne_eq, not_false_iff, and_self, true_implies]
      cases hplaces : answer.map (picked_places found.length) with
      | none => simp only [hrange, Option.all_none]
      | some picked =>
        rw [Option.all_some]
        cases picked with
        | error e => simp only [hrange, picks_first_once]
        | ok places =>
          obtain ⟨a, -, ha⟩ := Option.map_eq_some_iff.mp hplaces
          cases places with
          | nil => simp only [ranking.picked_first_nil, hrange, picks_first_once]
          | cons pick picks =>
            rw [picks_first_once, Bool.and_eq_true, decide_eq_true_eq, decide_eq_true_eq]
            exact ranking.picked_first_once_iff (picked_places_lt ha) hcount
  · have hout : ¬ (body.rerank = true ∧ 2 ≤ found.length ∧ cfg.rerank_model ≠ "") :=
      fun h => hrerank ⟨h.1, h.2.1⟩
    simp only [hrerank, hout, if_false, hrange, false_implies]

/-! ## The summaries of the pipeline -/

section
variable [Field K] [LinearOrder K] [HasSqrt K] {o : Outside K} {cfg : Settings} {env : RecallEnv K}
  {answer : Option json.Json} {body : RecallRequest} {agent : AgentIdentity} {db : Db K}

omit [HasSqrt K] in
theorem search_untold {x : RecallResult K} (h : x ∈ search o cfg env body agent db) :
    x.entity_summary = none := by
  have htop : ∀ {Row : Type} {n : Nat} {scope : ResultScope} {t : List Row}
      {f : Row → Option (FetchedRow K × K)} {y : RecallResult K},
      y ∈ top_rows n scope (t.filterMap f) → y.entity_summary = none := by
    intro Row n scope t f y hy
    obtain ⟨r, -, row, -, rfl⟩ := mem_top_rows hy
    rfl
  rw [search_eq] at h
  obtain ⟨l, -, hl⟩ := List.mem_flatMap.mp h
  have hrun := mem_leg_results hl
  cases l with
  | bm25_private | vector_private | bm25_org | vector_org | bm25_knowledge => exact htop hrun
  | vector_knowledge =>
    obtain ⟨y, hy, rfl⟩ := List.mem_map.mp hrun
    have hnone := htop hy
    exact hnone

theorem select_knowledge_untold {candidates : List (RecallResult K)}
    (hnone : ∀ y ∈ candidates, y.entity_summary = none) {x : RecallResult K}
    (h : x ∈ select_knowledge o env body candidates) : x.entity_summary = none := by
  unfold select_knowledge at h
  split at h
  · exact hnone x (List.mem_of_mem_take h)
  · split at h
    · exact hnone x (List.mem_of_mem_take h)
    · obtain ⟨y, hy, rfl⟩ := List.mem_map.mp (mem_mmr h)
      exact hnone y hy

/-- Only the first result of the pipeline has a summary. -/
theorem hybrid_summary_iff {summary : String}
    (hsummary : top_entity_summary o env body agent db = some summary) {i : Nat}
    {x : RecallResult K} (h : (hybrid_recall_pipeline o cfg env body agent db)[i]? = some x) :
    x.entity_summary = some summary ↔ i = 0 := by
  have hparts : ∀ y ∈ fused_part o cfg env body agent db ++ linked_part o cfg env body agent db ++
      knowledge_part o cfg env body agent db, y.entity_summary = none := by
    intro y hy
    rcases List.mem_append.mp hy with hy | hy
    · rcases List.mem_append.mp hy with hy | hy
      · exact search_untold (mem_fused_part hy).1
      · obtain ⟨-, r, -, -, per_source, rfl⟩ := mem_linked_part hy
        rfl
    · exact select_knowledge_untold
        (fun z hz => search_untold (List.mem_of_mem_filter hz)) hy
  rw [hybrid_eq, hsummary] at h
  cases hall : fused_part o cfg env body agent db ++ linked_part o cfg env body agent db ++
      knowledge_part o cfg env body agent db with
  | nil =>
    rw [hall] at h
    cases h
  | cons first rest =>
    rw [hall] at h hparts
    cases i with
    | zero =>
      cases h
      exact ⟨fun _ => rfl, fun _ => rfl⟩
    | succ i =>
      have hmem : x ∈ rest := List.mem_of_getElem? h
      rw [hparts x (List.mem_cons_of_mem first hmem)]
      simp

/-! ## Every response -/

/-- A response of the hybrid pipeline that has found a summary shows it on its first result only,
exactly when the order of the model keeps the first result of the pipeline first. -/
theorem the_summary_is_on_top_iff (o : Outside K) (cfg : Settings) (env : RecallEnv K)
    (answer : Option json.Json) (body : RecallRequest) (hbody : routed body = false)
    (agent : AgentIdentity) (db : Db K) (summary : String)
    (hsummary : top_entity_summary o env body agent db = some summary)
    (results : List (RecallResult K)) (h : «recall» o cfg env answer body agent db = .ok results) :
    SummaryOnTop summary results ↔
      KeepsFirst cfg answer body (hybrid_recall_pipeline o cfg env body agent db) := by
  obtain ⟨found, hfound, rfl⟩ := recall_shows h
  obtain rfl := route_hybrid hbody hfound
  by_cases hnone : hybrid_recall_pipeline o cfg env body agent db = []
  · have hempty : ∀ places, ranking.at_places ([] : List (RecallResult K)) places = [] := by
      simp [ranking.at_places]
    rw [hnone, hempty]
    exact iff_of_true trivial fun hrerank => absurd hrerank.2.1 (by simp)
  · rw [← shown_places_first_once_iff hnone]
    exact ranking.on_top_at_places_iff (fun i x hx => hybrid_summary_iff hsummary hx)
      (fun i hi => shown_places_lt hi) (shown_places_ne_nil hnone)

end

/-! ## Two handoffs about one queue -/

/-- A model that finds the queue in each of the texts. -/
def queue_models : Outside ℚ :=
  { vendor_models with en_core_web_sm := some fun _ => some { ents := [("QA", "ORG")] } }

def nightly_red : String :=
  "the QA queue is red again and the nightly builds have to be started by hand"

theorem nightly_red_floor : 10 ≤ (text.words nightly_red.toList).length := by decide

def night_handoff : RememberOrgRequest :=
  { type := .handoff, title := "night", content := nightly_red
    content_floor := nightly_red_floor }

/-- Both handoffs are graphed. -/
def two_handoffs : List OrgAction :=
  [.remember_org chief 1 shift_handoff, .remember_org chief 2 night_handoff,
    .populate_graph 3 [] [0, 1]]

def queue_question : RecallRequest := { query := "what is the state of QA", rerank := true }

def judged : Settings := { rerank_model := "judge" }

def queue_answer (order : List Int) (db : Db ℚ) : Except Failure (List (RecallResult ℚ)) :=
  «recall» queue_models judged plain_env (some (.array (order.map fun i => .number (.int i))))
    queue_question engineer db

theorem the_summary_is_on_top_in_order :
    ∃ db results, runs.run (org_step queue_models judged) team_db two_handoffs = some db ∧
      queue_answer [1, 2] db = .ok results ∧ results.length = 2 ∧
      SummaryOnTop shift_handoff.content results := by
  have hend : (runs.run (org_step queue_models judged) team_db two_handoffs).map (fun db =>
      (top_entity_summary queue_models plain_env queue_question engineer db,
        (queue_answer [1, 2] db).toOption.map (·.length),
        decide (KeepsFirst judged (some (.array [.number (.int 1), .number (.int 2)]))
          queue_question
          (hybrid_recall_pipeline queue_models judged plain_env queue_question engineer db)))) =
      some (some shift_handoff.content, some 2, true) := by
    decide +kernel
  obtain ⟨db, hdb, hfound⟩ := Option.map_eq_some_iff.mp hend
  simp only [Prod.mk.injEq] at hfound
  obtain ⟨hsummary, hlength, hkeeps⟩ := hfound
  cases hanswer : queue_answer [1, 2] db with
  | error e =>
    rw [hanswer] at hlength
    cases hlength
  | ok results =>
    rw [hanswer] at hlength
    refine ⟨db, results, hdb, hanswer, Option.some.inj hlength, ?_⟩
    exact (the_summary_is_on_top_iff queue_models judged plain_env _ queue_question rfl engineer
      db _ hsummary results hanswer).mpr (of_decide_eq_true hkeeps)

/-- The model turns the two results around, and the summary goes with the first one to the second
place. -/
theorem the_summary_goes_down :
    (runs.run (org_step queue_models judged) team_db two_handoffs).map (fun db =>
      (top_entity_summary queue_models plain_env queue_question engineer db,
        (queue_answer [2, 1] db).toOption.map fun results =>
          (results.map (·.entity_summary), decide (SummaryOnTop shift_handoff.content results)))) =
      some (some shift_handoff.content,
        some ([none, some shift_handoff.content], false)) := by
  decide +kernel

end qortia
