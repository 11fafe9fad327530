-- `POST /v1/recall` as a whole: the type-routed searches of `qortia.recall`, the reranking of
-- `qortia.recall_rerank`, and the character budget. The response shows the results that a route
-- found at some of their places.
import Mathlib.Data.List.ReduceOption
import Qortia.Lib.Ranking
import Qortia.Recall

namespace qortia

variable {K : Type} [Field K] [LinearOrder K]

/-! ## The type-routed searches -/

/-- `_sort_by_importance`. -/
def sort_by_importance (o : Outside K) (now : Timestamp) (results : List (RecallResult K)) :
    List (RecallResult K) :=
  rows.order_desc (RecallResult.dynamic_importance o now) results

/-- The `tier_clause`. -/
def tier_clause (body : RecallRequest) : Tier :=
  if body.scope = .archive then .archive else .active

/-- The conditions that the type-routed queries share. -/
def routed_where (now : Timestamp) (body : RecallRequest) (agent : AgentIdentity)
    (type : MemoryType) (tier : Tier) (r : HindsightMemory K) : Bool :=
  r.agent_id = agent.agent_id && r.type = type && r.tier = tier && r.expires_at.all (now < ·) &&
    r.valid_until.all (now < ·) && entity_filter body r.entities

omit [Field K] [LinearOrder K] in
/-- The columns that the type-routed queries select. -/
def routed_columns (r : HindsightMemory K) (score rank : Option K) : FetchedRow K where
  id := r.id
  content := r.content
  importance := some r.importance
  created_at := r.created_at
  recall_count := r.recall_count
  last_recalled_at := r.last_recalled_at
  confidence_multiplier := some r.confidence_multiplier
  score := score
  rank := rank

/-- A type-routed search: the memories that the query picks, in its order, ten at most. -/
def recall_routed (o : Outside K) (now : Timestamp) (body : RecallRequest) (agent : AgentIdentity)
    (type : MemoryType) (tier : Tier) (condition : HindsightMemory K → Bool)
    (order : List (HindsightMemory K) → List (HindsightMemory K))
    (columns : HindsightMemory K → FetchedRow K) (keep : FetchedRow K → Bool) (db : Db K) :
    List (RecallResult K) :=
  let picked := db.hindsight_memories.filter fun r =>
    routed_where now body agent type tier r && condition r
  sort_by_importance o now
    (((((order picked).take 10).map columns).filter keep).map fun row => to_result row .private_)

/-- The `rank` column of a memory. -/
def private_rank (o : Outside K) (body : RecallRequest) (r : HindsightMemory K) : K :=
  o.ts_rank_cd body.query r.content (bm25_normalization body.query)

/-- `ORDER BY rank DESC, created_at DESC`. -/
def by_rank (o : Outside K) (body : RecallRequest) (fetched : List (HindsightMemory K)) :
    List (HindsightMemory K) :=
  rows.order_desc (private_rank o body) (rows.order_desc (·.created_at) fetched)

/-- The columns of a search by rank. -/
def ranked_columns (o : Outside K) (body : RecallRequest) (r : HindsightMemory K) : FetchedRow K :=
  routed_columns r none (some (private_rank o body r))

/-- `_recall_decisions`. -/
def recall_decisions (o : Outside K) (now : Timestamp) (body : RecallRequest)
    (agent : AgentIdentity) (db : Db K) : List (RecallResult K) :=
  if body.scope = .org ∨ body.scope = .knowledge then []
  else
    recall_routed o now body agent .decision (tier_clause body)
      (fun r => o.ts_match body.query r.content) (by_rank o body) (ranked_columns o body)
      (fun _ => true) db

/-- The similarity of a memory to the query. -/
def private_similarity (o : Outside K) (qe : List K) (r : HindsightMemory K) : K :=
  (r.embedding.map fun v => o.similarity v qe).getD 0

/-- `_recall_lessons`. The database refuses an empty vector. -/
def recall_lessons (o : Outside K) (now : Timestamp) (query_embedding : Option (List K))
    (body : RecallRequest) (agent : AgentIdentity) (db : Db K) :
    Except Failure (List (RecallResult K)) :=
  if body.scope = .org ∨ body.scope = .knowledge then .ok []
  else
    match query_embedding with
    | none => .ok []
    | some [] => .error .PostgresError
    | some (x :: qe) =>
      .ok (recall_routed o now body agent .lesson (tier_clause body)
        (fun r => r.embedding.isSome) (rows.order_desc (private_similarity o (x :: qe)))
        (fun r => routed_columns r (some (private_similarity o (x :: qe) r)) none)
        (fun row => ((35 / 100 : ℚ) : K) ≤ row.score.getD 0) db)

/-- `_recall_episodic`. A memory of the last seven days is found without a match. -/
def recall_episodic (o : Outside K) (now : Timestamp) (body : RecallRequest)
    (agent : AgentIdentity) (db : Db K) : List (RecallResult K) :=
  if body.scope = .org ∨ body.scope = .knowledge then []
  else
    recall_routed o now body agent .episodic (tier_clause body)
      (fun r => o.ts_match body.query r.content || now - 7 * DAY < r.created_at)
      (fun fetched => rows.order_asc (fun r => if o.ts_match body.query r.content then 0 else 1)
        (by_rank o body fetched))
      (ranked_columns o body) (fun _ => true) db

/-- `_recall_short_term`. -/
def recall_short_term (o : Outside K) (now : Timestamp) (body : RecallRequest)
    (agent : AgentIdentity) (db : Db K) : Except Failure (List (RecallResult K)) :=
  if body.scope = .archive then .error .ValueError
  else if body.scope = .org ∨ body.scope = .knowledge then .ok []
  else
    .ok (recall_routed o now body agent .short_term .active
      (fun r => o.ts_match body.query r.content) (by_rank o body) (ranked_columns o body)
      (fun _ => true) db)

/-! ## The reranking -/

section
omit [Field K] [LinearOrder K]

/-- `1 <= i <= n` and `results[i - 1]` for one element of the answer: the place that it picks. A
bool counts as a number, and no float is an index. -/
def picked_place (n : Nat) : json.Json → Except Failure (Option Nat)
  | .number (.int i) => .ok (if 1 ≤ i ∧ i ≤ n then some (i - 1).toNat else none)
  | .number (.float q) => if 1 ≤ q ∧ q ≤ n then .error .TypeError else .ok none
  | .number .nan => .ok none
  | .number (.infinity _) => .ok none
  | .bool b => .ok (if b ∧ 1 ≤ n then some 0 else none)
  | .null | .string _ | .array _ | .object _ => .error .TypeError

/-- The places that the whole answer picks. What is no array fails, unless it is empty. -/
def picked_places (n : Nat) : json.Json → Except Failure (List Nat)
  | .array xs => (xs.mapM (picked_place n)).map List.reduceOption
  | .string s => if s = "" then .ok [] else .error .TypeError
  | .object kvs => if kvs = [] then .ok [] else .error .TypeError
  | .null | .bool _ | .number _ => .error .TypeError

/-- `_llm_rerank`. `answer` is the JSON text that the model gives, `none` when the call or
`json.loads` raises. -/
def llm_rerank (cfg : Settings) (answer : Option json.Json) (results : List (RecallResult K)) :
    List (RecallResult K) :=
  if results.isEmpty ∨ cfg.rerank_model = "" then results
  else
    match answer.map (picked_places results.length) with
    | some (.ok places) =>
      let reranked := places.filterMap fun i => results[i]?
      reranked ++ results.filter fun r => r.id ∉ reranked.map (·.id)
    | some (.error _) => results
    | none => results

/-! ## The character budget -/

/-- `_resolve_max_chars`. -/
def resolve_max_chars (cfg : Settings) (body_max_chars : Option Int) : Int :=
  body_max_chars.getD cfg.recall_default_max_chars

/-- The loop of `_apply_char_budget`. -/
def char_budget_loop (max_chars : Int) :
    (kept : List (RecallResult K)) → (used : Int) → List (RecallResult K) → List (RecallResult K)
  | kept, _, [] => kept
  | kept, used, result :: results =>
    let cost : Int := result.content.length
    if ¬ kept.isEmpty ∧ max_chars < used + cost then kept
    else if max_chars ≤ used + cost then kept ++ [result]
    else char_budget_loop max_chars (kept ++ [result]) (used + cost) results

/-- `_apply_char_budget`. -/
def apply_char_budget (results : List (RecallResult K)) (max_chars : Int) :
    List (RecallResult K) :=
  char_budget_loop max_chars [] 0 results

end

/-! ## The endpoint -/

variable [HasSqrt K]

/-- The results of the route that the type of the request takes. -/
def route (o : Outside K) (cfg : Settings) (env : RecallEnv K) (body : RecallRequest)
    (agent : AgentIdentity) (db : Db K) : Except Failure (List (RecallResult K)) :=
  match body.type with
  | some .decision => .ok (recall_decisions o env.now body agent db)
  | some .lesson => recall_lessons o env.now env.query_embedding body agent db
  | some .episodic => .ok (recall_episodic o env.now body agent db)
  | some .short_term => recall_short_term o env.now body agent db
  | some .experiential | some .mental_model | none =>
    .ok (hybrid_recall_pipeline o cfg env body agent db)

/-- `recall`. -/
def «recall» (o : Outside K) (cfg : Settings) (env : RecallEnv K) (answer : Option json.Json)
    (body : RecallRequest) (agent : AgentIdentity) (db : Db K) :
    Except Failure (List (RecallResult K)) := do
  assert_agent_active agent.agent_id agent.tenant_id db
  let results ← route o cfg env body agent db
  let results := if body.rerank ∧ 2 ≤ results.length then llm_rerank cfg answer results else results
  let effective_max_chars := resolve_max_chars cfg body.max_chars
  return if 0 < effective_max_chars then apply_char_budget results effective_max_chars else results

/-! ## What a response shows -/

section
omit [Field K] [LinearOrder K] [HasSqrt K]

/-- The lengths of the contents. -/
def lengths (results : List (RecallResult K)) : List Nat := results.map (·.content.length)

/-- The places of the results in the order of the model. -/
def reranked_places (cfg : Settings) (answer : Option json.Json) (found : List (RecallResult K)) :
    List Nat :=
  if cfg.rerank_model = "" then List.range found.length
  else
    match answer.map (picked_places found.length) with
    | some (.ok places) => ranking.picked_first (·.id) found places
    | some (.error _) => List.range found.length
    | none => List.range found.length

/-- The places of the results before the budget cuts them. -/
def ordered_places (cfg : Settings) (answer : Option json.Json) (body : RecallRequest)
    (found : List (RecallResult K)) : List Nat :=
  if body.rerank ∧ 2 ≤ found.length then reranked_places cfg answer found
  else List.range found.length

/-- How many results the budget leaves. -/
def shown_count (cfg : Settings) (answer : Option json.Json) (body : RecallRequest)
    (found : List (RecallResult K)) : Nat :=
  if 0 < resolve_max_chars cfg body.max_chars then
    ranking.shown (resolve_max_chars cfg body.max_chars)
      (lengths (ranking.at_places found (ordered_places cfg answer body found)))
  else (ordered_places cfg answer body found).length

/-- The places, among the results that a route found, of those that the response shows. -/
def shown_places (cfg : Settings) (answer : Option json.Json) (body : RecallRequest)
    (found : List (RecallResult K)) : List Nat :=
  (ordered_places cfg answer body found).take (shown_count cfg answer body found)

/-! The budget. -/

theorem char_budget_loop_eq {max_chars : Int} {kept results : List (RecallResult K)} {used : Int}
    (h : kept ≠ []) :
    char_budget_loop max_chars kept used results =
      kept ++ results.take (ranking.filled max_chars used (lengths results)) := by
  induction results generalizing kept used with
  | nil => simp [char_budget_loop]
  | cons result results ih =>
    have hkept : kept.isEmpty = false := by simpa using h
    unfold char_budget_loop lengths ranking.filled
    simp only [List.map_cons, hkept]
    by_cases hover : max_chars < used + (result.content.length : Int)
    · simp [hover]
    · by_cases hfull : max_chars ≤ used + (result.content.length : Int)
      · simp [hover, hfull]
      · simp only [hover, hfull, and_false, if_false]
        rw [ih (by simp), List.take_succ_cons, List.append_assoc]
        rfl

theorem apply_char_budget_eq (results : List (RecallResult K)) (max_chars : Int) :
    apply_char_budget results max_chars =
      results.take (ranking.shown max_chars (lengths results)) := by
  cases results with
  | nil => simp [apply_char_budget, char_budget_loop]
  | cons result results =>
    unfold apply_char_budget char_budget_loop ranking.shown lengths ranking.filled
    simp only [List.map_cons, List.isEmpty_nil, Int.zero_add]
    by_cases hfull : max_chars ≤ (result.content.length : Int)
    · by_cases hover : max_chars < (result.content.length : Int)
      · simp [hover, hfull]
      · simp [hover, hfull]
    · have hover : ¬ max_chars < (result.content.length : Int) := by omega
      simp only [hover, hfull, not_true, false_and, if_false, List.nil_append]
      rw [char_budget_loop_eq (by simp), Nat.max_eq_right (Nat.le_add_left 1 _),
        List.take_succ_cons]
      rfl

/-! The reranking. -/

theorem picked_place_lt {n i : Nat} {x : json.Json} (h : picked_place n x = .ok (some i)) :
    i < n := by
  cases x with
  | null => cases h
  | string s => cases h
  | array xs => cases h
  | object kvs => cases h
  | bool b =>
    simp only [picked_place] at h
    split at h
    · cases h
      omega
    · cases h
  | number m =>
    cases m with
    | nan => cases h
    | infinity negative => cases h
    | float q =>
      simp only [picked_place] at h
      split at h
      · cases h
      · cases h
    | int j =>
      simp only [picked_place] at h
      split at h
      · cases h
        omega
      · cases h

theorem picked_places_lt {n : Nat} {answer : json.Json} {places : List Nat}
    (h : picked_places n answer = .ok places) : ∀ i ∈ places, i < n := by
  cases answer with
  | null => cases h
  | bool b => cases h
  | number m => cases h
  | string s =>
    simp only [picked_places] at h
    split at h
    · cases h
      simp
    · cases h
  | object kvs =>
    simp only [picked_places] at h
    split at h
    · cases h
      simp
    · cases h
  | array xs =>
    simp only [picked_places] at h
    intro i hi
    cases hxs : xs.mapM (picked_place n) with
    | error e => simp [hxs, Except.map] at h
    | ok ys =>
      simp only [hxs, Except.map, Except.ok.injEq] at h
      rw [← h, List.reduceOption_mem_iff] at hi
      obtain ⟨x, -, hx⟩ := of_mem_mapM_ok hxs hi
      exact picked_place_lt hx

theorem llm_rerank_eq (cfg : Settings) (answer : Option json.Json)
    (found : List (RecallResult K)) :
    llm_rerank cfg answer found = ranking.at_places found (reranked_places cfg answer found) := by
  unfold llm_rerank reranked_places
  by_cases hmodel : cfg.rerank_model = ""
  · simp [hmodel, ranking.at_places_range]
  · cases found with
    | nil => simp [ranking.at_places]
    | cons r found =>
      simp only [hmodel, List.isEmpty_cons, or_false, if_false]
      cases answer.map (picked_places (r :: found).length) with
      | none => exact (ranking.at_places_range _).symm
      | some picks =>
        cases picks with
        | error e => exact (ranking.at_places_range _).symm
        | ok places => exact (ranking.at_picked_first _ _ _).symm

/-! The places. -/

theorem ordered_places_lt {cfg : Settings} {answer : Option json.Json} {body : RecallRequest}
    {found : List (RecallResult K)} {i : Nat}
    (h : i ∈ ordered_places cfg answer body found) : i < found.length := by
  unfold ordered_places reranked_places at h
  split at h
  · split at h
    · exact List.mem_range.mp h
    · split at h
      · rename_i places hplaces
        obtain ⟨a, -, ha⟩ := Option.map_eq_some_iff.mp hplaces
        exact ranking.lt_of_mem_picked_first (picked_places_lt ha) h
      · exact List.mem_range.mp h
      · exact List.mem_range.mp h
  · exact List.mem_range.mp h

theorem shown_places_lt {cfg : Settings} {answer : Option json.Json} {body : RecallRequest}
    {found : List (RecallResult K)} {i : Nat} (h : i ∈ shown_places cfg answer body found) :
    i < found.length :=
  ordered_places_lt (List.mem_of_mem_take h)

theorem ordered_places_ne_nil {cfg : Settings} {answer : Option json.Json} {body : RecallRequest}
    {found : List (RecallResult K)} (h : found ≠ []) :
    ordered_places cfg answer body found ≠ [] := by
  have hrange : List.range found.length ≠ [] := by simpa using h
  unfold ordered_places reranked_places
  split
  · split
    · exact hrange
    · split
      · rename_i places hplaces
        intro hnil
        obtain ⟨x, hx⟩ := List.exists_mem_of_ne_nil found h
        have hkey : x.id ∈ (ranking.at_places found
            (ranking.picked_first (·.id) found places)).map (·.id) :=
          ranking.key_mem_picked_first hx
        rw [hnil] at hkey
        cases hkey
      · exact hrange
      · exact hrange
  · exact hrange

theorem shown_count_pos (cfg : Settings) (answer : Option json.Json) (body : RecallRequest)
    {found : List (RecallResult K)} (h : found ≠ []) : 0 < shown_count cfg answer body found := by
  unfold shown_count
  split
  · exact ranking.shown_pos _ _
  · exact List.length_pos_of_ne_nil (ordered_places_ne_nil h)

/-- What finds something shows something. -/
theorem shown_places_ne_nil {cfg : Settings} {answer : Option json.Json} {body : RecallRequest}
    {found : List (RecallResult K)} (h : found ≠ []) : shown_places cfg answer body found ≠ [] := by
  have hlength : 0 < (ordered_places cfg answer body found).length :=
    List.length_pos_of_ne_nil (ordered_places_ne_nil h)
  have hcount := shown_count_pos cfg answer body h
  apply List.ne_nil_of_length_pos
  unfold shown_places
  rw [List.length_take]
  omega

end

/-- A response shows what the route found at the shown places. -/
theorem recall_shows {o : Outside K} {cfg : Settings} {env : RecallEnv K}
    {answer : Option json.Json} {body : RecallRequest} {agent : AgentIdentity} {db : Db K}
    {results : List (RecallResult K)} (h : «recall» o cfg env answer body agent db = .ok results) :
    ∃ found, route o cfg env body agent db = .ok found ∧
      results = ranking.at_places found (shown_places cfg answer body found) := by
  unfold «recall» at h
  obtain ⟨_, -, h⟩ := bind_ok h
  obtain ⟨found, hfound, h⟩ := bind_ok h
  refine ⟨found, hfound, ?_⟩
  have hordered : (if body.rerank ∧ 2 ≤ found.length then llm_rerank cfg answer found else found) =
      ranking.at_places found (ordered_places cfg answer body found) := by
    unfold ordered_places
    split
    · exact llm_rerank_eq cfg answer found
    · exact (ranking.at_places_range found).symm
  simp only [hordered, pure, Except.pure, Except.ok.injEq] at h
  rw [← h]
  unfold shown_places shown_count
  split
  · rw [apply_char_budget_eq]
    exact ranking.take_at_places _ (fun i hi => ordered_places_lt hi) _
  · rw [List.take_length]

/-! ## What a type-routed search finds -/

section
omit [HasSqrt K]

theorem mem_recall_routed {o : Outside K} {now : Timestamp} {body : RecallRequest}
    {agent : AgentIdentity} {type : MemoryType} {tier : Tier} {condition : HindsightMemory K → Bool}
    {order : List (HindsightMemory K) → List (HindsightMemory K)}
    {columns : HindsightMemory K → FetchedRow K} {keep : FetchedRow K → Bool} {db : Db K}
    {x : RecallResult K} (horder : ∀ l, (order l).Perm l)
    (h : x ∈ recall_routed o now body agent type tier condition order columns keep db) :
    ∃ r ∈ db.hindsight_memories, routed_where now body agent type tier r = true ∧
      condition r = true ∧ keep (columns r) = true ∧ x = to_result (columns r) .private_ := by
  unfold recall_routed sort_by_importance at h
  rw [rows.mem_order_desc] at h
  obtain ⟨row, hrow, rfl⟩ := List.mem_map.mp h
  obtain ⟨hrow, hkeep⟩ := List.mem_filter.mp hrow
  obtain ⟨r, hr, rfl⟩ := List.mem_map.mp hrow
  obtain ⟨hr, hwhere⟩ := List.mem_filter.mp ((horder _).mem_iff.mp (List.mem_of_mem_take hr))
  rw [Bool.and_eq_true] at hwhere
  exact ⟨r, hr, hwhere.1, hwhere.2, hkeep, rfl⟩

theorem recall_routed_ids {o : Outside K} {now : Timestamp} {body : RecallRequest}
    {agent : AgentIdentity} {type : MemoryType} {tier : Tier} {condition : HindsightMemory K → Bool}
    {order : List (HindsightMemory K) → List (HindsightMemory K)}
    {columns : HindsightMemory K → FetchedRow K} {keep : FetchedRow K → Bool} {db : Db K}
    (horder : ∀ l, (order l).Perm l) (hid : ∀ r, (columns r).id = r.id)
    (hnodup : (db.hindsight_memories.map (·.id)).Nodup) :
    ((recall_routed o now body agent type tier condition order columns keep db).map
      (·.id)).Nodup := by
  unfold recall_routed sort_by_importance
  rw [((rows.order_desc_perm _ _).map _).nodup_iff, List.map_map]
  have hrows : (((order (db.hindsight_memories.filter fun r =>
      routed_where now body agent type tier r && condition r)).take 10).map (·.id)).Nodup := by
    apply ((List.take_sublist _ _).map _).nodup
    rw [((horder _).map _).nodup_iff]
    exact (List.filter_sublist.map _).nodup hnodup
  apply (List.filter_sublist.map _).nodup
  rw [List.map_map]
  convert hrows using 2
  funext r
  exact hid r

/-- A search that picks a memory finds one, if it keeps the first in its order. -/
theorem recall_routed_ne_nil {o : Outside K} {now : Timestamp} {body : RecallRequest}
    {agent : AgentIdentity} {type : MemoryType} {tier : Tier} {condition : HindsightMemory K → Bool}
    {order : List (HindsightMemory K) → List (HindsightMemory K)}
    {columns : HindsightMemory K → FetchedRow K} {keep : FetchedRow K → Bool} {db : Db K}
    {r : HindsightMemory K} (horder : ∀ l, (order l).Perm l) (hr : r ∈ db.hindsight_memories)
    (hwhere : routed_where now body agent type tier r = true) (hcondition : condition r = true)
    (hkeep : ∀ l first rest, r ∈ l → order l = first :: rest → keep (columns first) = true) :
    recall_routed o now body agent type tier condition order columns keep db ≠ [] := by
  have hpicked : r ∈ db.hindsight_memories.filter fun r =>
      routed_where now body agent type tier r && condition r := by
    rw [List.mem_filter, Bool.and_eq_true]
    exact ⟨hr, hwhere, hcondition⟩
  unfold recall_routed sort_by_importance
  cases hfirst : order (db.hindsight_memories.filter fun r =>
      routed_where now body agent type tier r && condition r) with
  | nil =>
    have hmem := (horder _).mem_iff.mpr hpicked
    rw [hfirst] at hmem
    cases hmem
  | cons first rest =>
    apply List.ne_nil_of_mem
    rw [rows.mem_order_desc]
    apply List.mem_map_of_mem
    apply List.mem_filter.mpr
    refine ⟨?_, hkeep _ _ _ hpicked hfirst⟩
    apply List.mem_map_of_mem
    rw [hfirst, List.take_succ_cons]
    exact List.mem_cons_self

omit [Field K] in
theorem by_rank_perm (o : Outside K) (body : RecallRequest) (l : List (HindsightMemory K)) :
    (by_rank o body l).Perm l :=
  (rows.order_desc_perm _ _).trans (rows.order_desc_perm _ _)

/-- The type of the request has a route of its own. -/
def routed (body : RecallRequest) : Bool :=
  match body.type with
  | some .decision | some .lesson | some .episodic | some .short_term => true
  | some .experiential | some .mental_model | none => false

/-- The condition on a memory that the query of its route has besides the shared ones. -/
def routed_condition (o : Outside K) (env : RecallEnv K) (body : RecallRequest)
    (r : HindsightMemory K) : Bool :=
  match body.type with
  | some .decision | some .short_term => o.ts_match body.query r.content
  | some .lesson =>
    r.embedding.isSome &&
      env.query_embedding.any fun qe => ((35 / 100 : ℚ) : K) ≤ private_similarity o qe r
  | some .episodic => o.ts_match body.query r.content || env.now - 7 * DAY < r.created_at
  | some .experiential | some .mental_model | none => false

/-- The type-routed request searches the private memories and picks this one. -/
def routed_picks (o : Outside K) (env : RecallEnv K) (body : RecallRequest) (agent : AgentIdentity)
    (r : HindsightMemory K) : Bool :=
  (body.scope ≠ .org && body.scope ≠ .knowledge) &&
    (body.type.any (fun type => routed_where env.now body agent type (tier_clause body) r) &&
      routed_condition o env body r)

end

omit [HasSqrt K] in
theorem routed_of_picks {o : Outside K} {env : RecallEnv K} {body : RecallRequest}
    {agent : AgentIdentity} {r : HindsightMemory K} (h : routed_picks o env body agent r = true) :
    routed body = true := by
  unfold routed_picks routed_condition at h
  unfold routed
  split
  all_goals first
    | rfl
    | rename_i htype
      simp [htype] at h

omit [HasSqrt K] in
/-- The request asks for no private memory. -/
theorem picks_nothing_elsewhere {o : Outside K} {env : RecallEnv K} {body : RecallRequest}
    {agent : AgentIdentity} (hscope : body.scope = .org ∨ body.scope = .knowledge)
    (r : HindsightMemory K) : routed_picks o env body agent r = false := by
  rcases hscope with hscope | hscope
  · simp [routed_picks, hscope]
  · simp [routed_picks, hscope]

/-- What a type-routed request finds: nothing, where its query picks no memory, or what a search
finds that picks as the query does. Of the memories in its order, the search keeps the first if it
keeps any. -/
inductive Searched (o : Outside K) (env : RecallEnv K) (body : RecallRequest)
    (agent : AgentIdentity) (db : Db K) : List (RecallResult K) → Prop
  | nothing (hnone : ∀ r, routed_picks o env body agent r = false) :
      Searched o env body agent db []
  | search {type : MemoryType} {tier : Tier} {condition : HindsightMemory K → Bool}
      {order : List (HindsightMemory K) → List (HindsightMemory K)}
      {columns : HindsightMemory K → FetchedRow K} {keep : FetchedRow K → Bool}
      (horder : ∀ l, (order l).Perm l)
      (hcolumns : ∀ r, ∃ score rank, columns r = routed_columns r score rank)
      (hpicks : ∀ r, routed_picks o env body agent r = true ↔
        routed_where env.now body agent type tier r = true ∧ condition r = true ∧
          keep (columns r) = true)
      (hfirst : ∀ r l first rest, r ∈ l → order l = first :: rest → keep (columns r) = true →
        keep (columns first) = true) :
      Searched o env body agent db
        (recall_routed o env.now body agent type tier condition order columns keep db)

section
variable {o : Outside K} {cfg : Settings} {env : RecallEnv K} {body : RecallRequest}
  {agent : AgentIdentity} {db : Db K} {found : List (RecallResult K)}

omit [HasSqrt K] in
theorem recall_decisions_searches (htype : body.type = some .decision) :
    Searched o env body agent db (recall_decisions o env.now body agent db) := by
  unfold recall_decisions
  split
  · rename_i hscope
    exact .nothing (picks_nothing_elsewhere hscope)
  · rename_i hscope
    refine .search (by_rank_perm o body) (fun r => ⟨_, _, rfl⟩) (fun r => ?_) ?_
    · simp [routed_picks, routed_condition, not_or.mp hscope, htype]
    · intros
      rfl

omit [HasSqrt K] in
/-- The most similar memory comes first, so it is kept if any is. -/
theorem recall_lessons_searches (htype : body.type = some .lesson)
    (h : recall_lessons o env.now env.query_embedding body agent db = .ok found) :
    Searched o env body agent db found := by
  unfold recall_lessons at h
  split at h
  · rename_i hscope
    cases h
    exact .nothing (picks_nothing_elsewhere hscope)
  · rename_i hscope
    split at h
    · rename_i hqe
      cases h
      refine .nothing fun r => ?_
      simp [routed_picks, routed_condition, htype, hqe]
    · cases h
    · rename_i y qe hqe
      cases h
      refine .search (rows.order_desc_perm _) (fun r => ⟨_, _, rfl⟩) (fun r => ?_) ?_
      · simp only [routed_picks, ne_eq, not_or.mp hscope, not_false_eq_true, decide_true,
          Bool.and_self, htype, Option.any_some, routed_condition, hqe, Bool.true_and,
          Bool.and_eq_true, decide_eq_true_eq, routed_columns, Option.getD_some,
          and_congr_right_iff]
        exact fun _ _ => decide_eq_true_iff.symm
      · intro r l first rest hr hfirst hkeep
        have hsimilar := of_decide_eq_true hkeep
        exact decide_eq_true (hsimilar.trans (rows.order_desc_first hfirst r hr))

omit [HasSqrt K] in
theorem recall_episodic_searches (htype : body.type = some .episodic) :
    Searched o env body agent db (recall_episodic o env.now body agent db) := by
  unfold recall_episodic
  split
  · rename_i hscope
    exact .nothing (picks_nothing_elsewhere hscope)
  · rename_i hscope
    refine .search (fun l => (rows.order_asc_perm _ _).trans (by_rank_perm o body l))
      (fun r => ⟨_, _, rfl⟩) (fun r => ?_) ?_
    · simp [routed_picks, routed_condition, not_or.mp hscope, htype]
    · intros
      rfl

omit [HasSqrt K] in
theorem recall_short_term_searches (htype : body.type = some .short_term)
    (h : recall_short_term o env.now body agent db = .ok found) :
    Searched o env body agent db found := by
  unfold recall_short_term at h
  split at h
  · cases h
  · rename_i harchive
    split at h
    · rename_i hscope
      cases h
      exact .nothing (picks_nothing_elsewhere hscope)
    · rename_i hscope
      cases h
      refine .search (by_rank_perm o body) (fun r => ⟨_, _, rfl⟩) (fun r => ?_) ?_
      · simp [routed_picks, routed_condition, not_or.mp hscope, htype, tier_clause, harchive]
      · intros
        rfl

theorem route_searches (hrouted : routed body = true)
    (h : route o cfg env body agent db = .ok found) : Searched o env body agent db found := by
  unfold routed at hrouted
  unfold route at h
  split at h
  · rename_i htype
    cases h
    exact recall_decisions_searches htype
  · rename_i htype
    exact recall_lessons_searches htype h
  · rename_i htype
    cases h
    exact recall_episodic_searches htype
  · rename_i htype
    exact recall_short_term_searches htype h
  · rename_i htype
    simp [htype] at hrouted
  · rename_i htype
    simp [htype] at hrouted
  · rename_i htype
    simp [htype] at hrouted

/-- What a type-routed request finds is a memory that its query picks, with the columns of the
query. -/
theorem mem_route_routed {x : RecallResult K} (hrouted : routed body = true)
    (h : route o cfg env body agent db = .ok found) (hx : x ∈ found) :
    ∃ r ∈ db.hindsight_memories, routed_picks o env body agent r = true ∧
      ∃ score rank, x = to_result (routed_columns r score rank) .private_ := by
  cases route_searches hrouted h with
  | nothing hnone => cases hx
  | search horder hcolumns hpicks hfirst =>
    obtain ⟨r, hr, hwhere, hcondition, hkeep, rfl⟩ := mem_recall_routed horder hx
    obtain ⟨score, rank, hr_columns⟩ := hcolumns r
    refine ⟨r, hr, (hpicks r).mpr ⟨hwhere, hcondition, hkeep⟩, score, rank, ?_⟩
    rw [hr_columns]

/-- A type-routed request that picks a memory finds one. -/
theorem route_routed_ne_nil {r : HindsightMemory K} (h : route o cfg env body agent db = .ok found)
    (hr : r ∈ db.hindsight_memories) (hpicks : routed_picks o env body agent r = true) :
    found ≠ [] := by
  cases route_searches (routed_of_picks hpicks) h with
  | nothing hnone =>
    rw [hnone r] at hpicks
    cases hpicks
  | search horder hcolumns hiff hfirst =>
    obtain ⟨hwhere, hcondition, hkeep⟩ := (hiff r).mp hpicks
    apply recall_routed_ne_nil horder hr hwhere hcondition
    intro l first rest hrl hl
    exact hfirst r l first rest hrl hl hkeep

theorem route_routed_ids (hrouted : routed body = true)
    (hnodup : (db.hindsight_memories.map (·.id)).Nodup)
    (h : route o cfg env body agent db = .ok found) : (found.map (·.id)).Nodup := by
  cases route_searches hrouted h with
  | nothing hnone => exact List.nodup_nil
  | search horder hcolumns hpicks hfirst =>
    apply recall_routed_ids horder _ hnodup
    intro r
    obtain ⟨score, rank, hr_columns⟩ := hcolumns r
    rw [hr_columns]
    rfl

end

theorem route_hybrid {o : Outside K} {cfg : Settings} {env : RecallEnv K} {body : RecallRequest}
    {agent : AgentIdentity} {db : Db K} {found : List (RecallResult K)}
    (hrouted : routed body = false) (h : route o cfg env body agent db = .ok found) :
    found = hybrid_recall_pipeline o cfg env body agent db := by
  unfold routed at hrouted
  unfold route at h
  split at h
  · rename_i htype
    simp [htype] at hrouted
  · rename_i htype
    simp [htype] at hrouted
  · rename_i htype
    simp [htype] at hrouted
  · rename_i htype
    simp [htype] at hrouted
  · cases h
    rfl
  · cases h
    rfl
  · cases h
    rfl

end qortia
