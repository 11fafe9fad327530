-- What an agent remembers, it can recall. A decision or a short-term memory that was written is
-- found by every later request for its type that matches it, with the content that was sent, until
-- its agent forgets it or it expires, as long as the request picks no more memories than it shows.
import Qortia.RecallPrivate
import Qortia.RememberBatch
import Qortia.StoredMemories

namespace qortia

variable {K : Type} [Field K] [LinearOrder K] [HasSqrt K]

/-! ## A search that shows all it picks -/

/-- The types that are searched by their text alone and written without a look for duplicates. -/
def MemoryType.plain (type : MemoryType) : Prop := type = .decision ∨ type = .short_term

section
variable {o : Outside K} {cfg : Settings} {env : RecallEnv K} {body : RecallRequest}
  {agent : AgentIdentity} {db : Db K} {type : MemoryType}

omit [HasSqrt K] in
/-- `LIMIT 10` cuts nothing off ten memories. -/
theorem mem_recall_routed_of_few {now : Timestamp} {tier : Tier}
    {condition : HindsightMemory K → Bool}
    {order : List (HindsightMemory K) → List (HindsightMemory K)}
    (columns : HindsightMemory K → FetchedRow K) {r : HindsightMemory K}
    (horder : ∀ l, (order l).Perm l)
    (hpicked : r ∈ db.hindsight_memories.filter fun r =>
      routed_where now body agent type tier r && condition r)
    (hfew : (db.hindsight_memories.filter fun r =>
      routed_where now body agent type tier r && condition r).length ≤ 10) :
    to_result (columns r) .private_ ∈
      recall_routed o now body agent type tier condition order columns (fun _ => true) db := by
  have hall : (order (db.hindsight_memories.filter fun r =>
      routed_where now body agent type tier r && condition r)).length ≤ 10 := by
    rw [(horder _).length_eq]
    exact hfew
  unfold recall_routed sort_by_importance
  rw [rows.mem_order_desc]
  rw [List.take_of_length_le hall]
  apply List.mem_map_of_mem
  apply List.mem_filter.mpr
  exact ⟨List.mem_map_of_mem ((horder _).mem_iff.mpr hpicked), rfl⟩

/-- The search of a plain type among the active memories. -/
theorem route_plain (cfg : Settings) (env : RecallEnv K) (agent : AgentIdentity) (db : Db K)
    (hplain : type.plain) (htype : body.type = some type)
    (hscope : body.scope = .private_ ∨ body.scope = .all) :
    route o cfg env body agent db = .ok (recall_routed o env.now body agent type .active
      (fun r => o.ts_match body.query r.content) (by_rank o body) (ranked_columns o body)
      (fun _ => true) db) := by
  unfold route
  rw [htype]
  rcases hplain with rfl | rfl
  · rcases hscope with hscope | hscope
    · simp [recall_decisions, tier_clause, hscope]
    · simp [recall_decisions, tier_clause, hscope]
  · rcases hscope with hscope | hscope
    · simp [recall_short_term, hscope]
    · simp [recall_short_term, hscope]

omit [HasSqrt K] in
theorem routed_picks_plain (hplain : type.plain) (htype : body.type = some type)
    (hscope : body.scope = .private_ ∨ body.scope = .all) :
    routed_picks o env body agent = fun r =>
      routed_where env.now body agent type .active r && o.ts_match body.query r.content := by
  funext r
  unfold routed_picks routed_condition
  rw [htype]
  rcases hplain with rfl | rfl
  · rcases hscope with hscope | hscope
    · simp [tier_clause, hscope]
    · simp [tier_clause, hscope]
  · rcases hscope with hscope | hscope
    · simp [tier_clause, hscope]
    · simp [tier_clause, hscope]

/-- Without a budget the response loses no id, in whatever order the model ranks. -/
theorem recall_unbudgeted (answer : Option json.Json) {found : List (RecallResult K)}
    (hactive : assert_agent_active agent.agent_id agent.tenant_id db = .ok ())
    (hroute : route o cfg env body agent db = .ok found)
    (hmax : resolve_max_chars cfg body.max_chars ≤ 0) :
    ∃ results, «recall» o cfg env answer body agent db = .ok results ∧
      ∀ x ∈ found, x.id ∈ results.map (·.id) := by
  unfold «recall»
  simp only [hactive, hroute, bind, Except.bind, pure, Except.pure]
  rw [if_neg (not_lt.mpr hmax)]
  refine ⟨_, rfl, fun x hx => ?_⟩
  have hsame : x.id ∈ found.map (·.id) := List.mem_map_of_mem hx
  split
  · rw [llm_rerank_eq]
    unfold reranked_places
    split
    · rw [ranking.at_places_range]
      exact hsame
    · split
      · exact ranking.key_mem_picked_first hx
      · rw [ranking.at_places_range]
        exact hsame
      · rw [ranking.at_places_range]
        exact hsame
  · exact hsame

/-- A request for a plain type that picks ten memories at most answers with all of them. -/
theorem recall_finds_all (answer : Option json.Json) {r : HindsightMemory K}
    (hkeyed : db.Keyed) (hactive : assert_agent_active agent.agent_id agent.tenant_id db = .ok ())
    (hplain : type.plain) (htype : body.type = some type)
    (hscope : body.scope = .private_ ∨ body.scope = .all)
    (hmax : resolve_max_chars cfg body.max_chars ≤ 0)
    (hfew : (db.hindsight_memories.filter (routed_picks o env body agent)).length ≤ 10)
    (hr : r ∈ db.hindsight_memories) (hpicks : routed_picks o env body agent r = true) :
    ∃ results, «recall» o cfg env answer body agent db = .ok results ∧
      ∃ x ∈ results, x.id = r.id ∧ x.content = r.content := by
  have hroute := route_plain (o := o) cfg env agent db hplain htype hscope
  obtain ⟨results, hresults, hids⟩ := recall_unbudgeted answer hactive hroute hmax
  refine ⟨results, hresults, ?_⟩
  have hpicked : r ∈ db.hindsight_memories.filter (routed_picks o env body agent) :=
    List.mem_filter.mpr ⟨hr, hpicks⟩
  rw [routed_picks_plain hplain htype hscope] at hfew hpicked
  have hfound := hids _
    (mem_recall_routed_of_few (ranked_columns o body) (by_rank_perm o body) hpicked hfew)
  obtain ⟨x, hx, hid⟩ := List.mem_map.mp hfound
  have hid : x.id = r.id := hid
  refine ⟨x, hx, hid, ?_⟩
  -- The row behind the result has the id, so it is the memory.
  obtain ⟨q, hq, -, score, rank, rfl⟩ := routed_response (routed_of_picks hpicks) hresults hx
  rw [← List.inj_on_of_nodup_map hkeyed.hindsight_nodup hq hr hid]
  rfl

end

/-! ## What a batch writes -/

omit [Field K] [LinearOrder K] [HasSqrt K] in
/-- A memory of a plain type becomes a row of its own, with the id of the answer. -/
theorem Batch.rows_written {o : Outside K} {agent : AgentIdentity} {now : Timestamp} {choice : Nat}
    {db db' : Db K} {memories : List MemoryItem} {ids : List UUID} {n : Nat}
    (h : Batch o agent now choice db memories db' ids n) :
    List.Forall₂ (fun mem id => mem.type.plain → ∃ expires, expires_at now mem = .ok expires ∧
      memory_row o agent now mem expires id ∈ db'.hindsight_memories) memories ids := by
  induction h with
  | nil db => exact .nil
  | duplicate expires existing hexpires hdedup hpick hrest ih =>
    refine .cons (fun hplain => ?_) ih
    unfold MemoryItem.deduplicated at hdedup
    rcases hplain with htype | htype
    · simp [htype] at hdedup
    · simp [htype] at hdedup
  | insert expires hexpires hnew hstorable hrest ih =>
    exact .cons (fun _ => ⟨expires, hexpires, hrest.inserted_mem⟩) ih

/-! ## What becomes of a row of a plain type -/

omit [Field K] [LinearOrder K] [HasSqrt K] in
/-- It stays active and open. -/
theorem plain_stays {r r' : HindsightMemory K} (hbecomes : r.Becomes r') (hr : r.WellFormed)
    (hplain : r.type.plain) : r'.tier = .active ∧ r'.valid_until = none := by
  have hformed := hbecomes.well_formed hr
  constructor
  · cases htier : r'.tier with
    | active => rfl
    | archive =>
      have hepisodic := (hformed.archived htier).1
      rw [hbecomes.type_eq] at hepisodic
      rcases hplain with htype | htype
      · rw [htype] at hepisodic
        cases hepisodic
      · rw [htype] at hepisodic
        cases hepisodic
  · by_contra hclosed
    have hreflected := (hformed.closed (Option.isSome_iff_ne_none.mpr hclosed)).1
    rw [hbecomes.type_eq] at hreflected
    rcases hplain with htype | htype
    · rw [htype] at hreflected
      rcases hreflected with h | h <;> cases h
    · rw [htype] at hreflected
      rcases hreflected with h | h <;> cases h

/-- The request is for the type of the memory, its query and its entities match, and the memory
has not expired. -/
structure RecallRequest.Wants (body : RecallRequest) (o : Outside K) (now : Timestamp)
    (r : HindsightMemory K) : Prop where
  type : body.type = some r.type
  scope : body.scope = .private_ ∨ body.scope = .all
  query : o.ts_match body.query r.content = true
  entities : entity_filter body r.entities = true
  lasts : r.expires_at.all (now < ·) = true

omit [HasSqrt K] in
/-- A request that wants a row wants what became of it. -/
theorem picks_of_wants {o : Outside K} {env : RecallEnv K} {body : RecallRequest}
    {agent : AgentIdentity} {r r' : HindsightMemory K} (hwants : body.Wants o env.now r)
    (hbecomes : r.Becomes r') (hr : r.WellFormed) (hplain : r.type.plain)
    (hagent : r.agent_id = agent.agent_id) : routed_picks o env body agent r' = true := by
  obtain ⟨hactive, hopen⟩ := plain_stays hbecomes hr hplain
  have hcontent : r'.content = r.content :=
    (congrArg HindsightMemory.content hbecomes.recorded :)
  have hentities : r'.entities = r.entities :=
    (congrArg HindsightMemory.entities hbecomes.recorded :)
  rw [routed_picks_plain hplain hwants.type hwants.scope]
  simp only [routed_where, hbecomes.agent_eq, hbecomes.type_eq, hbecomes.expires_eq, hactive, hopen,
    hcontent, hentities, hagent, hwants.query, hwants.entities, hwants.lasts, decide_true,
    Option.all_none, Bool.and_self]

/-! ## The promise -/

/-- Every request of the agent that wants the row answers with it, if the request sets no budget
and picks ten memories at most. -/
def Recallable (o : Outside K) (cfg : Settings) (agent : AgentIdentity) (row : HindsightMemory K)
    (db : Db K) : Prop :=
  ∀ env answer body, body.Wants o env.now row → resolve_max_chars cfg body.max_chars ≤ 0 →
    assert_agent_active agent.agent_id agent.tenant_id db = .ok () →
    (db.hindsight_memories.filter (routed_picks o env body agent)).length ≤ 10 →
    ∃ results, «recall» o cfg env answer body agent db = .ok results ∧
      ∃ x ∈ results, x.id = row.id ∧ x.content = row.content

theorem remember_step_commits {o : Outside K} {cfg : Settings} {cal : Calendar}
    {s s₁ : Deployment K} {agent : AgentIdentity} {now : Timestamp} {choice : Nat}
    {memories : List MemoryItem} {result : Db K × List UUID}
    (hreq : remember o agent now choice memories s.db = .ok result)
    (hstep : deployment_step o cfg cal s (.memory (.remember agent now choice memories)) =
      some s₁) : s₁.db = result.1 := by
  obtain ⟨outcomes, houtcomes, rfl⟩ := Option.map_eq_some_iff.mp hstep
  obtain ⟨service, hservice, rfl⟩ := Option.map_eq_some_iff.mp houtcomes
  obtain ⟨requests, hforget, rfl⟩ := Option.map_eq_some_iff.mp hservice
  have hanswered : s.outcomes.service.requests.request (·.1)
      (remember o agent now choice memories s.outcomes.service.requests.db) = some requests :=
    hforget
  rw [show remember o agent now choice memories s.outcomes.service.requests.db = .ok result from
    hreq] at hanswered
  cases hanswered
  rfl

/-- In every run of the service, a decision or a short-term memory that an agent remembers is
recallable in every later state, with the content that was sent, unless the agent has forgotten it
or it was purged after it expired. -/
theorem what_is_remembered_is_recalled (o : Outside K) (cfg : Settings) (cal : Calendar)
    (db : Db K) (hblank : db.Blank) (hagents : (db.qortia_agents.map (·.id)).Nodup)
    (earlier later : List (DeploymentAction K)) (s s' : Deployment K) (agent : AgentIdentity)
    (now : Timestamp) (choice : Nat) (memories : List MemoryItem) (db₁ : Db K) (ids : List UUID)
    (hearlier : runs.run (deployment_step o cfg cal) db.deployed earlier = some s)
    (hremember : remember o agent now choice memories s.db = .ok (db₁, ids))
    (hlater : runs.run (deployment_step o cfg cal) s
      (.memory (.remember agent now choice memories) :: later) = some s') :
    List.Forall₂ (fun mem id => mem.type.plain → ∃ expires, expires_at now mem = .ok expires ∧
      ((∃ a ∈ later, a.removes (memory_row (K := K) o agent now mem expires id)) ∨
        Recallable o cfg agent (memory_row o agent now mem expires id) s'.db)) memories ids := by
  obtain ⟨s₁, hs₁, hlater⟩ := Option.bind_eq_some_iff.mp hlater
  have hgood := good_deployment_of_run hblank hagents hearlier
  have hgood₁ := deployment_step_good hgood hs₁
  have hevolve := memories_evolve_of_run hgood₁ hlater
  have hgood' : GoodDeployment s' := (run_good hgood₁ hlater).1
  have hdb₁ : s₁.db = db₁ := remember_step_commits hremember hs₁
  obtain ⟨-, db₂, n, hbatch, hcounted⟩ := remember_iff_batch.mp hremember
  have hrows : s₁.db.hindsight_memories = db₂.hindsight_memories := by
    rw [hdb₁, hcounted]
    unfold counted
    split
    · rfl
    · rfl
  refine hbatch.rows_written.imp fun mem id hwritten hplain => ?_
  obtain ⟨expires, hexpires, hmem⟩ := hwritten hplain
  refine ⟨expires, hexpires, ?_⟩
  rw [← hrows] at hmem
  rcases hevolve.kept _ hmem with ⟨r', hr', hbecomes⟩ | hremoved
  · refine Or.inr fun env answer body hwants hmax hactive hfew => ?_
    have hpicks : routed_picks o env body agent r' = true := picks_of_wants hwants hbecomes
      (memory_row_well_formed o agent hexpires id) hplain rfl
    obtain ⟨results, hresults, x, hx, hid, hcontent⟩ := recall_finds_all answer
      hgood'.owned.keyed hactive hplain hwants.type hwants.scope hmax hfew hr' hpicks
    refine ⟨results, hresults, x, hx, hid.trans hbecomes.id_eq, hcontent.trans ?_⟩
    exact (congrArg HindsightMemory.content hbecomes.recorded :)
  · exact Or.inl hremoved

/-! ## A decision of the reporter -/

def postgres_note : String := "we store the memories in postgres"

theorem postgres_note_words : 5 ≤ (text.words postgres_note.toList).length := by decide

def chose_postgres : MemoryItem :=
  { type := .decision, content := postgres_note, content_floor := postgres_note_words
    ttl_only_short_term := no_ttl .decision
    short_term_ttl := decision_needs_no_ttl }

/-- The reporter remembers an episode too, and old episodes are archived. -/
def standup_and_archive : List (DeploymentAction ℚ) :=
  [.memory (.remember reporter 2 0 [standup_cancelled]), .archive_old (60 * DAY)]

theorem what_is_remembered_is_recalled_of_the_reporter :
    ∃ s' : Deployment ℚ, s'.db.hindsight_memories.map (·.tier) = [.active, .archive] ∧
      List.Forall₂ (fun mem id => mem.type.plain → ∃ expires, expires_at 1 mem = .ok expires ∧
        ((∃ a ∈ standup_and_archive,
          a.removes (memory_row (K := ℚ) no_models reporter 1 mem expires id)) ∨
          Recallable no_models {} reporter (memory_row no_models reporter 1 mem expires id) s'.db))
        [chose_postgres] [0] := by
  have hend : (runs.run (deployment_step no_models {} no_calendar) tenants_db.deployed
      (.memory (.remember reporter 1 0 [chose_postgres]) :: standup_and_archive)).map
        (fun s' => s'.db.hindsight_memories.map (·.tier)) = some [.active, .archive] := by
    decide +kernel
  obtain ⟨s', hs', hend⟩ := Option.map_eq_some_iff.mp hend
  exact ⟨s', hend, what_is_remembered_is_recalled no_models {} no_calendar tenants_db
    ⟨rfl, rfl, rfl, rfl, rfl⟩ (by decide) [] standup_and_archive tenants_db.deployed s' reporter 1 0
    [chose_postgres] _ [0] rfl (by rfl) hs'⟩

end qortia
