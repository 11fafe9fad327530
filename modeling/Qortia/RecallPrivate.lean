-- What a recall promises about the private memories that it shows: the result describes the
-- memory, the memory meets the filters of the request, and with `as_of` it was valid at that time.
-- Exactly when each promise holds.
import Qortia.LinkExpansion

namespace qortia

variable {K : Type} [Field K] [LinearOrder K] [HasSqrt K]

/-! ## An analyst and three memories -/

def analyst : AgentIdentity := { agent_id := 21, tenant_id := 1 }

/-- A search that finds every text, and vectors that are all alike. -/
def lucid_models : Outside ℚ :=
  { no_models with ts_match := fun _ _ => true, similarity := fun _ _ => 1 }

def lucid_env : RecallEnv ℚ where
  now := 10
  query_embedding := some [1]
  failed _ := false
  expand_failed := false
  unordered l := l
  unordered_perm := List.Perm.refl

/-- The third memory has been superseded at 5, and the first two are linked. -/
def lexer_db : Db ℚ :=
  { qortia_agents := [{ id := 21, tenant_id := 1, updated_at := 0 }]
    hindsight_memories := [
      { id := 1, tenant_id := 1, agent_id := 21, type := .experiential
        content := "the lexer is slow today", embedding := some [1], valid_from := 0
        created_at := 0 },
      { id := 2, tenant_id := 1, agent_id := 21, type := .lesson
        content := "measure before a rewrite", embedding := some [1], valid_from := 1
        created_at := 1 },
      { id := 3, tenant_id := 1, agent_id := 21, type := .lesson, content := "rewrite it"
        embedding := some [1], valid_from := 0, valid_until := some 5, created_at := 0 }]
    memory_links := [⟨1, 1, 2, 9 / 10⟩, ⟨1, 2, 1, 9 / 10⟩] }

/-- What the analyst is shown. -/
def lexer_answer (body : RecallRequest) : List (RecallResult ℚ) :=
  ((«recall» lucid_models {} lucid_env none body analyst lexer_db).toOption).getD []

/-! ## The private results of a response -/

/-- The ids of the memories that the searches found, as the fusion ranks them. -/
def found_ids (o : Outside K) (cfg : Settings) (env : RecallEnv K) (body : RecallRequest)
    (agent : AgentIdentity) (db : Db K) : List UUID :=
  (fused_part o cfg env body agent db).map (·.id)

/-- The links that the expansion follows: for each of the first five memories found, the two
nearest to memories that were not found. -/
def followed_links (o : Outside K) (cfg : Settings) (env : RecallEnv K) (body : RecallRequest)
    (agent : AgentIdentity) (db : Db K) : List (MemoryLink K) :=
  if env.query_embedding.any (· ≠ []) ∧ env.expand_failed = false then
    ((found_ids o cfg env body agent db).take EXPAND_TOP_RESULTS).flatMap fun s =>
      nearest_links agent.tenant_id (found_ids o cfg env body agent db) s db.memory_links
  else []

/-- The link leads to the stored memory, which the expansion may append. -/
def LeadsTo (now : Timestamp) (agent : AgentIdentity) (l : MemoryLink K)
    (r : HindsightMemory K) : Prop :=
  l.target_id = r.id ∧ Linkable now agent.tenant_id agent.agent_id r

instance (now : Timestamp) (agent : AgentIdentity) (l : MemoryLink K) (r : HindsightMemory K) :
    Decidable (LeadsTo now agent l r) :=
  inferInstanceAs (Decidable (_ ∧ _))

/-- The reranking and the budget leave the private result of the stored memory: it has a place
among the results of the route, and the response shows this place. -/
def leaves (o : Outside K) (cfg : Settings) (env : RecallEnv K) (answer : Option json.Json)
    (body : RecallRequest) (agent : AgentIdentity) (db : Db K) (r : HindsightMemory K) : Bool :=
  match route o cfg env body agent db with
  | .error _ => false
  | .ok found =>
    (shown_places cfg answer body found).any fun i =>
      found[i]?.any fun x => x.scope = .private_ && x.id = r.id

section
variable {o : Outside K} {cfg : Settings} {env : RecallEnv K} {answer : Option json.Json}
  {body : RecallRequest} {agent : AgentIdentity} {db : Db K} {results : List (RecallResult K)}

omit [HasSqrt K] in
/-- A link that is followed leads to a memory that was not found. -/
theorem followed_links_new {l : MemoryLink K} (h : l ∈ followed_links o cfg env body agent db) :
    l.target_id ∉ found_ids o cfg env body agent db := by
  unfold followed_links at h
  split at h
  · obtain ⟨s, -, hl⟩ := List.mem_flatMap.mp h
    exact (mem_nearest_links hl).2.2.2
  · cases h

omit [HasSqrt K] in
/-- What is appended is of a live memory to which a followed link leads. -/
theorem mem_linked_part_followed {x : RecallResult K}
    (h : x ∈ linked_part o cfg env body agent db) :
    ∃ l ∈ followed_links o cfg env body agent db, ∃ r ∈ db.hindsight_memories,
      LeadsTo env.now agent l r ∧ ∃ per_source, x = linked_result per_source r := by
  unfold linked_part at h
  split at h
  · rename_i hsome
    cases hfailed : env.expand_failed with
    | true =>
      rw [hfailed] at h
      simp [linked_memories, expand_with_links] at h
    | false =>
      rw [hfailed] at h
      obtain ⟨r, hr, hnew, hlive, rfl⟩ := (mem_linked_memories_iff env.unordered_perm).mp h
      obtain ⟨s, hs, hnear⟩ := mem_collected.mp hnew
      obtain ⟨l, hl, htarget⟩ := List.mem_map.mp hnear
      refine ⟨l, ?_, r, hr, ⟨htarget, hlive⟩, _, rfl⟩
      unfold followed_links found_ids
      rw [if_pos ⟨hsome.2, hfailed⟩, ← List.map_take]
      exact List.mem_flatMap.mpr ⟨s, hs, hl⟩
  · cases h

/-- A private result of the pipeline is of a memory that a private search found, or it is linked. -/
theorem hybrid_private {i : Nat} {x : RecallResult K}
    (h : (hybrid_recall_pipeline o cfg env body agent db)[i]? = some x)
    (hscope : x.scope = .private_) :
    (∃ r ∈ db.hindsight_memories, private_where env.now body agent r = true ∧
        ∃ y ∈ fused_part o cfg env body agent db, FromPrivate r y ∧ x.untold = y.untold) ∨
      ∃ y ∈ linked_part o cfg env body agent db, x.untold = y.untold := by
  have hat := hybrid_at o cfg env body agent db i
  rw [h, Option.map_some] at hat
  obtain ⟨y, hy, hxy⟩ := Option.map_eq_some_iff.mp hat.symm
  have hyscope : y.scope = .private_ := by
    have heq := congrArg RecallResult.scope hxy
    exact heq.trans hscope
  rcases List.mem_append.mp (List.mem_of_getElem? hy) with hmemory | hchunk
  · rcases List.mem_append.mp hmemory with hfused | hlinked
    · obtain ⟨hsearch, -⟩ := mem_fused_part hfused
      rcases mem_search hsearch with ⟨r, hr, hwhere, hfrom⟩ | ⟨horg, -⟩ | ⟨hknowledge, -⟩
      · exact Or.inl ⟨r, hr, hwhere, y, hfused, hfrom, hxy.symm⟩
      · rw [hyscope] at horg
        cases horg
      · rw [hyscope] at hknowledge
        cases hknowledge
    · exact Or.inr ⟨y, hlinked, hxy.symm⟩
  · obtain ⟨z, hz, -, hzscope⟩ := mem_select_knowledge hchunk
    have hknowledge := of_decide_eq_true (List.mem_filter.mp hz).2
    rw [← hzscope, hyscope] at hknowledge
    cases hknowledge

/-- A private result of a hybrid response. -/
theorem hybrid_response_private (hrouted : routed body = false)
    (h : «recall» o cfg env answer body agent db = .ok results) {x : RecallResult K}
    (hx : x ∈ results) (hscope : x.scope = .private_) :
    (∃ r ∈ db.hindsight_memories, private_where env.now body agent r = true ∧
        ∃ y ∈ fused_part o cfg env body agent db, FromPrivate r y ∧ x.untold = y.untold) ∨
      ∃ l ∈ followed_links o cfg env body agent db, ∃ r ∈ db.hindsight_memories,
        LeadsTo env.now agent l r ∧
          ∃ per_source, x.untold = (linked_result per_source r).untold := by
  obtain ⟨found, hfound, rfl⟩ := recall_shows h
  obtain rfl := route_hybrid hrouted hfound
  obtain ⟨i, -, hix⟩ := ranking.mem_at_places.mp hx
  rcases hybrid_private hix hscope with hsearched | ⟨y, hy, hxy⟩
  · exact Or.inl hsearched
  · obtain ⟨l, hl, r, hr, hleads, per_source, rfl⟩ := mem_linked_part_followed hy
    exact Or.inr ⟨l, hl, r, hr, hleads, per_source, hxy⟩

/-- The stored memory of a private result of a hybrid response meets the conditions of the private
searches, or a followed link leads to it. -/
theorem hybrid_response_memory (hnodup : (db.hindsight_memories.map (·.id)).Nodup)
    (hrouted : routed body = false)
    (h : «recall» o cfg env answer body agent db = .ok results) {x : RecallResult K}
    (hx : x ∈ results) (hscope : x.scope = .private_) {m : HindsightMemory K}
    (hm : m ∈ db.hindsight_memories) (hid : m.id = x.id) :
    private_where env.now body agent m = true ∨
      ∃ l ∈ followed_links o cfg env body agent db, LeadsTo env.now agent l m := by
  rcases hybrid_response_private hrouted h hx hscope with
    ⟨r, hr, hwhere, y, -, ⟨score, rank, rfl⟩, hxy⟩ | ⟨l, hl, r, hr, hleads, per_source, hxy⟩
  · have hrid := congrArg RecallResult.id hxy
    obtain rfl : m = r := List.inj_on_of_nodup_map hnodup hm hr (hid.trans hrid)
    exact Or.inl hwhere
  · have hrid := congrArg RecallResult.id hxy
    obtain rfl : m = r := List.inj_on_of_nodup_map hnodup hm hr (hid.trans hrid)
    exact Or.inr ⟨l, hl, hleads⟩

/-- What the reranking and the budget leave is what the response shows. -/
theorem leaves_iff (h : «recall» o cfg env answer body agent db = .ok results)
    {r : HindsightMemory K} :
    leaves o cfg env answer body agent db r = true ↔
      ∃ x ∈ results, x.scope = .private_ ∧ x.id = r.id := by
  obtain ⟨found, hfound, rfl⟩ := recall_shows h
  unfold leaves
  rw [hfound]
  simp only [List.any_eq_true, Option.any_eq_true, Bool.and_eq_true, decide_eq_true_eq]
  constructor
  · rintro ⟨i, hi, x, hx, hscope, hid⟩
    exact ⟨x, ranking.mem_at_places.mpr ⟨i, hi, hx⟩, hscope, hid⟩
  · rintro ⟨x, hx, hscope, hid⟩
    obtain ⟨i, hi, hix⟩ := ranking.mem_at_places.mp hx
    exact ⟨i, hi, x, hix, hscope, hid⟩

/-- The response shows a linked memory without the time from which it is valid. -/
theorem linked_response (hrouted : routed body = false)
    (h : «recall» o cfg env answer body agent db = .ok results) {l : MemoryLink K}
    (hl : l ∈ followed_links o cfg env body agent db) {r : HindsightMemory K}
    (hleads : LeadsTo env.now agent l r)
    (hleft : leaves o cfg env answer body agent db r = true) :
    ∃ x ∈ results, x.scope = .private_ ∧ x.valid_from = none := by
  obtain ⟨x, hx, hscope, hid⟩ := (leaves_iff h).mp hleft
  refine ⟨x, hx, hscope, ?_⟩
  rcases hybrid_response_private hrouted h hx hscope with
    ⟨_, -, -, y, hy, -, hxy⟩ | ⟨_, -, _, -, -, per_source, hxy⟩
  · have hsame := congrArg RecallResult.id hxy
    have hfound : r.id ∈ found_ids o cfg env body agent db :=
      List.mem_map.mpr ⟨y, hy, hsame.symm.trans hid⟩
    exact absurd hfound (hleads.1 ▸ followed_links_new hl)
  · exact congrArg RecallResult.valid_from hxy

/-- A result of a type-routed response. -/
theorem routed_response (hrouted : routed body = true)
    (h : «recall» o cfg env answer body agent db = .ok results) {x : RecallResult K}
    (hx : x ∈ results) :
    ∃ r ∈ db.hindsight_memories, routed_picks o env body agent r = true ∧
      ∃ score rank, x = to_result (routed_columns r score rank) .private_ := by
  obtain ⟨found, hfound, rfl⟩ := recall_shows h
  obtain ⟨i, -, hix⟩ := ranking.mem_at_places.mp hx
  exact mem_route_routed hrouted hfound (List.mem_of_getElem? hix)

/-- What a type-routed request picks, it shows something of. -/
theorem routed_response_ne_nil (h : «recall» o cfg env answer body agent db = .ok results)
    {r : HindsightMemory K} (hr : r ∈ db.hindsight_memories)
    (hpicks : routed_picks o env body agent r = true) : ∃ x, x ∈ results := by
  obtain ⟨found, hfound, rfl⟩ := recall_shows h
  obtain ⟨i, hi⟩ := List.exists_mem_of_ne_nil _
    (shown_places_ne_nil (route_routed_ne_nil hfound hr hpicks))
  have hlt := shown_places_lt hi
  exact ⟨found[i], ranking.mem_at_places.mpr ⟨i, hi, List.getElem?_eq_getElem hlt⟩⟩

/-! ## The result describes the memory -/

/-- The fields of the result are those of the memory. -/
structure Describes (x : RecallResult K) (r : HindsightMemory K) : Prop where
  id : r.id = x.id
  type : x.type = .memory r.type
  content : x.content = r.content
  importance : x.importance = some r.importance
  created_at : x.created_at = r.created_at
  valid_from : x.valid_from = some r.valid_from
  valid_until : x.valid_until = r.valid_until

omit [HasSqrt K] in
theorem FromPrivate.describes {r : HindsightMemory K} {x y : RecallResult K}
    (h : FromPrivate r y) (hxy : x.untold = y.untold) : Describes x r := by
  obtain ⟨score, rank, rfl⟩ := h
  exact {
    id := (congrArg RecallResult.id hxy).symm
    type := congrArg RecallResult.type hxy
    content := congrArg RecallResult.content hxy
    importance := congrArg RecallResult.importance hxy
    created_at := congrArg RecallResult.created_at hxy
    valid_from := congrArg RecallResult.valid_from hxy
    valid_until := congrArg RecallResult.valid_until hxy }

/-- Each private result describes its memory, and is of the type that the request asks for. -/
def DescribesMemories (body : RecallRequest) (results : List (RecallResult K)) (db : Db K) : Prop :=
  ∀ x ∈ results, x.scope = .private_ →
    (∃ r ∈ db.hindsight_memories, Describes x r) ∧
      ∀ type, body.type = some type → x.type = .memory type

/-- The results describe their memories exactly when no type-routed query picks a memory, and the
response shows no memory to which a followed link leads. -/
theorem recall_describes_the_memories_iff
    (h : «recall» o cfg env answer body agent db = .ok results) :
    DescribesMemories body results db ↔
      (routed body = true → ∀ r ∈ db.hindsight_memories, routed_picks o env body agent r = false) ∧
        (routed body = false → ∀ l ∈ followed_links o cfg env body agent db,
          ∀ r ∈ db.hindsight_memories, LeadsTo env.now agent l r →
            leaves o cfg env answer body agent db r = false) := by
  constructor
  · intro hdescribes
    constructor
    · intro hrouted r hr
      by_contra hpicks
      obtain ⟨x, hx⟩ := routed_response_ne_nil h hr (Bool.eq_true_of_not_eq_false hpicks)
      obtain ⟨q, -, -, score, rank, rfl⟩ := routed_response hrouted h hx
      -- A query of the route does not select the type, so the result has the default.
      obtain ⟨⟨p, -, hp⟩, -⟩ := hdescribes _ hx rfl
      cases hp.type
    · intro hrouted l hl r _ hleads
      by_contra hleft
      obtain ⟨x, hx, hscope, hvalid⟩ :=
        linked_response hrouted h hl hleads (Bool.eq_true_of_not_eq_false hleft)
      obtain ⟨⟨p, -, hp⟩, -⟩ := hdescribes x hx hscope
      have hfrom := hvalid.symm.trans hp.valid_from
      cases hfrom
  · rintro ⟨hpicks, hlinked⟩ x hx hscope
    by_cases hrouted : routed body = true
    · obtain ⟨r, hr, hpick, -⟩ := routed_response hrouted h hx
      rw [hpicks hrouted r hr] at hpick
      cases hpick
    · have hrouted := Bool.eq_false_of_not_eq_true hrouted
      rcases hybrid_response_private hrouted h hx hscope with
        ⟨r, hr, hwhere, y, -, hfrom, hxy⟩ | ⟨l, hl, r, hr, hleads, per_source, hxy⟩
      · have hdescribes := hfrom.describes hxy
        refine ⟨⟨r, hr, hdescribes⟩, ?_⟩
        intro type htype
        have hfilter : type_filter body r.type = true := by
          simp only [private_where, Bool.and_eq_true] at hwhere
          exact hwhere.1.1.1.2
        simp only [type_filter, htype, Option.all_some, decide_eq_true_eq] at hfilter
        rw [hdescribes.type, hfilter]
      · have hid := congrArg RecallResult.id hxy
        have hleft := (leaves_iff h).mpr ⟨x, hx, hscope, hid⟩
        rw [hlinked hrouted l hl r hr hleads] at hleft
        cases hleft

theorem recall_describes_the_memories_of_the_lexer :
    DescribesMemories { query := "lexer" } (lexer_answer { query := "lexer" }) lexer_db :=
  (recall_describes_the_memories_iff (show «recall» lucid_models {} lucid_env none
    { query := "lexer" } analyst lexer_db = .ok (lexer_answer { query := "lexer" }) from
      by decide +kernel)).mpr ⟨by decide +kernel, by decide +kernel⟩

/-- A lesson that is asked for by its type comes as knowledge. -/
theorem a_lesson_comes_as_knowledge :
    «recall» lucid_models {} lucid_env none { query := "lexer", type := some .lesson } analyst
        lexer_db = .ok (lexer_answer { query := "lexer", type := some .lesson }) ∧
      ¬ DescribesMemories { query := "lexer", type := some .lesson }
        (lexer_answer { query := "lexer", type := some .lesson }) lexer_db := by
  refine ⟨by decide +kernel, ?_⟩
  intro hdescribes
  have hshown : ∃ x ∈ lexer_answer { query := "lexer", type := some .lesson },
      x.scope = .private_ ∧ x.type = .knowledge := by decide +kernel
  obtain ⟨x, hx, hscope, htype⟩ := hshown
  have hlesson := (hdescribes x hx hscope).2 .lesson rfl
  rw [htype] at hlesson
  cases hlesson

/-! ## Point-in-time recall -/

/-- The memory was valid at the time. -/
def ValidAt (T : Timestamp) (m : HindsightMemory K) : Prop :=
  m.valid_from ≤ T ∧ ∀ t, m.valid_until = some t → T < t

omit [Field K] [LinearOrder K] [HasSqrt K] in
theorem validAt_iff {T : Timestamp} {m : HindsightMemory K} :
    ValidAt T m ↔ m.valid_from ≤ T ∧ m.valid_until.all (T < ·) = true := by
  unfold ValidAt
  cases m.valid_until with
  | none => simp
  | some t => simp

instance (T : Timestamp) (m : HindsightMemory K) : Decidable (ValidAt T m) :=
  decidable_of_iff _ validAt_iff.symm

/-- The conditions of both private searches, without the one on the validity. -/
def other_filters (now : Timestamp) (body : RecallRequest) (agent : AgentIdentity)
    (r : HindsightMemory K) : Bool :=
  r.agent_id = agent.agent_id && r.type ≠ .short_term &&
    r.tier = (if body.scope = .archive then .archive else .active) &&
    r.expires_at.all (now < ·) && type_filter body r.type && entity_filter body r.entities &&
    lang_filter body r.lang

/-- The WHERE clause of `_bm25_private`. -/
def bm25_private_where (o : Outside K) (now : Timestamp) (body : RecallRequest)
    (agent : AgentIdentity) (r : HindsightMemory K) : Bool :=
  o.ts_match body.query r.content && private_where now body agent r

/-- The WHERE clause of `_vector_private`. It asks for a memory that is valid now, whatever
`as_of` says. -/
def vector_private_where (now : Timestamp) (body : RecallRequest) (agent : AgentIdentity)
    (r : HindsightMemory K) : Bool :=
  r.embedding.isSome && (r.valid_until.all (now < ·) && private_where now body agent r)

section
omit [HasSqrt K]

theorem bm25_private_selects (o : Outside K) (cfg : Settings) (now : Timestamp)
    (body : RecallRequest) (agent : AgentIdentity) (db : Db K) :
    bm25_private o cfg now body agent db =
      top_rows (cfg.recall_private_result_limit * cfg.recall_search_fetch_multiplier) .private_
        ((db.hindsight_memories.filter (bm25_private_where o now body agent)).map fun r =>
          (private_columns r none (some (private_rank o body r)), private_rank o body r)) := by
  unfold bm25_private
  rw [← List.filterMap_eq_map, List.filterMap_filter]
  rfl

theorem vector_private_selects (o : Outside K) (cfg : Settings) (now : Timestamp)
    (body : RecallRequest) (agent : AgentIdentity) (qe : List K) (db : Db K) :
    vector_private o cfg now body agent qe db =
      top_rows (cfg.recall_private_result_limit * cfg.recall_search_fetch_multiplier) .private_
        ((db.hindsight_memories.filter (vector_private_where now body agent)).map fun r =>
          (private_columns r (some (private_similarity o qe r)) none,
            private_similarity o qe r)) := by
  unfold vector_private
  rw [← List.filterMap_eq_map, List.filterMap_filter]
  congr 1
  apply List.filterMap_congr
  intro r _
  unfold vector_private_where private_similarity
  simp only [Function.comp]
  cases r.embedding with
  | none => rfl
  | some v => rfl

omit [Field K] [LinearOrder K] in
theorem private_where_iff {now : Timestamp} {r : HindsightMemory K} :
    private_where now body agent r = true ↔
      other_filters now body agent r = true ∧
        temporal_filter body r.valid_from r.valid_until = true := by
  unfold private_where other_filters
  simp only [Bool.and_eq_true]
  tauto

omit [Field K] [LinearOrder K] in
theorem temporal_filter_iff {T : Timestamp} (hT : body.as_of = some T) (m : HindsightMemory K) :
    temporal_filter body m.valid_from m.valid_until = true ↔ ValidAt T m := by
  unfold temporal_filter ValidAt
  rw [hT]
  cases m.valid_until with
  | none => simp
  | some t => simp

end

/-- Both private searches take the memories that were valid at the time, and the response shows
no other one. -/
structure PointInTime (o : Outside K) (now T : Timestamp) (body : RecallRequest)
    (agent : AgentIdentity) (results : List (RecallResult K)) (db : Db K) : Prop where
  bm25 : ∀ m ∈ db.hindsight_memories, o.ts_match body.query m.content = true →
    other_filters now body agent m = true →
      (bm25_private_where o now body agent m = true ↔ ValidAt T m)
  vector : ∀ m ∈ db.hindsight_memories, m.embedding.isSome = true →
    other_filters now body agent m = true →
      (vector_private_where now body agent m = true ↔ ValidAt T m)
  shown : ∀ x ∈ results, x.scope = .private_ →
    ∀ m ∈ db.hindsight_memories, m.id = x.id → ValidAt T m

/-- The memory meets the filters that the request states. -/
structure Meets (body : RecallRequest) (r : HindsightMemory K) : Prop where
  type : ∀ type, body.type = some type → r.type = type
  entities : ∀ wanted, body.entities = some wanted → ∃ e ∈ r.entities, e.1 ∈ wanted
  lang : ∀ lang, body.lang = some lang → r.lang = lang
  tier : r.tier = .archive ↔ body.scope = .archive

/-- The memory has the language that the request states. -/
def has_lang (body : RecallRequest) (r : HindsightMemory K) : Bool :=
  body.lang.all fun lang => r.lang = lang

section
omit [Field K] [LinearOrder K] [HasSqrt K]

theorem type_filter_iff {type : MemoryType} :
    type_filter body type = true ↔ ∀ t, body.type = some t → type = t := by
  unfold type_filter
  cases body.type with
  | none => simp
  | some t => simp

theorem has_lang_iff {r : HindsightMemory K} :
    has_lang body r = true ↔ ∀ lang, body.lang = some lang → r.lang = lang := by
  unfold has_lang
  cases body.lang with
  | none => simp
  | some lang => simp

theorem entity_filter_iff {entities : List (String × String)}
    (hentities : body.entities ≠ some []) :
    entity_filter body entities = true ↔
      ∀ wanted, body.entities = some wanted → ∃ e ∈ entities, e.1 ∈ wanted := by
  unfold entity_filter
  cases hwanted : body.entities with
  | none => simp
  | some wanted =>
    have hsome : wanted ≠ [] := fun hnil => hentities (hnil ▸ hwanted)
    simp [hsome]

theorem tier_sound {tier : Tier} (h : tier = if body.scope = .archive then .archive else .active) :
    tier = .archive ↔ body.scope = .archive := by
  rw [h]
  split
  · simp [*]
  · simp [*]

/-- What a search finds meets the filters, but for an empty language. -/
theorem Meets.of_private_where {now : Timestamp} {r : HindsightMemory K}
    (hentities : body.entities ≠ some []) (h : private_where now body agent r = true)
    (hlang : body.lang = some "" → r.lang = "") : Meets body r := by
  simp only [private_where, Bool.and_eq_true, decide_eq_true_eq] at h
  obtain ⟨⟨⟨⟨⟨⟨⟨-, -⟩, htier⟩, -⟩, htype⟩, hentity⟩, -⟩, hfilter⟩ := h
  refine ⟨type_filter_iff.mp htype, (entity_filter_iff hentities).mp hentity, ?_, tier_sound htier⟩
  intro lang hwanted
  by_cases hempty : lang = ""
  · rw [hempty] at hwanted ⊢
    exact hlang hwanted
  · simpa [lang_filter, hwanted, hempty] using hfilter

end

omit [HasSqrt K] in
/-- What a type-routed query picks meets the filters, but for the language. -/
theorem Meets.of_routed_picks {r : HindsightMemory K} (hentities : body.entities ≠ some [])
    (h : routed_picks o env body agent r = true) (hlang : has_lang body r = true) :
    Meets body r := by
  obtain ⟨-, hpicks⟩ := Bool.and_eq_true_iff.mp h
  obtain ⟨type, htype, hwhere⟩ := (Option.any_eq_true _ _).mp (Bool.and_eq_true_iff.mp hpicks).1
  simp only [routed_where, Bool.and_eq_true, decide_eq_true_eq] at hwhere
  obtain ⟨⟨⟨⟨⟨-, hrtype⟩, htier⟩, -⟩, -⟩, hentity⟩ := hwhere
  refine ⟨?_, (entity_filter_iff hentities).mp hentity, has_lang_iff.mp hlang, tier_sound htier⟩
  intro t ht
  rw [htype, Option.some.injEq] at ht
  exact hrtype.trans ht

end

end qortia
