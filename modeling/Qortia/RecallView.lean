-- What a recall reads of the database: the memories, entities and links of the agent, and the
-- shared rows of its tenant. The traversal joins all entities of the tenant, and the links of all
-- sources come from one table, so that the rest depends on what the entities and the links name.
import Qortia.GraphMirror
import Qortia.RecallResults

namespace qortia

variable {K : Type}

/-! ## What the agent sees -/

/-- An entity of the agent, or of its tenant. -/
def own_or_shared (agent : AgentIdentity) (e : Entity K) : Bool :=
  e.tenant_id = agent.tenant_id && (e.agent_id.isNone || e.agent_id = some agent.agent_id)

/-- A link that starts at a memory of the agent. -/
def own_link (agent : AgentIdentity) (db : Db K) (l : MemoryLink K) : Bool :=
  db.hindsight_memories.any fun r => r.agent_id = agent.agent_id && r.id = l.source_id

/-- The agent's private memories, its entities and links, and the memories, the knowledge and the
entities that its tenant shares, in the order of their tables. -/
def Db.view (agent : AgentIdentity) (db : Db K) : Db K where
  hindsight_memories := db.hindsight_memories.filter fun r => r.agent_id = agent.agent_id
  org_memory := db.org_memory.filter fun r => r.tenant_id = agent.tenant_id
  org_knowledge := db.org_knowledge.filter fun r => r.tenant_id = agent.tenant_id
  qortia_entities := db.qortia_entities.filter (own_or_shared agent)
  memory_links := db.memory_links.filter (own_link agent db)

/-- The view next to the levels, which are the same for all tenants. -/
def Db.readable (agent : AgentIdentity) (db : Db K) : Db K :=
  { db.view agent with qortia_clearance_levels := db.qortia_clearance_levels }

/-- Entities of different scopes share no memory, each entity is known by its id, and no link
starts at a shared memory. -/
structure Db.Apart (db : Db K) : Prop where
  scopes : ∀ e₁ ∈ db.qortia_entities, ∀ e₂ ∈ db.qortia_entities, ∀ i ∈ e₁.linked_memory_ids,
    i ∈ e₂.linked_memory_ids → (e₁.tenant_id, e₁.agent_id) = (e₂.tenant_id, e₂.agent_id)
  entities_nodup : (db.qortia_entities.map (·.id)).Nodup
  sources : ∀ l ∈ db.memory_links, ∀ q ∈ db.org_memory, q.id ≠ l.source_id

theorem own_or_shared_scope {agent : AgentIdentity} {e₁ e₂ : Entity K}
    (h : (e₁.tenant_id, e₁.agent_id) = (e₂.tenant_id, e₂.agent_id)) :
    own_or_shared agent e₁ = own_or_shared agent e₂ := by
  rw [Prod.mk.injEq] at h
  unfold own_or_shared
  rw [h.1, h.2]

section
variable [Field K] [LinearOrder K]

/-! ## The searches -/

theorem run_leg_reads (o : Outside K) (cfg : Settings) (env : RecallEnv K) (body : RecallRequest)
    (agent : AgentIdentity) (db : Db K) (l : Leg) :
    run_leg o cfg env body agent (db.readable agent) l = run_leg o cfg env body agent db l := by
  have hprivate : ∀ r : HindsightMemory K, private_where env.now body agent r = true →
      decide (r.agent_id = agent.agent_id) = true := by
    intro r hr
    unfold private_where at hr
    simp only [Bool.and_eq_true] at hr
    exact hr.1.1.1.1.1.1.1
  have horg : ∀ r : OrgMemory K, org_where env.now body agent db r = true →
      decide (r.tenant_id = agent.tenant_id) = true := by
    intro r hr
    unfold org_where org_visible at hr
    simp only [Bool.and_eq_true] at hr
    exact hr.1.1.1.1.1
  have hknowledge : ∀ r : OrgKnowledge K, knowledge_visible db agent r = true →
      decide (r.tenant_id = agent.tenant_id) = true := by
    intro r hr
    unfold knowledge_visible at hr
    simp only [Bool.and_eq_true] at hr
    exact hr.1.1
  cases l with
  | bm25_private =>
    apply congrArg (top_rows _ _)
    apply rows.filterMap_filter_of
    intro r _ x hpick
    obtain ⟨hwhere, -⟩ := Option.ite_none_right_eq_some.mp hpick
    exact hprivate r (Bool.and_eq_true_iff.mp hwhere).2
  | vector_private =>
    apply congrArg (top_rows _ _)
    apply rows.filterMap_filter_of
    intro r _ x hpick
    obtain ⟨v, -, hpick⟩ := Option.bind_eq_some_iff.mp hpick
    obtain ⟨hwhere, -⟩ := Option.ite_none_right_eq_some.mp hpick
    exact hprivate r (Bool.and_eq_true_iff.mp hwhere).2
  | bm25_org =>
    apply congrArg (top_rows _ _)
    apply rows.filterMap_filter_of
    intro r _ x hpick
    obtain ⟨hwhere, -⟩ := Option.ite_none_right_eq_some.mp hpick
    exact horg r (Bool.and_eq_true_iff.mp hwhere).2
  | vector_org =>
    apply congrArg (top_rows _ _)
    apply rows.filterMap_filter_of
    intro r _ x hpick
    obtain ⟨v, -, hpick⟩ := Option.bind_eq_some_iff.mp hpick
    obtain ⟨hwhere, -⟩ := Option.ite_none_right_eq_some.mp hpick
    exact horg r hwhere
  | bm25_knowledge =>
    apply congrArg (top_rows _ _)
    apply rows.filterMap_filter_of
    intro r _ x hpick
    obtain ⟨hwhere, -⟩ := Option.ite_none_right_eq_some.mp hpick
    exact hknowledge r (Bool.and_eq_true_iff.mp hwhere).2
  | vector_knowledge =>
    apply congrArg (fun found => (top_rows _ _ found).map _)
    apply rows.filterMap_filter_of
    intro r _ x hpick
    obtain ⟨v, -, hpick⟩ := Option.bind_eq_some_iff.mp hpick
    obtain ⟨hwhere, -⟩ := Option.ite_none_right_eq_some.mp hpick
    exact hknowledge r hwhere

theorem search_reads (o : Outside K) (cfg : Settings) (env : RecallEnv K) (body : RecallRequest)
    (agent : AgentIdentity) (db : Db K) :
    search o cfg env body agent (db.readable agent) = search o cfg env body agent db := by
  unfold search
  rw [funext (run_leg_reads o cfg env body agent db)]

/-! ## The entities -/

omit [Field K] [LinearOrder K] in
theorem entity_where_own_or_shared {agent : AgentIdentity} {query_entities : List String}
    {e : Entity K} (h : entity_where agent query_entities e = true) :
    own_or_shared agent e = true := by
  unfold entity_where at h
  simp only [Bool.and_eq_true] at h
  unfold own_or_shared
  rw [h.1.1.1, h.1.1.2]
  rfl

omit [Field K] [LinearOrder K] in
theorem seeds_read (agent : AgentIdentity) (query_entities : List String) (db : Db K) :
    (db.readable agent).qortia_entities.filter (entity_where agent query_entities) =
      db.qortia_entities.filter (entity_where agent query_entities) :=
  rows.filter_filter_of fun _ _ h => entity_where_own_or_shared h

omit [Field K] [LinearOrder K] in
theorem query_links_reads (o : Outside K) (env : RecallEnv K) (body : RecallRequest)
    (agent : AgentIdentity) (db : Db K) :
    query_links o env body agent (db.readable agent) = query_links o env body agent db := by
  unfold query_links linked_rows
  simp only [seeds_read]

/-! ## The traversal -/

/-- The visited entities are the agent's own or shared. -/
def StaysInView (agent : AgentIdentity) (db : Db K) (visited : List UUID) : Prop :=
  ∀ e ∈ db.qortia_entities, e.id ∈ visited → own_or_shared agent e = true

/-- The query of a hop joins the entities of the tenant. Those that share a memory with a visited
one have its scope. -/
theorem next_entities_reads {agent : AgentIdentity} {db : Db K} (h : db.Apart) (o : Outside K)
    (unordered : ∀ {α : Type}, List α → List α) (query_embedding : List K) {visited : List UUID}
    (hvisited : StaysInView agent db visited) :
    next_entities o unordered query_embedding visited agent.tenant_id (db.readable agent) =
      next_entities o unordered query_embedding visited agent.tenant_id db := by
  unfold next_entities
  apply congrArg (fun found => (unordered found).take 10)
  have hfirst : (db.readable agent).qortia_entities.filter
        (fun e₁ => e₁.id ∈ visited && e₁.tenant_id = agent.tenant_id) =
      db.qortia_entities.filter (fun e₁ => e₁.id ∈ visited && e₁.tenant_id = agent.tenant_id) := by
    apply rows.filter_filter_of
    intro e₁ he₁ hwhere
    rw [Bool.and_eq_true] at hwhere
    exact hvisited e₁ he₁ (of_decide_eq_true hwhere.1)
  rw [hfirst]
  apply List.flatMap_congr
  intro e₁ he₁
  obtain ⟨he₁, hwhere⟩ := List.mem_filter.mp he₁
  rw [Bool.and_eq_true] at hwhere
  have hown := hvisited e₁ he₁ (of_decide_eq_true hwhere.1)
  apply rows.filterMap_filter_of
  intro e₂ he₂ x hpick
  obtain ⟨v, -, hpick⟩ := Option.bind_eq_some_iff.mp hpick
  obtain ⟨hjoin, -⟩ := Option.ite_none_right_eq_some.mp hpick
  simp only [Bool.and_eq_true, List.any_eq_true, decide_eq_true_eq] at hjoin
  obtain ⟨⟨⟨⟨i, hi₂, hi₁⟩, -⟩, -⟩, -⟩ := hjoin
  rw [own_or_shared_scope (h.scopes e₂ he₂ e₁ he₁ i hi₂ hi₁)]
  exact hown

theorem mem_next_entities {o : Outside K} {unordered : ∀ {α : Type}, List α → List α}
    (hperm : ∀ {α : Type} (l : List α), (unordered l).Perm l) {query_embedding : List K}
    {visited : List UUID} {tenant_id : UUID} {db : Db K} {row : Entity K × K}
    (hrow : row ∈ next_entities o unordered query_embedding visited tenant_id db) :
    row.1 ∈ db.qortia_entities := by
  unfold next_entities at hrow
  have hmem := (hperm _).mem_iff.mp (List.mem_of_mem_take hrow)
  obtain ⟨e₁, -, hmem⟩ := List.mem_flatMap.mp hmem
  obtain ⟨e₂, he₂, hpick⟩ := List.mem_filterMap.mp hmem
  obtain ⟨v, -, hpick⟩ := Option.bind_eq_some_iff.mp hpick
  obtain ⟨-, hpick⟩ := Option.ite_none_right_eq_some.mp hpick
  cases hpick
  exact he₂

omit [Field K] [LinearOrder K] in
theorem mem_readable_entities {agent : AgentIdentity} {db : Db K} {e : Entity K}
    (he : e ∈ (db.readable agent).qortia_entities) :
    e ∈ db.qortia_entities ∧ own_or_shared agent e = true :=
  List.mem_filter.mp he

theorem visited_visit_entity {t : Traversal K} {row : Entity K × K} {i : UUID}
    (hi : i ∈ (visit_entity t row).visited) : i ∈ t.visited ∨ i = row.1.id := by
  unfold visit_entity at hi
  split at hi
  · exact Or.inl hi
  · rcases List.mem_append.mp hi with hi | hi
    · exact Or.inl hi
    · exact Or.inr (List.mem_singleton.mp hi)

theorem visited_visit_entities {found : List (Entity K × K)} {t : Traversal K} {i : UUID}
    (hi : i ∈ (found.foldl visit_entity t).visited) :
    i ∈ t.visited ∨ ∃ row ∈ found, i = row.1.id := by
  induction found generalizing t with
  | nil => exact Or.inl hi
  | cons row found ih =>
    rcases ih hi with hi | ⟨row', hrow', rfl⟩
    · rcases visited_visit_entity hi with hi | rfl
      · exact Or.inl hi
      · exact Or.inr ⟨row, List.mem_cons_self, rfl⟩
    · exact Or.inr ⟨row', List.mem_cons_of_mem _ hrow', rfl⟩

/-- Each hop stays among the entities in view. -/
theorem bfs_hops_reads {agent : AgentIdentity} {db : Db K} (h : db.Apart) (o : Outside K)
    {unordered : ∀ {α : Type}, List α → List α}
    (hperm : ∀ {α : Type} (l : List α), (unordered l).Perm l) (query_embedding : List K)
    (decay : K) (max_depth : Nat) (t : Traversal K) (hvisited : StaysInView agent db t.visited) :
    bfs_hops o unordered query_embedding agent.tenant_id decay (db.readable agent) max_depth t =
      bfs_hops o unordered query_embedding agent.tenant_id decay db max_depth t := by
  induction max_depth generalizing t with
  | zero => rfl
  | succ depth ih =>
    have hnext := next_entities_reads h o unordered query_embedding hvisited
    unfold bfs_hops
    rw [hnext]
    split
    · rfl
    · apply ih
      intro e he hid
      rcases visited_visit_entities hid with hid | ⟨row, hrow, hid⟩
      · exact hvisited e he hid
      · rw [← hnext] at hrow
        obtain ⟨hmem, hown⟩ := mem_readable_entities (mem_next_entities hperm hrow)
        have hsame : e = row.1 := List.inj_on_of_nodup_map h.entities_nodup he hmem hid
        rw [hsame]
        exact hown

theorem bfs_entity_traversal_reads {agent : AgentIdentity} {db : Db K} (h : db.Apart)
    (o : Outside K) {unordered : ∀ {α : Type}, List α → List α}
    (hperm : ∀ {α : Type} (l : List α), (unordered l).Perm l) (query_embedding : List K)
    {seed_ids : List UUID} (hseeds : StaysInView agent db seed_ids) :
    bfs_entity_traversal o unordered query_embedding seed_ids agent.tenant_id (db.readable agent) =
      bfs_entity_traversal o unordered query_embedding seed_ids agent.tenant_id db := by
  unfold bfs_entity_traversal
  split
  · rfl
  · rw [bfs_hops_reads h o hperm]
    intro e he hid
    exact hseeds e he (List.mem_dedup.mp hid)

/-! ## The fused memories -/

theorem fuse_memories_reads {agent : AgentIdentity} {db : Db K} (h : db.Apart) (o : Outside K)
    (cfg : Settings) (env : RecallEnv K) (query_entities : List String) (entity_links : List UUID)
    (memory_results : List (RecallResult K)) :
    fuse_memories o cfg env agent query_entities entity_links memory_results (db.readable agent) =
      fuse_memories o cfg env agent query_entities entity_links memory_results db := by
  have hseeds : StaysInView agent db ((env.unordered
      (db.qortia_entities.filter (entity_where agent query_entities))).map (·.id)) := by
    intro e he hid
    obtain ⟨seed, hseed, hid⟩ := List.mem_map.mp hid
    obtain ⟨hmem, hwhere⟩ := List.mem_filter.mp ((env.unordered_perm _).mem_iff.mp hseed)
    have hsame : seed = e := List.inj_on_of_nodup_map h.entities_nodup hmem he hid
    rw [← hsame]
    exact entity_where_own_or_shared hwhere
  unfold fuse_memories
  simp only
  split
  · rfl
  · rename_i qe _
    rw [seeds_read, bfs_entity_traversal_reads h o env.unordered_perm qe hseeds]

theorem fused_part_reads {agent : AgentIdentity} {db : Db K} (h : db.Apart) (o : Outside K)
    (cfg : Settings) (env : RecallEnv K) (body : RecallRequest) :
    fused_part o cfg env body agent (db.readable agent) = fused_part o cfg env body agent db := by
  unfold fused_part
  rw [fuse_memories_reads h, query_links_reads, search_reads]

/-! ## The linked memories -/

theorem expand_with_links_reads {agent : AgentIdentity} {db : Db K} (h : db.Apart)
    (now : Timestamp) (failed : Bool) (unordered : ∀ {α : Type}, List α → List α)
    {results : List (RecallResult K)}
    (hresults : ∀ x ∈ results, (∃ r ∈ db.hindsight_memories, r.agent_id = agent.agent_id ∧
      r.id = x.id) ∨ ∃ q ∈ db.org_memory, q.id = x.id) :
    expand_with_links now agent.tenant_id agent.agent_id failed unordered results
        (db.readable agent) =
      expand_with_links now agent.tenant_id agent.agent_id failed unordered results db := by
  have hlinks : (db.readable agent).memory_links.filter (fun l =>
        l.source_id ∈ (results.take EXPAND_TOP_RESULTS).map (·.id) &&
          l.tenant_id = agent.tenant_id) =
      db.memory_links.filter (fun l =>
        l.source_id ∈ (results.take EXPAND_TOP_RESULTS).map (·.id) &&
          l.tenant_id = agent.tenant_id) := by
    apply rows.filter_filter_of
    intro l hl hwhere
    rw [Bool.and_eq_true] at hwhere
    obtain ⟨x, hx, hid⟩ := List.mem_map.mp (of_decide_eq_true hwhere.1)
    rcases hresults x (List.mem_of_mem_take hx) with ⟨r, hr, hagent, hrid⟩ | ⟨q, hq, hqid⟩
    · refine List.any_eq_true.mpr ⟨r, hr, ?_⟩
      simp [hagent, hrid.trans hid]
    · exact absurd (hqid.trans hid) (h.sources l hl q hq)
  have hmemories : ∀ new_ids : List UUID,
      (db.readable agent).hindsight_memories.filter (fun r => r.id ∈ new_ids &&
        r.tenant_id = agent.tenant_id && r.agent_id = agent.agent_id && r.tier = .active &&
        r.expires_at.all (now < ·) && r.valid_until.all (now < ·)) =
      db.hindsight_memories.filter (fun r => r.id ∈ new_ids &&
        r.tenant_id = agent.tenant_id && r.agent_id = agent.agent_id && r.tier = .active &&
        r.expires_at.all (now < ·) && r.valid_until.all (now < ·)) := by
    intro new_ids
    apply rows.filter_filter_of
    intro r _ hwhere
    simp only [Bool.and_eq_true] at hwhere
    exact hwhere.1.1.1.2
  unfold expand_with_links
  simp only [hlinks, hmemories]

theorem linked_part_reads {agent : AgentIdentity} {db : Db K} (h : db.Apart) (o : Outside K)
    (cfg : Settings) (env : RecallEnv K) (body : RecallRequest) :
    linked_part o cfg env body agent (db.readable agent) =
      linked_part o cfg env body agent db := by
  unfold linked_part linked_memories
  rw [fused_part_reads h, expand_with_links_reads h]
  intro x hx
  obtain ⟨hfound, hscope⟩ := mem_fused_part hx
  rcases mem_search hfound with ⟨r, hr, hwhere, score, rank, rfl⟩ | ⟨-, horg⟩ | ⟨hknowledge, -⟩
  · unfold private_where at hwhere
    simp only [Bool.and_eq_true] at hwhere
    exact Or.inl ⟨r, hr, of_decide_eq_true hwhere.1.1.1.1.1.1.1, rfl⟩
  · exact Or.inr horg
  · exact absurd hknowledge hscope

/-! ## The pipeline -/

section
variable [HasSqrt K]

/-- The pipeline finds in the view what it finds in the database. -/
theorem hybrid_reads {agent : AgentIdentity} {db : Db K} (h : db.Apart) (o : Outside K)
    (cfg : Settings) (env : RecallEnv K) (body : RecallRequest) :
    hybrid_recall_pipeline o cfg env body agent (db.readable agent) =
      hybrid_recall_pipeline o cfg env body agent db := by
  rw [hybrid_eq, hybrid_eq, fused_part_reads h, linked_part_reads h]
  unfold top_entity_summary knowledge_part
  rw [query_links_reads, search_reads]

end

end

end qortia
