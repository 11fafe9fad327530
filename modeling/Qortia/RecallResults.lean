-- Where the results of the hybrid pipeline come from: the fused memories, the linked memories
-- that the expansion adds, and the knowledge chunks, in this order.
import Qortia.RecallRoutes

namespace qortia

variable {K : Type} [Field K] [LinearOrder K]

/-! ## The fusion -/

omit [LinearOrder K] in
theorem rrf_add_ids (rrf_k : Nat) (fused : List (Fused K)) (x : RecallResult K) :
    (rrf_add rrf_k fused x).map (·.result.id) =
      if x.id ∈ fused.map (·.result.id) then fused.map (·.result.id)
      else fused.map (·.result.id) ++ [x.id] := by
  unfold rrf_add
  cases hfind : fused.find? fun f => f.result.id = x.id with
  | none =>
    have hnew : x.id ∉ fused.map (·.result.id) := by
      intro hmem
      obtain ⟨f, hf, hid⟩ := List.mem_map.mp hmem
      exact List.find?_eq_none.mp hfind f hf (decide_eq_true hid)
    rw [rows.upsert_none hfind, if_neg hnew, List.map_append]
    rfl
  | some f =>
    have hid : f.result.id = x.id := by simpa using List.find?_some hfind
    have hold : x.id ∈ fused.map (·.result.id) :=
      List.mem_map.mpr ⟨f, List.mem_of_find?_eq_some hfind, hid⟩
    rw [rows.upsert_some hfind, if_pos hold]
    unfold rows.update
    rw [List.map_map]
    apply List.map_congr_left
    intro g _
    simp only [Function.comp]
    split
    · rename_i hg
      exact (of_decide_eq_true hg).symm
    · rfl

omit [LinearOrder K] in
theorem mem_rrf_add {rrf_k : Nat} {fused : List (Fused K)} {x : RecallResult K} {f : Fused K}
    (h : f ∈ rrf_add rrf_k fused x) : f.result = x ∨ f ∈ fused := by
  rcases rows.mem_upsert h with ⟨g, -, -, rfl⟩ | hf | rfl
  · exact Or.inl rfl
  · exact Or.inr hf
  · exact Or.inl rfl

omit [LinearOrder K] in
/-- What is fused is among the results, under distinct ids. -/
theorem foldl_rrf_add (rrf_k : Nat) (results : List (RecallResult K)) (fused : List (Fused K))
    (hnodup : (fused.map (·.result.id)).Nodup) :
    ((results.foldl (rrf_add rrf_k) fused).map (·.result.id)).Nodup ∧
      ∀ f ∈ results.foldl (rrf_add rrf_k) fused, f.result ∈ results ∨ f ∈ fused := by
  induction results generalizing fused with
  | nil => exact ⟨hnodup, fun f hf => Or.inr hf⟩
  | cons x results ih =>
    have hstep : ((rrf_add rrf_k fused x).map (·.result.id)).Nodup := by
      rw [rrf_add_ids]
      split
      · exact hnodup
      · rename_i hnew
        rw [← List.concat_eq_append]
        exact hnodup.concat hnew
    obtain ⟨hids, hmem⟩ := ih _ hstep
    refine ⟨hids, ?_⟩
    intro f hf
    rcases hmem f hf with hf | hf
    · exact Or.inl (List.mem_cons_of_mem x hf)
    · rcases mem_rrf_add hf with hx | hf
      · exact Or.inl (hx ▸ List.mem_cons_self)
      · exact Or.inr hf

theorem mem_rrf_fuse {o : Outside K} {cfg : Settings} {now : Timestamp}
    {results : List (RecallResult K)} {entity_links : List UUID} {x : RecallResult K}
    (h : x ∈ rrf_fuse o cfg now results entity_links) : x ∈ results := by
  unfold rrf_fuse at h
  obtain ⟨f, hf, rfl⟩ := List.mem_map.mp h
  rcases (foldl_rrf_add _ results [] List.nodup_nil).2 f (rows.mem_order_desc.mp hf) with hf | hf
  · exact hf
  · cases hf

theorem rrf_fuse_ids (o : Outside K) (cfg : Settings) (now : Timestamp)
    (results : List (RecallResult K)) (entity_links : List UUID) :
    ((rrf_fuse o cfg now results entity_links).map (·.id)).Nodup := by
  unfold rrf_fuse
  rw [List.map_map, ((rows.order_desc_perm _ _).map _).nodup_iff]
  exact (foldl_rrf_add _ results [] List.nodup_nil).1

theorem fuse_memories_eq (o : Outside K) (cfg : Settings) (env : RecallEnv K)
    (agent : AgentIdentity) (query_entities : List String) (entity_links : List UUID)
    (memory_results : List (RecallResult K)) (db : Db K) :
    ∃ links, fuse_memories o cfg env agent query_entities entity_links memory_results db =
      rrf_fuse o cfg env.now memory_results links := by
  unfold fuse_memories
  simp only
  split
  · exact ⟨_, rfl⟩
  · split
    · exact ⟨_, rfl⟩
    · split
      · exact ⟨_, rfl⟩
      · exact ⟨_, rfl⟩

/-! ## The expansion -/

/-- The results of the linked memories, which the expansion adds. -/
def linked_memories (now : Timestamp) (tenant_id agent_id : UUID) (failed : Bool)
    (unordered : ∀ {α : Type}, List α → List α) (results : List (RecallResult K)) (db : Db K) :
    List (RecallResult K) :=
  (expand_with_links now tenant_id agent_id failed unordered results db).drop results.length

theorem expand_with_links_eq (now : Timestamp) (tenant_id agent_id : UUID) (failed : Bool)
    (unordered : ∀ {α : Type}, List α → List α) (results : List (RecallResult K)) (db : Db K) :
    expand_with_links now tenant_id agent_id failed unordered results db =
      results ++ linked_memories now tenant_id agent_id failed unordered results db := by
  unfold linked_memories expand_with_links
  split
  · simp
  · simp

/-- The conditions on a linked memory. Only these hold of it: the filters of the request do not
reach the query. -/
structure Linkable (now : Timestamp) (tenant_id agent_id : UUID) (r : HindsightMemory K) :
    Prop where
  tenant_id : r.tenant_id = tenant_id
  agent_id : r.agent_id = agent_id
  tier : r.tier = .active
  expires_at : r.expires_at.all (now < ·) = true
  valid_until : r.valid_until.all (now < ·) = true

instance (now : Timestamp) (tenant_id agent_id : UUID) (r : HindsightMemory K) :
    Decidable (Linkable now tenant_id agent_id r) :=
  decidable_of_iff (r.tenant_id = tenant_id ∧ r.agent_id = agent_id ∧ r.tier = .active ∧
      r.expires_at.all (now < ·) = true ∧ r.valid_until.all (now < ·) = true)
    ⟨fun ⟨htenant, hagent, htier, hexpires, hvalid⟩ =>
        ⟨htenant, hagent, htier, hexpires, hvalid⟩,
      fun h => ⟨h.tenant_id, h.agent_id, h.tier, h.expires_at, h.valid_until⟩⟩

theorem mem_linked_memories {now : Timestamp} {tenant_id agent_id : UUID} {failed : Bool}
    {unordered : ∀ {α : Type}, List α → List α} {results : List (RecallResult K)} {db : Db K}
    {x : RecallResult K} (hperm : ∀ {α : Type} (l : List α), (unordered l).Perm l)
    (h : x ∈ linked_memories now tenant_id agent_id failed unordered results db) :
    x.id ∉ results.map (·.id) ∧ ∃ r ∈ db.hindsight_memories, Linkable now tenant_id agent_id r ∧
      ∃ per_source, x = linked_result per_source r := by
  unfold linked_memories expand_with_links at h
  split at h
  · simp at h
  · simp only [List.drop_left] at h
    obtain ⟨hrow, hnew⟩ := List.mem_filter.mp h
    obtain ⟨r, hr, rfl⟩ := List.mem_map.mp ((hperm _).mem_iff.mp hrow)
    obtain ⟨hr, hwhere⟩ := List.mem_filter.mp hr
    simp only [Bool.and_eq_true, decide_eq_true_eq] at hwhere
    obtain ⟨⟨⟨⟨⟨-, htenant⟩, hagent⟩, htier⟩, hexpires⟩, hvalid⟩ := hwhere
    exact ⟨of_decide_eq_true hnew, r, hr, ⟨htenant, hagent, htier, hexpires, hvalid⟩, _, rfl⟩

theorem linked_memories_ids {now : Timestamp} {tenant_id agent_id : UUID} {failed : Bool}
    {unordered : ∀ {α : Type}, List α → List α} {results : List (RecallResult K)} {db : Db K}
    (hperm : ∀ {α : Type} (l : List α), (unordered l).Perm l)
    (hnodup : (db.hindsight_memories.map (·.id)).Nodup) :
    ((linked_memories now tenant_id agent_id failed unordered results db).map (·.id)).Nodup := by
  unfold linked_memories expand_with_links
  split
  · simp
  · simp only [List.drop_left]
    apply (List.filter_sublist.map _).nodup
    rw [((hperm _).map _).nodup_iff, List.map_map]
    exact (List.filter_sublist.map _).nodup hnodup

/-! ## The searches -/

/-- What a search contributes to the request. -/
def leg_results (o : Outside K) (cfg : Settings) (env : RecallEnv K) (body : RecallRequest)
    (agent : AgentIdentity) (db : Db K) (l : Leg) : List (RecallResult K) :=
  if l ∈ legs body (env.query_embedding.any (· ≠ [])) ∧ env.failed l = false then
    run_leg o cfg env body agent db l
  else []

theorem search_eq (o : Outside K) (cfg : Settings) (env : RecallEnv K) (body : RecallRequest)
    (agent : AgentIdentity) (db : Db K) :
    search o cfg env body agent db =
      [Leg.bm25_private, .vector_private, .bm25_org, .vector_org, .bm25_knowledge,
        .vector_knowledge].flatMap (leg_results o cfg env body agent db) := by
  have hlegs : (legs body (env.query_embedding.any (· ≠ []))).filter (fun l => !env.failed l) =
      [Leg.bm25_private, .vector_private, .bm25_org, .vector_org, .bm25_knowledge,
        .vector_knowledge].filter fun l =>
          !env.failed l && l ∈ legs body (env.query_embedding.any (· ≠ [])) := by
    rw [← List.filter_filter]
    congr 1
    generalize env.query_embedding.any (· ≠ []) = has_embedding
    unfold legs
    cases body.scope <;> cases has_embedding <;> rfl
  unfold search
  rw [hlegs]
  generalize [Leg.bm25_private, Leg.vector_private, .bm25_org, .vector_org, .bm25_knowledge,
    .vector_knowledge] = all
  induction all with
  | nil => rfl
  | cons l all ih =>
    rw [List.flatMap_cons, ← ih, List.filter_cons]
    by_cases hl : l ∈ legs body (env.query_embedding.any (· ≠ [])) ∧ env.failed l = false
    · have hin : leg_results o cfg env body agent db l = run_leg o cfg env body agent db l :=
        if_pos hl
      rw [hin, if_pos (by simpa [and_comm] using hl), List.flatMap_cons]
    · have hout : leg_results o cfg env body agent db l = [] := if_neg hl
      rw [hout, if_neg (by simpa [and_comm] using hl), List.nil_append]

theorem mem_top_rows {Row : Type} {n : Nat} {scope : ResultScope} {t : List Row}
    {f : Row → Option (FetchedRow K × K)} {x : RecallResult K}
    (h : x ∈ top_rows n scope (t.filterMap f)) :
    ∃ r ∈ t, ∃ row, f r = some row ∧ x = to_result row.1 scope := by
  unfold top_rows at h
  obtain ⟨row, hrow, rfl⟩ := List.mem_map.mp h
  obtain ⟨r, hr, hpick⟩ :=
    List.mem_filterMap.mp (rows.mem_order_desc.mp (List.mem_of_mem_take hrow))
  exact ⟨r, hr, row, hpick, rfl⟩

/-- A search under distinct ids finds results under distinct ids. -/
theorem top_rows_ids {Row : Type} {n : Nat} {scope : ResultScope} {t : List Row}
    {f : Row → Option (FetchedRow K × K)} {key : Row → UUID}
    (hid : ∀ r row, f r = some row → row.1.id = key r) (hnodup : (t.map key).Nodup) :
    ((top_rows n scope (t.filterMap f)).map (·.id)).Nodup := by
  unfold top_rows
  rw [List.map_map]
  apply ((List.take_sublist _ _).map _).nodup
  rw [((rows.order_desc_perm _ _).map _).nodup_iff]
  apply List.Nodup.sublist _ hnodup
  induction t with
  | nil => exact List.Sublist.slnil
  | cons r t ih =>
    have ih := ih (List.nodup_cons.mp hnodup).2
    cases hpick : f r with
    | none =>
      rw [List.filterMap_cons_none hpick]
      exact ih.cons _
    | some row =>
      rw [List.filterMap_cons_some hpick, List.map_cons, List.map_cons, ← hid r row hpick]
      exact ih.cons_cons _

/-- The result is of the memory, with the columns of the private searches. -/
def FromPrivate (r : HindsightMemory K) (x : RecallResult K) : Prop :=
  ∃ score rank, x = to_result (private_columns r score rank) .private_

theorem mem_bm25_private {o : Outside K} {cfg : Settings} {now : Timestamp} {body : RecallRequest}
    {agent : AgentIdentity} {db : Db K} {x : RecallResult K}
    (h : x ∈ bm25_private o cfg now body agent db) :
    ∃ r ∈ db.hindsight_memories, private_where now body agent r = true ∧ FromPrivate r x := by
  obtain ⟨r, hr, row, hpick, rfl⟩ := mem_top_rows h
  obtain ⟨hwhere, hpick⟩ := Option.ite_none_right_eq_some.mp hpick
  cases hpick
  exact ⟨r, hr, (Bool.and_eq_true_iff.mp hwhere).2, _, _, rfl⟩

theorem mem_vector_private {o : Outside K} {cfg : Settings} {now : Timestamp}
    {body : RecallRequest} {agent : AgentIdentity} {qe : List K} {db : Db K} {x : RecallResult K}
    (h : x ∈ vector_private o cfg now body agent qe db) :
    ∃ r ∈ db.hindsight_memories, private_where now body agent r = true ∧ FromPrivate r x := by
  obtain ⟨r, hr, row, hpick, rfl⟩ := mem_top_rows h
  obtain ⟨v, -, hpick⟩ := Option.bind_eq_some_iff.mp hpick
  obtain ⟨hwhere, hpick⟩ := Option.ite_none_right_eq_some.mp hpick
  cases hpick
  exact ⟨r, hr, (Bool.and_eq_true_iff.mp hwhere).2, _, _, rfl⟩

theorem mem_bm25_org {o : Outside K} {cfg : Settings} {now : Timestamp} {body : RecallRequest}
    {agent : AgentIdentity} {db : Db K} {x : RecallResult K}
    (h : x ∈ bm25_org o cfg now body agent db) :
    x.scope = .org ∧ ∃ r ∈ db.org_memory, r.id = x.id := by
  obtain ⟨r, hr, row, hpick, rfl⟩ := mem_top_rows h
  obtain ⟨-, hpick⟩ := Option.ite_none_right_eq_some.mp hpick
  cases hpick
  exact ⟨rfl, r, hr, rfl⟩

theorem mem_vector_org {o : Outside K} {cfg : Settings} {now : Timestamp} {body : RecallRequest}
    {agent : AgentIdentity} {qe : List K} {db : Db K} {x : RecallResult K}
    (h : x ∈ vector_org o cfg now body agent qe db) :
    x.scope = .org ∧ ∃ r ∈ db.org_memory, r.id = x.id := by
  obtain ⟨r, hr, row, hpick, rfl⟩ := mem_top_rows h
  obtain ⟨v, -, hpick⟩ := Option.bind_eq_some_iff.mp hpick
  obtain ⟨-, hpick⟩ := Option.ite_none_right_eq_some.mp hpick
  cases hpick
  exact ⟨rfl, r, hr, rfl⟩

theorem mem_bm25_knowledge {o : Outside K} {cfg : Settings} {body : RecallRequest}
    {agent : AgentIdentity} {db : Db K} {x : RecallResult K}
    (h : x ∈ bm25_knowledge o cfg body agent db) :
    x.scope = .knowledge ∧ x.embedding = [] ∧ ∃ r ∈ db.org_knowledge, r.id = x.id := by
  obtain ⟨r, hr, row, hpick, rfl⟩ := mem_top_rows h
  obtain ⟨-, hpick⟩ := Option.ite_none_right_eq_some.mp hpick
  cases hpick
  exact ⟨rfl, rfl, r, hr, rfl⟩

theorem mem_vector_knowledge {o : Outside K} {cfg : Settings} {agent : AgentIdentity}
    {qe : List K} {db : Db K} {x : RecallResult K}
    (h : x ∈ vector_knowledge o cfg agent qe db) :
    x.scope = .knowledge ∧ x.embedding = qe ∧ ∃ r ∈ db.org_knowledge, r.id = x.id := by
  obtain ⟨y, hy, rfl⟩ := List.mem_map.mp h
  obtain ⟨r, hr, row, hpick, rfl⟩ := mem_top_rows hy
  obtain ⟨v, -, hpick⟩ := Option.bind_eq_some_iff.mp hpick
  obtain ⟨-, hpick⟩ := Option.ite_none_right_eq_some.mp hpick
  cases hpick
  exact ⟨rfl, rfl, r, hr, rfl⟩

theorem bm25_knowledge_ids {o : Outside K} {cfg : Settings} {body : RecallRequest}
    {agent : AgentIdentity} {db : Db K} (hnodup : (db.org_knowledge.map (·.id)).Nodup) :
    ((bm25_knowledge o cfg body agent db).map (·.id)).Nodup := by
  refine top_rows_ids (fun r row hpick => ?_) hnodup
  obtain ⟨-, hpick⟩ := Option.ite_none_right_eq_some.mp hpick
  cases hpick
  rfl

theorem vector_knowledge_ids {o : Outside K} {cfg : Settings} {agent : AgentIdentity}
    {qe : List K} {db : Db K} (hnodup : (db.org_knowledge.map (·.id)).Nodup) :
    ((vector_knowledge o cfg agent qe db).map (·.id)).Nodup := by
  unfold vector_knowledge
  rw [List.map_map]
  refine top_rows_ids (fun r row hpick => ?_) hnodup
  obtain ⟨v, -, hpick⟩ := Option.bind_eq_some_iff.mp hpick
  obtain ⟨-, hpick⟩ := Option.ite_none_right_eq_some.mp hpick
  cases hpick
  rfl

theorem mem_leg_results {o : Outside K} {cfg : Settings} {env : RecallEnv K} {body : RecallRequest}
    {agent : AgentIdentity} {db : Db K} {l : Leg} {x : RecallResult K}
    (h : x ∈ leg_results o cfg env body agent db l) : x ∈ run_leg o cfg env body agent db l := by
  unfold leg_results at h
  split at h
  · exact h
  · cases h

/-- The three kinds of results that the searches give. -/
theorem mem_search {o : Outside K} {cfg : Settings} {env : RecallEnv K} {body : RecallRequest}
    {agent : AgentIdentity} {db : Db K} {x : RecallResult K}
    (h : x ∈ search o cfg env body agent db) :
    (∃ r ∈ db.hindsight_memories, private_where env.now body agent r = true ∧ FromPrivate r x) ∨
      (x.scope = .org ∧ ∃ r ∈ db.org_memory, r.id = x.id) ∨
      (x.scope = .knowledge ∧ ∃ r ∈ db.org_knowledge, r.id = x.id) := by
  rw [search_eq] at h
  obtain ⟨l, -, hl⟩ := List.mem_flatMap.mp h
  have hrun := mem_leg_results hl
  cases l with
  | bm25_private => exact Or.inl (mem_bm25_private hrun)
  | vector_private => exact Or.inl (mem_vector_private hrun)
  | bm25_org => exact Or.inr (Or.inl (mem_bm25_org hrun))
  | vector_org => exact Or.inr (Or.inl (mem_vector_org hrun))
  | bm25_knowledge =>
    obtain ⟨hscope, -, hr⟩ := mem_bm25_knowledge hrun
    exact Or.inr (Or.inr ⟨hscope, hr⟩)
  | vector_knowledge =>
    obtain ⟨hscope, -, hr⟩ := mem_vector_knowledge hrun
    exact Or.inr (Or.inr ⟨hscope, hr⟩)

/-! ## The parts of the pipeline -/

/-- The memories that the entities of the query link, each with the summary of its entity. -/
def query_links (o : Outside K) (env : RecallEnv K) (body : RecallRequest) (agent : AgentIdentity)
    (db : Db K) : List (UUID × Option String) :=
  let query_entities := (extract_entities o body.query).getD []
  if query_entities = [] then [] else linked_rows env agent query_entities db

def fused_part (o : Outside K) (cfg : Settings) (env : RecallEnv K) (body : RecallRequest)
    (agent : AgentIdentity) (db : Db K) : List (RecallResult K) :=
  fuse_memories o cfg env agent ((extract_entities o body.query).getD [])
    ((query_links o env body agent db).map (·.1))
    ((search o cfg env body agent db).filter fun r => r.scope ≠ .knowledge) db

def linked_part (o : Outside K) (cfg : Settings) (env : RecallEnv K) (body : RecallRequest)
    (agent : AgentIdentity) (db : Db K) : List (RecallResult K) :=
  if fused_part o cfg env body agent db ≠ [] ∧ env.query_embedding.any (· ≠ []) then
    linked_memories env.now agent.tenant_id agent.agent_id env.expand_failed env.unordered
      (fused_part o cfg env body agent db) db
  else []

def top_entity_summary (o : Outside K) (env : RecallEnv K) (body : RecallRequest)
    (agent : AgentIdentity) (db : Db K) : Option String :=
  ((query_links o env body agent db).filterMap fun row => row.2.filter (· ≠ "")).head?

theorem mem_fused_part {o : Outside K} {cfg : Settings} {env : RecallEnv K} {body : RecallRequest}
    {agent : AgentIdentity} {db : Db K} {x : RecallResult K}
    (h : x ∈ fused_part o cfg env body agent db) :
    x ∈ search o cfg env body agent db ∧ x.scope ≠ .knowledge := by
  unfold fused_part at h
  obtain ⟨links, hlinks⟩ := fuse_memories_eq o cfg env agent
    ((extract_entities o body.query).getD []) ((query_links o env body agent db).map (·.1))
    ((search o cfg env body agent db).filter fun r => r.scope ≠ .knowledge) db
  rw [hlinks] at h
  obtain ⟨hx, hscope⟩ := List.mem_filter.mp (mem_rrf_fuse h)
  exact ⟨hx, of_decide_eq_true hscope⟩

theorem fused_part_ids (o : Outside K) (cfg : Settings) (env : RecallEnv K) (body : RecallRequest)
    (agent : AgentIdentity) (db : Db K) :
    ((fused_part o cfg env body agent db).map (·.id)).Nodup := by
  unfold fused_part
  obtain ⟨links, hlinks⟩ := fuse_memories_eq o cfg env agent
    ((extract_entities o body.query).getD []) ((query_links o env body agent db).map (·.1))
    ((search o cfg env body agent db).filter fun r => r.scope ≠ .knowledge) db
  rw [hlinks]
  exact rrf_fuse_ids _ _ _ _ _

theorem mem_linked_part {o : Outside K} {cfg : Settings} {env : RecallEnv K}
    {body : RecallRequest} {agent : AgentIdentity} {db : Db K} {x : RecallResult K}
    (h : x ∈ linked_part o cfg env body agent db) :
    x.id ∉ (fused_part o cfg env body agent db).map (·.id) ∧
      ∃ r ∈ db.hindsight_memories, Linkable env.now agent.tenant_id agent.agent_id r ∧
        ∃ per_source, x = linked_result per_source r := by
  unfold linked_part at h
  split at h
  · exact mem_linked_memories env.unordered_perm h
  · cases h

theorem linked_part_ids {o : Outside K} {cfg : Settings} {env : RecallEnv K}
    {body : RecallRequest} {agent : AgentIdentity} {db : Db K}
    (hnodup : (db.hindsight_memories.map (·.id)).Nodup) :
    ((linked_part o cfg env body agent db).map (·.id)).Nodup := by
  unfold linked_part
  split
  · exact linked_memories_ids env.unordered_perm hnodup
  · exact List.nodup_nil

/-! ## The summary -/

/-- A result without the summary that the first one gets. -/
def RecallResult.untold (r : RecallResult K) : RecallResult K := { r with entity_summary := none }

omit [Field K] [LinearOrder K] in
theorem map_attach_summary {Col : Type} {g : RecallResult K → Col} (hg : ∀ r, g r.untold = g r)
    (summary : Option String) (results : List (RecallResult K)) :
    (attach_summary summary results).map g = results.map g := by
  unfold attach_summary
  cases results with
  | nil => rfl
  | cons r results =>
    cases summary with
    | none => rfl
    | some summary =>
      simp only [List.map_cons]
      rw [← hg { r with entity_summary := some summary }, ← hg r]
      rfl

/-! ## The pipeline -/

section
variable [HasSqrt K]

theorem mem_mmr_loop {query_embedding : List K} {lambda_ dedup_threshold : K} {wanted : Nat}
    {selected remaining : List (RecallResult K)} {x : RecallResult K}
    (h : x ∈ mmr_loop query_embedding lambda_ dedup_threshold wanted selected remaining) :
    x ∈ selected ∨ x ∈ remaining := by
  fun_induction mmr_loop query_embedding lambda_ dedup_threshold wanted selected remaining with
  | case1 selected remaining => exact Or.inl h
  | case2 wanted selected => exact Or.inl h
  | case3 wanted first remaining ih =>
    rcases ih h with h | h
    · exact Or.inr (List.mem_singleton.mp h ▸ List.mem_cons_self)
    · exact Or.inr (List.mem_cons_of_mem _ h)
  | case4 wanted s selected remaining hnonempty hnone => exact Or.inl h
  | case5 wanted s selected remaining hnonempty i hbest hnone => exact Or.inl h
  | case6 wanted s selected remaining hnonempty i hbest candidate hcandidate ih =>
    rcases ih h with h | h
    · rcases List.mem_append.mp h with h | h
      · exact Or.inl h
      · rw [List.mem_singleton] at h
        exact Or.inr (h ▸ List.mem_of_getElem? hcandidate)
    · exact Or.inr (List.mem_of_mem_eraseIdx h)

theorem mem_mmr {query_embedding : List K} {candidates : List (RecallResult K)}
    {lambda_ dedup_threshold min_score : K} {k : Nat} {x : RecallResult K}
    (h : x ∈ mmr query_embedding candidates lambda_ dedup_threshold min_score k) :
    x ∈ candidates := by
  unfold mmr at h
  rcases mem_mmr_loop h with h | h
  · cases h
  · exact List.mem_of_mem_filter h

/-- A selected chunk is a candidate, with another score. -/
theorem mem_select_knowledge {o : Outside K} {env : RecallEnv K} {body : RecallRequest}
    {candidates : List (RecallResult K)} {x : RecallResult K}
    (h : x ∈ select_knowledge o env body candidates) :
    ∃ y ∈ candidates, x.id = y.id ∧ x.scope = y.scope := by
  unfold select_knowledge at h
  split at h
  · exact ⟨x, List.mem_of_mem_take h, rfl, rfl⟩
  · split at h
    · exact ⟨x, List.mem_of_mem_take h, rfl, rfl⟩
    · obtain ⟨y, hy, rfl⟩ := List.mem_map.mp (mem_mmr h)
      exact ⟨y, hy, rfl, rfl⟩

def knowledge_part (o : Outside K) (cfg : Settings) (env : RecallEnv K) (body : RecallRequest)
    (agent : AgentIdentity) (db : Db K) : List (RecallResult K) :=
  select_knowledge o env body
    ((search o cfg env body agent db).filter fun r => r.scope = .knowledge)

theorem hybrid_eq (o : Outside K) (cfg : Settings) (env : RecallEnv K) (body : RecallRequest)
    (agent : AgentIdentity) (db : Db K) :
    hybrid_recall_pipeline o cfg env body agent db =
      attach_summary (top_entity_summary o env body agent db)
        (fused_part o cfg env body agent db ++ linked_part o cfg env body agent db ++
          knowledge_part o cfg env body agent db) := by
  have hmemories : (if fused_part o cfg env body agent db ≠ [] ∧ env.query_embedding.any (· ≠ [])
      then expand_with_links env.now agent.tenant_id agent.agent_id env.expand_failed env.unordered
        (fused_part o cfg env body agent db) db
      else fused_part o cfg env body agent db) =
      fused_part o cfg env body agent db ++ linked_part o cfg env body agent db := by
    unfold linked_part
    split
    · exact expand_with_links_eq _ _ _ _ _ _ _
    · exact (List.append_nil _).symm
  rw [← hmemories]
  rfl

/-- The result at a place is the one of the parts, up to the summary. -/
theorem hybrid_at (o : Outside K) (cfg : Settings) (env : RecallEnv K) (body : RecallRequest)
    (agent : AgentIdentity) (db : Db K) (i : Nat) :
    (hybrid_recall_pipeline o cfg env body agent db)[i]?.map RecallResult.untold =
      (fused_part o cfg env body agent db ++ linked_part o cfg env body agent db ++
        knowledge_part o cfg env body agent db)[i]?.map RecallResult.untold := by
  rw [hybrid_eq, ← List.getElem?_map, ← List.getElem?_map, map_attach_summary fun _ => rfl]

end

end qortia
