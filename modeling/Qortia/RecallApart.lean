-- Why a recall keeps the agents of a tenant apart. The traversal and the links go wherever the
-- entities and the links lead. In every run an entity of an agent links only memories of the agent,
-- a shared entity only shared memories, and a link joins private memories.
import Qortia.EmbeddingLaws
import Qortia.ForgetRuns
import Qortia.RecallView

namespace qortia

variable {K : Type}

/-! ## The service -/

/-- The requests with the graph batches and the link steps, and the rows that the embedding worker
has claimed. -/
structure Service (K : Type) where
  requests : Forgetting K
  claimed : List (Claimed K) := []

inductive ServiceAction where
  | memory (a : ForgetAction)
  | ingest_knowledge (agent : AgentIdentity) (now : Timestamp) (choice : Nat → Nat)
      (body : KnowledgeIngestRequest)
  | delete_knowledge (agent : AgentIdentity) (source_path : String)
  | claim (picked : List Claim)
  | embed (i : Nat)
  | write (i : Nat)
  | fail (i : Nat)

section
variable [Field K] [LinearOrder K] [HasSqrt K]

/-- A step of the embedding worker or of a request that it runs next to. -/
def Service.embedding_step (o : Outside K) (cfg : Settings) (s : Service K)
    (a : EmbeddingAction K) : Option (Service K) :=
  (qortia.embedding_step o cfg ⟨s.requests.db, s.claimed⟩ a).map fun e =>
    ⟨{ s.requests with db := e.db }, e.claimed⟩

def service_step (o : Outside K) (cfg : Settings) (s : Service K) :
    ServiceAction → Option (Service K)
  | .memory a => (forget_step o cfg s.requests a).map fun requests => { s with requests }
  | .ingest_knowledge agent now choice body =>
    s.embedding_step o cfg (.ingest_knowledge agent now choice body)
  | .delete_knowledge agent source_path =>
    s.embedding_step o cfg (.delete_knowledge agent source_path)
  | .claim picked => s.embedding_step o cfg (.claim picked)
  | .embed i => s.embedding_step o cfg (.embed i)
  | .write i => s.embedding_step o cfg (.write i)
  | .fail i => s.embedding_step o cfg (.fail i)

end

/-! ## What a step does to the tables -/

/-- The statements next to those of `forget_step`. -/
inductive ServiceWrite (o : Outside K) (db : Db K) : Db K → Prop
  | none : ServiceWrite o db db
  | ingest {agent : AgentIdentity} {now : Timestamp} {choice : Nat → Nat}
      {body : KnowledgeIngestRequest} {result : Db K × IngestResponse}
      (hreq : ingest_knowledge o agent now choice body db = .ok result) :
      ServiceWrite o db result.1
  | delete {agent : AgentIdentity} {source_path : String} {result : Db K × Nat}
      (hreq : delete_knowledge agent source_path db = .ok result) : ServiceWrite o db result.1
  | embedding (tbl : EmbeddedTable) (id : UUID) (v : List K) :
      ServiceWrite o db (write_embedding tbl id v db)
  | attempt (tbl : EmbeddedTable) (id : UUID) : ServiceWrite o db (count_attempt tbl id db)

theorem service_step_cases [Field K] [LinearOrder K] [HasSqrt K] {o : Outside K} {cfg : Settings}
    {s s' : Service K} {a : ServiceAction} (hstep : service_step o cfg s a = some s') :
    (∃ b requests, forget_step o cfg s.requests b = some requests ∧ s' = { s with requests }) ∨
      ∃ db claimed, ServiceWrite o s.requests.db db ∧ s' = ⟨{ s.requests with db }, claimed⟩ := by
  have hcommitted : ∀ {α : Type} {f : α → Db K} {result : Except Failure α},
      (∀ x, result = .ok x → ServiceWrite o s.requests.db (f x)) →
        ServiceWrite o s.requests.db (committed ⟨s.requests.db, s.claimed⟩ f result).db := by
    intro α f result hok
    cases result with
    | ok x => exact hok x rfl
    | error e => exact .none
  have hembedding : ∀ {b : EmbeddingAction K}, s.embedding_step o cfg b = some s' →
      (∀ e, embedding_step o cfg ⟨s.requests.db, s.claimed⟩ b = some e →
        ServiceWrite o s.requests.db e.db) →
        ∃ db claimed, ServiceWrite o s.requests.db db ∧ s' = ⟨{ s.requests with db }, claimed⟩ := by
    intro b hs hwrite
    obtain ⟨e, he, rfl⟩ := Option.map_eq_some_iff.mp hs
    exact ⟨e.db, e.claimed, hwrite e he, rfl⟩
  cases a with
  | memory b =>
    obtain ⟨requests, hforget, rfl⟩ := Option.map_eq_some_iff.mp hstep
    exact Or.inl ⟨b, requests, hforget, rfl⟩
  | ingest_knowledge agent now choice body =>
    refine Or.inr (hembedding hstep fun e he => ?_)
    cases he
    exact hcommitted fun _ hreq => .ingest hreq
  | delete_knowledge agent source_path =>
    refine Or.inr (hembedding hstep fun e he => ?_)
    cases he
    exact hcommitted fun _ hreq => .delete hreq
  | claim picked =>
    refine Or.inr (hembedding hstep fun e he => ?_)
    simp only [embedding_step] at he
    split at he
    · cases he
      exact .none
    · cases he
  | embed i =>
    refine Or.inr (hembedding hstep fun e he => ?_)
    simp only [embedding_step] at he
    split at he
    · split at he
      · cases he
        exact .none
      · cases he
        exact .none
    · cases he
  | write i =>
    refine Or.inr (hembedding hstep fun e he => ?_)
    simp only [embedding_step] at he
    split at he
    · cases he
      exact .embedding _ _ _
    · cases he
  | fail i =>
    refine Or.inr (hembedding hstep fun e he => ?_)
    simp only [embedding_step] at he
    split at he
    · cases he
      exact .attempt _ _
    · cases he

/-! ## What has to hold -/

/-- An entity of an agent links only memories of the agent, and a shared one only shared ones. -/
def LinksOwnMemories (db : Db K) : Prop :=
  ∀ e ∈ db.qortia_entities, ∀ d ∈ db.docs, d.id ∈ e.linked_memory_ids →
    d.scope = (e.tenant_id, e.agent_id)

/-! ## The invariant -/

/-- A memory of the scope has the id. -/
def Db.owns (db : Db K) (i : UUID) (s : Scope) : Prop := ∃ d ∈ db.docs, d.id = i ∧ d.scope = s

/-- A private memory, or a shared one, has the id. -/
def Db.has (db : Db K) (i : UUID) (is_private : Bool) : Prop :=
  ∃ s, db.owns i s ∧ s.2.isSome = is_private

/-- A link starts or ends at the id. -/
def Db.joins (db : Db K) (i : UUID) : Prop :=
  ∃ l ∈ db.memory_links, l.source_id = i ∨ l.target_id = i

/-- The rows that a graph batch still has to link. -/
def Worker.to_graph : Worker K → List GraphRow
  | .private_rows rows | .org_rows rows => rows
  | _ => []

/-- The memories that an embedding operation is about. -/
def Worker.to_join : Worker K → List UUID
  | .claimed memory_id _ _ _ | .embedded memory_id _ _ _ => [memory_id]
  | .linking memory_id _ similar_rows => memory_id :: similar_rows.map (·.1)
  | _ => []

/-- The id stands for a memory of the scope, in a table or in a batch. -/
def filed (db : Db K) (workers : List (Worker K)) (i : UUID) (s : Scope) : Prop :=
  db.owns i s ∨ (∃ t, db.linked s t i) ∨
    ∃ w ∈ workers, ∃ row ∈ w.to_graph, row.id = i ∧ row.scope = s

/-- The id stands for a private memory or for a shared one. -/
def filed_private (db : Db K) (workers : List (Worker K)) (i : UUID) (is_private : Bool) : Prop :=
  db.has i is_private ∨
    (is_private = true ∧ (db.joins i ∨ ∃ w ∈ workers, i ∈ w.to_join))

structure Db.EntitiesKeyed (db : Db K) : Prop where
  nodup : (db.qortia_entities.map (·.id)).Nodup
  lt : ∀ e ∈ db.qortia_entities, e.id < db.next_entity_id

structure GoodService (levels : List ClearanceLevel) (db : Db K) (workers : List (Worker K)) :
    Prop where
  owned : db.Owned
  levels : db.qortia_clearance_levels = levels
  one_scope : references.OneScope (filed db workers) (· < db.next_id)
  one_kind : references.OneScope (filed_private db workers) (· < db.next_id)
  entities : db.EntitiesKeyed

theorem Db.Owned.owns_lt {db : Db K} (h : db.Owned) {i : UUID} {s : Scope} (hi : db.owns i s) :
    i < db.next_id := by
  obtain ⟨d, ⟨r, hr, rfl⟩ | ⟨q, hq, rfl⟩, rfl, -⟩ := hi
  · exact h.keyed.hindsight_lt r hr
  · exact h.keyed.org_lt q hq

theorem Db.Owned.owns_unique {db : Db K} (h : db.Owned) {i : UUID} {s s' : Scope}
    (hi : db.owns i s) (hi' : db.owns i s') : s = s' := by
  obtain ⟨d, hd, hid, rfl⟩ := hi
  obtain ⟨d', hd', hid', rfl⟩ := hi'
  rw [h.keyed.doc_eq hd hd' (hid.trans hid'.symm)]

theorem Db.Owned.has_lt {db : Db K} (h : db.Owned) {i : UUID} {is_private : Bool}
    (hi : db.has i is_private) : i < db.next_id := by
  obtain ⟨s, hi, -⟩ := hi
  exact h.owns_lt hi

theorem Db.Owned.has_unique {db : Db K} (h : db.Owned) {i : UUID} {is_private is_private' : Bool}
    (hi : db.has i is_private) (hi' : db.has i is_private') : is_private = is_private' := by
  obtain ⟨s, hi, rfl⟩ := hi
  obtain ⟨s', hi', rfl⟩ := hi'
  rw [h.owns_unique hi hi']

theorem GoodService.links_own_memories {levels : List ClearanceLevel} {db : Db K}
    {workers : List (Worker K)} (h : GoodService levels db workers) : LinksOwnMemories db := by
  intro e he d hd hlinked
  exact h.one_scope.unique (Or.inl ⟨d, hd, rfl, rfl⟩)
    (Or.inr (Or.inl ⟨e.entity_text, e, he, rfl, rfl, hlinked⟩))

theorem GoodService.apart {levels : List ClearanceLevel} {db : Db K} {workers : List (Worker K)}
    (h : GoodService levels db workers) : db.Apart := by
  refine ⟨fun e₁ he₁ e₂ he₂ i hi₁ hi₂ => ?_, h.entities.nodup, fun l hl q hq hid => ?_⟩
  · exact h.one_scope.unique (Or.inr (Or.inl ⟨_, e₁, he₁, rfl, rfl, hi₁⟩))
      (Or.inr (Or.inl ⟨_, e₂, he₂, rfl, rfl, hi₂⟩))
  · have hshared : filed_private db workers l.source_id false :=
      Or.inl ⟨_, ⟨q.doc, OrgMemory.mem_docs hq, hid, rfl⟩, rfl⟩
    have hprivate : filed_private db workers l.source_id true :=
      Or.inr ⟨rfl, Or.inl ⟨l, hl, Or.inl rfl⟩⟩
    cases h.one_kind.unique hshared hprivate

/-! ## What a step may do -/

/-- A memory after the step was there before or is new, an entity links what it linked or what a
batch has read, and a link joins what it joined or what an embedding operation has read. -/
structure Db.Moves (workers : List (Worker K)) (db db' : Db K) : Prop where
  owned : db'.Owned
  agent_keys : db'.agent_keys = db.agent_keys
  levels : db'.qortia_clearance_levels = db.qortia_clearance_levels
  next_id : db.next_id ≤ db'.next_id
  owns : ∀ {i s}, db'.owns i s → db.owns i s ∨ db.next_id ≤ i
  linked : ∀ {s t i}, db'.linked s t i →
    db.linked s t i ∨ ∃ w ∈ workers, ∃ row ∈ w.to_graph, row.id = i ∧ row.scope = s
  joins : ∀ {i}, db'.joins i → db.joins i ∨ ∃ w ∈ workers, i ∈ w.to_join
  entities : db.EntitiesKeyed → db'.EntitiesKeyed

theorem Db.Moves.refl {db : Db K} (h : db.Owned) (workers : List (Worker K)) :
    db.Moves workers db :=
  ⟨h, rfl, rfl, le_refl _, Or.inl, Or.inl, Or.inl, fun he => he⟩

theorem Db.Moves.trans {workers : List (Worker K)} {db db' db'' : Db K} (h : db.Moves workers db')
    (h' : db'.Moves workers db'') : db.Moves workers db'' := by
  refine ⟨h'.owned, h'.agent_keys.trans h.agent_keys, h'.levels.trans h.levels,
    h.next_id.trans h'.next_id, fun hi => ?_, fun hi => ?_, fun hi => ?_,
    fun he => h'.entities (h.entities he)⟩
  · rcases h'.owns hi with hi | hi
    · exact h.owns hi
    · exact Or.inr (h.next_id.trans hi)
  · rcases h'.linked hi with hi | hi
    · exact h.linked hi
    · exact Or.inr hi
  · rcases h'.joins hi with hi | hi
    · exact h.joins hi
    · exact Or.inr hi

theorem owns_of_sublist {db db' : Db K}
    (hprivate : (db'.hindsight_memories.map (·.keys)).Sublist (db.hindsight_memories.map (·.keys)))
    (horg : (db'.org_memory.map (·.keys)).Sublist (db.org_memory.map (·.keys))) {i : UUID}
    {s : Scope} (h : db'.owns i s) : db.owns i s := by
  obtain ⟨d, ⟨r, hr, rfl⟩ | ⟨q, hq, rfl⟩, rfl, rfl⟩ := h
  · obtain ⟨r₀, hr₀, hkeys⟩ := List.mem_map.mp (hprivate.subset (List.mem_map_of_mem hr))
    unfold HindsightMemory.keys at hkeys
    simp only [Prod.mk.injEq] at hkeys
    refine ⟨r₀.doc, HindsightMemory.mem_docs hr₀, hkeys.1, ?_⟩
    unfold HindsightMemory.doc
    rw [hkeys.2.1, hkeys.2.2]
  · obtain ⟨q₀, hq₀, hkeys⟩ := List.mem_map.mp (horg.subset (List.mem_map_of_mem hq))
    unfold OrgMemory.keys at hkeys
    rw [Prod.mk.injEq] at hkeys
    refine ⟨q₀.doc, OrgMemory.mem_docs hq₀, hkeys.1, ?_⟩
    unfold OrgMemory.doc
    rw [hkeys.2]

theorem Db.EntitiesKeyed.of_sublist {db db' : Db K} (h : db.EntitiesKeyed)
    (hle : db.next_entity_id ≤ db'.next_entity_id)
    (hids : (db'.qortia_entities.map (·.id)).Sublist (db.qortia_entities.map (·.id))) :
    db'.EntitiesKeyed := by
  refine ⟨hids.nodup h.nodup, fun e he => ?_⟩
  obtain ⟨e₀, he₀, hid⟩ := List.mem_map.mp (hids.subset (List.mem_map_of_mem he))
  rw [← hid]
  exact lt_of_lt_of_le (h.lt e₀ he₀) hle

/-- Memories go or change in other columns. -/
theorem Db.Owned.moves_of_sublist {db db' : Db K} (h : db.Owned) {workers : List (Worker K)}
    (hagents : db'.agent_keys = db.agent_keys)
    (hlevels : db'.qortia_clearance_levels = db.qortia_clearance_levels)
    (hnext : db.next_id ≤ db'.next_id)
    (hprivate : (db'.hindsight_memories.map (·.keys)).Sublist (db.hindsight_memories.map (·.keys)))
    (horg : (db'.org_memory.map (·.keys)).Sublist (db.org_memory.map (·.keys)))
    (hentities : db'.qortia_entities = db.qortia_entities)
    (hnext_entity : db'.next_entity_id = db.next_entity_id)
    (hlinks : db'.memory_links = db.memory_links) : db.Moves workers db' := by
  refine ⟨h.of_sublist hnext hagents hprivate horg, hagents, hlevels, hnext,
    fun hi => Or.inl (owns_of_sublist hprivate horg hi), fun hi => Or.inl ?_,
    fun hi => Or.inl ?_, fun he => ?_⟩
  · unfold Db.linked at hi ⊢
    rwa [hentities] at hi
  · unfold Db.joins at hi ⊢
    rwa [hlinks] at hi
  · apply he.of_sublist
    · exact le_of_eq hnext_entity.symm
    · rw [hentities]

theorem Db.Owned.moves_update_private {db : Db K} (h : db.Owned) {p : HindsightMemory K → Bool}
    {f : HindsightMemory K → HindsightMemory K} (hkeys : ∀ r, (f r).keys = r.keys)
    (workers : List (Worker K)) :
    db.Moves workers { db with hindsight_memories := rows.update p f db.hindsight_memories } :=
  h.moves_of_sublist rfl rfl (le_refl _) (rows.sublist_update hkeys _ _) (List.Sublist.refl _) rfl
    rfl rfl

theorem Db.Owned.moves_update_org {db : Db K} (h : db.Owned) {p : OrgMemory K → Bool}
    {f : OrgMemory K → OrgMemory K} (hkeys : ∀ q, (f q).keys = q.keys)
    (workers : List (Worker K)) :
    db.Moves workers { db with org_memory := rows.update p f db.org_memory } :=
  h.moves_of_sublist rfl rfl (le_refl _) (List.Sublist.refl _) (rows.sublist_update hkeys _ _) rfl
    rfl rfl

theorem Db.Owned.moves_insert_memory {db : Db K} (h : db.Owned) {r : HindsightMemory K}
    (hid : r.id = db.next_id) (howner : (r.agent_id, r.tenant_id) ∈ db.agent_keys)
    (history : List MemoryHistory) (workers : List (Worker K)) :
    db.Moves workers (qortia.insert_memory r history db) := by
  refine ⟨h.insert_memory hid howner history, rfl, rfl, Nat.le_succ _, fun hi => ?_, Or.inl,
    Or.inl, fun he => ⟨he.nodup, he.lt⟩⟩
  obtain ⟨d, ⟨x, hx, rfl⟩ | hd, rfl, rfl⟩ := hi
  · rcases List.mem_append.mp hx with hx | hx
    · exact Or.inl ⟨x.doc, HindsightMemory.mem_docs hx, rfl, rfl⟩
    · rw [List.mem_singleton.mp hx]
      exact Or.inr (le_of_eq hid.symm)
  · exact Or.inl ⟨d, Or.inr hd, rfl, rfl⟩

/-! ## The requests -/

theorem remember_moves {db db' : Db K} (h : db.Owned) {o : Outside K} {agent : AgentIdentity}
    {now : Timestamp} {choice : Nat} {memories : List MemoryItem} {ids : List UUID}
    (hreq : remember o agent now choice memories db = .ok (db', ids))
    (workers : List (Worker K)) : db.Moves workers db' := by
  have howner := assert_agent_active_key (remember_active hreq)
  refine remember_preserves hreq (fun db₁ mem expires_at hdb₁ => ?_)
    (fun db₁ n hdb₁ => ?_) (.refl h workers)
  · rw [← hdb₁.agent_keys] at howner
    exact hdb₁.trans (hdb₁.owned.moves_insert_memory rfl howner _ workers)
  · exact hdb₁.trans (hdb₁.owned.moves_of_sublist (agent_keys_update (by intro a; rfl)) rfl
      (le_refl _) (List.Sublist.refl _) (List.Sublist.refl _) rfl rfl rfl)

theorem remember_org_moves {db db' : Db K} (h : db.Owned) {o : Outside K}
    {agent : AgentIdentity} {now : Timestamp} {body : RememberOrgRequest} {row_id : UUID}
    (hreq : remember_org o agent now body db = .ok (db', row_id)) (workers : List (Worker K)) :
    db.Moves workers db' := by
  have hkept := remember_org_keeps h hreq
  obtain ⟨-, history, rfl⟩ := remember_org_ok hreq
  refine ⟨hkept.owned, rfl, rfl, hkept.next_id, fun hi => ?_, Or.inl, Or.inl,
    fun he => ⟨he.nodup, he.lt⟩⟩
  obtain ⟨d, hd | ⟨q, hq, rfl⟩, rfl, rfl⟩ := hi
  · exact Or.inl ⟨d, Or.inl hd, rfl, rfl⟩
  · rcases rows.mem_upsert hq with ⟨q₀, hq₀, -, rfl⟩ | hq | rfl
    · exact Or.inl ⟨q₀.doc, OrgMemory.mem_docs hq₀, rfl, rfl⟩
    · exact Or.inl ⟨q.doc, OrgMemory.mem_docs hq, rfl, rfl⟩
    · exact Or.inr (le_refl _)

theorem statement_moves {w : Writer} (st : WriteStatement K) {db : Db K} {ids : List UUID}
    (h : db.Owned) (howner : (w.agent_id, w.tenant_id) ∈ db.agent_keys)
    (workers : List (Worker K)) : db.Moves workers (st.exec w (db, ids)).1 := by
  cases st with
  | prune ids' => exact h.moves_update_private (by intro r; rfl) workers
  | supersede id => exact h.moves_update_private (by intro r; rfl) workers
  | insert => exact h.moves_insert_memory rfl howner db.memory_history workers

theorem reflect_moves [Field K] [LinearOrder K] [HasSqrt K] {db db' : Db K} (h : db.Owned)
    {o : Outside K} {cfg : Settings} {agent : AgentIdentity} {now : Timestamp}
    {answer : Except Failure (List Reflection)} {failed : List Nat} {n : Nat}
    {counter : Option Int}
    (hreq : reflect o cfg agent now answer failed db = .ok (db', n, counter))
    (workers : List (Worker K)) : db.Moves workers db' := by
  have howner := assert_agent_active_key (reflect_active hreq)
  refine reflect_preserves hreq (fun db₁ ids st hdb₁ => ?_) (fun db₁ hdb₁ => ?_)
    (fun db₁ history hdb₁ => ?_) (.refl h workers)
  · rw [← hdb₁.agent_keys] at howner
    exact hdb₁.trans (statement_moves st hdb₁.owned howner workers)
  · exact hdb₁.trans (hdb₁.owned.moves_of_sublist (agent_keys_update (by intro a; rfl)) rfl
      (le_refl _) (List.Sublist.refl _) (List.Sublist.refl _) rfl rfl rfl)
  · exact hdb₁.trans (hdb₁.owned.moves_of_sublist rfl rfl (le_refl _) (List.Sublist.refl _)
      (List.Sublist.refl _) rfl rfl rfl)

theorem purge_moves {db : Db K} (h : db.Owned) (now : Timestamp) (workers : List (Worker K)) :
    db.Moves workers (purge_expired_short_term_memories now db) :=
  h.moves_of_sublist rfl rfl (le_refl _) (List.filter_sublist.map _) (List.Sublist.refl _) rfl rfl
    rfl

theorem delete_memory_moves {db : Db K} (h : db.Owned) (table : TargetTable) (id : UUID)
    (workers : List (Worker K)) : db.Moves workers (delete_memory table id db) := by
  cases table with
  | hindsight_memories =>
    exact h.moves_of_sublist rfl rfl (le_refl _) (List.filter_sublist.map _)
      (List.Sublist.refl _) rfl rfl rfl
  | org_memory =>
    exact h.moves_of_sublist rfl rfl (le_refl _) (List.Sublist.refl _)
      (List.filter_sublist.map _) rfl rfl rfl
  | org_knowledge => exact .refl h workers

/-- The entities and links lose a memory. -/
theorem unlink_memory_moves {db : Db K} (h : db.Owned) (tenant_id id : UUID) (now : Timestamp)
    (workers : List (Worker K)) : db.Moves workers (unlink_memory tenant_id id now db) := by
  refine ⟨h.of_sublist (le_refl _) rfl (List.Sublist.refl _) (List.Sublist.refl _), rfl, rfl,
    le_refl _, Or.inl, fun hi => Or.inl ?_, fun hi => Or.inl ?_, fun he => ?_⟩
  · obtain ⟨x, hx, hscope, htext, hi⟩ := hi
    obtain ⟨e, he, ⟨-, rfl⟩ | ⟨-, rfl⟩⟩ := rows.mem_update.mp hx
    · exact ⟨e, he, hscope, htext, List.mem_of_mem_filter hi⟩
    · exact ⟨x, he, hscope, htext, hi⟩
  · obtain ⟨l, hl, hends⟩ := hi
    exact ⟨l, (rows.mem_delete.mp hl).1, hends⟩
  · apply he.of_sublist
    · exact le_refl _
    · exact rows.sublist_update (g := fun e : Entity K => e.id) (by intro e; rfl) _ _

theorem forget_moves {db db' : Db K} (h : db.Owned) {o : Outside K} {agent : AgentIdentity}
    {now : Timestamp} {id : UUID} (hreq : forget o agent now id db = .ok db')
    (workers : List (Worker K)) : db.Moves workers db' := by
  obtain ⟨-, table, content, -, rfl⟩ := forget_eq hreq
  have hdelete := delete_memory_moves h table id workers
  have hunlink := unlink_memory_moves hdelete.owned agent.tenant_id id now workers
  exact (hdelete.trans hunlink).trans (hunlink.owned.moves_of_sublist rfl rfl (le_refl _)
    (List.Sublist.refl _) (List.Sublist.refl _) rfl rfl rfl)

theorem insert_sections_moves (o : Outside K) (agent : AgentIdentity) (now : Timestamp)
    (choice : Nat → Nat) (body : KnowledgeIngestRequest) (idx : Nat) (sections : List Section)
    (acc : Db K × Nat × Nat) (h : acc.1.Owned) (workers : List (Worker K)) :
    acc.1.Moves workers (insert_sections o agent now choice body idx sections acc).1 := by
  induction sections generalizing idx acc with
  | nil => exact .refl h workers
  | cons s rest ih =>
    obtain ⟨db, created, deduped⟩ := acc
    have hinsert : ∀ knowledge : List (OrgKnowledge K), db.Moves workers
        { db with org_knowledge := knowledge, next_id := db.next_id + 1 } := fun knowledge =>
      h.moves_of_sublist rfl rfl (Nat.le_succ _) (List.Sublist.refl _) (List.Sublist.refl _) rfl
        rfl rfl
    have hloop : ∀ acc : Db K × Nat × Nat, db.Moves workers acc.1 →
        db.Moves workers (insert_sections o agent now choice body (idx + 1) rest acc).1 :=
      fun acc hacc => hacc.trans (ih (idx + 1) acc hacc.owned)
    unfold insert_sections
    apply hloop
    split
    · exact hinsert _
    · exact hinsert _

theorem ingest_moves {db db' : Db K} (h : db.Owned) {o : Outside K} {agent : AgentIdentity}
    {now : Timestamp} {choice : Nat → Nat} {body : KnowledgeIngestRequest} {resp : IngestResponse}
    (hreq : ingest_knowledge o agent now choice body db = .ok (db', resp))
    (workers : List (Worker K)) : db.Moves workers db' := by
  obtain ⟨-, ⟨-, rfl⟩ | ⟨-, -, db₂, hdb₂, rfl⟩⟩ := ingest_cases hreq
  · exact .refl h workers
  · have hdelete : db.Moves workers (delete_document agent.tenant_id body.source_path db) :=
      h.moves_of_sublist rfl rfl (le_refl _) (List.Sublist.refl _) (List.Sublist.refl _) rfl rfl rfl
    have hinsert := insert_sections_moves o agent now choice body 0
      (split_into_sections body.content)
      (delete_document agent.tenant_id body.source_path db, 0, 0) hdelete.owned workers
    rw [← hdb₂] at hinsert
    exact (hdelete.trans hinsert).trans (hinsert.owned.moves_of_sublist rfl rfl (le_refl _)
      (List.Sublist.refl _) (List.Sublist.refl _) rfl rfl rfl)

theorem delete_knowledge_moves {db db' : Db K} (h : db.Owned) {agent : AgentIdentity}
    {source_path : String} {n : Nat} (hreq : delete_knowledge agent source_path db = .ok (db', n))
    (workers : List (Worker K)) : db.Moves workers db' := by
  obtain ⟨-, rfl⟩ := delete_knowledge_ok hreq
  exact h.moves_of_sublist rfl rfl (le_refl _) (List.Sublist.refl _) (List.Sublist.refl _) rfl rfl
    rfl

/-! ## The statements of the workers -/

/-- The entities change in other columns. -/
theorem Db.Owned.moves_update_entities {db : Db K} (h : db.Owned) {p : Entity K → Bool}
    {f : Entity K → Entity K} (hid : ∀ e, (f e).id = e.id)
    (hscope : ∀ e, ((f e).tenant_id, (f e).agent_id) = (e.tenant_id, e.agent_id))
    (htext : ∀ e, (f e).entity_text = e.entity_text)
    (hlinked : ∀ e, (f e).linked_memory_ids = e.linked_memory_ids) (workers : List (Worker K)) :
    db.Moves workers { db with qortia_entities := rows.update p f db.qortia_entities } := by
  refine ⟨h.of_sublist (le_refl _) rfl (List.Sublist.refl _) (List.Sublist.refl _), rfl, rfl,
    le_refl _, Or.inl, fun hi => Or.inl ?_, Or.inl, fun he => ?_⟩
  · obtain ⟨x, hx, hs, ht, hi⟩ := hi
    obtain ⟨e, he, ⟨-, rfl⟩ | ⟨-, rfl⟩⟩ := rows.mem_update.mp hx
    · rw [hscope] at hs
      rw [htext] at ht
      rw [hlinked] at hi
      exact ⟨e, he, hs, ht, hi⟩
    · exact ⟨x, he, hs, ht, hi⟩
  · apply he.of_sublist
    · exact le_refl _
    · exact rows.sublist_update hid _ _

theorem write_embedding_moves {db : Db K} (h : db.Owned) (tbl : EmbeddedTable) (id : UUID)
    (v : List K) (workers : List (Worker K)) : db.Moves workers (write_embedding tbl id v db) := by
  cases tbl with
  | hindsight_memories => exact h.moves_update_private (by intro r; rfl) workers
  | org_memory => exact h.moves_update_org (by intro q; rfl) workers
  | org_knowledge =>
    exact h.moves_of_sublist rfl rfl (le_refl _) (List.Sublist.refl _) (List.Sublist.refl _) rfl
      rfl rfl
  | qortia_entities =>
    exact h.moves_update_entities (by intro e; rfl) (by intro e; rfl) (by intro e; rfl)
      (by intro e; rfl) workers

theorem count_attempt_moves {db : Db K} (h : db.Owned) (tbl : EmbeddedTable) (id : UUID)
    (workers : List (Worker K)) : db.Moves workers (count_attempt tbl id db) := by
  cases tbl with
  | hindsight_memories => exact h.moves_update_private (by intro r; rfl) workers
  | org_memory => exact h.moves_update_org (by intro q; rfl) workers
  | org_knowledge =>
    exact h.moves_of_sublist rfl rfl (le_refl _) (List.Sublist.refl _) (List.Sublist.refl _) rfl
      rfl rfl
  | qortia_entities =>
    exact h.moves_update_entities (by intro e; rfl) (by intro e; rfl) (by intro e; rfl)
      (by intro e; rfl) workers

/-- The transaction of a row links its memory from entities of its scope. -/
theorem graph_transaction_moves {db : Db K} (h : db.Owned) (o : Outside K) (cfg : Settings)
    (now : Timestamp) {row : GraphRow} {w : Worker K} {workers : List (Worker K)}
    (hw : w ∈ workers) (hrow : row ∈ w.to_graph) :
    db.Moves workers (graph_transaction o cfg now db row) := by
  obtain ⟨hagents, hnext, hlinks, hlinked⟩ := transaction_frame o cfg now db row
  obtain ⟨hprivate, horg⟩ := transaction_keys o cfg now db row
  refine ⟨transaction_owned h o cfg now row, hagents, ?_, le_of_eq hnext.symm,
    fun hi => Or.inl (owns_of_sublist hprivate horg hi), fun {s t i} hi => ?_,
    fun hi => Or.inl ?_, fun he => ?_⟩
  · have hframe := congrArg Db.qortia_clearance_levels
      (graph_entities_frame o cfg now row row.entities db)
    unfold graph_transaction set_graphed
    split <;> exact hframe
  · rw [hlinked, graph_entities_linked] at hi
    rcases hi with hi | ⟨rfl, rfl, -⟩
    · exact Or.inl hi
    · exact Or.inr ⟨w, hw, row, hrow, rfl, rfl⟩
  · unfold Db.joins at hi ⊢
    rwa [hlinks] at hi
  · have hgrow := graph_transactions_grow o cfg now [row] db .qortia_entities
    have hids : ((db.entries .qortia_entities).map (·.key)).Nodup := by
      unfold Db.entries
      rw [List.map_map]
      exact he.nodup
    have hbelow : ∀ x ∈ db.entries .qortia_entities, x.key < db.next .qortia_entities := by
      intro x hx
      obtain ⟨e, hmem, rfl⟩ := List.mem_map.mp hx
      exact he.lt e hmem
    obtain ⟨hnodup, hlt⟩ := hgrow.keys hids hbelow
    unfold Db.entries at hnodup
    rw [List.map_map] at hnodup
    exact ⟨hnodup, fun e hmem => hlt e.entry (List.mem_map_of_mem hmem)⟩

/-- The INSERT of a link joins the memories that the operation is about. -/
theorem upsert_memory_link_moves {db : Db K} (h : db.Owned) (memory_id tenant_id : UUID)
    (similar : UUID × K) {w : Worker K} {workers : List (Worker K)} (hw : w ∈ workers)
    (hmemory : memory_id ∈ w.to_join) (hsimilar : similar.1 ∈ w.to_join) :
    db.Moves workers (upsert_memory_link memory_id tenant_id similar db) := by
  refine ⟨h.of_sublist (le_refl _) rfl (List.Sublist.refl _) (List.Sublist.refl _), rfl, rfl,
    le_refl _, Or.inl, Or.inl, fun hi => ?_, fun he => ⟨he.nodup, he.lt⟩⟩
  obtain ⟨l, hl, hends⟩ := hi
  rcases mem_insert_link hl with hl | rfl
  · rcases mem_insert_link hl with hl | rfl
    · exact Or.inl ⟨l, hl, hends⟩
    · rcases hends with rfl | rfl
      · exact Or.inr ⟨w, hw, hmemory⟩
      · exact Or.inr ⟨w, hw, hsimilar⟩
  · rcases hends with rfl | rfl
    · exact Or.inr ⟨w, hw, hsimilar⟩
    · exact Or.inr ⟨w, hw, hmemory⟩

/-! ## What an operation reads -/

/-- What the operation has read was read before or is there. -/
structure Worker.Reads (w : Worker K) (db : Db K) (workers : List (Worker K)) : Prop where
  to_graph : ∀ row ∈ w.to_graph, (∃ v ∈ workers, row ∈ v.to_graph) ∨ db.owns row.id row.scope
  to_join : ∀ i ∈ w.to_join, (∃ v ∈ workers, i ∈ v.to_join) ∨ db.has i true

theorem Worker.reads_of_mem {w : Worker K} {workers : List (Worker K)} (h : w ∈ workers)
    (db : Db K) : w.Reads db workers :=
  ⟨fun _ hrow => Or.inl ⟨w, h, hrow⟩, fun _ hi => Or.inl ⟨w, h, hi⟩⟩

theorem finished_reads (db : Db K) (workers : List (Worker K)) :
    (Worker.finished : Worker K).Reads db workers :=
  ⟨fun _ hrow => absurd hrow List.not_mem_nil, fun _ hi => absurd hi List.not_mem_nil⟩

theorem pick_private_owned {db : Db K} {ids : List UUID} {row : GraphRow}
    (h : row ∈ pick_rows ids (ungraphed_private db)) : db.owns row.id row.scope := by
  obtain ⟨r, hr, rfl⟩ := List.mem_map.mp (mem_pick_rows h)
  exact ⟨r.doc, HindsightMemory.mem_docs (List.mem_filter.mp hr).1, rfl, rfl⟩

theorem pick_org_owned {db : Db K} {ids : List UUID} {row : GraphRow}
    (h : row ∈ pick_rows ids (ungraphed_org db)) : db.owns row.id row.scope := by
  obtain ⟨q, hq, rfl⟩ := List.mem_map.mp (mem_pick_rows h)
  exact ⟨q.doc, OrgMemory.mem_docs (List.mem_filter.mp hq).1, rfl, rfl⟩

theorem worker_step_moves [Field K] [LinearOrder K] {o : Outside K} {cfg : Settings}
    {now : Timestamp} {ids : List UUID} {db db' : Db K} {w w' : Worker K}
    {workers : List (Worker K)} (h : db.Owned) (hw : w ∈ workers)
    (hstep : worker_step o cfg now ids db w = some (db', w')) :
    db.Moves workers db' ∧ w'.Reads db workers := by
  have hself := Worker.reads_of_mem hw db
  cases w with
  | private_rows rows =>
    cases rows with
    | nil =>
      cases hstep
      refine ⟨.refl h workers, fun row hrow => Or.inr (pick_org_owned hrow), fun _ hi => ?_⟩
      cases hi
    | cons row rows =>
      cases hstep
      refine ⟨graph_transaction_moves h o cfg now hw List.mem_cons_self, fun x hx => ?_,
        fun _ hi => absurd hi List.not_mem_nil⟩
      exact hself.to_graph x (List.mem_cons_of_mem row hx)
  | org_rows rows =>
    cases rows with
    | nil =>
      cases hstep
      exact ⟨.refl h workers, finished_reads db workers⟩
    | cons row rows =>
      cases hstep
      refine ⟨graph_transaction_moves h o cfg now hw List.mem_cons_self, fun x hx => ?_,
        fun _ hi => absurd hi List.not_mem_nil⟩
      exact hself.to_graph x (List.mem_cons_of_mem row hx)
  | claimed memory_id tenant_id agent_id text_to_embed =>
    simp only [worker_step] at hstep
    split at hstep
    · cases hstep
      exact ⟨.refl h workers, finished_reads db workers⟩
    · cases hstep
      exact ⟨write_embedding_moves h _ _ _ workers, fun _ hrow => absurd hrow List.not_mem_nil,
        hself.to_join⟩
  | embedded memory_id tenant_id agent_id embedding =>
    cases hstep
    refine ⟨.refl h workers, fun _ hrow => absurd hrow List.not_mem_nil, fun i hi => ?_⟩
    rcases List.mem_cons.mp hi with rfl | hi
    · exact hself.to_join i List.mem_cons_self
    · obtain ⟨similar, hsimilar, rfl⟩ := List.mem_map.mp hi
      obtain ⟨r, hr, hid, -⟩ := find_similar_memories_mem hsimilar
      exact Or.inr ⟨_, ⟨r.doc, HindsightMemory.mem_docs hr, hid, rfl⟩, rfl⟩
  | linking memory_id tenant_id similar_rows =>
    cases similar_rows with
    | nil =>
      cases hstep
      exact ⟨.refl h workers, finished_reads db workers⟩
    | cons similar similar_rows =>
      cases hstep
      refine ⟨upsert_memory_link_moves h memory_id tenant_id similar hw List.mem_cons_self ?_,
        fun _ hrow => absurd hrow List.not_mem_nil, fun i hi => ?_⟩
      · exact List.mem_cons_of_mem _ List.mem_cons_self
      · rcases List.mem_cons.mp hi with rfl | hi
        · exact hself.to_join i List.mem_cons_self
        · exact hself.to_join i (List.mem_cons_of_mem _ (List.mem_cons_of_mem _ hi))
  | finished => cases hstep

theorem worker_stop_moves {db : Db K} (h : db.Owned) (w : Worker K) (workers : List (Worker K)) :
    db.Moves workers (worker_stop db w) := by
  cases w with
  | claimed memory_id => exact count_attempt_moves h .hindsight_memories memory_id workers
  | private_rows | org_rows | embedded | linking | finished => exact .refl h workers

/-! ## One step -/

theorem GoodService.step {levels : List ClearanceLevel} {db db' : Db K}
    {workers workers' : List (Worker K)} (h : GoodService levels db workers)
    (hm : db.Moves workers db') (hreads : ∀ w ∈ workers', w.Reads db workers) :
    GoodService levels db' workers' := by
  refine ⟨hm.owned, hm.levels.trans h.levels, ?_, ?_, hm.entities h.entities⟩
  -- What an entity, a link or an operation names was named before or is of a memory that was there.
  · refine h.one_scope.step (fun {i s} hi => ?_) hm.owned.owns_lt hm.owned.owns_unique
      (fun hi => lt_of_lt_of_le hi hm.next_id)
    rcases hi with hi | ⟨t, hi⟩ | ⟨w, hw, row, hrow, rfl, rfl⟩
    · rcases hm.owns hi with hold | hnew
      · exact Or.inl (Or.inl hold)
      · exact Or.inr ⟨hi, Nat.not_lt.mpr hnew⟩
    · rcases hm.linked hi with hold | hread
      · exact Or.inl (Or.inr (Or.inl ⟨t, hold⟩))
      · exact Or.inl (Or.inr (Or.inr hread))
    · rcases (hreads w hw).to_graph row hrow with ⟨v, hv, hrow⟩ | hread
      · exact Or.inl (Or.inr (Or.inr ⟨v, hv, row, hrow, rfl, rfl⟩))
      · exact Or.inl (Or.inl hread)
  · refine h.one_kind.step (fun {i b} hi => ?_) hm.owned.has_lt hm.owned.has_unique
      (fun hi => lt_of_lt_of_le hi hm.next_id)
    rcases hi with ⟨s, hi, hb⟩ | ⟨hb, hi | ⟨w, hw, hi⟩⟩
    · rcases hm.owns hi with hold | hnew
      · exact Or.inl (Or.inl ⟨s, hold, hb⟩)
      · exact Or.inr ⟨⟨s, hi, hb⟩, Nat.not_lt.mpr hnew⟩
    · rcases hm.joins hi with hold | hread
      · exact Or.inl (Or.inr ⟨hb, Or.inl hold⟩)
      · exact Or.inl (Or.inr ⟨hb, Or.inr hread⟩)
    · rcases (hreads w hw).to_join i hi with hread | hread
      · exact Or.inl (Or.inr ⟨hb, Or.inr hread⟩)
      · rw [hb]
        exact Or.inl (Or.inl hread)

theorem GoodService.move {levels : List ClearanceLevel} {db db' : Db K}
    {workers : List (Worker K)} (h : GoodService levels db workers)
    (hm : db.Moves workers db') : GoodService levels db' workers :=
  h.step hm fun _ hw => Worker.reads_of_mem hw db

/-- An operation starts with what it reads. -/
theorem GoodService.start {levels : List ClearanceLevel} {db : Db K} {workers : List (Worker K)}
    (h : GoodService levels db workers) {w : Worker K} (hw : w.Reads db workers) :
    GoodService levels db (workers ++ [w]) := by
  refine h.step (.refl h.owned workers) fun x hx => ?_
  rcases List.mem_append.mp hx with hx | hx
  · exact Worker.reads_of_mem hx db
  · rw [List.mem_singleton.mp hx]
    exact hw

theorem GoodService.advance {levels : List ClearanceLevel} {db db' : Db K}
    {workers : List (Worker K)} (h : GoodService levels db workers) (i : Nat) {w : Worker K}
    (hm : db.Moves workers db') (hw : w.Reads db workers) :
    GoodService levels db' (workers.set i w) := by
  refine h.step hm fun x hx => ?_
  rcases List.mem_or_eq_of_mem_set hx with hx | rfl
  · exact Worker.reads_of_mem hx db
  · exact hw

theorem forget_step_apart [Field K] [LinearOrder K] [HasSqrt K] {o : Outside K} {cfg : Settings}
    {levels : List ClearanceLevel} {s s' : Forgetting K} {a : ForgetAction}
    (h : GoodService levels s.db s.workers) (hstep : forget_step o cfg s a = some s') :
    GoodService levels s'.db s'.workers := by
  have hrequest : ∀ {α : Type} {f : α → Db K} {result : Except Failure α},
      (∀ x, result = .ok x → s.db.Moves s.workers (f x)) → s.request f result = some s' →
        GoodService levels s'.db s'.workers := by
    intro α f result hmoves
    exact request_keeps (P := fun s => GoodService levels s.db s.workers) h
      fun x hx => h.move (hmoves x hx)
  cases a with
  | remember agent now choice memories =>
    exact hrequest (fun x hx => remember_moves h.owned hx _) hstep
  | remember_org agent now body =>
    exact hrequest (fun x hx => remember_org_moves h.owned hx _) hstep
  | reflect agent now answer failed =>
    exact hrequest (fun x hx => reflect_moves h.owned hx _) hstep
  | purge_expired now =>
    cases hstep
    exact h.move (purge_moves h.owned now _)
  | forget agent now id =>
    rcases forget_answered hstep with rfl | ⟨db', hreq, rfl⟩
    · exact h
    · exact h.move (forget_moves h.owned hreq _)
  | start_graph_batch ids =>
    cases hstep
    exact h.start ⟨fun row hrow => Or.inr (pick_private_owned hrow),
      fun _ hi => absurd hi List.not_mem_nil⟩
  | start_embedding claim =>
    obtain ⟨r, hr, hid, -, rfl⟩ := embedding_started hstep
    refine h.start ⟨fun _ hrow => absurd hrow List.not_mem_nil, fun i hi => Or.inr ?_⟩
    rw [List.mem_singleton.mp hi]
    exact ⟨_, ⟨r.doc, HindsightMemory.mem_docs hr, hid, rfl⟩, rfl⟩
  | advance i now ids =>
    obtain ⟨w, db', w', hw, hws, rfl⟩ := worker_advanced hstep
    obtain ⟨hm, hreads⟩ := worker_step_moves h.owned (List.mem_of_getElem? hw) hws
    exact h.advance i hm hreads
  | stop i =>
    obtain ⟨w, -, rfl⟩ := Option.map_eq_some_iff.mp hstep
    exact h.advance i (worker_stop_moves h.owned w _) (finished_reads _ _)

theorem service_step_good [Field K] [LinearOrder K] [HasSqrt K] {o : Outside K} {cfg : Settings}
    {levels : List ClearanceLevel} {s s' : Service K} {a : ServiceAction}
    (h : GoodService levels s.requests.db s.requests.workers)
    (hstep : service_step o cfg s a = some s') :
    GoodService levels s'.requests.db s'.requests.workers := by
  rcases service_step_cases hstep with ⟨b, requests, hforget, rfl⟩ | ⟨db', claimed, hwrite, rfl⟩
  · exact forget_step_apart h hforget
  · refine h.move ?_
    cases hwrite with
    | none => exact .refl h.owned _
    | ingest hreq => exact ingest_moves h.owned hreq _
    | delete hreq => exact delete_knowledge_moves h.owned hreq _
    | embedding tbl id v => exact write_embedding_moves h.owned _ _ _ _
    | attempt tbl id => exact count_attempt_moves h.owned _ _ _

/-! ## Every run -/

theorem Db.Blank.good_service {db : Db K} (h : db.Blank)
    (hagents : (db.qortia_agents.map (·.id)).Nodup) :
    GoodService db.qortia_clearance_levels db [] := by
  have hfiled : ∀ {i s}, ¬ filed db [] i s := by
    intro i s
    simp [filed, Db.owns, Db.docs, Db.linked, h.hindsight_memories, h.org_memory,
      h.qortia_entities]
  have hkinds : ∀ {i b}, ¬ filed_private db [] i b := by
    intro i b
    simp [filed_private, Db.has, Db.owns, Db.docs, Db.joins, h.hindsight_memories, h.org_memory,
      h.memory_links]
  refine ⟨h.owned hagents, rfl, ⟨fun hi => absurd hi hfiled, fun hi => absurd hi hfiled⟩,
    ⟨fun hi => absurd hi hkinds, fun hi => absurd hi hkinds⟩, ?_, ?_⟩
  · rw [h.qortia_entities]
    exact List.nodup_nil
  · rw [h.qortia_entities]
    exact fun e he => absurd he List.not_mem_nil

theorem good_service_of_run [Field K] [LinearOrder K] [HasSqrt K] {o : Outside K} {cfg : Settings}
    {db : Db K} (hblank : db.Blank) (hagents : (db.qortia_agents.map (·.id)).Nodup)
    {actions : List ServiceAction} {s : Service K}
    (hrun : runs.run (service_step o cfg) ⟨{ db }, []⟩ actions = some s) :
    GoodService db.qortia_clearance_levels s.requests.db s.requests.workers := by
  have hok : runs.Guarded (service_step o cfg) (fun _ _ => True) ⟨{ db }, []⟩ actions :=
    runs.guarded_of_forall _ (fun _ _ => trivial) _ _
  have halways : runs.Always (service_step o cfg)
      (fun s => GoodService db.qortia_clearance_levels s.requests.db s.requests.workers)
      ⟨{ db }, []⟩ actions :=
    runs.always_of_invariant (fun _ h => h)
      (fun _ _ _ h _ hstep => service_step_good h hstep) (hblank.good_service hagents) hok
  exact halways.last hrun

/-- Two runs that start without memories end in states that agree on the agent's own memories,
entities and links and on the shared ones. Then the recalls of the agent agree, whatever the others
of its tenant have stored, because each entity links only memories of its scope. -/
theorem recall_keeps_agents_apart [Field K] [LinearOrder K] [HasSqrt K] (o₁ o₂ o : Outside K)
    (cfg₁ cfg₂ cfg : Settings) (db₁ db₂ : Db K) (hblank₁ : db₁.Blank) (hblank₂ : db₂.Blank)
    (hagents₁ : (db₁.qortia_agents.map (·.id)).Nodup)
    (hagents₂ : (db₂.qortia_agents.map (·.id)).Nodup)
    (hlevels : db₁.qortia_clearance_levels = db₂.qortia_clearance_levels)
    (actions₁ actions₂ : List ServiceAction) (s₁ s₂ : Service K)
    (hrun₁ : runs.run (service_step o₁ cfg₁) ⟨{ db := db₁ }, []⟩ actions₁ = some s₁)
    (hrun₂ : runs.run (service_step o₂ cfg₂) ⟨{ db := db₂ }, []⟩ actions₂ = some s₂)
    (agent : AgentIdentity) (hview : s₁.requests.db.view agent = s₂.requests.db.view agent)
    (env : RecallEnv K) (body : RecallRequest) :
    LinksOwnMemories s₁.requests.db ∧ LinksOwnMemories s₂.requests.db ∧
      hybrid_recall_pipeline o cfg env body agent s₁.requests.db =
        hybrid_recall_pipeline o cfg env body agent s₂.requests.db := by
  have h₁ := good_service_of_run hblank₁ hagents₁ hrun₁
  have h₂ := good_service_of_run hblank₂ hagents₂ hrun₂
  refine ⟨h₁.links_own_memories, h₂.links_own_memories, ?_⟩
  have hreadable : s₁.requests.db.readable agent = s₂.requests.db.readable agent := by
    unfold Db.readable
    rw [hview, h₁.levels, h₂.levels, hlevels]
  rw [← hybrid_reads h₁.apart, hreadable, hybrid_reads h₂.apart]

/-! ## A chief and a colleague -/

def colleague : AgentIdentity := { agent_id := 21, tenant_id := 1 }

def pair_db : Db ℚ :=
  { qortia_agents := [{ id := 20, tenant_id := 1, role := "chief", updated_at := 0 },
      { id := 21, tenant_id := 1, updated_at := 0 }] }

def pair_run (actions : List ServiceAction) : Option (Service ℚ) :=
  runs.run (service_step similar_model {}) ⟨{ db := pair_db }, []⟩ actions

/-- Two decisions with nearly the same text. -/
def decision_once : MemoryItem :=
  { type := .decision, content := wait_once, content_floor := wait_once_words }

def decision_twice : MemoryItem :=
  { type := .decision, content := wait_twice, content_floor := wait_twice_words }

/-- The chief has a decision, with its vector and its entity. -/
def chief_has_a_decision : List ServiceAction :=
  [.memory (.remember chief 0 0 [decision_once]),
   .memory (.start_graph_batch [0]), .memory (.advance 0 1 []),
   .claim [⟨.qortia_entities, 0, 1, none, "CI"⟩, ⟨.hindsight_memories, 0, 1, some 20, wait_once⟩],
   .embed 0, .embed 1, .write 0, .write 0]

/-- The colleague has two decisions, with a link between them, and an entity of the same text. -/
def colleague_has_decisions : List ServiceAction :=
  [.memory (.remember colleague 2 0 [decision_once, decision_twice]),
   .memory (.start_graph_batch [1]), .memory (.advance 1 3 []),
   .claim [⟨.qortia_entities, 1, 1, none, "CI"⟩], .embed 0, .write 0,
   .memory (.start_embedding ⟨.hindsight_memories, 1, 1, some 21, wait_once⟩),
   .memory (.start_embedding ⟨.hindsight_memories, 2, 1, some 21, wait_twice⟩),
   .memory (.advance 2 4 []), .memory (.advance 3 4 []), .memory (.advance 2 5 []),
   .memory (.advance 2 5 [])]

/-- All queries have the same vector, and nothing fails. -/
def close_env : RecallEnv ℚ where
  now := 10
  query_embedding := some [1]
  failed _ := false
  expand_failed := false
  unordered l := l
  unordered_perm := List.Perm.refl

theorem chief_alone_runs : (pair_run chief_has_a_decision).isSome = true := by decide +kernel

theorem pair_runs : (pair_run (chief_has_a_decision ++ colleague_has_decisions)).isSome = true := by
  decide +kernel

theorem recall_keeps_agents_apart_colleague :
    LinksOwnMemories ((pair_run chief_has_a_decision).get chief_alone_runs).requests.db ∧
      LinksOwnMemories ((pair_run (chief_has_a_decision ++ colleague_has_decisions)).get
        pair_runs).requests.db ∧
      hybrid_recall_pipeline similar_model {} close_env { query := wait_once } chief
          ((pair_run chief_has_a_decision).get chief_alone_runs).requests.db =
        hybrid_recall_pipeline similar_model {} close_env { query := wait_once } chief
          ((pair_run (chief_has_a_decision ++ colleague_has_decisions)).get
            pair_runs).requests.db :=
  recall_keeps_agents_apart similar_model similar_model similar_model {} {} {} pair_db pair_db
    ⟨rfl, rfl, rfl, rfl, rfl⟩ ⟨rfl, rfl, rfl, rfl, rfl⟩ (by decide) (by decide) rfl
    chief_has_a_decision (chief_has_a_decision ++ colleague_has_decisions)
    ((pair_run chief_has_a_decision).get chief_alone_runs)
    ((pair_run (chief_has_a_decision ++ colleague_has_decisions)).get pair_runs)
    (Option.some_get _).symm (Option.some_get _).symm chief (by decide +kernel) close_env
    { query := wait_once }

end qortia
