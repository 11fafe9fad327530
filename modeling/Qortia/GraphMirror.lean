-- The laws of the entity graph: it mirrors the memories. A memory is linked to its entities later,
-- behind `is_graphed`, and the operations that change or delete a memory have to keep both sides
-- together.
import Qortia.EntityGraph
import Qortia.Lib.InvertedIndex
import Qortia.Lib.Runs
import Qortia.Owners

namespace qortia

variable {K : Type}

/-! ## The graph as an index of the memories -/

/-- A memory belongs to an agent of a tenant, or to the tenant. -/
abbrev Scope := UUID × Option UUID

abbrev GraphDoc := inverted_index.Doc UUID Scope String

/-- The texts of the entities of a memory. -/
def entity_texts (entities : List (String × String)) : Set String :=
  { t | t ∈ entities.map (·.1) }

def HindsightMemory.doc (r : HindsightMemory K) : GraphDoc :=
  ⟨r.id, (r.tenant_id, some r.agent_id), entity_texts r.entities, r.is_graphed = true⟩

def OrgMemory.doc (r : OrgMemory K) : GraphDoc :=
  ⟨r.id, (r.tenant_id, none), entity_texts r.entities, r.is_graphed = true⟩

/-- The memories, private and shared. -/
def Db.docs (db : Db K) : Set GraphDoc :=
  { d | (∃ r ∈ db.hindsight_memories, r.doc = d) ∨ ∃ r ∈ db.org_memory, r.doc = d }

/-- An entity of the scope with the text links to the memory. -/
def Db.linked (db : Db K) (s : Scope) (t : String) (i : UUID) : Prop :=
  ∃ e ∈ db.qortia_entities, (e.tenant_id, e.agent_id) = s ∧ e.entity_text = t ∧
    i ∈ e.linked_memory_ids

/-- Each linked id is a memory of the scope of the entity that has its text, and each graphed
memory is linked from all its entities. -/
def Mirrors (db : Db K) : Prop :=
  inverted_index.Sound db.docs db.linked ∧ inverted_index.Complete db.docs db.linked

/-! ## Runs -/

inductive MirrorAction where
  | remember (agent : AgentIdentity) (now : Timestamp) (choice : Nat) (memories : List MemoryItem)
  | remember_org (agent : AgentIdentity) (now : Timestamp) (body : RememberOrgRequest)
  | reflect (agent : AgentIdentity) (now : Timestamp) (answer : Except Failure (List Reflection))
      (failed : List Nat)
  | forget (agent : AgentIdentity) (now : Timestamp) (id : UUID)
  | purge_expired (now : Timestamp)
  | populate_graph (now : Timestamp) (private_ids org_ids : List UUID)

/-- The database after a request. One that raises changes nothing. -/
def after {α : Type} (db : Db K) (f : α → Db K) : Except Failure α → Db K
  | .ok a => f a
  | .error _ => db

/-- What holds before a request and after it commits holds after it in any case. -/
theorem after_keeps {α : Type} {P : Db K → Prop} {db : Db K} {f : α → Db K}
    {request : Except Failure α} (h : P db) (hok : ∀ x, request = .ok x → P (f x)) :
    P (after db f request) := by
  cases request with
  | ok x => exact hok x rfl
  | error e => exact h

def mirror_step [Field K] [LinearOrder K] [HasSqrt K] (o : Outside K) (cfg : Settings)
    (db : Db K) : MirrorAction → Option (Db K)
  | .remember agent now choice memories =>
    some (after db (·.1) (remember o agent now choice memories db))
  | .remember_org agent now body => some (after db (·.1) (remember_org o agent now body db))
  | .reflect agent now answer failed =>
    some (after db (·.1) (reflect o cfg agent now answer failed db))
  | .forget agent now id => some (after db (fun db' => db') (forget o agent now id db))
  | .purge_expired now => some (purge_expired_short_term_memories now db)
  | .populate_graph now private_ids org_ids =>
    some (populate_graph_batch o cfg now private_ids org_ids db)

/-- An upsert that commits leaves a graphed memory with the entities that it has, and the purge
deletes no graphed memory with entities. -/
def KeepsMirror (o : Outside K) (db : Db K) : MirrorAction → Prop
  | .remember_org agent _ body =>
    assert_agent_active agent.agent_id agent.tenant_id db = .ok () →
    db.role agent.agent_id agent.tenant_id = some "chief" →
    ∀ r ∈ db.org_memory, org_conflict agent body r = true → r.is_graphed = true →
      r.entities.map (·.1) ⊆ (org_entities o body).map (·.1) ∧
        (org_entities o body).map (·.1) ⊆ r.entities.map (·.1)
  | .purge_expired now =>
    ∀ r ∈ db.hindsight_memories, expired_short_term now r = true → r.is_graphed = true →
      r.entities = []
  | _ => True

instance (o : Outside K) (db : Db K) : DecidablePred (KeepsMirror o db)
  | .remember_org agent now body => by
    unfold KeepsMirror
    infer_instance
  | .purge_expired now => by
    unfold KeepsMirror
    infer_instance
  | .remember .. | .reflect .. | .forget .. | .populate_graph .. => isTrue trivial

/-! ## The invariant -/

structure GoodMirror (db : Db K) : Prop where
  owned : db.Owned
  in_step : inverted_index.InStep db.docs db.linked

theorem GoodMirror.mirrors {db : Db K} (h : GoodMirror db) : Mirrors db :=
  ⟨h.in_step.sound, h.in_step.complete⟩

theorem HindsightMemory.mem_docs {db : Db K} {r : HindsightMemory K}
    (h : r ∈ db.hindsight_memories) : r.doc ∈ db.docs :=
  Or.inl ⟨r, h, rfl⟩

theorem OrgMemory.mem_docs {db : Db K} {r : OrgMemory K} (h : r ∈ db.org_memory) :
    r.doc ∈ db.docs :=
  Or.inr ⟨r, h, rfl⟩

/-- A memory is known by its id. -/
theorem Db.Keyed.doc_eq {db : Db K} (h : db.Keyed) {d d' : GraphDoc} (hd : d ∈ db.docs)
    (hd' : d' ∈ db.docs) (hid : d.id = d'.id) : d = d' := by
  rcases hd with ⟨r, hr, rfl⟩ | ⟨q, hq, rfl⟩
  · rcases hd' with ⟨r', hr', rfl⟩ | ⟨q', hq', rfl⟩
    · rw [List.inj_on_of_nodup_map h.hindsight_nodup hr hr' hid]
    · exact absurd hid (h.disjoint r hr q' hq')
  · rcases hd' with ⟨r', hr', rfl⟩ | ⟨q', hq', rfl⟩
    · exact absurd hid.symm (h.disjoint r' hr' q hq)
    · rw [List.inj_on_of_nodup_map h.org_nodup hq hq' hid]

/-! ## The requests that write memories -/

/-- A new memory is not flagged. -/
theorem in_step_insert_memory {db : Db K} (h : inverted_index.InStep db.docs db.linked)
    {r : HindsightMemory K} (hflag : r.is_graphed = false) (history : List MemoryHistory) :
    inverted_index.InStep (insert_memory r history db).docs
      (insert_memory r history db).linked := by
  refine h.of_flagged fun d hd _ => ?_
  constructor
  · rintro (⟨x, hx, rfl⟩ | hd')
    · rcases List.mem_append.mp hx with hx | hx
      · exact HindsightMemory.mem_docs hx
      · rw [List.mem_singleton.mp hx] at hd
        exact absurd hd (by simp [HindsightMemory.doc, hflag])
    · exact Or.inr hd'
  · rintro (⟨x, hx, rfl⟩ | hd')
    · exact Or.inl ⟨x, List.mem_append_left _ hx, rfl⟩
    · exact Or.inr hd'

/-- The memories change in other columns than those that the graph mirrors. -/
theorem in_step_update_memory {db : Db K} (h : inverted_index.InStep db.docs db.linked)
    {f : HindsightMemory K → HindsightMemory K} (hf : ∀ r, (f r).doc = r.doc)
    (p : HindsightMemory K → Bool) :
    inverted_index.InStep
      { db with hindsight_memories := rows.update p f db.hindsight_memories }.docs db.linked := by
  refine h.of_flagged fun d _ _ => ?_
  have hdocs : (rows.update p f db.hindsight_memories).map HindsightMemory.doc =
      db.hindsight_memories.map HindsightMemory.doc := rows.map_update hf p _
  have hmem : (∃ r ∈ rows.update p f db.hindsight_memories, r.doc = d) ↔
      ∃ r ∈ db.hindsight_memories, r.doc = d := by
    rw [← List.mem_map, hdocs, List.mem_map]
  exact or_congr_left hmem

theorem mirror_after_remember {db db' : Db K} (h : GoodMirror db) {o : Outside K}
    {agent : AgentIdentity} {now : Timestamp} {choice : Nat} {memories : List MemoryItem}
    {ids : List UUID} (hreq : remember o agent now choice memories db = .ok (db', ids)) :
    GoodMirror db' := by
  refine ⟨(remember_keeps h.owned hreq).owned, ?_⟩
  exact remember_preserves (P := fun db₁ => inverted_index.InStep db₁.docs db₁.linked) hreq
    (fun _ _ _ hdb₁ => in_step_insert_memory hdb₁ rfl _) (fun _ _ hdb₁ => hdb₁)
    h.in_step

theorem mirror_after_reflect [Field K] [LinearOrder K] [HasSqrt K] {db db' : Db K}
    (h : GoodMirror db) {o : Outside K} {cfg : Settings} {agent : AgentIdentity}
    {now : Timestamp} {answer : Except Failure (List Reflection)} {failed : List Nat} {n : Nat}
    {counter : Option Int}
    (hreq : reflect o cfg agent now answer failed db = .ok (db', n, counter)) : GoodMirror db' := by
  refine ⟨(reflect_keeps h.owned hreq).owned, ?_⟩
  refine reflect_preserves (P := fun db₁ => inverted_index.InStep db₁.docs db₁.linked) hreq
    (fun db₁ ids st hdb₁ => ?_) (fun _ hdb₁ => hdb₁) (fun _ _ hdb₁ => hdb₁) h.in_step
  cases st with
  | prune ids' => exact in_step_update_memory hdb₁ (by intro r; rfl) _
  | supersede id => exact in_step_update_memory hdb₁ (by intro r; rfl) _
  | insert => exact in_step_insert_memory hdb₁ rfl db₁.memory_history

theorem mirror_after_remember_org {db db' : Db K} (h : GoodMirror db) {o : Outside K}
    {agent : AgentIdentity} {now : Timestamp} {body : RememberOrgRequest} {row_id : UUID}
    (hok : KeepsMirror o db (.remember_org agent now body))
    (hreq : remember_org o agent now body db = .ok (db', row_id)) : GoodMirror db' := by
  refine ⟨(remember_org_keeps h.owned hreq).owned, ?_⟩
  obtain ⟨⟨hactive, hchief⟩, history, rfl⟩ := remember_org_ok hreq
  by_cases hany : db.org_memory.any (org_conflict agent body) = true
  · rw [rows.upsert_of_any hany]
    refine h.in_step.of_flagged fun d hd _ => ?_
    have hmay : db.role agent.agent_id agent.tenant_id = some "chief" := by
      obtain ⟨q, -, hconf⟩ := List.any_eq_true.mp hany
      rcases hchief with hhandoff | hchief
      · simp [org_conflict, hhandoff] at hconf
      · exact hchief
    -- A graphed row in conflict keeps its texts, so its document stays as it is.
    have hsame : ∀ q ∈ db.org_memory, org_conflict agent body q = true → q.doc.indexed →
        (org_excluded o agent now body q).doc = q.doc := by
      intro q hq hconf hindexed
      have htexts : entity_texts (org_entities o body) = entity_texts q.entities := by
        obtain ⟨hkept, hnew⟩ := hok hactive hmay q hq hconf hindexed
        exact Set.ext fun t => ⟨fun h => hnew h, fun h => hkept h⟩
      unfold OrgMemory.doc org_excluded
      simp only [htexts]
    constructor
    · rintro (hd' | ⟨x, hx, rfl⟩)
      · exact Or.inl hd'
      · obtain ⟨q, hq, ⟨hconf, rfl⟩ | ⟨-, rfl⟩⟩ := rows.mem_update.mp hx
        · rw [hsame q hq hconf hd]
          exact OrgMemory.mem_docs hq
        · exact OrgMemory.mem_docs hq
    · rintro (hd' | ⟨q, hq, rfl⟩)
      · exact Or.inl hd'
      · by_cases hconf : org_conflict agent body q = true
        · refine Or.inr ⟨org_excluded o agent now body q, ?_, hsame q hq hconf hd⟩
          exact rows.mem_update.mpr ⟨q, hq, Or.inl ⟨hconf, rfl⟩⟩
        · refine Or.inr ⟨q, ?_, rfl⟩
          exact rows.mem_update.mpr ⟨q, hq, Or.inr ⟨eq_false_of_ne_true hconf, rfl⟩⟩
  · rw [rows.upsert_of_not_any hany]
    refine h.in_step.of_flagged fun d hd _ => ?_
    constructor
    · rintro (hd' | ⟨x, hx, rfl⟩)
      · exact Or.inl hd'
      · rcases List.mem_append.mp hx with hx | hx
        · exact OrgMemory.mem_docs hx
        · rw [List.mem_singleton.mp hx] at hd
          exact absurd hd (by simp [OrgMemory.doc, org_row])
    · rintro (hd' | ⟨q, hq, rfl⟩)
      · exact Or.inl hd'
      · exact Or.inr ⟨q, List.mem_append_left _ hq, rfl⟩

/-! ## The requests that delete memories -/

/-- What is found is a memory of the tenant, and one table has it. -/
theorem find_forgotten_doc {db : Db K} (h : db.Owned) {agent : AgentIdentity} {id : UUID}
    (hactive : assert_agent_active agent.agent_id agent.tenant_id db = .ok ())
    {table : TargetTable} {content : String}
    (hfound : find_forgotten agent id db = .ok (table, content)) :
    (∃ d ∈ db.docs, d.id = id ∧ d.scope.1 = agent.tenant_id) ∧
      ∀ d, d ∈ (delete_memory table id db).docs ↔ d ∈ db.docs ∧ d.id ≠ id := by
  rcases find_forgotten_cases hfound with ⟨rfl, hm, hmem, hid, hagent, -⟩ |
    ⟨rfl, om, hmem, hid, htenant, -⟩
  · have howned := h.owned hm hmem
    have htenant := List.inj_on_of_nodup_map h.agents_nodup howned (assert_agent_active_key hactive)
      hagent
    refine ⟨⟨hm.doc, HindsightMemory.mem_docs hmem, hid, congrArg Prod.snd htenant⟩, fun d => ?_⟩
    constructor
    · rintro (⟨r, hr, rfl⟩ | ⟨q, hq, rfl⟩)
      · obtain ⟨hr, hne⟩ := rows.mem_delete.mp hr
        exact ⟨HindsightMemory.mem_docs hr, of_decide_eq_false hne⟩
      · refine ⟨OrgMemory.mem_docs hq, fun heq => ?_⟩
        exact h.keyed.disjoint hm hmem q hq (hid.trans heq.symm)
    · rintro ⟨⟨r, hr, rfl⟩ | ⟨q, hq, rfl⟩, hne⟩
      · exact Or.inl ⟨r, rows.mem_delete.mpr ⟨hr, decide_eq_false hne⟩, rfl⟩
      · exact Or.inr ⟨q, hq, rfl⟩
  · refine ⟨⟨om.doc, OrgMemory.mem_docs hmem, hid, htenant⟩, fun d => ?_⟩
    constructor
    · rintro (⟨r, hr, rfl⟩ | ⟨q, hq, rfl⟩)
      · refine ⟨HindsightMemory.mem_docs hr, fun heq => ?_⟩
        exact h.keyed.disjoint r hr om hmem (Eq.trans heq hid.symm)
      · obtain ⟨hq, hne⟩ := rows.mem_delete.mp hq
        exact ⟨OrgMemory.mem_docs hq, of_decide_eq_false hne⟩
    · rintro ⟨⟨r, hr, rfl⟩ | ⟨q, hq, rfl⟩, hne⟩
      · exact Or.inl ⟨r, hr, rfl⟩
      · exact Or.inr ⟨q, rows.mem_delete.mpr ⟨hq, decide_eq_false hne⟩, rfl⟩

/-- The entities lose the memory, where all of them that link to it are of the tenant. -/
theorem unlink_memory_linked {db : Db K} {tenant_id id : UUID} (now : Timestamp)
    (htenant : ∀ e ∈ db.qortia_entities, id ∈ e.linked_memory_ids → e.tenant_id = tenant_id)
    (s : Scope) (t : String) (j : UUID) :
    (unlink_memory tenant_id id now db).linked s t j ↔ db.linked s t j ∧ j ≠ id := by
  constructor
  · rintro ⟨x, hx, hscope, htext, hj⟩
    obtain ⟨e, he, ⟨-, rfl⟩ | ⟨hp, rfl⟩⟩ := rows.mem_update.mp hx
    · obtain ⟨hj, hne⟩ := List.mem_filter.mp hj
      exact ⟨⟨e, he, hscope, htext, hj⟩, of_decide_eq_true hne⟩
    · refine ⟨⟨x, he, hscope, htext, hj⟩, ?_⟩
      rintro rfl
      simp [hj, htenant x he hj] at hp
  · rintro ⟨⟨e, he, hscope, htext, hj⟩, hne⟩
    by_cases hp : (id ∈ e.linked_memory_ids && e.tenant_id = tenant_id) = true
    · refine ⟨_, rows.mem_update.mpr ⟨e, he, Or.inl ⟨hp, rfl⟩⟩, hscope, htext, ?_⟩
      exact List.mem_filter.mpr ⟨hj, decide_eq_true hne⟩
    · exact ⟨e, rows.mem_update.mpr ⟨e, he, Or.inr ⟨eq_false_of_ne_true hp, rfl⟩⟩, hscope, htext,
        hj⟩

theorem mirror_after_forget {db db' : Db K} (h : GoodMirror db) {o : Outside K}
    {agent : AgentIdentity} {now : Timestamp} {id : UUID}
    (hreq : forget o agent now id db = .ok db') : GoodMirror db' := by
  refine ⟨forget_owned h.owned hreq, ?_⟩
  obtain ⟨hactive, table, content, hfound, rfl⟩ := forget_eq hreq
  obtain ⟨⟨d₀, hd₀, rfl, htenant⟩, hdocs⟩ := find_forgotten_doc h.owned hactive hfound
  -- A linked id is of a memory of the entity's tenant, and there is only the one with that id.
  have hlinked : ∀ e ∈ db.qortia_entities, d₀.id ∈ e.linked_memory_ids →
      e.tenant_id = agent.tenant_id := by
    intro e he hmem
    obtain ⟨d, hd, hid, hscope, -⟩ := h.in_step.sound _ _ _ ⟨e, he, rfl, rfl, hmem⟩
    rw [h.owned.keyed.doc_eq hd hd₀ hid] at hscope
    rw [← htenant, hscope]
  have hlinked' : ∀ e ∈ (delete_memory table d₀.id db).qortia_entities,
      d₀.id ∈ e.linked_memory_ids → e.tenant_id = agent.tenant_id := by
    cases table with
    | hindsight_memories => exact hlinked
    | org_memory => exact hlinked
    | org_knowledge => exact hlinked
  have hposted := unlink_memory_linked now hlinked'
  exact h.in_step.remove hdocs fun s t j => by
    refine (hposted s t j).trans ?_
    cases table <;> rfl

theorem mirror_after_purge {db : Db K} (h : GoodMirror db) {o : Outside K} {now : Timestamp}
    (hok : KeepsMirror o db (.purge_expired now)) :
    GoodMirror (purge_expired_short_term_memories now db) := by
  refine ⟨(purge_keeps h.owned now).owned, ?_⟩
  refine h.in_step.of_flagged fun d hd hterms => ?_
  constructor
  · rintro (⟨r, hr, rfl⟩ | hd')
    · exact HindsightMemory.mem_docs (rows.mem_delete.mp hr).1
    · exact Or.inr hd'
  · rintro (⟨r, hr, rfl⟩ | hd')
    · refine Or.inl ⟨r, rows.mem_delete.mpr ⟨hr, ?_⟩, rfl⟩
      by_contra hexpired
      obtain ⟨t, ht⟩ := hterms
      have hempty := hok r hr (eq_true_of_ne_false hexpired) hd
      simp [HindsightMemory.doc, entity_texts, hempty] at ht
    · exact Or.inr hd'

/-! ## The graph batch -/

def GraphRow.scope (row : GraphRow) : Scope := (row.tenant_id, row.agent_id)

theorem upsert_entity_linked (row : GraphRow) (ent : String × String) (now : Timestamp)
    (db : Db K) (s : Scope) (t : String) (i : UUID) :
    (upsert_entity row ent now db).linked s t i ↔
      db.linked s t i ∨ (i = row.id ∧ s = row.scope ∧ t = ent.1) := by
  have hkeep : ∀ e : Entity K, (link_entity row ent.2 now e).tenant_id = e.tenant_id ∧
      (link_entity row ent.2 now e).agent_id = e.agent_id ∧
      (link_entity row ent.2 now e).entity_text = e.entity_text := by
    intro e
    unfold link_entity
    split <;> exact ⟨rfl, rfl, rfl⟩
  have hlink : ∀ e : Entity K, i ∈ (link_entity row ent.2 now e).linked_memory_ids ↔
      i ∈ e.linked_memory_ids ∨ i = row.id := by
    intro e
    unfold link_entity
    split
    · rename_i hmem
      constructor
      · exact Or.inl
      · rintro (h | rfl)
        · exact h
        · exact hmem
    · simp
  have hsame : ∀ e : Entity K, same_entity row ent.1 e = true ↔
      (e.tenant_id, e.agent_id) = row.scope ∧ e.entity_text = ent.1 := by
    intro e
    simp [same_entity, GraphRow.scope]
  by_cases hany : db.qortia_entities.any (same_entity row ent.1) = true
  · unfold Db.linked upsert_entity
    rw [rows.upsert_of_any hany]
    constructor
    · rintro ⟨x, hx, hscope, htext, hi⟩
      obtain ⟨e, he, ⟨hp, rfl⟩ | ⟨-, rfl⟩⟩ := rows.mem_update.mp hx
      · rw [(hkeep e).1, (hkeep e).2.1] at hscope
        rw [(hkeep e).2.2] at htext
        rcases (hlink e).mp hi with hi | rfl
        · exact Or.inl ⟨e, he, hscope, htext, hi⟩
        · obtain ⟨hs, ht⟩ := (hsame e).mp hp
          exact Or.inr ⟨rfl, hscope.symm.trans hs, htext.symm.trans ht⟩
      · exact Or.inl ⟨x, he, hscope, htext, hi⟩
    · rintro (⟨e, he, hscope, htext, hi⟩ | ⟨rfl, rfl, rfl⟩)
      · by_cases hp : same_entity row ent.1 e = true
        · refine ⟨_, rows.mem_update.mpr ⟨e, he, Or.inl ⟨hp, rfl⟩⟩, ?_, ?_,
            (hlink e).mpr (Or.inl hi)⟩
          · rw [(hkeep e).1, (hkeep e).2.1, hscope]
          · rw [(hkeep e).2.2, htext]
        · exact ⟨e, rows.mem_update.mpr ⟨e, he, Or.inr ⟨eq_false_of_ne_true hp, rfl⟩⟩, hscope,
            htext, hi⟩
      · obtain ⟨e, he, hp⟩ := List.any_eq_true.mp hany
        obtain ⟨hs, ht⟩ := (hsame e).mp hp
        refine ⟨_, rows.mem_update.mpr ⟨e, he, Or.inl ⟨hp, rfl⟩⟩, ?_, ?_,
          (hlink e).mpr (Or.inr rfl)⟩
        · rw [(hkeep e).1, (hkeep e).2.1, hs]
        · rw [(hkeep e).2.2, ht]
  · unfold Db.linked upsert_entity
    rw [rows.upsert_of_not_any hany]
    constructor
    · rintro ⟨x, hx, hscope, htext, hi⟩
      rcases List.mem_append.mp hx with hx | hx
      · exact Or.inl ⟨x, hx, hscope, htext, hi⟩
      · rw [List.mem_singleton.mp hx] at hscope htext hi
        exact Or.inr ⟨List.mem_singleton.mp hi, hscope.symm, htext.symm⟩
    · rintro (⟨e, he, hscope, htext, hi⟩ | ⟨rfl, rfl, rfl⟩)
      · exact ⟨e, List.mem_append_left _ he, hscope, htext, hi⟩
      · exact ⟨_, List.mem_append_right _ List.mem_cons_self, rfl, rfl, List.mem_cons_self⟩

theorem maybe_update_entity_summary_linked (o : Outside K) (cfg : Settings) (row : GraphRow)
    (ent_text : String) (now : Timestamp) (db : Db K) :
    (maybe_update_entity_summary o cfg row ent_text now db).linked = db.linked := by
  unfold maybe_update_entity_summary
  split
  · rfl
  · funext s t i
    refine propext ⟨?_, ?_⟩
    · rintro ⟨x, hx, hrest⟩
      obtain ⟨e, he, ⟨-, rfl⟩ | ⟨-, rfl⟩⟩ := rows.mem_update.mp hx
      · exact ⟨e, he, hrest⟩
      · exact ⟨x, he, hrest⟩
    · rintro ⟨e, he, hrest⟩
      by_cases hp : same_entity row ent_text e = true
      · exact ⟨_, rows.mem_update.mpr ⟨e, he, Or.inl ⟨hp, rfl⟩⟩, hrest⟩
      · exact ⟨e, rows.mem_update.mpr ⟨e, he, Or.inr ⟨eq_false_of_ne_true hp, rfl⟩⟩, hrest⟩

/-- The loop over the entities links the row from each of them, and changes the entities only. -/
theorem graph_entities_linked (o : Outside K) (cfg : Settings) (now : Timestamp) (row : GraphRow)
    (ents : List (String × String)) (db : Db K) (s : Scope) (t : String) (i : UUID) :
    (ents.foldl (graph_entity o cfg now row) db).linked s t i ↔
      db.linked s t i ∨ (i = row.id ∧ s = row.scope ∧ t ∈ ents.map (·.1)) := by
  induction ents generalizing db with
  | nil => simp
  | cons ent ents ih =>
    rw [List.foldl_cons, ih]
    unfold graph_entity
    rw [maybe_update_entity_summary_linked, upsert_entity_linked, List.map_cons, List.mem_cons]
    constructor
    · rintro ((h | ⟨hi, hs, ht⟩) | ⟨hi, hs, ht⟩)
      · exact Or.inl h
      · exact Or.inr ⟨hi, hs, Or.inl ht⟩
      · exact Or.inr ⟨hi, hs, Or.inr ht⟩
    · rintro (h | ⟨hi, hs, ht | ht⟩)
      · exact Or.inl (Or.inl h)
      · exact Or.inl (Or.inr ⟨hi, hs, ht⟩)
      · exact Or.inr ⟨hi, hs, ht⟩

theorem graph_entity_frame (o : Outside K) (cfg : Settings) (now : Timestamp) (row : GraphRow)
    (db : Db K) (ent : String × String) :
    graph_entity o cfg now row db ent = { db with
      qortia_entities := (graph_entity o cfg now row db ent).qortia_entities
      next_entity_id := (graph_entity o cfg now row db ent).next_entity_id } := by
  unfold graph_entity maybe_update_entity_summary
  split <;> rfl

theorem graph_entities_frame (o : Outside K) (cfg : Settings) (now : Timestamp) (row : GraphRow)
    (ents : List (String × String)) (db : Db K) :
    ents.foldl (graph_entity o cfg now row) db = { db with
      qortia_entities := (ents.foldl (graph_entity o cfg now row) db).qortia_entities
      next_entity_id := (ents.foldl (graph_entity o cfg now row) db).next_entity_id } := by
  induction ents generalizing db with
  | nil => rfl
  | cons ent ents ih =>
    rw [List.foldl_cons, ih, graph_entity_frame o cfg now row db ent]

/-- The batch read the row from a memory that is there. -/
def GraphRow.Current (row : GraphRow) (db : Db K) : Prop :=
  match row.agent_id with
  | some _ => ∃ r ∈ db.hindsight_memories, r.graph_row = row
  | none => ∃ q ∈ db.org_memory, q.graph_row = row

/-- The flag is in no column that the batch reads. -/
theorem graph_rows_transaction (o : Outside K) (cfg : Settings) (now : Timestamp) (db : Db K)
    (row : GraphRow) :
    (graph_transaction o cfg now db row).hindsight_memories.map (·.graph_row) =
        db.hindsight_memories.map (·.graph_row) ∧
      (graph_transaction o cfg now db row).org_memory.map (·.graph_row) =
        db.org_memory.map (·.graph_row) := by
  unfold graph_transaction
  rw [graph_entities_frame]
  unfold set_graphed
  split
  · exact ⟨rows.map_update (g := HindsightMemory.graph_row) (by intro r; rfl) _ _, rfl⟩
  · exact ⟨rfl, rows.map_update (g := OrgMemory.graph_row) (by intro q; rfl) _ _⟩

theorem transaction_keys (o : Outside K) (cfg : Settings) (now : Timestamp) (db : Db K)
    (row : GraphRow) :
    ((graph_transaction o cfg now db row).hindsight_memories.map (·.keys)).Sublist
        (db.hindsight_memories.map (·.keys)) ∧
      ((graph_transaction o cfg now db row).org_memory.map (·.keys)).Sublist
        (db.org_memory.map (·.keys)) := by
  unfold graph_transaction
  rw [graph_entities_frame]
  unfold set_graphed
  split
  · refine ⟨?_, List.Sublist.refl _⟩
    exact rows.sublist_update (g := HindsightMemory.keys) (by intro r; rfl) _ _
  · refine ⟨List.Sublist.refl _, ?_⟩
    exact rows.sublist_update (g := OrgMemory.keys) (by intro q; rfl) _ _

theorem transaction_frame (o : Outside K) (cfg : Settings) (now : Timestamp) (db : Db K)
    (row : GraphRow) :
    (graph_transaction o cfg now db row).agent_keys = db.agent_keys ∧
      (graph_transaction o cfg now db row).next_id = db.next_id ∧
      (graph_transaction o cfg now db row).memory_links = db.memory_links ∧
      (graph_transaction o cfg now db row).linked =
        (row.entities.foldl (graph_entity o cfg now row) db).linked := by
  have hframe := graph_entities_frame o cfg now row row.entities db
  have hagents := congrArg Db.agent_keys hframe
  have hnext := congrArg Db.next_id hframe
  have hlinks := congrArg Db.memory_links hframe
  unfold graph_transaction set_graphed
  split
  · exact ⟨hagents, hnext, hlinks, rfl⟩
  · exact ⟨hagents, hnext, hlinks, rfl⟩

theorem transaction_owned {db : Db K} (h : db.Owned) (o : Outside K) (cfg : Settings)
    (now : Timestamp) (row : GraphRow) : (graph_transaction o cfg now db row).Owned := by
  obtain ⟨hagents, hnext, -, -⟩ := transaction_frame o cfg now db row
  obtain ⟨hprivate, horg⟩ := transaction_keys o cfg now db row
  exact h.of_sublist (Nat.le_of_eq hnext.symm) hagents hprivate horg

theorem GraphRow.Current.transaction {row : GraphRow} {db : Db K} (h : row.Current db)
    (o : Outside K) (cfg : Settings) (now : Timestamp) (other : GraphRow) :
    row.Current (graph_transaction o cfg now db other) := by
  obtain ⟨hprivate, horg⟩ := graph_rows_transaction o cfg now db other
  unfold GraphRow.Current at h ⊢
  cases hagent : row.agent_id with
  | some a =>
    rw [hagent] at h
    simp only at h ⊢
    rw [← List.mem_map] at h ⊢
    rw [hprivate]
    exact h
  | none =>
    rw [hagent] at h
    simp only at h ⊢
    rw [← List.mem_map] at h ⊢
    rw [horg]
    exact h

/-- The transaction of a row links its memory from all its entities and flags it. -/
theorem mirror_after_transaction {db : Db K} (h : GoodMirror db) (o : Outside K) (cfg : Settings)
    (now : Timestamp) {row : GraphRow} (hrow : row.Current db) :
    GoodMirror (graph_transaction o cfg now db row) := by
  refine ⟨transaction_owned h.owned o cfg now row, ?_⟩
  have hkeyed := h.owned.keyed
  have hlinked := graph_entities_linked o cfg now row row.entities db
  have hflag : (True : Prop) = (true = true) := by simp
  unfold graph_transaction
  rw [graph_entities_frame] at hlinked ⊢
  unfold set_graphed
  cases hagent : row.agent_id with
  | some a =>
    unfold GraphRow.Current at hrow
    rw [hagent] at hrow
    obtain ⟨r, hr, rfl⟩ := hrow
    have hone := fun x hx => List.inj_on_of_nodup_map hkeyed.hindsight_nodup (x := x) hx hr
    refine h.in_step.index (HindsightMemory.mem_docs hr)
      (fun d hd hid => hkeyed.doc_eq hd (HindsightMemory.mem_docs hr) hid) (fun d => ?_) hlinked
    constructor
    · rintro (⟨x, hx, rfl⟩ | ⟨q, hq, rfl⟩)
      · obtain ⟨q, hq, ⟨hp, rfl⟩ | ⟨hp, rfl⟩⟩ := rows.mem_update.mp hx
        · rw [hone q hq (of_decide_eq_true hp)]
          refine Or.inr ?_
          unfold HindsightMemory.doc
          simp
        · exact Or.inl ⟨HindsightMemory.mem_docs hq, of_decide_eq_false hp⟩
      · exact Or.inl ⟨OrgMemory.mem_docs hq, fun heq => hkeyed.disjoint r hr q hq heq.symm⟩
    · rintro (⟨⟨q, hq, rfl⟩ | ⟨q, hq, rfl⟩, hne⟩ | rfl)
      · exact Or.inl ⟨q, rows.mem_update.mpr ⟨q, hq, Or.inr ⟨decide_eq_false hne, rfl⟩⟩, rfl⟩
      · exact Or.inr ⟨q, hq, rfl⟩
      · refine Or.inl ⟨{ r with is_graphed := true }, ?_, ?_⟩
        · exact rows.mem_update.mpr ⟨r, hr, Or.inl ⟨decide_eq_true rfl, rfl⟩⟩
        · unfold HindsightMemory.doc
          simp
  | none =>
    unfold GraphRow.Current at hrow
    rw [hagent] at hrow
    obtain ⟨r, hr, rfl⟩ := hrow
    have hone := fun x hx => List.inj_on_of_nodup_map hkeyed.org_nodup (x := x) hx hr
    refine h.in_step.index (OrgMemory.mem_docs hr)
      (fun d hd hid => hkeyed.doc_eq hd (OrgMemory.mem_docs hr) hid) (fun d => ?_) hlinked
    constructor
    · rintro (⟨q, hq, rfl⟩ | ⟨x, hx, rfl⟩)
      · exact Or.inl ⟨HindsightMemory.mem_docs hq, hkeyed.disjoint q hq r hr⟩
      · obtain ⟨q, hq, ⟨hp, rfl⟩ | ⟨hp, rfl⟩⟩ := rows.mem_update.mp hx
        · rw [hone q hq (of_decide_eq_true hp)]
          refine Or.inr ?_
          unfold OrgMemory.doc
          simp
        · exact Or.inl ⟨OrgMemory.mem_docs hq, of_decide_eq_false hp⟩
    · rintro (⟨⟨q, hq, rfl⟩ | ⟨q, hq, rfl⟩, hne⟩ | rfl)
      · exact Or.inl ⟨q, hq, rfl⟩
      · exact Or.inr ⟨q, rows.mem_update.mpr ⟨q, hq, Or.inr ⟨decide_eq_false hne, rfl⟩⟩, rfl⟩
      · refine Or.inr ⟨{ r with is_graphed := true }, ?_, ?_⟩
        · exact rows.mem_update.mpr ⟨r, hr, Or.inl ⟨decide_eq_true rfl, rfl⟩⟩
        · unfold OrgMemory.doc
          simp

theorem mirror_after_transactions {picked : List GraphRow} {db : Db K} (h : GoodMirror db)
    (o : Outside K) (cfg : Settings) (now : Timestamp) (hrows : ∀ row ∈ picked, row.Current db) :
    GoodMirror (picked.foldl (graph_transaction o cfg now) db) := by
  induction picked generalizing db with
  | nil => exact h
  | cons row picked ih =>
    rw [List.foldl_cons]
    refine ih (mirror_after_transaction h o cfg now (hrows row List.mem_cons_self)) fun x hx => ?_
    exact (hrows x (List.mem_cons_of_mem _ hx)).transaction o cfg now row

theorem mem_pick_rows {ids : List UUID} {eligible : List GraphRow} {row : GraphRow}
    (h : row ∈ pick_rows ids eligible) : row ∈ eligible := by
  obtain ⟨id, -, hfind⟩ := List.mem_filterMap.mp h
  exact List.mem_of_find?_eq_some hfind

theorem ungraphed_private_current {db : Db K} {row : GraphRow} (h : row ∈ ungraphed_private db) :
    row.Current db := by
  obtain ⟨r, hr, rfl⟩ := List.mem_map.mp h
  exact ⟨r, (List.mem_filter.mp hr).1, rfl⟩

theorem ungraphed_org_current {db : Db K} {row : GraphRow} (h : row ∈ ungraphed_org db) :
    row.Current db := by
  obtain ⟨q, hq, rfl⟩ := List.mem_map.mp h
  exact ⟨q, (List.mem_filter.mp hq).1, rfl⟩

theorem mirror_after_batch {db : Db K} (h : GoodMirror db) (o : Outside K) (cfg : Settings)
    (now : Timestamp) (private_ids org_ids : List UUID) :
    GoodMirror (populate_graph_batch o cfg now private_ids org_ids db) := by
  have hcurrent : ∀ row ∈ pick_rows private_ids (ungraphed_private db), row.Current db :=
    fun row hrow => ungraphed_private_current (mem_pick_rows hrow)
  have hprivate := mirror_after_transactions h o cfg now hcurrent
  exact mirror_after_transactions hprivate o cfg now
    fun row hrow => ungraphed_org_current (mem_pick_rows hrow)

/-! ## Every run -/

theorem mirror_step_good [Field K] [LinearOrder K] [HasSqrt K] {o : Outside K} {cfg : Settings}
    {db db' : Db K} {a : MirrorAction} (h : GoodMirror db) (hok : KeepsMirror o db a)
    (hstep : mirror_step o cfg db a = some db') : GoodMirror db' := by
  cases a with
  | remember agent now choice memories =>
    cases hstep
    exact after_keeps h fun x hx => mirror_after_remember h hx
  | remember_org agent now body =>
    cases hstep
    exact after_keeps h fun x hx => mirror_after_remember_org h hok hx
  | reflect agent now answer failed =>
    cases hstep
    exact after_keeps h fun x hx => mirror_after_reflect h hx
  | forget agent now id =>
    cases hstep
    exact after_keeps h fun x hx => mirror_after_forget h hx
  | purge_expired now =>
    cases hstep
    exact mirror_after_purge (o := o) h hok
  | populate_graph now private_ids org_ids =>
    cases hstep
    exact mirror_after_batch h o cfg now private_ids org_ids

theorem Db.Blank.good_mirror {db : Db K} (h : db.Blank)
    (hagents : (db.qortia_agents.map (·.id)).Nodup) : GoodMirror db := by
  refine ⟨h.owned hagents, ?_⟩
  intro s t i
  simp [Db.linked, Db.docs, h.hindsight_memories, h.org_memory, h.qortia_entities]

/-- Along every run that starts without memories, the graph mirrors the memories, if no upsert
changes the entities of a graphed memory and no purge deletes a graphed memory with entities. -/
theorem the_graph_mirrors_the_memories [Field K] [LinearOrder K] [HasSqrt K] (o : Outside K)
    (cfg : Settings) (db : Db K) (hblank : db.Blank)
    (hagents : (db.qortia_agents.map (·.id)).Nodup) (actions : List MirrorAction)
    (hok : runs.Guarded (mirror_step o cfg) (KeepsMirror o) db actions) :
    runs.Always (mirror_step o cfg) Mirrors db actions :=
  runs.always_of_invariant (fun _ h => h.mirrors)
    (fun _ _ _ h hok hstep => mirror_step_good h hok hstep) (hblank.good_mirror hagents) hok

/-- A pipeline that finds an entity in one text. -/
def one_entity (s : String) : Option Doc :=
  some { ents := if s = wait_once then [("CI", "ORG")] else [] }

def one_entity_model : Outside ℚ := { no_models with en_core_web_sm := some one_entity }

/-- The process is written and graphed, and written anew. -/
def process_graphed (first second : RememberOrgRequest) : List MirrorAction :=
  [.remember_org chief 1 first, .populate_graph 2 [] [0], .remember_org chief 3 second]

theorem the_graph_mirrors_the_memories_process :
    runs.Always (mirror_step one_entity_model {}) Mirrors chief_db
      (process_graphed deploy_once deploy_once ++ [.forget chief 4 0]) :=
  the_graph_mirrors_the_memories one_entity_model {} chief_db chief_db_blank (by decide)
    (process_graphed deploy_once deploy_once ++ [.forget chief 4 0]) (by decide +kernel)

/-- A note for one minute is written and graphed, and expires. -/
def note_expires : List MirrorAction :=
  [.remember chief 0 0
      [{ type := .short_term, content := wait_once, ttl_seconds := some 60
         content_floor := wait_once_words }],
   .populate_graph 1 [0] [], .purge_expired 60000001]

/-- An entity links to an id whose memories, if there are any, do not name the entity. -/
def dead_link (db : Db K) : Bool :=
  db.qortia_entities.any fun e => e.linked_memory_ids.any fun i =>
    (db.hindsight_memories.all fun r => r.id = i → e.entity_text ∉ r.entities.map (·.1)) &&
      db.org_memory.all fun q => q.id = i → e.entity_text ∉ q.entities.map (·.1)

theorem dead_link_breaks_mirror {db : Db K} (h : dead_link db = true) : ¬ Mirrors db := by
  rintro ⟨hsound, -⟩
  unfold dead_link at h
  simp only [List.any_eq_true, Bool.and_eq_true, List.all_eq_true, decide_eq_true_eq] at h
  obtain ⟨e, he, i, hi, hprivate, horg⟩ := h
  obtain ⟨d, hd, hid, -, hterm⟩ := hsound _ _ i ⟨e, he, rfl, rfl, hi⟩
  rcases hd with ⟨r, hr, rfl⟩ | ⟨q, hq, rfl⟩
  · exact hprivate r hr hid hterm
  · exact horg q hq hid hterm

/-- The purge leaves a dead link behind, and so does an upsert that drops an entity. -/
theorem a_purge_and_an_upsert_leave_dead_links :
    ¬ runs.Always (mirror_step one_entity_model {}) Mirrors chief_db note_expires ∧
      ¬ runs.Always (mirror_step one_entity_model {}) Mirrors chief_db
        (process_graphed deploy_once deploy_twice) :=
  ⟨runs.not_always_of_check (fun _ => dead_link_breaks_mirror) (by decide +kernel),
    runs.not_always_of_check (fun _ => dead_link_breaks_mirror) (by decide +kernel)⟩

end qortia
