-- The laws of `forget` next to the workers. The graph batch and the link step act on rows that
-- they read in an earlier statement, and a forget in between deletes what they are about to refer
-- to.
import Qortia.EmbeddingWorker
import Qortia.GraphMirror
import Qortia.Lib.References
import Qortia.Links

namespace qortia

variable {K : Type}

/-! ## The workers, statement by statement -/

/-- Where an operation of a worker stands: a graph batch at its private or at its shared rows, or
`_embed_single_row` of a memory. -/
inductive Worker (K : Type) where
  | private_rows (rows : List GraphRow)
  | org_rows (rows : List GraphRow)
  | claimed (memory_id tenant_id agent_id : UUID) (text_to_embed : String)
  | embedded (memory_id tenant_id agent_id : UUID) (embedding : List K)
  | linking (memory_id tenant_id : UUID) (similar_rows : List (UUID × K))
  | finished

/-- The database, the operations in the order in which they started, and for each forgotten
memory how many of them had started then. -/
structure Forgetting (K : Type) where
  db : Db K
  workers : List (Worker K) := []
  forgotten : List (UUID × Nat) := []

/-- The requests, and the steps of the workers. `ids` are the rows that a batch SELECT picks. -/
inductive ForgetAction where
  | remember (agent : AgentIdentity) (now : Timestamp) (choice : Nat) (memories : List MemoryItem)
  | remember_org (agent : AgentIdentity) (now : Timestamp) (body : RememberOrgRequest)
  | reflect (agent : AgentIdentity) (now : Timestamp) (answer : Except Failure (List Reflection))
      (failed : List Nat)
  | purge_expired (now : Timestamp)
  | forget (agent : AgentIdentity) (now : Timestamp) (id : UUID)
  | start_graph_batch (ids : List UUID)
  | start_embedding (claim : Claim)
  | advance (i : Nat) (now : Timestamp) (ids : List UUID)
  | stop (i : Nat)

section
variable [Field K] [LinearOrder K]

/-- The next statement of an operation. -/
def worker_step (o : Outside K) (cfg : Settings) (now : Timestamp) (ids : List UUID) (db : Db K) :
    Worker K → Option (Db K × Worker K)
  | .private_rows (row :: rows) => some (graph_transaction o cfg now db row, .private_rows rows)
  | .private_rows [] => some (db, .org_rows (pick_rows ids (ungraphed_org db)))
  | .org_rows (row :: rows) => some (graph_transaction o cfg now db row, .org_rows rows)
  | .org_rows [] => some (db, .finished)
  | .claimed memory_id tenant_id agent_id text_to_embed =>
    if text_to_embed = "" then some (db, .finished)
    else
      let embedding := o.embedding text_to_embed
      some (write_embedding .hindsight_memories memory_id embedding db,
        .embedded memory_id tenant_id agent_id embedding)
  | .embedded memory_id tenant_id agent_id embedding =>
    some (db, .linking memory_id tenant_id
      (find_similar_memories o now memory_id agent_id embedding db))
  | .linking memory_id tenant_id (similar :: similar_rows) =>
    some (upsert_memory_link memory_id tenant_id similar db,
      .linking memory_id tenant_id similar_rows)
  | .linking _ _ [] => some (db, .finished)
  | .finished => none

/-- An operation that raises ends. A memory whose vector could not be computed counts the
attempt. -/
def worker_stop (db : Db K) : Worker K → Db K
  | .claimed memory_id _ _ _ => count_attempt .hindsight_memories memory_id db
  | _ => db

/-- A request that raises changes nothing. -/
def Forgetting.request {α : Type} (s : Forgetting K) (f : α → Db K) :
    Except Failure α → Option (Forgetting K)
  | .ok a => some { s with db := f a }
  | .error _ => some s

omit [Field K] [LinearOrder K] in
/-- What holds before a request and after it commits holds after it in any case. -/
theorem request_keeps {α : Type} {P : Forgetting K → Prop} {s s' : Forgetting K} {f : α → Db K}
    {result : Except Failure α} (h : P s)
    (hok : ∀ x, result = .ok x → P { s with db := f x }) (hs : s.request f result = some s') :
    P s' := by
  cases result with
  | ok x =>
    cases hs
    exact hok x rfl
  | error e =>
    cases hs
    exact h

def forget_step [HasSqrt K] (o : Outside K) (cfg : Settings) (s : Forgetting K) :
    ForgetAction → Option (Forgetting K)
  | .remember agent now choice memories =>
    s.request (·.1) (remember o agent now choice memories s.db)
  | .remember_org agent now body => s.request (·.1) (remember_org o agent now body s.db)
  | .reflect agent now answer failed =>
    s.request (·.1) (reflect o cfg agent now answer failed s.db)
  | .purge_expired now => some { s with db := purge_expired_short_term_memories now s.db }
  | .forget agent now id =>
    match forget o agent now id s.db with
    | .ok db => some { s with db, forgotten := s.forgotten ++ [(id, s.workers.length)] }
    | .error _ => some s
  | .start_graph_batch ids =>
    some { s with workers := s.workers ++ [.private_rows (pick_rows ids (ungraphed_private s.db))] }
  | .start_embedding claim =>
    match claim.tbl, claim.agent_id with
    | .hindsight_memories, some agent_id =>
      if claim ∈ claimable s.db then
        some { s with workers := s.workers ++
          [.claimed claim.id claim.tenant_id agent_id claim.text_to_embed] }
      else none
    | _, _ => none
  | .advance i now ids =>
    (s.workers[i]?.bind (worker_step o cfg now ids s.db)).map fun (db, w) =>
      { s with db, workers := s.workers.set i w }
  | .stop i =>
    s.workers[i]?.map fun w =>
      { s with db := worker_stop s.db w, workers := s.workers.set i .finished }

end

/-! ## What has to hold -/

/-- An entity or a link of the tenant refers to the memory. -/
def Db.refers (db : Db K) (id tenant_id : UUID) : Prop :=
  (∃ e ∈ db.qortia_entities, e.tenant_id = tenant_id ∧ id ∈ e.linked_memory_ids) ∨
    ∃ l ∈ db.memory_links, l.tenant_id = tenant_id ∧ (l.source_id = id ∨ l.target_id = id)

/-- Once all operations that were in flight at a forget have finished, nothing refers to the
memory. -/
def NoDanglingReference (s : Forgetting K) : Prop :=
  ∀ f ∈ s.forgotten, (∀ w ∈ s.workers.take f.2, w = .finished) → ∀ t, ¬ s.db.refers f.1 t

def Forgetting.gone (s : Forgetting K) (id : UUID) : Prop := id ∈ s.forgotten.map (·.1)

/-- The memories that the next statement of an operation is about to refer to. -/
def Worker.about_to_refer : Worker K → List UUID
  | .private_rows (row :: _) => [row.id]
  | .org_rows (row :: _) => [row.id]
  | .linking memory_id _ (similar :: _) => [memory_id, similar.1]
  | _ => []

/-- No operation refers to a memory that was forgotten after the operation read it. -/
def RefersToTheLiving (s : Forgetting K) : ForgetAction → Prop
  | .advance i _ _ => ∀ w ∈ s.workers[i]?, ∀ id ∈ w.about_to_refer, id ∉ s.forgotten.map (·.1)
  | _ => True

instance (s : Forgetting K) : DecidablePred (RefersToTheLiving s)
  | .advance i now ids =>
    match h : s.workers[i]? with
    | none => isTrue (by simp [RefersToTheLiving, h])
    | some w => decidable_of_iff (∀ id ∈ w.about_to_refer, id ∉ s.forgotten.map (·.1))
        (by simp [RefersToTheLiving, h])
  | .remember .. | .remember_org .. | .reflect .. | .purge_expired .. | .forget ..
  | .start_graph_batch .. | .start_embedding .. | .stop .. => isTrue trivial

/-! ## The invariant -/

/-- The memories that an operation holds, with their tenants. -/
def Worker.holds : Worker K → UUID → UUID → Prop
  | .private_rows rows, id, tenant_id | .org_rows rows, id, tenant_id =>
    ∃ row ∈ rows, row.id = id ∧ row.tenant_id = tenant_id
  | .claimed memory_id tenant_id' _ _, id, tenant_id
  | .embedded memory_id tenant_id' _ _, id, tenant_id => memory_id = id ∧ tenant_id' = tenant_id
  | .linking memory_id tenant_id' similar_rows, id, tenant_id =>
    tenant_id' = tenant_id ∧ (memory_id = id ∨ ∃ similar ∈ similar_rows, similar.1 = id)
  | .finished, _, _ => False

/-- The agent whose memory is embedded, with its tenant. -/
def Worker.owner : Worker K → Option (UUID × UUID)
  | .claimed _ tenant_id agent_id _ | .embedded _ tenant_id agent_id _ => some (agent_id, tenant_id)
  | _ => none

def Forgetting.refs (s : Forgetting K) : references.Refs UUID UUID where
  thing := s.db.belongs
  ref := s.db.refers
  held i t := ∃ w ∈ s.workers, w.holds i t
  drawn i := i < s.db.next_id
  gone := s.gone

structure GoodForgetting (s : Forgetting K) : Prop where
  owned : s.db.Owned
  owners : ∀ w ∈ s.workers, ∀ key ∈ w.owner, key ∈ s.db.agent_keys
  refs : s.refs.Good

theorem GoodForgetting.no_dangling {s : Forgetting K} (h : GoodForgetting s) :
    NoDanglingReference s := by
  intro f hf _ t
  exact h.refs.gone_ref (List.mem_map_of_mem hf)

theorem Db.Owned.belongs_lt {db : Db K} (h : db.Owned) {i t : UUID} (hi : db.belongs i t) :
    i < db.next_id := by
  rcases hi with ⟨r, hr, rfl, -⟩ | ⟨q, hq, rfl, -⟩
  · exact h.keyed.hindsight_lt r hr
  · exact h.keyed.org_lt q hq

theorem Db.Owned.belongs_unique {db : Db K} (h : db.Owned) {i t t' : UUID} (hi : db.belongs i t)
    (hi' : db.belongs i t') : t = t' := by
  rcases hi with ⟨r, hr, rfl, rfl⟩ | ⟨q, hq, rfl, rfl⟩
  · rcases hi' with ⟨r', hr', hid, rfl⟩ | ⟨q', hq', hid, rfl⟩
    · rw [List.inj_on_of_nodup_map h.keyed.hindsight_nodup hr' hr hid]
    · exact absurd hid.symm (h.keyed.disjoint r hr q' hq')
  · rcases hi' with ⟨r', hr', hid, rfl⟩ | ⟨q', hq', hid, rfl⟩
    · exact absurd hid (h.keyed.disjoint r' hr' q hq)
    · rw [List.inj_on_of_nodup_map h.keyed.org_nodup hq' hq hid]

/-! ## The steps of the workers -/

/-- What a statement of an operation does: it refers to what the operation holds, and the operation
holds what it held or reads now. -/
structure Advances (db : Db K) (w : Worker K) (db' : Db K) (w' : Worker K) : Prop where
  owned : db'.Owned
  agent_keys : db'.agent_keys = db.agent_keys
  next_id : db'.next_id = db.next_id
  belongs : ∀ {i t}, db'.belongs i t → db.belongs i t
  refers : ∀ {i t}, db'.refers i t → db.refers i t ∨ (w.holds i t ∧ i ∈ w.about_to_refer)
  holds : ∀ {i t}, w'.holds i t → w.holds i t ∨ db.belongs i t
  owner : ∀ key ∈ w'.owner, key ∈ w.owner

/-- The statement changes neither keys nor references. -/
theorem advances_of_keys {db db' : Db K} {w w' : Worker K} (h : db.Owned)
    (hagents : db'.qortia_agents = db.qortia_agents) (hnext : db'.next_id = db.next_id)
    (hprivate : (db'.hindsight_memories.map (·.keys)).Sublist (db.hindsight_memories.map (·.keys)))
    (horg : (db'.org_memory.map (·.keys)).Sublist (db.org_memory.map (·.keys)))
    (hentities : db'.qortia_entities = db.qortia_entities)
    (hlinks : db'.memory_links = db.memory_links)
    (hholds : ∀ {i t}, w'.holds i t → w.holds i t ∨ db.belongs i t)
    (howner : ∀ key ∈ w'.owner, key ∈ w.owner) : Advances db w db' w' := by
  have hkeys : db'.agent_keys = db.agent_keys := by
    unfold Db.agent_keys
    rw [hagents]
  refine ⟨h.of_sublist (Nat.le_of_eq hnext.symm) hkeys hprivate horg, hkeys, hnext,
    belongs_of_sublist hprivate horg, fun hr => Or.inl ?_, hholds, howner⟩
  unfold Db.refers at hr ⊢
  rw [hentities, hlinks] at hr
  exact hr

/-- The transaction of a row refers to the memory of the row. -/
theorem graph_transaction_advances {db : Db K} (h : db.Owned) (o : Outside K) (cfg : Settings)
    (now : Timestamp) (row : GraphRow) {w w' : Worker K} (hrow : w.holds row.id row.tenant_id)
    (habout : row.id ∈ w.about_to_refer)
    (hholds : ∀ {i t}, w'.holds i t → w.holds i t ∨ db.belongs i t)
    (howner : ∀ key ∈ w'.owner, key ∈ w.owner) :
    Advances db w (graph_transaction o cfg now db row) w' := by
  obtain ⟨hagents, hnext, hlinks, hlinked⟩ := transaction_frame o cfg now db row
  obtain ⟨hprivate, horg⟩ := transaction_keys o cfg now db row
  refine ⟨transaction_owned h o cfg now row, hagents, hnext, belongs_of_sublist hprivate horg,
    fun {i t} hr => ?_, hholds, howner⟩
  rcases hr with ⟨e, he, rfl, hi⟩ | ⟨l, hl, hrest⟩
  · have hlink : (graph_transaction o cfg now db row).linked (e.tenant_id, e.agent_id)
        e.entity_text i := ⟨e, he, rfl, rfl, hi⟩
    rw [hlinked, graph_entities_linked] at hlink
    rcases hlink with ⟨e', he', hscope, -, hi'⟩ | ⟨rfl, hscope, -⟩
    · exact Or.inl (Or.inl ⟨e', he', congrArg (·.1) hscope, hi'⟩)
    · have htenant : e.tenant_id = row.tenant_id := congrArg (·.1) hscope
      rw [htenant]
      exact Or.inr ⟨hrow, habout⟩
  · rw [hlinks] at hl
    exact Or.inl (Or.inr ⟨l, hl, hrest⟩)

theorem pick_rows_belong {db : Db K} {ids : List UUID} {row : GraphRow}
    (h : row ∈ pick_rows ids (ungraphed_private db) ∨ row ∈ pick_rows ids (ungraphed_org db)) :
    db.belongs row.id row.tenant_id := by
  rcases h with h | h
  · obtain ⟨r, hr, rfl⟩ := List.mem_map.mp (mem_pick_rows h)
    exact Or.inl ⟨r, (List.mem_filter.mp hr).1, rfl, rfl⟩
  · obtain ⟨q, hq, rfl⟩ := List.mem_map.mp (mem_pick_rows h)
    exact Or.inr ⟨q, (List.mem_filter.mp hq).1, rfl, rfl⟩

/-- The INSERT of a link refers to its two memories. -/
theorem upsert_memory_link_refers {memory_id tenant_id : UUID} {similar : UUID × K} {db : Db K}
    {i t : UUID} (h : (upsert_memory_link memory_id tenant_id similar db).refers i t) :
    db.refers i t ∨ (tenant_id = t ∧ (memory_id = i ∨ similar.1 = i)) := by
  rcases h with hentity | ⟨l, hl, rfl, hends⟩
  · exact Or.inl (Or.inl hentity)
  · rcases mem_insert_link hl with hl | rfl
    · rcases mem_insert_link hl with hl | rfl
      · exact Or.inl (Or.inr ⟨l, hl, rfl, hends⟩)
      · exact Or.inr ⟨rfl, hends⟩
    · exact Or.inr ⟨rfl, hends.symm⟩

/-- What a statement of an operation does to the tables. -/
theorem worker_step_db [Field K] [LinearOrder K] {o : Outside K} {cfg : Settings}
    {now : Timestamp} {ids : List UUID} {db db' : Db K} {w w' : Worker K}
    (hstep : worker_step o cfg now ids db w = some (db', w')) :
    db' = db ∨ (∃ row, db' = graph_transaction o cfg now db row) ∨
      (∃ id v, db' = write_embedding .hindsight_memories id v db) ∨
      ∃ memory_id tenant_id similar, db' = upsert_memory_link memory_id tenant_id similar db := by
  cases w with
  | private_rows rows | org_rows rows =>
    cases rows with
    | nil =>
      cases hstep
      exact Or.inl rfl
    | cons row rows =>
      cases hstep
      exact Or.inr (Or.inl ⟨row, rfl⟩)
  | claimed memory_id tenant_id agent_id text_to_embed =>
    simp only [worker_step] at hstep
    split at hstep
    · cases hstep
      exact Or.inl rfl
    · cases hstep
      exact Or.inr (Or.inr (Or.inl ⟨memory_id, _, rfl⟩))
  | embedded memory_id tenant_id agent_id embedding =>
    cases hstep
    exact Or.inl rfl
  | linking memory_id tenant_id similar_rows =>
    cases similar_rows with
    | nil =>
      cases hstep
      exact Or.inl rfl
    | cons similar similar_rows =>
      cases hstep
      exact Or.inr (Or.inr (Or.inr ⟨memory_id, tenant_id, similar, rfl⟩))
  | finished => cases hstep

theorem worker_step_advances [Field K] [LinearOrder K] {o : Outside K} {cfg : Settings}
    {now : Timestamp} {ids : List UUID} {db db' : Db K} {w w' : Worker K} (h : db.Owned)
    (howner : ∀ key ∈ w.owner, key ∈ db.agent_keys)
    (hstep : worker_step o cfg now ids db w = some (db', w')) : Advances db w db' w' := by
  cases w with
  | private_rows rows =>
    cases rows with
    | nil =>
      cases hstep
      refine advances_of_keys h rfl rfl (List.Sublist.refl _) (List.Sublist.refl _) rfl rfl
        (fun hi => ?_) (fun _ hkey => hkey)
      obtain ⟨row, hrow, rfl, rfl⟩ := hi
      exact Or.inr (pick_rows_belong (Or.inr hrow))
    | cons row rows =>
      cases hstep
      refine graph_transaction_advances h o cfg now row ⟨row, List.mem_cons_self, rfl, rfl⟩
        List.mem_cons_self (fun hi => ?_) (fun _ hkey => hkey)
      obtain ⟨row', hrow', hrest⟩ := hi
      exact Or.inl ⟨row', List.mem_cons_of_mem _ hrow', hrest⟩
  | org_rows rows =>
    cases rows with
    | nil =>
      cases hstep
      exact advances_of_keys h rfl rfl (List.Sublist.refl _) (List.Sublist.refl _) rfl rfl
        (fun hi => hi.elim) (fun _ hkey => hkey)
    | cons row rows =>
      cases hstep
      refine graph_transaction_advances h o cfg now row ⟨row, List.mem_cons_self, rfl, rfl⟩
        List.mem_cons_self (fun hi => ?_) (fun _ hkey => hkey)
      obtain ⟨row', hrow', hrest⟩ := hi
      exact Or.inl ⟨row', List.mem_cons_of_mem _ hrow', hrest⟩
  | claimed memory_id tenant_id agent_id text_to_embed =>
    simp only [worker_step] at hstep
    split at hstep
    · cases hstep
      exact advances_of_keys h rfl rfl (List.Sublist.refl _) (List.Sublist.refl _) rfl rfl
        (fun hi => hi.elim) (fun _ hkey => by cases hkey)
    · cases hstep
      refine advances_of_keys h rfl rfl ?_ (List.Sublist.refl _) rfl rfl
        (fun hi => Or.inl hi) (fun _ hkey => hkey)
      exact rows.sublist_update (g := HindsightMemory.keys) (by intro r; rfl) _ _
  | embedded memory_id tenant_id agent_id embedding =>
    cases hstep
    refine advances_of_keys h rfl rfl (List.Sublist.refl _) (List.Sublist.refl _) rfl rfl
      (fun hi => ?_) (fun _ hkey => by cases hkey)
    obtain ⟨rfl, rfl | ⟨similar, hsimilar, rfl⟩⟩ := hi
    · exact Or.inl ⟨rfl, rfl⟩
    · obtain ⟨r, hr, hid, hagent, -⟩ := find_similar_memories_mem hsimilar
      have hkey := howner (agent_id, tenant_id) rfl
      have hsame := List.inj_on_of_nodup_map h.agents_nodup (h.owned r hr) hkey hagent
      exact Or.inr (Or.inl ⟨r, hr, hid, congrArg Prod.snd hsame⟩)
  | linking memory_id tenant_id similar_rows =>
    cases similar_rows with
    | nil =>
      cases hstep
      exact advances_of_keys h rfl rfl (List.Sublist.refl _) (List.Sublist.refl _) rfl rfl
        (fun hi => hi.elim) (fun _ hkey => hkey)
    | cons similar similar_rows =>
      cases hstep
      have hkept : (upsert_memory_link memory_id tenant_id similar db).Owned :=
        h.of_sublist (le_refl _) rfl (List.Sublist.refl _) (List.Sublist.refl _)
      refine ⟨hkept, rfl, rfl, fun hi => hi, fun hr => ?_, fun hi => ?_, fun _ hkey => hkey⟩
      · rcases upsert_memory_link_refers hr with hr | ⟨rfl, rfl | rfl⟩
        · exact Or.inl hr
        · exact Or.inr ⟨⟨rfl, Or.inl rfl⟩, List.mem_cons_self⟩
        · refine Or.inr ⟨⟨rfl, Or.inr ⟨similar, List.mem_cons_self, rfl⟩⟩, ?_⟩
          exact List.mem_cons_of_mem _ List.mem_cons_self
      · obtain ⟨rfl, rfl | ⟨x, hx, rfl⟩⟩ := hi
        · exact Or.inl ⟨rfl, Or.inl rfl⟩
        · exact Or.inl ⟨rfl, Or.inr ⟨x, List.mem_cons_of_mem _ hx, rfl⟩⟩
  | finished => cases hstep

theorem worker_stop_advances {db : Db K} (h : db.Owned) (w : Worker K) :
    Advances db w (worker_stop db w) .finished := by
  cases w with
  | claimed memory_id tenant_id agent_id text_to_embed =>
    refine advances_of_keys h rfl rfl ?_ (List.Sublist.refl _) rfl rfl
      (fun hi => hi.elim) (fun _ hkey => by cases hkey)
    exact rows.sublist_update (g := HindsightMemory.keys) (by intro r; rfl) _ _
  | private_rows | org_rows | embedded | linking | finished =>
    exact advances_of_keys h rfl rfl (List.Sublist.refl _) (List.Sublist.refl _) rfl rfl
      (fun hi => hi.elim) (fun _ hkey => by cases hkey)

/-! ## What every step keeps -/

theorem GoodForgetting.of_kept {s : Forgetting K} (h : GoodForgetting s) {db' : Db K}
    (hk : s.db.Kept db') : GoodForgetting { s with db := db' } := by
  refine ⟨hk.owned, fun w hw key hkey => ?_, ?_⟩
  · rw [hk.agent_keys]
    exact h.owners w hw key hkey
  · refine h.refs.step (fun {i t} hi => ?_) hk.owned.belongs_unique
      (fun hi => lt_of_lt_of_le hi hk.next_id) hk.owned.belongs_lt (fun hi => Or.inl hi)
      (fun {i t} hr => Or.inl ?_) (fun hg => hg)
    · rcases hk.belongs i t hi with hi | hi
      · exact Or.inl hi
      · exact Or.inr (Nat.not_lt.mpr hi)
    · unfold Forgetting.refs Db.refers at hr
      rw [hk.qortia_entities, hk.memory_links] at hr
      exact hr

/-- An operation starts with what it reads. -/
theorem GoodForgetting.start {s : Forgetting K} (h : GoodForgetting s) {w : Worker K}
    (hholds : ∀ {i t}, w.holds i t → s.db.belongs i t)
    (howner : ∀ key ∈ w.owner, key ∈ s.db.agent_keys) :
    GoodForgetting { s with workers := s.workers ++ [w] } := by
  refine ⟨h.owned, fun x hx key hkey => ?_, ?_⟩
  · rcases List.mem_append.mp hx with hx | hx
    · exact h.owners x hx key hkey
    · rw [List.mem_singleton.mp hx] at hkey
      exact howner key hkey
  · refine h.refs.step (fun hi => Or.inl hi) h.owned.belongs_unique (fun hi => hi)
      h.owned.belongs_lt (fun {i t} hi => ?_) (fun hr => Or.inl hr) (fun hg => hg)
    obtain ⟨x, hx, hi⟩ := hi
    rcases List.mem_append.mp hx with hx | hx
    · exact Or.inl ⟨x, hx, hi⟩
    · rw [List.mem_singleton.mp hx] at hi
      exact Or.inr (hholds hi)

theorem GoodForgetting.advance {s : Forgetting K} (h : GoodForgetting s) {i : Nat}
    {w w' : Worker K} {db' : Db K} (hw : s.workers[i]? = some w)
    (hadv : Advances s.db w db' w')
    (hrefers : ∀ {j t}, db'.refers j t → s.db.refers j t ∨ (w.holds j t ∧ ¬ s.gone j)) :
    GoodForgetting { s with db := db', workers := s.workers.set i w' } := by
  have hmem := List.mem_of_getElem? hw
  refine ⟨hadv.owned, fun x hx key hkey => ?_, ?_⟩
  · rw [hadv.agent_keys]
    rcases List.mem_or_eq_of_mem_set hx with hx | rfl
    · exact h.owners x hx key hkey
    · exact h.owners w hmem key (hadv.owner key hkey)
  · refine h.refs.step (fun hi => Or.inl (hadv.belongs hi)) hadv.owned.belongs_unique
      (fun hi => ?_) hadv.owned.belongs_lt (fun {j t} hi => ?_) (fun {j t} hr => ?_) (fun hg => hg)
    · exact lt_of_lt_of_eq hi hadv.next_id.symm
    · obtain ⟨x, hx, hi⟩ := hi
      rcases List.mem_or_eq_of_mem_set hx with hx | rfl
      · exact Or.inl ⟨x, hx, hi⟩
      · rcases hadv.holds hi with hi | hi
        · exact Or.inl ⟨w, hmem, hi⟩
        · exact Or.inr hi
    · rcases hrefers hr with hr | ⟨hheld, hlive⟩
      · exact Or.inl hr
      · exact Or.inr ⟨⟨w, hmem, hheld⟩, hlive⟩

theorem belongs_of_doc {db : Db K} {d : GraphDoc} (h : d ∈ db.docs) :
    db.belongs d.id d.scope.1 := by
  rcases h with ⟨r, hr, rfl⟩ | ⟨q, hq, rfl⟩
  · exact Or.inl ⟨r, hr, rfl, rfl⟩
  · exact Or.inr ⟨q, hq, rfl, rfl⟩

theorem doc_of_belongs {db : Db K} {i t : UUID} (h : db.belongs i t) :
    ∃ d ∈ db.docs, d.id = i ∧ d.scope.1 = t := by
  rcases h with ⟨r, hr, rfl, rfl⟩ | ⟨q, hq, rfl, rfl⟩
  · exact ⟨r.doc, HindsightMemory.mem_docs hr, rfl, rfl⟩
  · exact ⟨q.doc, OrgMemory.mem_docs hq, rfl, rfl⟩

theorem unlink_memory_refers {tenant_id id : UUID} {now : Timestamp} {db : Db K} {i t : UUID}
    (h : (unlink_memory tenant_id id now db).refers i t) :
    db.refers i t ∧ ¬ (i = id ∧ t = tenant_id) := by
  rcases h with ⟨x, hx, rfl, hi⟩ | ⟨l, hl, rfl, hends⟩
  · obtain ⟨e, he, ⟨-, rfl⟩ | ⟨hp, rfl⟩⟩ := rows.mem_update.mp hx
    · obtain ⟨hi, hne⟩ := List.mem_filter.mp hi
      exact ⟨Or.inl ⟨e, he, rfl, hi⟩, fun heq => of_decide_eq_true hne heq.1⟩
    · refine ⟨Or.inl ⟨x, he, rfl, hi⟩, ?_⟩
      rintro ⟨rfl, htenant⟩
      simp [hi, htenant] at hp
  · obtain ⟨hl, hp⟩ := rows.mem_delete.mp hl
    refine ⟨Or.inr ⟨l, hl, rfl, hends⟩, ?_⟩
    rintro ⟨rfl, htenant⟩
    simp only [htenant, decide_true, Bool.and_true, Bool.or_eq_false_iff,
      decide_eq_false_iff_not] at hp
    exact hends.elim hp.1 hp.2

theorem GoodForgetting.forget {s : Forgetting K} (h : GoodForgetting s) {o : Outside K}
    {agent : AgentIdentity} {now : Timestamp} {id : UUID} {db' : Db K}
    (hreq : qortia.forget o agent now id s.db = .ok db') :
    GoodForgetting { s with db := db', forgotten := s.forgotten ++ [(id, s.workers.length)] } := by
  have howned := forget_owned h.owned hreq
  obtain ⟨hactive, table, content, hfound, rfl⟩ := forget_eq hreq
  obtain ⟨⟨d₀, hd₀, rfl, htenant⟩, hdocs⟩ := find_forgotten_doc h.owned hactive hfound
  have hkeys : (delete_memory table d₀.id s.db).agent_keys = s.db.agent_keys := by
    cases table <;> rfl
  refine ⟨howned, fun w hw key hkey => ?_, ?_⟩
  · have hold := h.owners w hw key hkey
    rw [← hkeys] at hold
    exact hold
  · have hwas := belongs_of_doc hd₀
    rw [htenant] at hwas
    refine h.refs.delete hwas (fun {i t} hi => ?_) (fun {i t} hr => ?_) (fun hi => hi) ?_
      (fun {i} hg => ?_)
    · have hi : (delete_memory table d₀.id s.db).belongs i t := hi
      obtain ⟨d, hd, rfl, rfl⟩ := doc_of_belongs hi
      obtain ⟨hd, hne⟩ := (hdocs d).mp hd
      exact ⟨belongs_of_doc hd, hne⟩
    · obtain ⟨hr, hne⟩ := unlink_memory_refers hr
      refine ⟨?_, hne⟩
      cases table <;> exact hr
    · cases table <;> exact Iff.rfl
    · unfold Forgetting.refs Forgetting.gone at hg ⊢
      simp only [List.map_append, List.mem_append, List.map_cons, List.map_nil,
        List.mem_singleton] at hg
      exact hg

theorem claimable_private {db : Db K} {claim : Claim} (h : claim ∈ claimable db)
    (htbl : claim.tbl = .hindsight_memories) :
    ∃ r ∈ db.hindsight_memories, r.id = claim.id ∧ r.tenant_id = claim.tenant_id ∧
      some r.agent_id = claim.agent_id := by
  unfold claimable at h
  rcases List.mem_append.mp h with h | h
  · rcases List.mem_append.mp h with h | h
    · rcases List.mem_append.mp h with h | h
      · obtain ⟨r, hr, rfl⟩ := List.mem_map.mp h
        exact ⟨r, (List.mem_filter.mp hr).1, rfl, rfl, rfl⟩
      · obtain ⟨q, -, rfl⟩ := List.mem_map.mp h
        cases htbl
    · obtain ⟨k, -, rfl⟩ := List.mem_map.mp h
      cases htbl
  · obtain ⟨e, -, rfl⟩ := List.mem_map.mp h
    cases htbl

/-- An embedding starts with a memory that is there, and with its agent. -/
theorem embedding_started [Field K] [LinearOrder K] [HasSqrt K] {o : Outside K} {cfg : Settings}
    {s s' : Forgetting K} {claim : Claim}
    (hstep : forget_step o cfg s (.start_embedding claim) = some s') :
    ∃ r ∈ s.db.hindsight_memories, r.id = claim.id ∧ r.tenant_id = claim.tenant_id ∧
      s' = { s with workers := s.workers ++
        [.claimed claim.id claim.tenant_id r.agent_id claim.text_to_embed] } := by
  simp only [forget_step] at hstep
  split at hstep
  · rename_i agent_id htbl hagent
    split at hstep
    · rename_i hclaim
      cases hstep
      obtain ⟨r, hr, hid, htenant, howner⟩ := claimable_private hclaim htbl
      rw [hagent] at howner
      cases howner
      exact ⟨r, hr, hid, htenant, rfl⟩
    · cases hstep
  · cases hstep

theorem forget_answered [Field K] [LinearOrder K] [HasSqrt K] {o : Outside K} {cfg : Settings}
    {s s' : Forgetting K} {agent : AgentIdentity} {now : Timestamp} {id : UUID}
    (hstep : forget_step o cfg s (.forget agent now id) = some s') :
    s' = s ∨ ∃ db, forget o agent now id s.db = .ok db ∧
      s' = { s with db, forgotten := s.forgotten ++ [(id, s.workers.length)] } := by
  simp only [forget_step] at hstep
  split at hstep
  · rename_i db hreq
    exact Or.inr ⟨db, hreq, (Option.some.inj hstep).symm⟩
  · exact Or.inl (Option.some.inj hstep).symm

theorem worker_advanced [Field K] [LinearOrder K] [HasSqrt K] {o : Outside K} {cfg : Settings}
    {s s' : Forgetting K} {i : Nat} {now : Timestamp} {ids : List UUID}
    (hstep : forget_step o cfg s (.advance i now ids) = some s') :
    ∃ w db w', s.workers[i]? = some w ∧ worker_step o cfg now ids s.db w = some (db, w') ∧
      s' = { s with db, workers := s.workers.set i w' } := by
  obtain ⟨⟨db, w'⟩, hw', rfl⟩ := Option.map_eq_some_iff.mp hstep
  obtain ⟨w, hw, hws⟩ := Option.bind_eq_some_iff.mp hw'
  exact ⟨w, db, w', hw, hws, rfl⟩

theorem forget_step_good [Field K] [LinearOrder K] [HasSqrt K] {o : Outside K} {cfg : Settings}
    {s s' : Forgetting K} {a : ForgetAction} (h : GoodForgetting s) (hok : RefersToTheLiving s a)
    (hstep : forget_step o cfg s a = some s') : GoodForgetting s' := by
  cases a with
  | remember agent now choice memories =>
    exact request_keeps h (fun x hx => h.of_kept (remember_keeps h.owned hx)) hstep
  | remember_org agent now body =>
    exact request_keeps h (fun x hx => h.of_kept (remember_org_keeps h.owned hx)) hstep
  | reflect agent now answer failed =>
    exact request_keeps h (fun x hx => h.of_kept (reflect_keeps h.owned hx)) hstep
  | purge_expired now =>
    cases hstep
    exact h.of_kept (purge_keeps h.owned now)
  | forget agent now id =>
    rcases forget_answered hstep with rfl | ⟨db', hreq, rfl⟩
    · exact h
    · exact h.forget hreq
  | start_graph_batch ids =>
    cases hstep
    refine h.start (fun hi => ?_) (fun key hkey => by cases hkey)
    obtain ⟨row, hrow, rfl, rfl⟩ := hi
    exact pick_rows_belong (Or.inl hrow)
  | start_embedding claim =>
    obtain ⟨r, hr, hid, htenant, rfl⟩ := embedding_started hstep
    refine h.start (fun {i t} hi => ?_) (fun key hkey => ?_)
    · obtain ⟨rfl, rfl⟩ := hi
      exact Or.inl ⟨r, hr, hid, htenant⟩
    · cases hkey
      have hkey := h.owned.owned r hr
      rwa [htenant] at hkey
  | advance i now ids =>
    obtain ⟨w, db', w', hw, hws, rfl⟩ := worker_advanced hstep
    have howner := h.owners w (List.mem_of_getElem? hw)
    have hadv := worker_step_advances h.owned howner hws
    refine h.advance hw hadv fun {j t} hr => ?_
    rcases hadv.refers hr with hr | ⟨hheld, habout⟩
    · exact Or.inl hr
    · exact Or.inr ⟨hheld, hok w hw j habout⟩
  | stop i =>
    obtain ⟨w, hw, rfl⟩ := Option.map_eq_some_iff.mp hstep
    refine h.advance hw (worker_stop_advances h.owned w) fun hr => Or.inl ?_
    cases w <;> exact hr

/-- Along every run that starts without memories, a forgotten memory is referred to by nothing once
the operations that were in flight have finished, if none of them refers to a memory that was
forgotten after it read it. -/
theorem a_forget_leaves_no_dangling_reference [Field K] [LinearOrder K] [HasSqrt K]
    (o : Outside K) (cfg : Settings) (db : Db K) (hblank : db.Blank)
    (hagents : (db.qortia_agents.map (·.id)).Nodup) (actions : List ForgetAction)
    (hok : runs.Guarded (forget_step o cfg) RefersToTheLiving { db } actions) :
    runs.Always (forget_step o cfg) NoDanglingReference { db } actions := by
  have hstart : GoodForgetting { db } := by
    have howned := hblank.owned hagents
    have hrefers : ∀ i t, ¬ db.refers i t := by
      intro i t
      simp [Db.refers, hblank.qortia_entities, hblank.memory_links]
    refine ⟨howned, fun w hw => (nomatch hw), ?_⟩
    refine ⟨howned.belongs_lt, fun hr => absurd hr (hrefers _ _), ?_, fun hg => (nomatch hg),
      howned.belongs_unique, fun hr => absurd hr (hrefers _ _), ?_, fun hg => (nomatch hg),
      fun hg => (nomatch hg)⟩
    · rintro i t ⟨w, hw, -⟩
      cases hw
    · rintro i t t' ⟨w, hw, -⟩
      cases hw
  exact runs.always_of_invariant (fun _ h => h.no_dangling)
    (fun _ _ _ h hok hstep => forget_step_good h hok hstep) hstart hok

/-- All texts are similar, and one of them names an entity. -/
def similar_model : Outside ℚ := { one_entity_model with similarity := fun _ _ => 1 }

/-- Two lessons with nearly the same text. -/
def lesson_once : MemoryItem :=
  { type := .lesson, content := wait_once, content_floor := wait_once_words }

def lesson_twice : MemoryItem :=
  { type := .lesson, content := wait_twice, content_floor := wait_twice_words }

/-- The chief writes two memories, and the first one gets its vector. -/
def two_memories : List ForgetAction :=
  [.remember chief 0 0 [lesson_once, lesson_twice],
   .start_embedding ⟨.hindsight_memories, 0, 1, some 20, wait_once⟩,
   .advance 0 1 [], .advance 0 1 [], .advance 0 1 []]

/-- The second one gets its vector and finds the first one to be similar. -/
def similar_found : List ForgetAction :=
  [.start_embedding ⟨.hindsight_memories, 1, 1, some 20, wait_twice⟩,
   .advance 1 2 [], .advance 1 2 []]

def link_and_finish : List ForgetAction := [.advance 1 3 [], .advance 1 3 []]

theorem a_forget_leaves_no_dangling_reference_link :
    runs.Always (forget_step similar_model {}) NoDanglingReference { db := chief_db }
      (two_memories ++ similar_found ++ link_and_finish ++ [.forget chief 4 0]) :=
  a_forget_leaves_no_dangling_reference similar_model {} chief_db chief_db_blank (by decide)
    (two_memories ++ similar_found ++ link_and_finish ++ [.forget chief 4 0]) (by decide +kernel)

/-- The batch reads the first memory, which is forgotten before its transaction. -/
def forget_before_the_graph : List ForgetAction :=
  two_memories ++ [.start_graph_batch [0], .forget chief 4 0,
    .advance 1 5 [], .advance 1 5 [], .advance 1 5 []]

def Worker.is_finished : Worker K → Bool
  | .finished => true
  | _ => false

/-- The operations have finished, and an entity or a link names a forgotten memory. -/
def dangling_reference (s : Forgetting K) : Bool :=
  s.forgotten.any fun f => (s.workers.take f.2).all Worker.is_finished &&
    ((s.db.qortia_entities.any fun e => f.1 ∈ e.linked_memory_ids) ||
      s.db.memory_links.any fun l => l.source_id = f.1 || l.target_id = f.1)

theorem dangling_reference_dangles {s : Forgetting K} (h : dangling_reference s = true) :
    ¬ NoDanglingReference s := by
  intro hnone
  unfold dangling_reference at h
  simp only [List.any_eq_true, List.all_eq_true, Bool.and_eq_true, Bool.or_eq_true,
    decide_eq_true_eq] at h
  obtain ⟨f, hf, hfinished, hrefers⟩ := h
  have hall : ∀ w ∈ s.workers.take f.2, w = .finished := by
    intro w hw
    have hw := hfinished w hw
    cases w with
    | finished => rfl
    | private_rows | org_rows | claimed | embedded | linking => cases hw
  rcases hrefers with ⟨e, he, hlinked⟩ | ⟨l, hl, hends⟩
  · exact hnone f hf hall e.tenant_id (Or.inl ⟨e, he, rfl, hlinked⟩)
  · exact hnone f hf hall l.tenant_id (Or.inr ⟨l, hl, rfl, hends⟩)

/-- A forget between the read and the write of either worker leaves a reference behind. -/
theorem a_forget_in_between_leaves_a_dangling_reference :
    ¬ runs.Always (forget_step similar_model {}) NoDanglingReference { db := chief_db }
        forget_before_the_graph ∧
      ¬ runs.Always (forget_step similar_model {}) NoDanglingReference { db := chief_db }
        (two_memories ++ similar_found ++ [.forget chief 4 0] ++ link_and_finish) :=
  ⟨runs.not_always_of_check (fun _ => dangling_reference_dangles) (by decide +kernel),
    runs.not_always_of_check (fun _ => dangling_reference_dangles) (by decide +kernel)⟩

end qortia
