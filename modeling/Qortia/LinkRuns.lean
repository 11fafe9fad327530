-- The laws of `memory_links` along the runs of `ForgetRuns.lean`: the links stay an undirected
-- graph whatever the order of the steps is, and a link is made between two memories of one agent
-- as long as both are still there when its INSERT runs.
import Qortia.ForgetRuns

namespace qortia

variable {K : Type}

/-! ## What has to hold -/

/-- The link in the other direction. -/
def MemoryLink.mirror (l : MemoryLink K) : MemoryLink K :=
  { l with source_id := l.target_id, target_id := l.source_id }

/-- The links of an undirected graph without loops, between similar memories. -/
structure Undirected [Field K] [LinearOrder K] (links : List (MemoryLink K)) : Prop where
  mirrored : ∀ l, l ∈ links ↔ l.mirror ∈ links
  apart : ∀ l ∈ links, l.source_id ≠ l.target_id
  similar : ∀ l ∈ links, LINK_SIMILARITY_THRESHOLD ≤ l.similarity

/-- Both are ids of memories, and the memories belong to one agent. -/
def Db.same_agent (db : Db K) (a b : UUID) : Prop :=
  ∃ r ∈ db.hindsight_memories, ∃ r' ∈ db.hindsight_memories,
    r.id = a ∧ r'.id = b ∧ r.agent_id = r'.agent_id

instance (db : Db K) (a b : UUID) : Decidable (db.same_agent a b) :=
  inferInstanceAs (Decidable (∃ r ∈ db.hindsight_memories, ∃ r' ∈ db.hindsight_memories,
    r.id = a ∧ r'.id = b ∧ r.agent_id = r'.agent_id))

/-- A link that the step makes is between two memories of one agent that are there. -/
def LinksMemories (s : Forgetting K) (_ : ForgetAction) (s' : Forgetting K) : Prop :=
  ∀ l ∈ s'.db.memory_links, l ∉ s.db.memory_links → s.db.same_agent l.source_id l.target_id

instance [DecidableEq K] (s : Forgetting K) (a : ForgetAction) (s' : Forgetting K) :
    Decidable (LinksMemories s a s') :=
  inferInstanceAs (Decidable (∀ l ∈ s'.db.memory_links, l ∉ s.db.memory_links →
    s.db.same_agent l.source_id l.target_id))

def Db.linked_to (db : Db K) (a b : UUID) : Prop :=
  ∃ l ∈ db.memory_links, l.source_id = a ∧ l.target_id = b

/-- The pair is linked, or both memories are still there. -/
def Db.may_link (db : Db K) (a b : UUID) : Prop :=
  db.linked_to a b ∨
    (∃ r ∈ db.hindsight_memories, r.id = a) ∧ ∃ r ∈ db.hindsight_memories, r.id = b

def Worker.LinksTheLiving (db : Db K) : Worker K → Prop
  | .linking memory_id _ (similar :: _) => db.may_link memory_id similar.1
  | .linking _ _ [] | .private_rows _ | .org_rows _ | .claimed .. | .embedded .. | .finished => True

/-- No INSERT runs for a new pair of which a memory is gone. -/
def LinksTheLiving (s : Forgetting K) : ForgetAction → Prop
  | .advance i _ _ => ∀ w ∈ s.workers[i]?, w.LinksTheLiving s.db
  | .remember .. | .remember_org .. | .reflect .. | .purge_expired .. | .forget ..
  | .start_graph_batch .. | .start_embedding .. | .stop .. => True

/-! ## The INSERT of a pair -/

theorem mem_insert_link_iff {l x : MemoryLink K} {links : List (MemoryLink K)} :
    x ∈ insert_link l links ↔ x ∈ links ∨
      (x = l ∧ ∀ l' ∈ links, l'.source_id = l.source_id → l'.target_id ≠ l.target_id) := by
  unfold insert_link
  split
  · rename_i hany
    obtain ⟨l', hl', hkey⟩ := List.any_eq_true.mp hany
    simp only [Bool.and_eq_true, decide_eq_true_eq] at hkey
    constructor
    · exact Or.inl
    · rintro (h | ⟨-, hnone⟩)
      · exact h
      · exact absurd hkey.2 (hnone l' hl' hkey.1)
  · rename_i hany
    rw [List.mem_append, List.mem_singleton]
    apply or_congr_right
    constructor
    · intro hx
      refine ⟨hx, fun l' hl' hs ht => hany ?_⟩
      exact List.any_eq_true.mpr ⟨l', hl', by simp [hs, ht]⟩
    · exact And.left

section
variable [Field K] [LinearOrder K] {links : List (MemoryLink K)} {l : MemoryLink K}

/-- The two rows of a pair conflict together or not at all. -/
theorem Undirected.mem_insert_pair (h : Undirected links) (hne : l.source_id ≠ l.target_id)
    {x : MemoryLink K} :
    x ∈ insert_link l.mirror (insert_link l links) ↔ x ∈ links ∨
      ((x = l ∨ x = l.mirror) ∧
        ∀ l' ∈ links, l'.source_id = l.source_id → l'.target_id ≠ l.target_id) := by
  have hmirror : (∀ l' ∈ links, l'.source_id = l.mirror.source_id →
      l'.target_id ≠ l.mirror.target_id) ↔
        ∀ l' ∈ links, l'.source_id = l.source_id → l'.target_id ≠ l.target_id := by
    constructor
    · intro hnone l' hl' hs ht
      exact hnone l'.mirror ((h.mirrored l').mp hl') ht hs
    · intro hnone l' hl' hs ht
      exact hnone l'.mirror ((h.mirrored l').mp hl') ht hs
  rw [mem_insert_link_iff, mem_insert_link_iff]
  constructor
  · rintro ((hx | ⟨rfl, hnone⟩) | ⟨rfl, hnone⟩)
    · exact Or.inl hx
    · exact Or.inr ⟨Or.inl rfl, hnone⟩
    · refine Or.inr ⟨Or.inr rfl, hmirror.mp fun l' hl' => ?_⟩
      exact hnone l' (mem_insert_link_iff.mpr (Or.inl hl'))
  · rintro (hx | ⟨rfl | rfl, hnone⟩)
    · exact Or.inl (Or.inl hx)
    · exact Or.inl (Or.inr ⟨rfl, hnone⟩)
    · refine Or.inr ⟨rfl, fun l' hl' => ?_⟩
      rcases mem_insert_link_iff.mp hl' with hl' | ⟨rfl, -⟩
      · exact hmirror.mpr hnone l' hl'
      · intro hs
        exact absurd hs hne

theorem Undirected.insert_pair (h : Undirected links) (hne : l.source_id ≠ l.target_id)
    (hsimilar : LINK_SIMILARITY_THRESHOLD ≤ l.similarity) :
    Undirected (insert_link l.mirror (insert_link l links)) := by
  have hmem {x : MemoryLink K} := h.mem_insert_pair hne (x := x)
  refine ⟨fun x => ?_, fun x hx => ?_, fun x hx => ?_⟩
  · rw [hmem, hmem, h.mirrored x]
    apply or_congr_right
    apply and_congr_left
    intro _
    constructor
    · rintro (rfl | rfl)
      · exact Or.inr rfl
      · exact Or.inl rfl
    · rintro (hx | hx)
      · exact Or.inr (congrArg MemoryLink.mirror hx)
      · exact Or.inl (congrArg MemoryLink.mirror hx)
  · rcases hmem.mp hx with hx | ⟨rfl | rfl, -⟩
    · exact h.apart x hx
    · exact hne
    · exact Ne.symm hne
  · rcases hmem.mp hx with hx | ⟨rfl | rfl, -⟩
    · exact h.similar x hx
    · exact hsimilar
    · exact hsimilar

/-- A forget takes a link together with its mirror. -/
theorem Undirected.delete_memory (h : Undirected links) (tenant_id id : UUID) :
    Undirected (rows.delete
      (fun l => (l.source_id = id || l.target_id = id) && l.tenant_id = tenant_id) links) := by
  refine ⟨fun x => ?_, fun x hx => h.apart x (rows.mem_delete.mp hx).1,
    fun x hx => h.similar x (rows.mem_delete.mp hx).1⟩
  rw [rows.mem_delete, rows.mem_delete, ← h.mirrored x]
  apply and_congr_right
  intro _
  rw [Bool.or_comm]
  exact Iff.rfl

end

/-! ## Memories keep their agents -/

/-- The id is drawn, and a memory with it belongs to the agent. -/
structure Db.of_agent (db : Db K) (agent_id id : UUID) : Prop where
  drawn : id < db.next_id
  agent : ∀ r ∈ db.hindsight_memories, r.id = id → r.agent_id = agent_id

/-- A memory that is there after the step was there before with the same agent, or is new. -/
structure Db.KeepsAgents (db db' : Db K) : Prop where
  next_id : db.next_id ≤ db'.next_id
  memories : ∀ r ∈ db'.hindsight_memories,
    (∃ r₀ ∈ db.hindsight_memories, r₀.id = r.id ∧ r₀.agent_id = r.agent_id) ∨ db.next_id ≤ r.id

theorem Db.KeepsAgents.refl (db : Db K) : db.KeepsAgents db :=
  ⟨le_refl _, fun r hr => Or.inl ⟨r, hr, rfl, rfl⟩⟩

theorem Db.KeepsAgents.trans {db db' db'' : Db K} (h : db.KeepsAgents db')
    (h' : db'.KeepsAgents db'') : db.KeepsAgents db'' := by
  refine ⟨h.next_id.trans h'.next_id, fun r hr => ?_⟩
  rcases h'.memories r hr with ⟨r₀, hr₀, hid, hagent⟩ | hnew
  · rw [← hid, ← hagent]
    exact h.memories r₀ hr₀
  · exact Or.inr (h.next_id.trans hnew)

theorem keeps_agents_of_sublist {db db' : Db K} (hle : db.next_id ≤ db'.next_id)
    (hprivate : (db'.hindsight_memories.map (·.keys)).Sublist
      (db.hindsight_memories.map (·.keys))) : db.KeepsAgents db' := by
  refine ⟨hle, fun r hr => Or.inl ?_⟩
  obtain ⟨r₀, hr₀, hkeys⟩ := List.mem_map.mp (hprivate.subset (List.mem_map_of_mem hr))
  exact ⟨r₀, hr₀, congrArg (·.1) hkeys, congrArg (·.2.1) hkeys⟩

theorem keeps_agents_insert {db : Db K} {r : HindsightMemory K} (hid : r.id = db.next_id)
    (history : List MemoryHistory) : db.KeepsAgents (insert_memory r history db) := by
  refine ⟨Nat.le_succ _, fun x hx => ?_⟩
  rcases List.mem_append.mp hx with hx | hx
  · exact Or.inl ⟨x, hx, rfl, rfl⟩
  · rw [List.mem_singleton.mp hx, hid]
    exact Or.inr (le_refl _)

theorem Db.of_agent.kept {db db' : Db K} {agent_id id : UUID} (h : db.of_agent agent_id id)
    (hk : db.KeepsAgents db') : db'.of_agent agent_id id := by
  refine ⟨lt_of_lt_of_le h.drawn hk.next_id, fun r hr hid => ?_⟩
  rcases hk.memories r hr with ⟨r₀, hr₀, hid₀, hagent⟩ | hnew
  · rw [← hagent]
    exact h.agent r₀ hr₀ (hid₀.trans hid)
  · have hlt := h.drawn
    rw [hid] at hnew
    exact absurd hlt (Nat.not_lt.mpr hnew)

theorem Db.Keyed.of_agent {db : Db K} (h : db.Keyed) {r : HindsightMemory K}
    (hr : r ∈ db.hindsight_memories) : db.of_agent r.agent_id r.id := by
  refine ⟨h.hindsight_lt r hr, fun r' hr' hid => ?_⟩
  rw [List.inj_on_of_nodup_map h.hindsight_nodup hr' hr hid]

theorem remember_keeps_agents {db db' : Db K} {o : Outside K} {agent : AgentIdentity}
    {now : Timestamp} {choice : Nat} {memories : List MemoryItem} {ids : List UUID}
    (hreq : remember o agent now choice memories db = .ok (db', ids)) : db.KeepsAgents db' := by
  refine remember_preserves hreq (fun db₁ mem expires_at hdb₁ => ?_) (fun db₁ n hdb₁ => ?_)
    (.refl db)
  · exact hdb₁.trans (keeps_agents_insert rfl _)
  · exact hdb₁.trans (keeps_agents_of_sublist (le_refl _) (List.Sublist.refl _))

theorem remember_org_keeps_agents {db db' : Db K} {o : Outside K} {agent : AgentIdentity}
    {now : Timestamp} {body : RememberOrgRequest} {row_id : UUID}
    (hreq : remember_org o agent now body db = .ok (db', row_id)) : db.KeepsAgents db' := by
  obtain ⟨-, history, rfl⟩ := remember_org_ok hreq
  exact keeps_agents_of_sublist (Nat.le_succ _) (List.Sublist.refl _)

theorem reflect_keeps_agents [Field K] [LinearOrder K] [HasSqrt K] {db db' : Db K}
    {o : Outside K} {cfg : Settings} {agent : AgentIdentity} {now : Timestamp}
    {answer : Except Failure (List Reflection)} {failed : List Nat} {n : Nat}
    {counter : Option Int}
    (hreq : reflect o cfg agent now answer failed db = .ok (db', n, counter)) :
    db.KeepsAgents db' := by
  refine reflect_preserves hreq (fun db₁ ids st hdb₁ => hdb₁.trans ?_) (fun db₁ hdb₁ => ?_)
    (fun db₁ history hdb₁ => ?_) (.refl db)
  · cases st with
    | prune ids' =>
      refine keeps_agents_of_sublist (le_refl _) ?_
      exact rows.sublist_update (g := HindsightMemory.keys) (by intro r; rfl) _ _
    | supersede id =>
      refine keeps_agents_of_sublist (le_refl _) ?_
      exact rows.sublist_update (g := HindsightMemory.keys) (by intro r; rfl) _ _
    | insert => exact keeps_agents_insert rfl db₁.memory_history
  · exact hdb₁.trans (keeps_agents_of_sublist (le_refl _) (List.Sublist.refl _))
  · exact hdb₁.trans (keeps_agents_of_sublist (le_refl _) (List.Sublist.refl _))

theorem forget_keeps_agents {db db' : Db K} {o : Outside K} {agent : AgentIdentity}
    {now : Timestamp} {id : UUID} (hreq : forget o agent now id db = .ok db') :
    db.KeepsAgents db' := by
  obtain ⟨-, table, content, -, rfl⟩ := forget_eq hreq
  cases table with
  | hindsight_memories => exact keeps_agents_of_sublist (le_refl _) (List.filter_sublist.map _)
  | org_memory => exact keeps_agents_of_sublist (le_refl _) (List.Sublist.refl _)
  | org_knowledge => exact keeps_agents_of_sublist (le_refl _) (List.Sublist.refl _)

/-! ## What the operations hold -/

/-- An operation that makes links holds memories of one agent, and pairs that are similar and
apart. -/
def Worker.HoldsOneAgent [Field K] [LinearOrder K] (db : Db K) : Worker K → Prop
  | .claimed memory_id _ agent_id _ | .embedded memory_id _ agent_id _ =>
    db.of_agent agent_id memory_id
  | .linking memory_id _ similar_rows =>
    ∃ agent_id, db.of_agent agent_id memory_id ∧ ∀ similar ∈ similar_rows,
      db.of_agent agent_id similar.1 ∧ memory_id ≠ similar.1 ∧
        LINK_SIMILARITY_THRESHOLD ≤ similar.2
  | .private_rows _ | .org_rows _ | .finished => True

theorem Worker.HoldsOneAgent.kept [Field K] [LinearOrder K] {db db' : Db K} {w : Worker K}
    (h : w.HoldsOneAgent db) (hk : db.KeepsAgents db') : w.HoldsOneAgent db' := by
  cases w with
  | claimed | embedded => exact Db.of_agent.kept h hk
  | linking memory_id tenant_id similar_rows =>
    obtain ⟨agent_id, hmemory, hsimilar⟩ := h
    refine ⟨agent_id, hmemory.kept hk, fun similar hs => ?_⟩
    obtain ⟨hof, hrest⟩ := hsimilar similar hs
    exact ⟨hof.kept hk, hrest⟩
  | private_rows | org_rows | finished => trivial

structure GoodLinks [Field K] [LinearOrder K] (s : Forgetting K) : Prop where
  owned : s.db.Owned
  owners : ∀ w ∈ s.workers, ∀ key ∈ w.owner, key ∈ s.db.agent_keys
  workers : ∀ w ∈ s.workers, w.HoldsOneAgent s.db
  links : Undirected s.db.memory_links

/-! ## The steps -/

section
variable [Field K] [LinearOrder K]

theorem worker_step_keeps_agents {o : Outside K} {cfg : Settings} {now : Timestamp}
    {ids : List UUID} {db db' : Db K} {w w' : Worker K}
    (hstep : worker_step o cfg now ids db w = some (db', w')) : db.KeepsAgents db' := by
  rcases worker_step_db hstep with rfl | ⟨row, rfl⟩ | ⟨id, v, rfl⟩ | ⟨_, _, _, rfl⟩
  · exact .refl _
  · obtain ⟨-, hnext, -, -⟩ := transaction_frame o cfg now db row
    exact keeps_agents_of_sublist (Nat.le_of_eq hnext.symm) (transaction_keys o cfg now db row).1
  · refine keeps_agents_of_sublist (le_refl _) ?_
    exact rows.sublist_update (g := HindsightMemory.keys) (by intro r; rfl) _ _
  · exact keeps_agents_of_sublist (le_refl _) (List.Sublist.refl _)

/-- An operation that goes on holds memories of one agent. -/
theorem worker_step_holds {o : Outside K} {cfg : Settings} {now : Timestamp} {ids : List UUID}
    {db db' : Db K} {w w' : Worker K} (hkeyed : db.Keyed) (h : w.HoldsOneAgent db)
    (hstep : worker_step o cfg now ids db w = some (db', w')) : w'.HoldsOneAgent db' := by
  have hk := worker_step_keeps_agents hstep
  cases w with
  | private_rows rows => cases rows <;> cases hstep <;> trivial
  | org_rows rows => cases rows <;> cases hstep <;> trivial
  | claimed memory_id tenant_id agent_id text_to_embed =>
    simp only [worker_step] at hstep
    split at hstep
    · cases hstep
      trivial
    · cases hstep
      exact Db.of_agent.kept h hk
  | embedded memory_id tenant_id agent_id embedding =>
    cases hstep
    refine ⟨agent_id, h, fun similar hs => ?_⟩
    obtain ⟨r, hr, hid, hagent, hpair⟩ := find_similar_memories_mem hs
    have hof := hkeyed.of_agent hr
    rw [hid, hagent] at hof
    exact ⟨hof, hpair⟩
  | linking memory_id tenant_id similar_rows =>
    cases similar_rows with
    | nil =>
      cases hstep
      trivial
    | cons similar similar_rows =>
      cases hstep
      obtain ⟨agent_id, hmemory, hsimilar⟩ := h
      refine ⟨agent_id, hmemory.kept hk, fun x hx => ?_⟩
      obtain ⟨hof, hrest⟩ := hsimilar x (List.mem_cons_of_mem _ hx)
      exact ⟨hof.kept hk, hrest⟩
  | finished => cases hstep

/-- The links change in the INSERT of a pair only. -/
theorem worker_step_links {o : Outside K} {cfg : Settings} {now : Timestamp} {ids : List UUID}
    {db db' : Db K} {w w' : Worker K} (hstep : worker_step o cfg now ids db w = some (db', w')) :
    (db'.memory_links = db.memory_links ∧ w.LinksTheLiving db) ∨
      ∃ memory_id tenant_id similar similar_rows,
        w = .linking memory_id tenant_id (similar :: similar_rows) ∧
          db' = upsert_memory_link memory_id tenant_id similar db := by
  cases w with
  | private_rows rows =>
    cases rows with
    | nil =>
      cases hstep
      exact Or.inl ⟨rfl, trivial⟩
    | cons row rows =>
      cases hstep
      exact Or.inl ⟨(transaction_frame o cfg now db row).2.2.1, trivial⟩
  | org_rows rows =>
    cases rows with
    | nil =>
      cases hstep
      exact Or.inl ⟨rfl, trivial⟩
    | cons row rows =>
      cases hstep
      exact Or.inl ⟨(transaction_frame o cfg now db row).2.2.1, trivial⟩
  | claimed memory_id tenant_id agent_id text_to_embed =>
    simp only [worker_step] at hstep
    split at hstep
    · cases hstep
      exact Or.inl ⟨rfl, trivial⟩
    · cases hstep
      exact Or.inl ⟨rfl, trivial⟩
  | embedded memory_id tenant_id agent_id embedding =>
    cases hstep
    exact Or.inl ⟨rfl, trivial⟩
  | linking memory_id tenant_id similar_rows =>
    cases similar_rows with
    | nil =>
      cases hstep
      exact Or.inl ⟨rfl, trivial⟩
    | cons similar similar_rows =>
      cases hstep
      exact Or.inr ⟨memory_id, tenant_id, similar, similar_rows, rfl, rfl⟩
  | finished => cases hstep

/-- The INSERT of a pair is between memories of one agent exactly when the pair is linked or both
memories are there. -/
theorem upsert_links_memories_iff {db : Db K} (hlinks : Undirected db.memory_links)
    {agent_id memory_id tenant_id : UUID} {similar : UUID × K}
    (hmemory : db.of_agent agent_id memory_id) (hsimilar : db.of_agent agent_id similar.1)
    (hne : memory_id ≠ similar.1) :
    (∀ l ∈ (upsert_memory_link memory_id tenant_id similar db).memory_links,
        l ∉ db.memory_links → db.same_agent l.source_id l.target_id) ↔
      db.may_link memory_id similar.1 := by
  have hmem {x : MemoryLink K} := hlinks.mem_insert_pair
    (l := ⟨tenant_id, memory_id, similar.1, similar.2⟩) hne (x := x)
  constructor
  · intro h
    by_cases hlinked : db.linked_to memory_id similar.1
    · exact Or.inl hlinked
    · have hnone : ∀ l ∈ db.memory_links, l.source_id = memory_id → l.target_id ≠ similar.1 :=
        fun l hl hs ht => hlinked ⟨l, hl, hs, ht⟩
      obtain ⟨r, hr, r', hr', hid, hid', -⟩ :=
        h ⟨tenant_id, memory_id, similar.1, similar.2⟩ (hmem.mpr (Or.inr ⟨Or.inl rfl, hnone⟩))
          (fun hl => hnone _ hl rfl rfl)
      exact Or.inr ⟨⟨r, hr, hid⟩, r', hr', hid'⟩
  · intro h l hl hnew
    rcases hmem.mp hl with hold | ⟨hpair, hnone⟩
    · exact absurd hold hnew
    · rcases h with ⟨l', hl', hs, ht⟩ | ⟨⟨r, hr, hid⟩, r', hr', hid'⟩
      · exact absurd ht (hnone l' hl' hs)
      · have hagent : r.agent_id = r'.agent_id := by
          rw [hmemory.agent r hr hid, hsimilar.agent r' hr' hid']
        rcases hpair with rfl | rfl
        · exact ⟨r, hr, r', hr', hid, hid', hagent⟩
        · exact ⟨r', hr', r, hr, hid', hid, hagent.symm⟩

/-- A request keeps the agents and takes links only in pairs. -/
theorem GoodLinks.of_request {s : Forgetting K} (h : GoodLinks s) {db' : Db K}
    (howned : db'.Owned) (hagents : db'.agent_keys = s.db.agent_keys)
    (hk : s.db.KeepsAgents db') (hlinks : Undirected db'.memory_links)
    (forgotten : List (UUID × Nat)) :
    GoodLinks { s with db := db', forgotten := forgotten } := by
  refine ⟨howned, fun w hw key hkey => ?_, fun w hw => (h.workers w hw).kept hk, hlinks⟩
  rw [hagents]
  exact h.owners w hw key hkey

theorem GoodLinks.of_kept {s : Forgetting K} (h : GoodLinks s) {db' : Db K}
    (hkept : s.db.Kept db') (hk : s.db.KeepsAgents db') : GoodLinks { s with db := db' } := by
  refine h.of_request hkept.owned hkept.agent_keys hk ?_ s.forgotten
  rw [hkept.memory_links]
  exact h.links

theorem GoodLinks.start {s : Forgetting K} (h : GoodLinks s) {w : Worker K}
    (howner : ∀ key ∈ w.owner, key ∈ s.db.agent_keys) (hw : w.HoldsOneAgent s.db) :
    GoodLinks { s with workers := s.workers ++ [w] } := by
  refine ⟨h.owned, fun x hx key hkey => ?_, fun x hx => ?_, h.links⟩
  · rcases List.mem_append.mp hx with hx | hx
    · exact h.owners x hx key hkey
    · rw [List.mem_singleton.mp hx] at hkey
      exact howner key hkey
  · rcases List.mem_append.mp hx with hx | hx
    · exact h.workers x hx
    · rw [List.mem_singleton.mp hx]
      exact hw

theorem GoodLinks.advance {s : Forgetting K} (h : GoodLinks s) {i : Nat} {w w' : Worker K}
    {db' : Db K} (hw : s.workers[i]? = some w) (hadv : Advances s.db w db' w')
    (hk : s.db.KeepsAgents db') (hw' : w'.HoldsOneAgent db')
    (hlinks : Undirected db'.memory_links) :
    GoodLinks { s with db := db', workers := s.workers.set i w' } := by
  refine ⟨hadv.owned, fun x hx key hkey => ?_, fun x hx => ?_, hlinks⟩
  · rw [hadv.agent_keys]
    rcases List.mem_or_eq_of_mem_set hx with hx | rfl
    · exact h.owners x hx key hkey
    · exact h.owners w (List.mem_of_getElem? hw) key (hadv.owner key hkey)
  · rcases List.mem_or_eq_of_mem_set hx with hx | rfl
    · exact (h.workers x hx).kept hk
    · exact hw'

omit [Field K] [LinearOrder K] in
theorem worker_stop_keeps_agents (db : Db K) (w : Worker K) :
    db.KeepsAgents (worker_stop db w) ∧ (worker_stop db w).memory_links = db.memory_links := by
  cases w with
  | claimed memory_id tenant_id agent_id text_to_embed =>
    refine ⟨keeps_agents_of_sublist (le_refl _) ?_, rfl⟩
    exact rows.sublist_update (g := HindsightMemory.keys) (by intro r; rfl) _ _
  | private_rows | org_rows | embedded | linking | finished => exact ⟨.refl db, rfl⟩

omit [Field K] [LinearOrder K] in
theorem links_memories_of_subset {s s' : Forgetting K} (a : ForgetAction)
    (h : s'.db.memory_links ⊆ s.db.memory_links) : LinksMemories s a s' :=
  fun _ hl hnew => absurd (h hl) hnew

omit [Field K] [LinearOrder K] in
theorem forget_memory_links {db db' : Db K} {o : Outside K} {agent : AgentIdentity}
    {now : Timestamp} {id : UUID} (hreq : forget o agent now id db = .ok db') :
    db'.memory_links = rows.delete
      (fun l => (l.source_id = id || l.target_id = id) && l.tenant_id = agent.tenant_id)
        db.memory_links := by
  obtain ⟨-, table, content, -, rfl⟩ := forget_eq hreq
  cases table <;> rfl

/-- A request whose result keeps the links. -/
theorem request_links {α : Type} {s s' : Forgetting K} (h : GoodLinks s) (a : ForgetAction)
    {f : α → Db K} {result : Except Failure α}
    (hok : ∀ x, result = .ok x → s.db.Kept (f x) ∧ s.db.KeepsAgents (f x))
    (hs : s.request f result = some s') : GoodLinks s' ∧ LinksMemories s a s' := by
  refine request_keeps (P := fun s' => GoodLinks s' ∧ LinksMemories s a s') ?_ ?_ hs
  · exact ⟨h, links_memories_of_subset a (List.Subset.refl _)⟩
  · intro x hx
    obtain ⟨hkept, hk⟩ := hok x hx
    refine ⟨h.of_kept hkept hk, links_memories_of_subset a ?_⟩
    rw [hkept.memory_links]
    exact List.Subset.refl _

/-- What every step keeps, and when it links memories only. -/
theorem forget_step_links [HasSqrt K] {o : Outside K} {cfg : Settings} {s s' : Forgetting K}
    {a : ForgetAction} (h : GoodLinks s) (hstep : forget_step o cfg s a = some s') :
    GoodLinks s' ∧ (LinksMemories s a s' ↔ LinksTheLiving s a) := by
  have hfree {s' : Forgetting K} {a : ForgetAction} (h : GoodLinks s' ∧ LinksMemories s a s') :
      GoodLinks s' ∧ (LinksMemories s a s' ↔ True) :=
    ⟨h.1, iff_of_true h.2 trivial⟩
  cases a with
  | remember agent now choice memories =>
    refine hfree (request_links h _ (fun x hx => ?_) hstep)
    exact ⟨remember_keeps h.owned hx, remember_keeps_agents hx⟩
  | remember_org agent now body =>
    refine hfree (request_links h _ (fun x hx => ?_) hstep)
    exact ⟨remember_org_keeps h.owned hx, remember_org_keeps_agents hx⟩
  | reflect agent now answer failed =>
    refine hfree (request_links h _ (fun x hx => ?_) hstep)
    exact ⟨reflect_keeps h.owned hx, reflect_keeps_agents hx⟩
  | purge_expired now =>
    cases hstep
    refine hfree ⟨h.of_kept (purge_keeps h.owned now) ?_, ?_⟩
    · exact keeps_agents_of_sublist (le_refl _) (List.filter_sublist.map _)
    · exact links_memories_of_subset _ (List.Subset.refl _)
  | forget agent now id =>
    rcases forget_answered hstep with rfl | ⟨db', hreq, rfl⟩
    · exact hfree ⟨h, links_memories_of_subset _ (List.Subset.refl _)⟩
    · have hlinks := forget_memory_links hreq
      obtain ⟨-, table, content, -, hdb⟩ := forget_eq hreq
      have hagents : db'.agent_keys = s.db.agent_keys := by
        rw [hdb]
        cases table <;> rfl
      refine hfree ⟨h.of_request (forget_owned h.owned hreq) hagents (forget_keeps_agents hreq)
        ?_ _, links_memories_of_subset _ ?_⟩
      · rw [hlinks]
        exact h.links.delete_memory _ _
      · intro l hl
        rw [hlinks] at hl
        exact (rows.mem_delete.mp hl).1
  | start_graph_batch ids =>
    cases hstep
    exact hfree ⟨h.start (fun key hkey => by cases hkey) trivial,
      links_memories_of_subset _ (List.Subset.refl _)⟩
  | start_embedding claim =>
    obtain ⟨r, hr, hid, htenant, rfl⟩ := embedding_started hstep
    refine hfree ⟨h.start (fun key hkey => ?_) ?_,
      links_memories_of_subset _ (List.Subset.refl _)⟩
    · cases hkey
      have hkey := h.owned.owned r hr
      rwa [htenant] at hkey
    · have hof := h.owned.keyed.of_agent hr
      rwa [hid] at hof
  | advance i now ids =>
    obtain ⟨w, db', w', hw, hws, rfl⟩ := worker_advanced hstep
    have hmem := List.mem_of_getElem? hw
    have hadv := worker_step_advances h.owned (h.owners w hmem) hws
    have hk := worker_step_keeps_agents hws
    have hholds := worker_step_holds h.owned.keyed (h.workers w hmem) hws
    unfold LinksTheLiving
    simp only [hw, Option.mem_def, Option.some.injEq, forall_eq']
    rcases worker_step_links hws with ⟨hsame, hliving⟩ |
      ⟨memory_id, tenant_id, similar, similar_rows, rfl, rfl⟩
    · refine ⟨h.advance hw hadv hk hholds ?_, iff_of_true ?_ hliving⟩
      · rw [hsame]
        exact h.links
      · apply links_memories_of_subset
        rw [hsame]
        exact List.Subset.refl _
    · obtain ⟨agent_id, hmemory, hsimilar⟩ := h.workers _ hmem
      obtain ⟨hof, hne, hle⟩ := hsimilar similar List.mem_cons_self
      refine ⟨h.advance hw hadv hk hholds ?_, ?_⟩
      · exact h.links.insert_pair (l := ⟨tenant_id, memory_id, similar.1, similar.2⟩) hne hle
      · exact upsert_links_memories_iff h.links hmemory hof hne
  | stop i =>
    obtain ⟨w, hw, rfl⟩ := Option.map_eq_some_iff.mp hstep
    obtain ⟨hk, hsame⟩ := worker_stop_keeps_agents s.db w
    refine hfree ⟨h.advance hw (worker_stop_advances h.owned w) hk trivial ?_,
      links_memories_of_subset _ ?_⟩
    · rw [hsame]
      exact h.links
    · rw [hsame]
      exact List.Subset.refl _

theorem links_living_of_disabled [HasSqrt K] {o : Outside K} {cfg : Settings} {s : Forgetting K}
    {a : ForgetAction} (hstep : forget_step o cfg s a = none) : LinksTheLiving s a := by
  cases a with
  | advance i now ids =>
    intro w hw
    have hw : s.workers[i]? = some w := hw
    simp only [forget_step, hw, Option.map_eq_none_iff, Option.bind_some] at hstep
    cases w with
    | linking memory_id tenant_id similar_rows =>
      cases similar_rows with
      | nil => trivial
      | cons similar similar_rows => cases hstep
    | private_rows | org_rows | claimed | embedded | finished => trivial
  | _ => trivial

theorem GoodLinks.blank {db : Db K} (hblank : db.Blank)
    (hagents : (db.qortia_agents.map (·.id)).Nodup) : GoodLinks { db } := by
  refine ⟨hblank.owned hagents, fun w hw => absurd hw List.not_mem_nil,
    fun w hw => absurd hw List.not_mem_nil, ?_⟩
  change Undirected db.memory_links
  rw [hblank.memory_links]
  exact ⟨fun l => by simp, fun l hl => absurd hl List.not_mem_nil,
    fun l hl => absurd hl List.not_mem_nil⟩

/-- Along every run the links are an undirected graph of similar memories, and each link is made
between two memories of one agent that are there, exactly when no INSERT runs for a new pair of
which a memory is gone. -/
theorem memory_links_undirected_iff [HasSqrt K] (o : Outside K) (cfg : Settings) (db : Db K)
    (hblank : db.Blank) (hagents : (db.qortia_agents.map (·.id)).Nodup)
    (actions : List ForgetAction) :
    (runs.Always (forget_step o cfg) (fun s => Undirected s.db.memory_links) { db } actions ∧
        runs.EveryStep (forget_step o cfg) LinksMemories { db } actions) ↔
      runs.Guarded (forget_step o cfg) LinksTheLiving { db } actions := by
  have hstart := GoodLinks.blank hblank hagents
  have halways : runs.Always (forget_step o cfg) (fun s => Undirected s.db.memory_links) { db }
      actions := by
    have hany : runs.Guarded (forget_step o cfg) (fun _ _ => True) { db } actions :=
      runs.guarded_of_forall _ (fun _ _ => trivial) _ _
    exact runs.always_of_invariant (fun s hs => hs.links)
      (fun s a s' hs _ hstep => (forget_step_links hs hstep).1) hstart hany
  rw [and_iff_right halways]
  refine runs.every_step_iff_guarded (fun s a => links_living_of_disabled) ?_ ?_ hstart
  · exact fun s a s' hs hstep => (forget_step_links hs hstep).2
  · exact fun s a s' hs _ hstep => (forget_step_links hs hstep).1

end

/-- The second memory gets its vector and its links, and the first one is forgotten. -/
theorem memory_links_undirected_iff_linked :
    (runs.Always (forget_step similar_model {}) (fun s => Undirected s.db.memory_links)
          { db := chief_db } (two_memories ++ similar_found ++ link_and_finish ++
            [.forget chief 4 0]) ∧
        runs.EveryStep (forget_step similar_model {}) LinksMemories { db := chief_db }
          (two_memories ++ similar_found ++ link_and_finish ++ [.forget chief 4 0])) ↔
      runs.Guarded (forget_step similar_model {}) LinksTheLiving { db := chief_db }
        (two_memories ++ similar_found ++ link_and_finish ++ [.forget chief 4 0]) :=
  memory_links_undirected_iff similar_model {} chief_db chief_db_blank (by decide) _

/-- The second memory is claimed and forgotten. The worker goes on with it. -/
def forgotten_once_claimed : List ForgetAction :=
  two_memories ++ [.start_embedding ⟨.hindsight_memories, 1, 1, some 20, wait_twice⟩,
    .forget chief 2 1, .advance 1 3 [], .advance 1 4 [], .advance 1 5 []]

/-- Both rows of a pair are made after one of the two memories is gone. -/
theorem a_forgotten_memory_is_linked :
    ¬ (runs.Always (forget_step similar_model {}) (fun s => Undirected s.db.memory_links)
          { db := chief_db } forgotten_once_claimed ∧
        runs.EveryStep (forget_step similar_model {}) LinksMemories { db := chief_db }
          forgotten_once_claimed) := by
  rintro ⟨-, h⟩
  revert h
  decide +kernel

end qortia
