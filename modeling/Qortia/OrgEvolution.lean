-- What becomes of the memories and the knowledge of an organisation, and who stands behind them. No
-- request changes who an agent is, so that in every run a process or a decision is written and
-- deleted by a chief, a handoff stays what its author wrote, and a chunk is not edited.
import Qortia.ForgetRequest
import Qortia.MemoryEvolution
import Qortia.OrgReadable
import Qortia.RecallClearance

namespace qortia

open evolving

variable {K : Type}

/-! ## Who an agent is -/

/-- An agent without its counter and its clock. -/
def Agent.identity (a : Agent) : Agent := { a with reflection_counter := 0, updated_at := 0 }

def Db.identities (db : Db K) : List Agent := db.qortia_agents.map (·.identity)

theorem identities_update {db db' : Db K} {p : Agent → Bool} {f : Agent → Agent}
    (hf : ∀ a, (f a).identity = a.identity)
    (hrows : db'.qortia_agents = rows.update p f db.qortia_agents) :
    db'.identities = db.identities := by
  unfold Db.identities
  rw [hrows]
  exact rows.map_update hf p _

/-- The role is read from the identities. -/
theorem role_identities (db : Db K) (agent_id tenant_id : UUID) :
    db.role agent_id tenant_id =
      (db.identities.find? fun a => a.id = agent_id ∧ a.tenant_id = tenant_id).map (·.role) := by
  unfold Db.role Db.identities
  rw [List.find?_map, Option.map_map]
  rfl

theorem role_of_identities {db db' : Db K} (h : db'.identities = db.identities)
    (agent_id tenant_id : UUID) : db'.role agent_id tenant_id = db.role agent_id tenant_id := by
  rw [role_identities, role_identities, h]

section
variable [Field K] [LinearOrder K] [HasSqrt K] {o : Outside K} {cfg : Settings} {cal : Calendar}
  {open_agents : List (UUID × UUID)}

theorem write_identities {db db' : Db K} {a : DeploymentAction K}
    (hwrite : DeploymentWrite o cfg cal open_agents db a db') :
    db'.identities = db.identities := by
  cases hwrite with
  | none => rfl
  | remember hreq =>
    refine remember_preserves (P := fun d => d.identities = db.identities) hreq
      (fun _ _ _ hd => hd) (fun d n hd => ?_) rfl
    exact (identities_update (by intro a; rfl) rfl).trans hd
  | remember_org hreq =>
    obtain ⟨-, history, hdb'⟩ := remember_org_ok hreq
    rw [hdb']
    rfl
  | reflect hreq =>
    refine reflect_preserves (P := fun d => d.identities = db.identities) hreq
      (fun d ids st hd => ?_) (fun d hd => ?_) (fun _ _ hd => hd) rfl
    · cases st with
      | prune | supersede | insert => exact hd
    · exact (identities_update (by intro a; rfl) rfl).trans hd
  | forget hreq =>
    obtain ⟨-, table, content, -, rfl⟩ := forget_eq hreq
    cases table with
    | hindsight_memories | org_memory | org_knowledge => rfl
  | ingest hreq =>
    obtain ⟨-, hsame | hinserted⟩ := ingest_committed hreq
    · rw [hsame]
    · rw [hinserted]
      rfl
  | delete hreq =>
    obtain ⟨-, hresult⟩ := delete_knowledge_ok hreq
    rw [hresult]
    rfl
  | access id now results =>
    unfold record_recall_access
    dsimp only
    split
    · rfl
    · rfl
  | session_reads => rfl
  | outcome memory_ids =>
    unfold commit_outcome
    split
    · rfl
    · rfl
  | purge => rfl
  | graph ha now row =>
    unfold graph_transaction
    rw [graph_entities_frame]
    unfold set_graphed
    split
    · rfl
    · rfl
  | link => rfl
  | embedding ha tbl id v =>
    cases tbl with
    | hindsight_memories | org_memory | org_knowledge | qortia_entities => rfl
  | attempt ha tbl id =>
    cases tbl with
    | hindsight_memories | org_memory | org_knowledge | qortia_entities => rfl
  | reflection hopen hreq =>
    refine write_reflections_preserves (P := fun d => d.identities = db.identities) hreq
      (fun d ids st hd => ?_) (fun d hd => ?_) (fun _ _ hd => hd) rfl
    · cases st with
      | prune | supersede | insert => exact hd
    · exact (identities_update (by intro a; rfl) rfl).trans hd
  | archive => rfl
  | summary => rfl

end

/-! ## One memory of the organisation -/

/-- The columns that are written once. -/
def OrgMemory.recorded (q : OrgMemory K) : OrgMemory K :=
  { q with
    content := "", embedding := none, embedding_attempts := 0, author_id := none, entities := []
    is_graphed := false, recall_count := 0, last_recalled_at := none, lang := ""
    min_clearance := "", audience := [], updated_at := 0 }

/-- The columns that a write under the same title overwrites. -/
def OrgMemory.written (q : OrgMemory K) :
    String × Option UUID × List (String × String) × String × String × List String × Timestamp :=
  (q.content, q.author_id, q.entities, q.lang, q.min_clearance, q.audience, q.updated_at)

/-- The types that are written under a title. -/
def OrgMemory.titled (q : OrgMemory K) : Prop := q.type = .process ∨ q.type = .decision_log

/-- The step writes over the memory: it is a chief's request of the same type and title, and the
columns are what it says. -/
def DeploymentAction.rewrites_org (o : Outside K) (role : UUID → UUID → Option String)
    (a : DeploymentAction K) (q q' : OrgMemory K) : Prop :=
  match a with
  | .request (.service (.memory (.remember_org agent now body))) =>
    role agent.agent_id agent.tenant_id = some "chief" ∧ org_conflict agent body q = true ∧
      q'.written = (org_excluded o agent now body q).written
  | _ => False

/-- What a memory of the organisation may become through the steps. -/
structure OrgMemory.Becomes (o : Outside K) (role : UUID → UUID → Option String)
    (actions : List (DeploymentAction K)) (q q' : OrgMemory K) : Prop where
  recorded : q'.recorded = q.recorded
  written : q'.written = q.written ∨ ∃ a ∈ actions, a.rewrites_org o role q q'
  embedding : q.embedding.isSome = true → q'.embedding.isSome = true
  embedding_attempts : q.embedding_attempts ≤ q'.embedding_attempts
  is_graphed : q.is_graphed = true → q'.is_graphed = true
  recall_count : q.recall_count ≤ q'.recall_count
  last_recalled_at : q.last_recalled_at.isSome = true → q'.last_recalled_at.isSome = true

section
variable {o : Outside K} {role : UUID → UUID → Option String} {a : DeploymentAction K}
  {q q' q'' : OrgMemory K}

/-- Nothing is written over a handoff. -/
theorem titled_of_conflict {agent : AgentIdentity} {body : RememberOrgRequest}
    (h : org_conflict agent body q = true) :
    body.type ≠ .handoff ∧ q.tenant_id = agent.tenant_id ∧ q.titled := by
  simp only [org_conflict, Bool.and_eq_true, decide_eq_true_eq] at h
  obtain ⟨⟨⟨hnot, htenant⟩, htype⟩, -⟩ := h
  refine ⟨hnot, htenant, ?_⟩
  unfold OrgMemory.titled
  rw [htype]
  cases hbody : body.type with
  | handoff => exact absurd hbody hnot
  | process => exact Or.inl rfl
  | decision_log => exact Or.inr rfl

/-- A chief is the author then. -/
theorem rewrites_org_author (h : a.rewrites_org o role q q') :
    q.titled ∧ ∃ author, q'.author_id = some author ∧ role author q.tenant_id = some "chief" := by
  unfold DeploymentAction.rewrites_org at h
  split at h
  · rename_i agent now body
    obtain ⟨hchief, hconflict, hwritten⟩ := h
    obtain ⟨-, htenant, htitled⟩ := titled_of_conflict hconflict
    rw [← htenant] at hchief
    exact ⟨htitled, agent.agent_id, congrArg (fun w => w.2.1) hwritten, hchief⟩
  · exact h.elim

/-- What is written over a memory does not depend on what was written before. -/
theorem rewrites_org_of_recorded (hrecorded : q'.recorded = q.recorded)
    (h : a.rewrites_org o role q' q'') : a.rewrites_org o role q q'' := by
  have htenant : q'.tenant_id = q.tenant_id := (congrArg OrgMemory.tenant_id hrecorded :)
  have htype : q'.type = q.type := (congrArg OrgMemory.type hrecorded :)
  have htitle : q'.title = q.title := (congrArg OrgMemory.title hrecorded :)
  unfold DeploymentAction.rewrites_org at h ⊢
  split at h
  · unfold org_conflict at h
    rw [htenant, htype, htitle] at h
    exact h
  · exact h

theorem rewrites_org_of_written (hwritten : q''.written = q'.written)
    (h : a.rewrites_org o role q q') : a.rewrites_org o role q q'' := by
  unfold DeploymentAction.rewrites_org at h ⊢
  split at h
  · exact ⟨h.1, h.2.1, hwritten.trans h.2.2⟩
  · exact h

end

namespace OrgMemory.Becomes

variable {o : Outside K} {role : UUID → UUID → Option String} {actions : List (DeploymentAction K)}
  {q q' q'' : OrgMemory K}

theorem id_eq (h : q.Becomes o role actions q') : q'.id = q.id :=
  (congrArg OrgMemory.id h.recorded :)

theorem tenant_eq (h : q.Becomes o role actions q') : q'.tenant_id = q.tenant_id :=
  (congrArg OrgMemory.tenant_id h.recorded :)

theorem type_eq (h : q.Becomes o role actions q') : q'.type = q.type :=
  (congrArg OrgMemory.type h.recorded :)

theorem titled_iff (h : q.Becomes o role actions q') : q'.titled ↔ q.titled := by
  unfold OrgMemory.titled
  rw [h.type_eq]

variable (o role actions) in
theorem refl (q : OrgMemory K) : q.Becomes o role actions q where
  recorded := rfl
  written := Or.inl rfl
  embedding h := h
  embedding_attempts := le_refl _
  is_graphed h := h
  recall_count := le_refl _
  last_recalled_at h := h

theorem trans (h : q.Becomes o role actions q') (h' : q'.Becomes o role actions q'') :
    q.Becomes o role actions q'' where
  recorded := h'.recorded.trans h.recorded
  written := by
    rcases h'.written with hsame | ⟨a, ha, hrewrites⟩
    · rcases h.written with hfirst | ⟨a, ha, hrewrites⟩
      · exact Or.inl (hsame.trans hfirst)
      · exact Or.inr ⟨a, ha, rewrites_org_of_written hsame hrewrites⟩
    · exact Or.inr ⟨a, ha, rewrites_org_of_recorded h.recorded hrewrites⟩
  embedding hq := h'.embedding (h.embedding hq)
  embedding_attempts := h.embedding_attempts.trans h'.embedding_attempts
  is_graphed hq := h'.is_graphed (h.is_graphed hq)
  recall_count := h.recall_count.trans h'.recall_count
  last_recalled_at hq := h'.last_recalled_at (h.last_recalled_at hq)

/-- A handoff keeps its author. -/
theorem handoff_author (h : q.Becomes o role actions q') (htype : q'.type = .handoff) :
    q'.author_id = q.author_id := by
  rcases h.written with hsame | ⟨a, -, hrewrites⟩
  · exact congrArg (fun w => w.2.1) hsame
  · obtain ⟨htitled, -⟩ := rewrites_org_author hrewrites
    rw [← h.titled_iff] at htitled
    unfold OrgMemory.titled at htitled
    rw [htype] at htitled
    rcases htitled with hprocess | hdecision
    · cases hprocess
    · cases hdecision

end OrgMemory.Becomes

def org_law (o : Outside K) (role : UUID → UUID → Option String)
    (actions : List (DeploymentAction K)) : Law (OrgMemory K) where
  id := OrgMemory.id
  becomes := OrgMemory.Becomes o role actions
  refl := .refl o role actions
  trans := .trans
  id_eq := OrgMemory.Becomes.id_eq

/-- The step writes the memory: an agent hands something over, a chief writes under a title, or it
is the summary of a week. -/
def DeploymentAction.makes_org (o : Outside K) (cal : Calendar)
    (role : UUID → UUID → Option String) (a : DeploymentAction K) (q : OrgMemory K) : Prop :=
  match a with
  | .request (.service (.memory (.remember_org agent now body))) =>
    q = org_row o agent now body q.id ∧ (role agent.agent_id agent.tenant_id).isSome = true ∧
      (body.type = .handoff ∨ role agent.agent_id agent.tenant_id = some "chief")
  | .weekly _ =>
    ∃ tenant_id now today handoffs, q = weekly_row cal tenant_id now today handoffs q.id
  | _ => False

/-- The step removes the memory: the author of a handoff forgets it, or a chief forgets a memory
with a title. -/
def DeploymentAction.removes_org (role : UUID → UUID → Option String) (a : DeploymentAction K)
    (q : OrgMemory K) : Prop :=
  match a with
  | .request (.service (.memory (.forget agent _ id))) =>
    q.id = id ∧ q.tenant_id = agent.tenant_id ∧
      ((q.type = .handoff ∧ q.author_id = some agent.agent_id) ∨
        (q.titled ∧ role agent.agent_id agent.tenant_id = some "chief"))
  | _ => False

theorem removes_org_back {o : Outside K} {role : UUID → UUID → Option String}
    {actions : List (DeploymentAction K)} {a : DeploymentAction K} {q q' : OrgMemory K}
    (h : q.Becomes o role actions q') (hremoves : a.removes_org role q') :
    a.removes_org role q := by
  unfold DeploymentAction.removes_org at hremoves ⊢
  split at hremoves
  · obtain ⟨hid, htenant, ⟨htype, hauthor⟩ | ⟨htitled, hchief⟩⟩ := hremoves
    · rw [h.handoff_author htype] at hauthor
      rw [h.type_eq] at htype
      exact ⟨h.id_eq.symm.trans hid, h.tenant_eq.symm.trans htenant, Or.inl ⟨htype, hauthor⟩⟩
    · exact ⟨h.id_eq.symm.trans hid, h.tenant_eq.symm.trans htenant,
        Or.inr ⟨h.titled_iff.mp htitled, hchief⟩⟩
  · exact hremoves

/-! ## One chunk of knowledge -/

/-- A chunk without its embedding and its counters. -/
def OrgKnowledge.recorded (r : OrgKnowledge K) : OrgKnowledge K :=
  { r with
    embedding := none, embedding_attempts := 0, recall_count := 0, last_recalled_at := none }

/-- What a chunk may become. -/
structure OrgKnowledge.Becomes (r r' : OrgKnowledge K) : Prop where
  recorded : r'.recorded = r.recorded
  embedding : r.embedding.isSome = true → r'.embedding.isSome = true
  embedding_attempts : r.embedding_attempts ≤ r'.embedding_attempts
  recall_count : r.recall_count ≤ r'.recall_count
  last_recalled_at : r.last_recalled_at.isSome = true → r'.last_recalled_at.isSome = true

namespace OrgKnowledge.Becomes

variable {r r' r'' : OrgKnowledge K}

theorem id_eq (h : r.Becomes r') : r'.id = r.id := (congrArg OrgKnowledge.id h.recorded :)

theorem refl (r : OrgKnowledge K) : r.Becomes r :=
  ⟨rfl, fun h => h, le_refl _, le_refl _, fun h => h⟩

theorem trans (h : r.Becomes r') (h' : r'.Becomes r'') : r.Becomes r'' where
  recorded := h'.recorded.trans h.recorded
  embedding hr := h'.embedding (h.embedding hr)
  embedding_attempts := h.embedding_attempts.trans h'.embedding_attempts
  recall_count := h.recall_count.trans h'.recall_count
  last_recalled_at hr := h'.last_recalled_at (h.last_recalled_at hr)

end OrgKnowledge.Becomes

def knowledge_law : Law (OrgKnowledge K) where
  id := OrgKnowledge.id
  becomes := OrgKnowledge.Becomes
  refl := .refl
  trans := .trans
  id_eq := OrgKnowledge.Becomes.id_eq

/-- The step writes the chunk: it is of one of the sections that a chief ingests. -/
def DeploymentAction.makes_chunk (o : Outside K) (role : UUID → UUID → Option String)
    (a : DeploymentAction K) (r : OrgKnowledge K) : Prop :=
  match a with
  | .request (.service (.ingest_knowledge agent now _ body)) =>
    role agent.agent_id agent.tenant_id = some "chief" ∧
      ∃ sect ∈ split_into_sections body.content, ∃ idx embedding,
        r = knowledge_row o agent now body r.id idx sect embedding
  | _ => False

/-- The step removes the chunk: a chief ingests its document again, or deletes it. -/
def DeploymentAction.removes_chunk (role : UUID → UUID → Option String) (a : DeploymentAction K)
    (r : OrgKnowledge K) : Prop :=
  match a with
  | .request (.service (.ingest_knowledge agent _ _ body)) =>
    of_document agent.tenant_id body.source_path r = true ∧
      role agent.agent_id agent.tenant_id = some "chief"
  | .request (.service (.delete_knowledge agent source_path)) =>
    of_document agent.tenant_id source_path r = true ∧
      role agent.agent_id agent.tenant_id = some "chief"
  | _ => False

theorem of_document_becomes {r r' : OrgKnowledge K} (h : r.Becomes r') (tenant_id : UUID)
    (source_path : String) :
    of_document tenant_id source_path r' = of_document tenant_id source_path r := by
  have htenant : r'.tenant_id = r.tenant_id := (congrArg OrgKnowledge.tenant_id h.recorded :)
  have hpath : r'.source_path = r.source_path := (congrArg OrgKnowledge.source_path h.recorded :)
  unfold of_document
  rw [htenant, hpath]

theorem removes_chunk_back {role : UUID → UUID → Option String} {a : DeploymentAction K}
    {r r' : OrgKnowledge K} (h : r.Becomes r') (hremoves : a.removes_chunk role r') :
    a.removes_chunk role r := by
  unfold DeploymentAction.removes_chunk at hremoves ⊢
  split at hremoves
  · rwa [of_document_becomes h] at hremoves
  · rwa [of_document_becomes h] at hremoves
  · exact hremoves

/-! ## What the requests check -/

/-- The agent of a request that goes on has a role. -/
theorem role_of_active {agent_id tenant_id : UUID} {db : Db K}
    (h : assert_agent_active agent_id tenant_id db = .ok ()) :
    (db.role agent_id tenant_id).isSome = true := by
  unfold assert_agent_active at h
  unfold Db.role
  rw [Option.isSome_map]
  split at h
  · cases h
  · rename_i a ha
    rw [ha]
    rfl

theorem role_of_assert_chief {agent : AgentIdentity} {detail : String} {db : Db K}
    (h : assert_chief agent detail db = .ok ()) :
    db.role agent.agent_id agent.tenant_id = some "chief" := by
  unfold assert_chief at h
  obtain ⟨u, -, h⟩ := bind_ok h
  split at h
  · cases h
  · rename_i hchief
    exact not_not.mp hchief

/-- A memory of the organisation that is found is one that the agent may delete. -/
theorem find_forgotten_org {agent : AgentIdentity} {id : UUID} {db : Db K} {content : String}
    (h : find_forgotten agent id db = .ok (.org_memory, content)) :
    ∃ q ∈ db.org_memory, q.id = id ∧ q.tenant_id = agent.tenant_id ∧ deletable agent q db := by
  unfold find_forgotten at h
  split at h
  · cases h
  · split at h
    · rename_i q hq
      have hkey := List.find?_some hq
      simp only [Bool.decide_and, Bool.and_eq_true, decide_eq_true_eq] at hkey
      refine ⟨q, List.mem_of_find?_eq_some hq, hkey.1, hkey.2, ?_⟩
      cases hmay : may_forget_org agent q db with
      | error e =>
        rw [hmay] at h
        cases h
      | ok u => exact may_forget_org_iff.mp hmay
    · cases h

/-- Every row of an ingest is of a section. -/
theorem ingested_rows_of_section {o : Outside K} {agent : AgentIdentity} {now : Timestamp}
    {choice : Nat → Nat} {body : KnowledgeIngestRequest} {idx : Nat} {id : UUID}
    {table : List (OrgKnowledge K)} {sections : List Section} {r : OrgKnowledge K}
    (h : r ∈ ingested_rows o agent now choice body idx id table sections) :
    ∃ sect ∈ sections, ∃ idx embedding,
      r = knowledge_row o agent now body r.id idx sect embedding := by
  induction sections generalizing idx id table with
  | nil => cases h
  | cons sect rest ih =>
    rcases List.mem_cons.mp h with rfl | h
    · exact ⟨sect, List.mem_cons_self, idx, _, rfl⟩
    · obtain ⟨sect', hsect, hrow⟩ := ih h
      exact ⟨sect', List.mem_cons_of_mem _ hsect, hrow⟩

/-! ## One statement -/

/-- The memories of the organisation evolve from one database to the other. -/
def Db.OrgEvolve (o : Outside K) (role : UUID → UUID → Option String)
    (actions : List (DeploymentAction K)) (made removed : OrgMemory K → Prop) (db db' : Db K) :
    Prop :=
  Evolves (org_law o role actions) made removed db.next_id db.org_memory db'.next_id db'.org_memory

/-- The chunks evolve from one database to the other. -/
def Db.KnowledgeEvolve (made removed : OrgKnowledge K → Prop) (db db' : Db K) : Prop :=
  Evolves knowledge_law made removed db.next_id db.org_knowledge db'.next_id db'.org_knowledge

section
variable {o : Outside K} {role : UUID → UUID → Option String}
  {actions : List (DeploymentAction K)} {made removed : OrgMemory K → Prop} {db db' : Db K}

theorem org_same (hrows : db'.org_memory = db.org_memory) (hnext : db.next_id ≤ db'.next_id) :
    db.OrgEvolve o role actions made removed db' := by
  unfold Db.OrgEvolve
  rw [hrows]
  exact Evolves.refl (org_law o role actions) made removed hnext _

theorem org_update {p : OrgMemory K → Bool} {f : OrgMemory K → OrgMemory K}
    (hf : ∀ q ∈ db.org_memory, p q = true → q.Becomes o role actions (f q))
    (hrows : db'.org_memory = rows.update p f db.org_memory) (hnext : db'.next_id = db.next_id) :
    db.OrgEvolve o role actions made removed db' := by
  unfold Db.OrgEvolve
  rw [hrows, hnext]
  exact Evolves.update made removed _ hf

/-- A chief writes over a memory that has the type and the title already. -/
theorem remember_org_evolves_org {cal : Calendar} {agent : AgentIdentity} {now : Timestamp}
    {body : RememberOrgRequest} {result : Db K × UUID}
    (hmem : .memory (.remember_org agent now body) ∈ actions)
    (hreq : remember_org o agent now body db = .ok result) :
    db.OrgEvolve o db.role actions
      (DeploymentAction.makes_org o cal db.role (.memory (.remember_org agent now body))) removed
      result.1 := by
  obtain ⟨db', row_id⟩ := result
  obtain ⟨⟨hactive, hmay⟩, history, rfl⟩ := remember_org_ok hreq
  refine Evolves.upsert removed (Nat.le_succ _) (fun q _ hconflict => ?_) ?_ (le_refl _)
  · have hchief := hmay.resolve_left (titled_of_conflict hconflict).1
    exact { OrgMemory.Becomes.refl o db.role actions q with
      recorded := rfl
      written := Or.inr ⟨_, hmem, hchief, hconflict, rfl⟩ }
  · exact ⟨rfl, role_of_active hactive, hmay⟩

theorem forget_evolves_org {agent : AgentIdentity} {now : Timestamp} {id : UUID}
    (hkeyed : db.Keyed) (hreq : forget o agent now id db = .ok db') :
    db.OrgEvolve o db.role actions made
      (DeploymentAction.removes_org db.role (.memory (.forget agent now id))) db' := by
  obtain ⟨-, table, content, hfound, rfl⟩ := forget_eq hreq
  cases table with
  | hindsight_memories | org_knowledge => exact org_same rfl (le_refl _)
  | org_memory =>
    obtain ⟨q₀, hq₀, hid₀, htenant, hdeletable⟩ := find_forgotten_org hfound
    refine Evolves.delete made _ fun q hq hp => ?_
    have hid : q.id = id := of_decide_eq_true hp
    have hsame := List.inj_on_of_nodup_map hkeyed.org_nodup hq hq₀ (hid.trans hid₀.symm)
    rw [hsame]
    exact ⟨hid₀, htenant, hdeletable⟩

theorem record_recall_access_evolves_org (results : List (RecallResult K)) (tenant_id : UUID)
    (now : Timestamp) (db : Db K) :
    db.OrgEvolve o role actions made removed (record_recall_access results tenant_id now db) := by
  unfold record_recall_access
  dsimp only
  split
  · exact org_same rfl (le_refl _)
  · refine org_update (fun q _ _ => ?_) rfl rfl
    exact { OrgMemory.Becomes.refl o role actions q with
      recorded := rfl
      written := Or.inl rfl
      recall_count := Nat.le_succ _
      last_recalled_at := fun _ => rfl }

theorem graph_transaction_evolves_org [Field K] [LinearOrder K] [HasSqrt K] (o : Outside K)
    (cfg : Settings) (now : Timestamp) (row : GraphRow) (db : Db K) :
    db.OrgEvolve o role actions made removed (graph_transaction o cfg now db row) := by
  unfold graph_transaction
  rw [graph_entities_frame]
  unfold set_graphed
  split
  · exact org_same rfl (le_refl _)
  · refine org_update (fun q _ _ => ?_) rfl rfl
    exact { OrgMemory.Becomes.refl o role actions q with
      recorded := rfl
      written := Or.inl rfl
      is_graphed := fun _ => rfl }

theorem write_embedding_evolves_org (tbl : EmbeddedTable) (id : UUID) (v : List K) (db : Db K) :
    db.OrgEvolve o role actions made removed (write_embedding tbl id v db) := by
  cases tbl with
  | org_memory =>
    refine org_update (fun q _ _ => ?_) rfl rfl
    exact { OrgMemory.Becomes.refl o role actions q with
      recorded := rfl
      written := Or.inl rfl
      embedding := fun _ => rfl }
  | hindsight_memories | org_knowledge | qortia_entities => exact org_same rfl (le_refl _)

theorem count_attempt_evolves_org (tbl : EmbeddedTable) (id : UUID) (db : Db K) :
    db.OrgEvolve o role actions made removed (count_attempt tbl id db) := by
  cases tbl with
  | org_memory =>
    refine org_update (fun q _ _ => ?_) rfl rfl
    exact { OrgMemory.Becomes.refl o role actions q with
      recorded := rfl
      written := Or.inl rfl
      embedding_attempts := Nat.le_succ _ }
  | hindsight_memories | org_knowledge | qortia_entities => exact org_same rfl (le_refl _)

end

section
variable {made removed : OrgKnowledge K → Prop} {db db' : Db K}

theorem knowledge_same (hrows : db'.org_knowledge = db.org_knowledge)
    (hnext : db.next_id ≤ db'.next_id) : db.KnowledgeEvolve made removed db' := by
  unfold Db.KnowledgeEvolve
  rw [hrows]
  exact Evolves.refl knowledge_law made removed hnext _

theorem knowledge_update {p : OrgKnowledge K → Bool} {f : OrgKnowledge K → OrgKnowledge K}
    (hf : ∀ r ∈ db.org_knowledge, p r = true → r.Becomes (f r))
    (hrows : db'.org_knowledge = rows.update p f db.org_knowledge)
    (hnext : db'.next_id = db.next_id) : db.KnowledgeEvolve made removed db' := by
  unfold Db.KnowledgeEvolve
  rw [hrows, hnext]
  exact Evolves.update made removed _ hf

/-- The chunks of the document go, and those of the sections come. -/
theorem ingest_evolves_knowledge {o : Outside K} {agent : AgentIdentity} {now : Timestamp}
    {choice : Nat → Nat} {body : KnowledgeIngestRequest} {result : Db K × IngestResponse}
    (hreq : ingest_knowledge o agent now choice body db = .ok result) :
    db.KnowledgeEvolve
      (DeploymentAction.makes_chunk o db.role
        (.request (.service (.ingest_knowledge agent now choice body))))
      (DeploymentAction.removes_chunk db.role
        (.request (.service (.ingest_knowledge agent now choice body)))) result.1 := by
  obtain ⟨hassert, hsame | hinserted⟩ := ingest_committed hreq
  · rw [hsame]
    exact knowledge_same rfl (le_refl _)
  · have hchief := role_of_assert_chief hassert
    rw [hinserted]
    have hdelete : Evolves knowledge_law
        (DeploymentAction.makes_chunk o db.role
          (.request (.service (.ingest_knowledge agent now choice body))))
        (DeploymentAction.removes_chunk db.role
          (.request (.service (.ingest_knowledge agent now choice body)))) db.next_id
        db.org_knowledge db.next_id (other_documents agent body db) :=
      Evolves.delete _ _ fun r _ hp => ⟨hp, hchief⟩
    have hrows : ∀ r ∈ new_rows_of o agent now choice body db,
        DeploymentAction.makes_chunk o db.role
          (.request (.service (.ingest_knowledge agent now choice body))) r ∧
        db.next_id ≤ r.id :=
      fun r hr => ⟨⟨hchief, ingested_rows_of_section hr⟩, (ingested_rows_id_ge hr).2⟩
    have hinsert := Evolves.insert (L := knowledge_law) (t := other_documents agent body db)
      (fun _ => False) (Nat.le_add_right db.next_id (split_into_sections body.content).length) hrows
    exact (hdelete.trans hinsert fun _ h => h).mono (fun _ h => h.elim id id)
      (fun _ h => h.elim id False.elim)

theorem delete_knowledge_evolves_knowledge {agent : AgentIdentity} {source_path : String}
    {result : Db K × Nat} (hreq : delete_knowledge agent source_path db = .ok result) :
    db.KnowledgeEvolve made
      (DeploymentAction.removes_chunk db.role
        (.request (.service (.delete_knowledge agent source_path)))) result.1 := by
  obtain ⟨hassert, hresult⟩ := delete_knowledge_ok hreq
  rw [hresult]
  exact Evolves.delete made _ fun r _ hp => ⟨hp, role_of_assert_chief hassert⟩

theorem record_recall_access_evolves_knowledge (results : List (RecallResult K))
    (tenant_id : UUID) (now : Timestamp) (db : Db K) :
    db.KnowledgeEvolve made removed (record_recall_access results tenant_id now db) := by
  unfold record_recall_access
  dsimp only
  split
  · exact knowledge_same rfl (le_refl _)
  · refine knowledge_update (fun r _ _ => ?_) rfl rfl
    exact { OrgKnowledge.Becomes.refl r with
      recorded := rfl
      recall_count := Nat.le_succ _
      last_recalled_at := fun _ => rfl }

theorem graph_transaction_evolves_knowledge [Field K] [LinearOrder K] [HasSqrt K] (o : Outside K)
    (cfg : Settings) (now : Timestamp) (row : GraphRow) (db : Db K) :
    db.KnowledgeEvolve made removed (graph_transaction o cfg now db row) := by
  unfold graph_transaction
  rw [graph_entities_frame]
  unfold set_graphed
  split
  · exact knowledge_same rfl (le_refl _)
  · exact knowledge_same rfl (le_refl _)

theorem write_embedding_evolves_knowledge (tbl : EmbeddedTable) (id : UUID) (v : List K)
    (db : Db K) : db.KnowledgeEvolve made removed (write_embedding tbl id v db) := by
  cases tbl with
  | org_knowledge =>
    refine knowledge_update (fun r _ _ => ?_) rfl rfl
    exact { OrgKnowledge.Becomes.refl r with recorded := rfl, embedding := fun _ => rfl }
  | hindsight_memories | org_memory | qortia_entities => exact knowledge_same rfl (le_refl _)

theorem count_attempt_evolves_knowledge (tbl : EmbeddedTable) (id : UUID) (db : Db K) :
    db.KnowledgeEvolve made removed (count_attempt tbl id db) := by
  cases tbl with
  | org_knowledge =>
    refine knowledge_update (fun r _ _ => ?_) rfl rfl
    exact { OrgKnowledge.Becomes.refl r with
      recorded := rfl
      embedding_attempts := Nat.le_succ _ }
  | hindsight_memories | org_memory | qortia_entities => exact knowledge_same rfl (le_refl _)

end

/-! ## Every step -/

/-- The tables that the organisation shares are as they were. -/
structure Db.SharesSame (db db' : Db K) : Prop where
  org_memory : db'.org_memory = db.org_memory
  org_knowledge : db'.org_knowledge = db.org_knowledge
  next_id : db.next_id ≤ db'.next_id

namespace Db.SharesSame

variable {db db' db'' : Db K}

theorem refl (db : Db K) : db.SharesSame db := ⟨rfl, rfl, le_refl _⟩

theorem trans (h : db.SharesSame db') (h' : db'.SharesSame db'') : db.SharesSame db'' :=
  ⟨h'.org_memory.trans h.org_memory, h'.org_knowledge.trans h.org_knowledge,
    h.next_id.trans h'.next_id⟩

theorem org_evolve {o : Outside K} {role : UUID → UUID → Option String}
    {actions : List (DeploymentAction K)} {made removed : OrgMemory K → Prop}
    (h : db.SharesSame db') : db.OrgEvolve o role actions made removed db' :=
  org_same h.org_memory h.next_id

theorem knowledge_evolve {made removed : OrgKnowledge K → Prop} (h : db.SharesSame db') :
    db.KnowledgeEvolve made removed db' :=
  knowledge_same h.org_knowledge h.next_id

end Db.SharesSame


section
variable [Field K] [LinearOrder K] [HasSqrt K] {o : Outside K} {cfg : Settings} {cal : Calendar}
  {open_agents : List (UUID × UUID)} {db db' : Db K} {a : DeploymentAction K}

omit [Field K] [LinearOrder K] [HasSqrt K] in
/-- What is private does not touch what the organisation shares. -/
theorem remember_shares {agent : AgentIdentity} {now : Timestamp} {choice : Nat}
    {memories : List MemoryItem} {result : Db K × List UUID}
    (hreq : remember o agent now choice memories db = .ok result) :
    db.SharesSame result.1 := by
  obtain ⟨db', ids⟩ := result
  exact remember_preserves hreq (fun d _ _ hd => hd.trans ⟨rfl, rfl, Nat.le_succ _⟩)
    (fun _ _ hd => hd.trans ⟨rfl, rfl, le_refl _⟩) (.refl db)

omit [Field K] [LinearOrder K] [HasSqrt K] in
theorem statement_shares (w : Writer) (st : WriteStatement K) (db : Db K) (ids : List UUID) :
    db.SharesSame (st.exec w (db, ids)).1 := by
  cases st with
  | prune | supersede => exact ⟨rfl, rfl, le_refl _⟩
  | insert => exact ⟨rfl, rfl, Nat.le_succ _⟩

theorem write_reflections_shares {w : Writer} {reflections : List Reflection}
    {new_embeddings : Nat → Option (List K)}
    {existing_embeddings : String → Option (StoredVector K)}
    {existing : List (HindsightMemory K)} {result : Db K × Nat × Option Int}
    (hreq : write_reflections o cfg w reflections new_embeddings existing_embeddings existing db =
      .ok result) : db.SharesSame result.1 := by
  obtain ⟨db', n, counter⟩ := result
  exact write_reflections_preserves hreq
    (fun d ids st hd => hd.trans (statement_shares _ st d ids))
    (fun _ hd => hd.trans ⟨rfl, rfl, le_refl _⟩) (fun _ _ hd => hd.trans ⟨rfl, rfl, le_refl _⟩)
    (.refl db)

theorem reflect_shares {agent : AgentIdentity} {now : Timestamp}
    {answer : Except Failure (List Reflection)} {failed : List Nat}
    {result : Db K × Nat × Option Int}
    (hreq : reflect o cfg agent now answer failed db = .ok result) : db.SharesSame result.1 := by
  obtain ⟨db', n, counter⟩ := result
  exact reflect_preserves hreq (fun d ids st hd => hd.trans (statement_shares _ st d ids))
    (fun _ hd => hd.trans ⟨rfl, rfl, le_refl _⟩) (fun _ _ hd => hd.trans ⟨rfl, rfl, le_refl _⟩)
    (.refl db)

theorem write_evolves_org {actions : List (DeploymentAction K)} (hkeyed : db.Keyed)
    (hmem : a ∈ actions) (hwrite : DeploymentWrite o cfg cal open_agents db a db') :
    db.OrgEvolve o db.role actions (a.makes_org o cal db.role) (a.removes_org db.role) db' := by
  cases hwrite with
  | none => exact org_same rfl (le_refl _)
  | remember hreq => exact (remember_shares hreq).org_evolve
  | remember_org hreq => exact remember_org_evolves_org hmem hreq
  | reflect hreq => exact (reflect_shares hreq).org_evolve
  | forget hreq => exact forget_evolves_org hkeyed hreq
  | ingest hreq =>
    obtain ⟨-, hsame | hinserted⟩ := ingest_committed hreq
    · rw [hsame]
      exact org_same rfl (le_refl _)
    · rw [hinserted]
      exact org_same rfl (Nat.le_add_right _ _)
  | delete hreq =>
    obtain ⟨-, hresult⟩ := delete_knowledge_ok hreq
    rw [hresult]
    exact org_same rfl (le_refl _)
  | access id now results => exact record_recall_access_evolves_org results _ now db
  | session_reads => exact org_same rfl (le_refl _)
  | outcome memory_ids =>
    unfold commit_outcome
    split
    · exact org_same rfl (le_refl _)
    · exact org_same rfl (le_refl _)
  | purge now => exact org_same rfl (le_refl _)
  | graph ha now row => exact graph_transaction_evolves_org o cfg now row db
  | link => exact org_same rfl (le_refl _)
  | embedding ha tbl id v => exact write_embedding_evolves_org tbl id v db
  | attempt ha tbl id => exact count_attempt_evolves_org tbl id db
  | reflection hopen hreq => exact (write_reflections_shares hreq).org_evolve
  | archive now => exact org_same rfl (le_refl _)
  | summary tenant_id now today handoffs =>
    refine Evolves.insert _ (Nat.le_succ _) fun q hq => ?_
    rw [List.mem_singleton.mp hq]
    exact ⟨⟨tenant_id, now, today, handoffs, rfl⟩, le_refl _⟩

theorem write_evolves_knowledge (hwrite : DeploymentWrite o cfg cal open_agents db a db') :
    db.KnowledgeEvolve (a.makes_chunk o db.role) (a.removes_chunk db.role) db' := by
  cases hwrite with
  | none => exact knowledge_same rfl (le_refl _)
  | remember hreq => exact (remember_shares hreq).knowledge_evolve
  | remember_org hreq =>
    obtain ⟨-, history, hdb'⟩ := remember_org_ok hreq
    rw [hdb']
    exact knowledge_same rfl (Nat.le_succ _)
  | reflect hreq => exact (reflect_shares hreq).knowledge_evolve
  | forget hreq =>
    obtain ⟨-, table, content, -, rfl⟩ := forget_eq hreq
    cases table with
    | hindsight_memories | org_memory | org_knowledge => exact knowledge_same rfl (le_refl _)
  | ingest hreq => exact ingest_evolves_knowledge hreq
  | delete hreq => exact delete_knowledge_evolves_knowledge hreq
  | access id now results => exact record_recall_access_evolves_knowledge results _ now db
  | session_reads => exact knowledge_same rfl (le_refl _)
  | outcome memory_ids =>
    unfold commit_outcome
    split
    · exact knowledge_same rfl (le_refl _)
    · exact knowledge_same rfl (le_refl _)
  | purge now => exact knowledge_same rfl (le_refl _)
  | graph ha now row => exact graph_transaction_evolves_knowledge o cfg now row db
  | link => exact knowledge_same rfl (le_refl _)
  | embedding ha tbl id v => exact write_embedding_evolves_knowledge tbl id v db
  | attempt ha tbl id => exact count_attempt_evolves_knowledge tbl id db
  | reflection hopen hreq => exact (write_reflections_shares hreq).knowledge_evolve
  | archive now => exact knowledge_same rfl (le_refl _)
  | summary => exact knowledge_same rfl (Nat.le_succ _)

/-! ## Every run -/

/-- The state is good, and the agents are who they were. -/
def SameAgents (identities : List Agent) (s : Deployment K) : Prop :=
  GoodDeployment s ∧ s.db.identities = identities

theorem step_same_agents {identities : List Agent} {s s' : Deployment K}
    (h : SameAgents identities s) (hstep : deployment_step o cfg cal s a = some s') :
    SameAgents identities s' :=
  ⟨deployment_step_good h.1 hstep,
    (write_identities (deployment_step_writes hstep)).trans h.2⟩

omit [Field K] [LinearOrder K] [HasSqrt K] in
theorem role_of_same_agents {s s' : Deployment K} (h : SameAgents s.db.identities s') :
    s'.db.role = s.db.role := by
  funext agent_id tenant_id
  exact role_of_identities h.2 agent_id tenant_id

theorem run_same_agents {s s' : Deployment K} {actions : List (DeploymentAction K)}
    (h : GoodDeployment s) (hrun : runs.run (deployment_step o cfg cal) s actions = some s') :
    SameAgents s.db.identities s' := by
  have hok : runs.Guarded (deployment_step o cfg cal) (fun _ _ => True) s actions :=
    runs.guarded_of_forall _ (fun _ _ => trivial) _ _
  have halways : runs.Always (deployment_step o cfg cal) (SameAgents s.db.identities) s actions :=
    runs.always_of_invariant (fun _ h => h) (fun _ _ _ h _ => step_same_agents h) ⟨h, rfl⟩ hok
  exact halways.last hrun

theorem org_evolves_of_run {s s' : Deployment K} {actions : List (DeploymentAction K)}
    (h : GoodDeployment s) (hrun : runs.run (deployment_step o cfg cal) s actions = some s') :
    s.db.OrgEvolve o s.db.role actions (fun q => ∃ a ∈ actions, a.makes_org o cal s.db.role q)
      (fun q => ∃ a ∈ actions, a.removes_org s.db.role q) s'.db := by
  refine run_evolves_by_actions (org_law o s.db.role actions)
    (fun s : Deployment K => s.db.org_memory) (fun s => s.db.next_id)
    (DeploymentAction.makes_org o cal s.db.role)
    (DeploymentAction.removes_org s.db.role) (SameAgents s.db.identities) removes_org_back
    (fun hmem hs hstep => ?_) step_same_agents ⟨h, rfl⟩ hrun
  have hevolve := write_evolves_org hs.1.owned.keyed hmem (deployment_step_writes hstep)
  rw [role_of_same_agents hs] at hevolve
  exact hevolve

theorem knowledge_evolves_of_run {s s' : Deployment K} {actions : List (DeploymentAction K)}
    (h : GoodDeployment s) (hrun : runs.run (deployment_step o cfg cal) s actions = some s') :
    s.db.KnowledgeEvolve (fun r => ∃ a ∈ actions, a.makes_chunk o s.db.role r)
      (fun r => ∃ a ∈ actions, a.removes_chunk s.db.role r) s'.db := by
  refine run_evolves_by_actions knowledge_law (fun s : Deployment K => s.db.org_knowledge)
    (fun s => s.db.next_id) (DeploymentAction.makes_chunk o s.db.role)
    (DeploymentAction.removes_chunk s.db.role) (SameAgents s.db.identities) removes_chunk_back
    (fun _ hs hstep => ?_) step_same_agents ⟨h, rfl⟩ hrun
  have hevolve := write_evolves_knowledge (deployment_step_writes hstep)
  rw [role_of_same_agents hs] at hevolve
  exact hevolve

/-- From any state that the service reaches to any later one: a memory of the organisation whose id
was drawn by then comes from the memory with that id, and its columns are as they were or as one of
the later requests of a chief under the same type and title says. A memory that is gone was
forgotten by the author of the handoff or by a chief. -/
theorem org_memories_only_evolve (o : Outside K) (cfg : Settings) (cal : Calendar) (db : Db K)
    (hblank : db.Blank) (hagents : (db.qortia_agents.map (·.id)).Nodup)
    (earlier later : List (DeploymentAction K)) (s s' : Deployment K)
    (hearlier : runs.run (deployment_step o cfg cal) db.deployed earlier = some s)
    (hlater : runs.run (deployment_step o cfg cal) s later = some s') :
    (∀ q' ∈ s'.db.org_memory, q'.id < s.db.next_id →
      ∃ q ∈ s.db.org_memory, q.Becomes o db.role later q') ∧
    ∀ q ∈ s.db.org_memory, (∃ q' ∈ s'.db.org_memory, q.Becomes o db.role later q') ∨
      ∃ a ∈ later, a.removes_org db.role q := by
  have hgood := good_deployment_of_run hblank hagents hearlier
  have hstart : GoodDeployment db.deployed := ⟨hblank.owned hagents, fun _ h => by cases h⟩
  have hrole : s.db.role = db.role := role_of_same_agents (run_same_agents hstart hearlier)
  have hevolve := org_evolves_of_run hgood hlater
  rw [hrole] at hevolve
  exact ⟨fun q' hq' hdrawn => hevolve.of_drawn hq' hdrawn, hevolve.kept⟩

/-- A chunk of knowledge is never edited: it is as it was ingested until a chief ingests its
document again or deletes it. -/
theorem chunks_only_evolve (o : Outside K) (cfg : Settings) (cal : Calendar) (db : Db K)
    (hblank : db.Blank) (hagents : (db.qortia_agents.map (·.id)).Nodup)
    (earlier later : List (DeploymentAction K)) (s s' : Deployment K)
    (hearlier : runs.run (deployment_step o cfg cal) db.deployed earlier = some s)
    (hlater : runs.run (deployment_step o cfg cal) s later = some s') :
    (∀ r' ∈ s'.db.org_knowledge, (r'.id < s.db.next_id → ∃ r ∈ s.db.org_knowledge, r.Becomes r') ∧
      ∃ a ∈ earlier ++ later, ∃ r, a.makes_chunk o db.role r ∧ r.Becomes r') ∧
    ∀ r ∈ s.db.org_knowledge, (∃ r' ∈ s'.db.org_knowledge, r.Becomes r') ∨
      ∃ a ∈ later, a.removes_chunk db.role r := by
  have hgood := good_deployment_of_run hblank hagents hearlier
  have hstart : GoodDeployment db.deployed := ⟨hblank.owned hagents, fun _ h => by cases h⟩
  have hrole : s.db.role = db.role := role_of_same_agents (run_same_agents hstart hearlier)
  have hevolve := knowledge_evolves_of_run hgood hlater
  rw [hrole] at hevolve
  have hwhole : runs.run (deployment_step o cfg cal) db.deployed (earlier ++ later) = some s' := by
    rw [runs.run_append, hearlier]
    exact hlater
  have hall := knowledge_evolves_of_run hstart hwhole
  refine ⟨fun r' hr' => ⟨fun hdrawn => hevolve.of_drawn hr' hdrawn, ?_⟩, hevolve.kept⟩
  rcases hall.grown r' hr' with ⟨r, hr, -⟩ | ⟨r, ⟨a, ha, hmakes⟩, -, hbecomes⟩
  · rw [show db.deployed.db.org_knowledge = [] from hblank.org_knowledge] at hr
    cases hr
  · exact ⟨a, ha, r, hmakes, hbecomes⟩

/-! ## Who stands behind it -/

/-- The author of a memory of the organisation is one who may write it. -/
def OrgMemory.authored (role : UUID → UUID → Option String) (q : OrgMemory K) : Prop :=
  match q.type with
  | .process | .decision_log =>
    ∃ author, q.author_id = some author ∧ role author q.tenant_id = some "chief"
  | .handoff => ∃ author, q.author_id = some author ∧ (role author q.tenant_id).isSome = true
  | .weekly_summary => q.author_id = none
  | .org_chart => False

omit [Field K] [LinearOrder K] [HasSqrt K] in
theorem made_org_authored {role : UUID → UUID → Option String} {q : OrgMemory K}
    (h : a.makes_org o cal role q) : q.authored role := by
  unfold DeploymentAction.makes_org at h
  split at h
  · rename_i agent now body
    obtain ⟨hrow, hrole, hmay⟩ := h
    rw [hrow]
    cases hbody : body.type with
    | handoff =>
      simp only [OrgMemory.authored, org_row, hbody, WritableOrgType.org_type]
      exact ⟨agent.agent_id, rfl, hrole⟩
    | process | decision_log =>
      have hchief := hmay.resolve_left (by rw [hbody]; exact WritableOrgType.noConfusion)
      simp only [OrgMemory.authored, org_row, hbody, WritableOrgType.org_type]
      exact ⟨agent.agent_id, rfl, hchief⟩
  · obtain ⟨tenant_id, now, today, handoffs, hrow⟩ := h
    rw [hrow]
    rfl
  · exact h.elim

omit [Field K] [LinearOrder K] [HasSqrt K] in
/-- A chief who writes over a memory is its author then. -/
theorem OrgMemory.Becomes.authored {role : UUID → UUID → Option String}
    {actions : List (DeploymentAction K)} {q q' : OrgMemory K}
    (h : q.Becomes o role actions q') (hq : q.authored role) : q'.authored role := by
  unfold OrgMemory.authored at hq ⊢
  rw [h.type_eq, h.tenant_eq]
  rcases h.written with hsame | ⟨a, -, hrewrites⟩
  · have hauthor : q'.author_id = q.author_id := congrArg (fun w => w.2.1) hsame
    rw [hauthor]
    exact hq
  · obtain ⟨htitled, author, hauthor, hchief⟩ := rewrites_org_author hrewrites
    rcases htitled with htype | htype
    · rw [htype]
      exact ⟨author, hauthor, hchief⟩
    · rw [htype]
      exact ⟨author, hauthor, hchief⟩

omit [Field K] [LinearOrder K] [HasSqrt K] in
theorem made_chunk_authored {role : UUID → UUID → Option String} {r : OrgKnowledge K}
    (h : a.makes_chunk o role r) :
    ∃ author, r.author_id = some author ∧ role author r.tenant_id = some "chief" := by
  unfold DeploymentAction.makes_chunk at h
  split at h
  · rename_i agent now choice body
    obtain ⟨hchief, sect, -, idx, embedding, hrow⟩ := h
    rw [hrow]
    exact ⟨agent.agent_id, rfl, hchief⟩
  · exact h.elim

/-- In every state that the service reaches: the author of a process, of a decision and of a chunk
is a chief of its organisation, the author of a handoff is an agent of it, and a summary has no
author. -/
theorem the_organisation_is_authored (o : Outside K) (cfg : Settings) (cal : Calendar) (db : Db K)
    (hblank : db.Blank) (hagents : (db.qortia_agents.map (·.id)).Nodup)
    (actions : List (DeploymentAction K)) (s : Deployment K)
    (hrun : runs.run (deployment_step o cfg cal) db.deployed actions = some s) :
    (∀ q ∈ s.db.org_memory, q.authored s.db.role) ∧
    ∀ r ∈ s.db.org_knowledge, ∃ author, r.author_id = some author ∧
      s.db.role author r.tenant_id = some "chief" := by
  have hstart : GoodDeployment db.deployed := ⟨hblank.owned hagents, fun _ h => by cases h⟩
  have hrole : s.db.role = db.role := role_of_same_agents (run_same_agents hstart hrun)
  rw [hrole]
  constructor
  · apply (org_evolves_of_run hstart hrun).all OrgMemory.Becomes.authored
    · rintro q ⟨b, -, hmakes⟩
      exact made_org_authored hmakes
    · intro q hq
      rw [show db.deployed.db.org_memory = [] from hblank.org_memory] at hq
      cases hq
  · intro r' hr'
    rcases (knowledge_evolves_of_run hstart hrun).grown r' hr' with
      ⟨r, hr, -⟩ | ⟨r, ⟨b, -, hmakes⟩, -, hbecomes⟩
    · rw [show db.deployed.db.org_knowledge = [] from hblank.org_knowledge] at hr
      cases hr
    · have hauthor : r'.author_id = r.author_id :=
        (congrArg OrgKnowledge.author_id hbecomes.recorded :)
      have htenant : r'.tenant_id = r.tenant_id :=
        (congrArg OrgKnowledge.tenant_id hbecomes.recorded :)
      rw [hauthor, htenant]
      exact made_chunk_authored hmakes

end

/-! ## A chief and an engineer -/

/-- The chief 20 and the engineer 21 of the organisation 1. -/
def engineer_db : Db ℚ :=
  { qortia_agents := [{ id := 20, tenant_id := 1, role := "chief", updated_at := 0 },
      { id := 21, tenant_id := 1, updated_at := 0 }] }

def engineer_21 : AgentIdentity := { agent_id := 21, tenant_id := 1 }

/-- The chief writes a process and ingests a document, and the engineer hands something over. -/
def write_org : List (DeploymentAction ℚ) :=
  [.memory (.remember_org chief 0 deploy_once),
   .memory (.remember_org engineer_21 1 shift_handoff),
   .request (.service (.ingest_knowledge chief 2 (fun _ => 0) unread_notes))]

/-- The engineer may not write over the process, which the chief does. The engineer forgets the
handoff, and the chief deletes the document. -/
def rewrite_org : List (DeploymentAction ℚ) :=
  [.memory (.remember_org engineer_21 3 deploy_once),
   .memory (.remember_org chief 4 deploy_twice),
   .memory (.forget engineer_21 5 1),
   .request (.service (.delete_knowledge chief "notes.md"))]

/-- The memories of the organisation, each with its author, and the number of chunks. -/
structure OrgView where
  memories : List (UUID × String × Option UUID)
  chunks : Nat
  deriving DecidableEq

def org_view (s : Deployment ℚ) : OrgView where
  memories := s.db.org_memory.map fun q => (q.id, q.content, q.author_id)
  chunks := s.db.org_knowledge.length

theorem rewrite_org_runs :
    ∃ s s' : Deployment ℚ,
      runs.run (deployment_step no_models {} no_calendar) engineer_db.deployed write_org = some s ∧
      runs.run (deployment_step no_models {} no_calendar) s rewrite_org = some s' ∧
      org_view s = ⟨[(0, wait_once, some 20), (1, shift_handoff.content, some 21)], 1⟩ ∧
      org_view s' = ⟨[(0, wait_twice, some 20)], 0⟩ := by
  have hend : ((runs.run (deployment_step no_models {} no_calendar) engineer_db.deployed
      write_org).bind fun s => (runs.run (deployment_step no_models {} no_calendar) s
        rewrite_org).map fun s' => (org_view s, org_view s')) =
      some (⟨[(0, wait_once, some 20), (1, shift_handoff.content, some 21)], 1⟩,
        ⟨[(0, wait_twice, some 20)], 0⟩) := by
    decide +kernel
  obtain ⟨s, hs, hend⟩ := Option.bind_eq_some_iff.mp hend
  obtain ⟨s', hs', hend⟩ := Option.map_eq_some_iff.mp hend
  obtain ⟨hview, hview'⟩ := Prod.mk.inj hend
  exact ⟨s, s', hs, hs', hview, hview'⟩

theorem org_memories_only_evolve_by_a_chief :
    ∃ s s' : Deployment ℚ, org_view s' = ⟨[(0, wait_twice, some 20)], 0⟩ ∧
      (∀ q' ∈ s'.db.org_memory, q'.id < s.db.next_id →
        ∃ q ∈ s.db.org_memory, q.Becomes no_models engineer_db.role rewrite_org q') ∧
      ∀ q ∈ s.db.org_memory,
        (∃ q' ∈ s'.db.org_memory, q.Becomes no_models engineer_db.role rewrite_org q') ∨
        ∃ a ∈ rewrite_org, a.removes_org engineer_db.role q := by
  obtain ⟨s, s', hs, hs', -, hview'⟩ := rewrite_org_runs
  exact ⟨s, s', hview', org_memories_only_evolve no_models {} no_calendar engineer_db
    ⟨rfl, rfl, rfl, rfl, rfl⟩ (by decide) write_org rewrite_org s s' hs hs'⟩

theorem chunks_only_evolve_until_deleted :
    ∃ s s' : Deployment ℚ, (org_view s).chunks = 1 ∧ (org_view s').chunks = 0 ∧
      (∀ r' ∈ s'.db.org_knowledge,
        (r'.id < s.db.next_id → ∃ r ∈ s.db.org_knowledge, r.Becomes r') ∧
        ∃ a ∈ write_org ++ rewrite_org, ∃ r, a.makes_chunk no_models engineer_db.role r ∧
          r.Becomes r') ∧
      ∀ r ∈ s.db.org_knowledge, (∃ r' ∈ s'.db.org_knowledge, r.Becomes r') ∨
        ∃ a ∈ rewrite_org, a.removes_chunk engineer_db.role r := by
  obtain ⟨s, s', hs, hs', hview, hview'⟩ := rewrite_org_runs
  exact ⟨s, s', congrArg OrgView.chunks hview, congrArg OrgView.chunks hview',
    chunks_only_evolve no_models {} no_calendar engineer_db ⟨rfl, rfl, rfl, rfl, rfl⟩ (by decide)
      write_org rewrite_org s s' hs hs'⟩

theorem the_organisation_is_authored_by_both :
    ∃ s : Deployment ℚ,
      org_view s = ⟨[(0, wait_once, some 20), (1, shift_handoff.content, some 21)], 1⟩ ∧
      (∀ q ∈ s.db.org_memory, q.authored s.db.role) ∧
      ∀ r ∈ s.db.org_knowledge, ∃ author, r.author_id = some author ∧
        s.db.role author r.tenant_id = some "chief" := by
  obtain ⟨s, s', hs, -, hview, -⟩ := rewrite_org_runs
  exact ⟨s, hview, the_organisation_is_authored no_models {} no_calendar engineer_db
    ⟨rfl, rfl, rfl, rfl, rfl⟩ (by decide) write_org s hs⟩

end qortia
