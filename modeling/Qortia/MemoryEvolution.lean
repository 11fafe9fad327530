-- Where a stored memory comes from and what becomes of it. In every run of the deployment a private
-- memory was remembered by its agent or reflected for it, it keeps what was written, its flags and
-- counters go one way, and it goes only when its agent forgets it or when it has expired.
import Qortia.Deployment
import Qortia.IngestRows
import Qortia.Lib.Evolving
import Qortia.OutcomeApart
import Qortia.ReflectCommits

namespace qortia

open evolving

variable {K : Type}

/-! ## One memory -/

/-- The columns that are written once. -/
def HindsightMemory.recorded (r : HindsightMemory K) : HindsightMemory K :=
  { r with
    embedding := none, embedding_attempts := 0, is_consolidated := false, is_graphed := false
    tier := .active, recall_count := 0, last_recalled_at := none, valid_until := none
    confidence_multiplier := 1 }

/-- What a memory may become. It is closed when it is no longer consolidated, once, and it is
archived when it is an episode of little importance. -/
structure HindsightMemory.Becomes (r r' : HindsightMemory K) : Prop where
  recorded : r'.recorded = r.recorded
  embedding : r.embedding.isSome = true → r'.embedding.isSome = true
  embedding_attempts : r.embedding_attempts ≤ r'.embedding_attempts
  is_consolidated : r'.is_consolidated = true → r.is_consolidated = true
  valid_until : r'.valid_until = r.valid_until ∨
    (r.is_consolidated = true ∧ r'.is_consolidated = false)
  is_graphed : r.is_graphed = true → r'.is_graphed = true
  tier : r'.tier = r.tier ∨
    (r.type = .episodic ∧ r.importance < 4 / 10 ∧ r.recall_count < 3 ∧ r'.tier = .archive)
  recall_count : r.recall_count ≤ r'.recall_count
  last_recalled_at : r.last_recalled_at.isSome = true → r'.last_recalled_at.isSome = true

namespace HindsightMemory.Becomes

variable {r r' r'' : HindsightMemory K}

theorem id_eq (h : r.Becomes r') : r'.id = r.id := (congrArg HindsightMemory.id h.recorded :)

theorem agent_eq (h : r.Becomes r') : r'.agent_id = r.agent_id :=
  (congrArg HindsightMemory.agent_id h.recorded :)

theorem type_eq (h : r.Becomes r') : r'.type = r.type :=
  (congrArg HindsightMemory.type h.recorded :)

theorem importance_eq (h : r.Becomes r') : r'.importance = r.importance :=
  (congrArg HindsightMemory.importance h.recorded :)

theorem expires_eq (h : r.Becomes r') : r'.expires_at = r.expires_at :=
  (congrArg HindsightMemory.expires_at h.recorded :)

theorem refl (r : HindsightMemory K) : r.Becomes r where
  recorded := rfl
  embedding h := h
  embedding_attempts := le_refl _
  is_consolidated h := h
  valid_until := Or.inl rfl
  is_graphed h := h
  tier := Or.inl rfl
  recall_count := le_refl _
  last_recalled_at h := h

theorem trans (h : r.Becomes r') (h' : r'.Becomes r'') : r.Becomes r'' where
  recorded := h'.recorded.trans h.recorded
  embedding hr := h'.embedding (h.embedding hr)
  embedding_attempts := h.embedding_attempts.trans h'.embedding_attempts
  is_consolidated hr := h.is_consolidated (h'.is_consolidated hr)
  valid_until := by
    rcases h'.valid_until with hsame | ⟨hopen, hclosed⟩
    · rcases h.valid_until with hfirst | ⟨hopen, hclosed⟩
      · exact Or.inl (hsame.trans hfirst)
      · refine Or.inr ⟨hopen, ?_⟩
        rw [Bool.eq_false_iff] at hclosed ⊢
        exact fun hr => hclosed (h'.is_consolidated hr)
    · exact Or.inr ⟨h.is_consolidated hopen, hclosed⟩
  is_graphed hr := h'.is_graphed (h.is_graphed hr)
  tier := by
    rcases h'.tier with hsame | ⟨htype, himportance, hcount, harchive⟩
    · rcases h.tier with hfirst | ⟨htype, himportance, hcount, harchive⟩
      · exact Or.inl (hsame.trans hfirst)
      · exact Or.inr ⟨htype, himportance, hcount, hsame.trans harchive⟩
    · rw [h.type_eq] at htype
      rw [h.importance_eq] at himportance
      exact Or.inr ⟨htype, himportance, lt_of_le_of_lt h.recall_count hcount, harchive⟩
  recall_count := h.recall_count.trans h'.recall_count
  last_recalled_at hr := h'.last_recalled_at (h.last_recalled_at hr)

end HindsightMemory.Becomes

def memory_law : Law (HindsightMemory K) where
  id := HindsightMemory.id
  becomes := HindsightMemory.Becomes
  refl := .refl
  trans := .trans
  id_eq := HindsightMemory.Becomes.id_eq

/-- The memory that a reflect run writes for one of the entries. -/
structure OfReflection (w : Writer) (reflections : List Reflection) (r : HindsightMemory K) :
    Prop where
  agent_id : r.agent_id = w.agent_id
  tenant_id : r.tenant_id = w.tenant_id
  created_at : r.created_at = w.now
  valid_from : r.valid_from = w.now
  is_open : r.is_consolidated = true ∧ r.valid_until = none
  is_active : r.tier = .active ∧ r.expires_at = none
  entry : ∃ entry ∈ reflections, ∃ body, entry.body = some body ∧
    content_text body.content = .ok r.content ∧ r.type = body.type.memory_type ∧
      column_importance body.importance = .ok r.importance

/-- The step writes the memory: it is one of those that are remembered, or of those that the
language model has answered with, in a request or in the open reflect run of the step. -/
def DeploymentAction.makes (o : Outside K) (open_agents : List (UUID × UUID))
    (a : DeploymentAction K) (r : HindsightMemory K) : Prop :=
  match a with
  | .request (.service (.memory (.remember agent now _ memories))) =>
    ∃ mem ∈ memories, ∃ expires, expires_at now mem = .ok expires ∧
      r = memory_row o agent now mem expires r.id
  | .request (.service (.memory (.reflect agent now answer _))) =>
    ∃ reflections, answer = .ok reflections ∧
      OfReflection ⟨agent.agent_id, agent.tenant_id, now⟩ reflections r
  | .write_reflection i now reflections _ =>
    ∃ agent_id tenant_id, open_agents[i]? = some (agent_id, tenant_id) ∧
      OfReflection ⟨agent_id, tenant_id, now⟩ reflections r
  | _ => False

/-- The step removes the memory: its agent forgets it, or it has expired. -/
def DeploymentAction.removes (a : DeploymentAction K) (r : HindsightMemory K) : Prop :=
  match a with
  | .request (.service (.memory (.forget agent _ id))) => r.id = id ∧ r.agent_id = agent.agent_id
  | .request (.service (.memory (.purge_expired now))) => expired_short_term now r = true
  | _ => False

/-- A reason to remove a memory is a reason for what it was before. -/
theorem removes_back {a : DeploymentAction K} {r r' : HindsightMemory K} (h : r.Becomes r')
    (hremoves : a.removes r') : a.removes r := by
  unfold DeploymentAction.removes at hremoves ⊢
  split at hremoves
  · rw [h.id_eq, h.agent_eq] at hremoves
    exact hremoves
  · unfold expired_short_term at hremoves ⊢
    rw [h.type_eq, h.expires_eq] at hremoves
    exact hremoves
  · exact hremoves

/-! ## One statement -/

/-- The private memories evolve from one database to the other. -/
def Db.MemoriesEvolve (made removed : HindsightMemory K → Prop) (db db' : Db K) : Prop :=
  Evolves memory_law made removed db.next_id db.hindsight_memories db'.next_id
    db'.hindsight_memories

section
variable {made removed : HindsightMemory K → Prop} {db db' db'' : Db K}
  {open_agents : List (UUID × UUID)}

theorem memories_same (hrows : db'.hindsight_memories = db.hindsight_memories)
    (hnext : db.next_id ≤ db'.next_id) : db.MemoriesEvolve made removed db' := by
  unfold Db.MemoriesEvolve
  rw [hrows]
  exact Evolves.refl memory_law made removed hnext _

theorem memories_update {p : HindsightMemory K → Bool}
    {f : HindsightMemory K → HindsightMemory K}
    (hf : ∀ r ∈ db.hindsight_memories, p r = true → r.Becomes (f r))
    (hrows : db'.hindsight_memories = rows.update p f db.hindsight_memories)
    (hnext : db'.next_id = db.next_id) : db.MemoriesEvolve made removed db' := by
  unfold Db.MemoriesEvolve
  rw [hrows, hnext]
  exact Evolves.update made removed _ hf

theorem memories_insert {r : HindsightMemory K} (hmade : made r) (hid : r.id = db.next_id)
    (hrows : db'.hindsight_memories = db.hindsight_memories ++ [r])
    (hnext : db'.next_id = db.next_id + 1) : db.MemoriesEvolve made removed db' := by
  unfold Db.MemoriesEvolve
  rw [hrows, hnext]
  apply Evolves.insert removed (Nat.le_succ _)
  intro x hx
  rw [List.mem_singleton.mp hx]
  exact ⟨hmade, le_of_eq hid.symm⟩

/-- One after the other, where nothing is removed at last. -/
theorem Db.MemoriesEvolve.trans (h : db.MemoriesEvolve made removed db')
    (h' : db'.MemoriesEvolve made (fun _ => False) db'') : db.MemoriesEvolve made removed db'' :=
  (Evolves.trans h h' fun _ hr => hr).mono (fun _ hr => hr.elim id id)
    (fun _ hr => hr.elim id False.elim)

theorem remember_evolves (open_agents : List (UUID × UUID)) {o : Outside K}
    {agent : AgentIdentity} {now : Timestamp} {choice : Nat} {memories : List MemoryItem}
    {result : Db K × List UUID}
    (hreq : remember o agent now choice memories db = .ok result) :
    db.MemoriesEvolve
      (DeploymentAction.makes o open_agents (.memory (.remember agent now choice memories)))
      removed result.1 := by
  obtain ⟨db', ids⟩ := result
  refine remember_preserves_items hreq (fun d mem hmem expires hexpires hd => ?_)
    (fun _ _ hd => hd) (memories_same rfl (le_refl _))
  exact hd.trans (memories_insert ⟨mem, hmem, expires, hexpires, rfl⟩ rfl rfl rfl)

/-- A memory that is not or no longer consolidated. -/
theorem becomes_superseded (r : HindsightMemory K) :
    r.Becomes { r with is_consolidated := false } :=
  { HindsightMemory.Becomes.refl r with
    recorded := rfl
    is_consolidated := fun h => by cases h
    valid_until := Or.inl rfl
    tier := Or.inl rfl }

theorem becomes_pruned {r : HindsightMemory K} (h : r.is_consolidated = true) (now : Timestamp) :
    r.Becomes { r with is_consolidated := false, valid_until := some now } :=
  { HindsightMemory.Becomes.refl r with
    recorded := rfl
    is_consolidated := fun h => by cases h
    valid_until := Or.inr ⟨h, rfl⟩
    tier := Or.inl rfl }

/-- The INSERT is of one of the entries. -/
def WriteStatement.of_entries (reflections : List Reflection) : WriteStatement K → Prop
  | .insert type content importance _ _ _ => ∃ entry ∈ reflections, ∃ body,
      entry.body = some body ∧ content_text body.content = .ok content ∧
        type = body.type.memory_type ∧ column_importance body.importance = .ok importance
  | .prune _ | .supersede _ => True

theorem statement_evolves (w : Writer) {reflections : List Reflection} {st : WriteStatement K}
    (hst : st.of_entries reflections) (db : Db K) (ids : List UUID) :
    db.MemoriesEvolve (OfReflection w reflections) removed (st.exec w (db, ids)).1 := by
  cases st with
  | prune ids' =>
    refine memories_update (fun r _ hp => becomes_pruned ?_ w.now) rfl rfl
    simp only [consolidated, Bool.and_eq_true] at hp
    exact hp.1.2
  | supersede id => exact memories_update (fun r _ _ => becomes_superseded r) rfl rfl
  | insert type content importance entities embedding stability =>
    refine memories_insert ?_ rfl rfl rfl
    exact ⟨rfl, rfl, rfl, rfl, ⟨rfl, rfl⟩, ⟨rfl, rfl⟩, hst⟩

theorem statements_evolve (w : Writer) {reflections : List Reflection}
    {sts : List (WriteStatement K)} (hsts : ∀ st ∈ sts, st.of_entries reflections)
    (s : Db K × List UUID) :
    s.1.MemoriesEvolve (OfReflection w reflections) (fun _ => False)
      (sts.foldl (fun s st => st.exec w s) s).1 := by
  induction sts generalizing s with
  | nil => exact memories_same rfl (le_refl _)
  | cons st sts ih =>
    have hfirst : s.1.MemoriesEvolve (OfReflection w reflections) (fun _ => False)
        (st.exec w s).1 := statement_evolves w (hsts st List.mem_cons_self) s.1 s.2
    exact hfirst.trans (ih (fun st' h => hsts st' (List.mem_cons_of_mem _ h)) (st.exec w s))

/-- A forget deletes the memories with the id, and they are the agent's. -/
theorem forget_evolves {o : Outside K} {agent : AgentIdentity} {now : Timestamp} {id : UUID}
    (hkeyed : db.Keyed) (hreq : forget o agent now id db = .ok db') :
    db.MemoriesEvolve made (fun r => r.id = id ∧ r.agent_id = agent.agent_id) db' := by
  obtain ⟨-, table, content, hfound, rfl⟩ := forget_eq hreq
  rcases find_forgotten_cases hfound with ⟨rfl, r₀, hr₀, hid₀, howner, -⟩ | ⟨rfl, -⟩
  · refine Evolves.delete made _ fun r hr hp => ?_
    have hid : r.id = id := of_decide_eq_true hp
    have hsame := List.inj_on_of_nodup_map hkeyed.hindsight_nodup hr hr₀ (hid.trans hid₀.symm)
    rw [hsame]
    exact ⟨hid₀, howner⟩
  · exact memories_same rfl (le_refl _)

theorem record_recall_access_evolves (results : List (RecallResult K)) (tenant_id : UUID)
    (now : Timestamp) (db : Db K) :
    db.MemoriesEvolve made removed (record_recall_access results tenant_id now db) := by
  unfold record_recall_access
  dsimp only
  split
  · exact memories_same rfl (le_refl _)
  · refine memories_update (fun r _ _ => ?_) rfl rfl
    exact { HindsightMemory.Becomes.refl r with
      recorded := rfl
      valid_until := Or.inl rfl
      tier := Or.inl rfl
      recall_count := Nat.le_succ _
      last_recalled_at := fun _ => rfl }

theorem commit_outcome_evolves (p : Report) (memory_ids : List UUID) (db : Db K) :
    db.MemoriesEvolve made removed (commit_outcome p memory_ids db) := by
  unfold commit_outcome
  split
  · exact memories_same rfl (le_refl _)
  · refine memories_update (fun r _ _ => ?_) rfl rfl
    exact { HindsightMemory.Becomes.refl r with
      recorded := rfl
      valid_until := Or.inl rfl
      tier := Or.inl rfl }

theorem graph_transaction_evolves (o : Outside K) (cfg : Settings) (now : Timestamp)
    (row : GraphRow) (db : Db K) :
    db.MemoriesEvolve made removed (graph_transaction o cfg now db row) := by
  unfold graph_transaction
  rw [graph_entities_frame]
  unfold set_graphed
  split
  · refine memories_update (fun r _ _ => ?_) rfl rfl
    exact { HindsightMemory.Becomes.refl r with
      recorded := rfl
      valid_until := Or.inl rfl
      is_graphed := fun _ => rfl
      tier := Or.inl rfl }
  · exact memories_same rfl (le_refl _)

theorem write_embedding_evolves (tbl : EmbeddedTable) (id : UUID) (v : List K) (db : Db K) :
    db.MemoriesEvolve made removed (write_embedding tbl id v db) := by
  cases tbl with
  | hindsight_memories =>
    refine memories_update (fun r _ _ => ?_) rfl rfl
    exact { HindsightMemory.Becomes.refl r with
      recorded := rfl
      embedding := fun _ => rfl
      valid_until := Or.inl rfl
      tier := Or.inl rfl }
  | org_memory | org_knowledge | qortia_entities => exact memories_same rfl (le_refl _)

theorem count_attempt_evolves (tbl : EmbeddedTable) (id : UUID) (db : Db K) :
    db.MemoriesEvolve made removed (count_attempt tbl id db) := by
  cases tbl with
  | hindsight_memories =>
    refine memories_update (fun r _ _ => ?_) rfl rfl
    exact { HindsightMemory.Becomes.refl r with
      recorded := rfl
      embedding_attempts := Nat.le_succ _
      valid_until := Or.inl rfl
      tier := Or.inl rfl }
  | org_memory | org_knowledge | qortia_entities => exact memories_same rfl (le_refl _)

theorem archive_evolves (now : Timestamp) (db : Db K) :
    db.MemoriesEvolve made removed (archive_old_episodic_memories now db) := by
  refine memories_update (fun r _ hp => ?_) rfl rfl
  simp only [old_episodic, Bool.and_eq_true, decide_eq_true_eq] at hp
  obtain ⟨⟨⟨⟨htype, -⟩, -⟩, himportance⟩, hcount⟩ := hp
  exact { HindsightMemory.Becomes.refl r with
    recorded := rfl
    valid_until := Or.inl rfl
    tier := Or.inr ⟨htype, himportance, hcount, rfl⟩ }

theorem ingest_evolves {o : Outside K} {agent : AgentIdentity} {now : Timestamp}
    {choice : Nat → Nat} {body : KnowledgeIngestRequest} {result : Db K × IngestResponse}
    (hreq : ingest_knowledge o agent now choice body db = .ok result) :
    db.MemoriesEvolve made removed result.1 := by
  obtain ⟨-, hsame | hinserted⟩ := ingest_committed hreq
  · rw [hsame]
    exact memories_same rfl (le_refl _)
  · rw [hinserted]
    exact memories_same rfl (Nat.le_add_right _ _)

theorem delete_knowledge_evolves {agent : AgentIdentity} {source_path : String}
    {result : Db K × Nat} (hreq : delete_knowledge agent source_path db = .ok result) :
    db.MemoriesEvolve made removed result.1 := by
  obtain ⟨-, hresult⟩ := delete_knowledge_ok hreq
  rw [hresult]
  exact memories_same rfl (le_refl _)

theorem remember_org_evolves {o : Outside K} {agent : AgentIdentity} {now : Timestamp}
    {body : RememberOrgRequest} {result : Db K × UUID}
    (hreq : remember_org o agent now body db = .ok result) :
    db.MemoriesEvolve made removed result.1 := by
  obtain ⟨db', row_id⟩ := result
  obtain ⟨-, history, rfl⟩ := remember_org_ok hreq
  exact memories_same rfl (Nat.le_succ _)

variable [Field K] [LinearOrder K] [HasSqrt K] {o : Outside K} {cfg : Settings} {cal : Calendar}
  {open_agents : List (UUID × UUID)}

omit [HasSqrt K] in
theorem insert_row_of_entry {body : ReflectionBody} {content : String}
    {new_emb : Option (List K)} {stability : Option K} {row : WriteStatement K}
    {reflections : List Reflection} {entry : Reflection} (hentry : entry ∈ reflections)
    (hbody : entry.body = some body) (hcontent : content_text body.content = .ok content)
    (h : write_loop.insert_row o body content new_emb stability = .ok row) :
    row.of_entries reflections := by
  unfold write_loop.insert_row at h
  obtain ⟨importance, himportance, h⟩ := bind_ok h
  split at h
  · cases h
    exact ⟨entry, hentry, body, hbody, hcontent, rfl, himportance⟩
  · cases h

theorem write_loop_of_entries {existing_embeddings : String → Option (StoredVector K)}
    {new_embeddings : Nat → Option (List K)} {reflections rest : List Reflection} {i : Nat}
    {seen : List String} {sts : List (WriteStatement K)} (hsub : rest ⊆ reflections)
    (h : write_loop o existing_embeddings new_embeddings i seen rest = .ok sts) :
    ∀ st ∈ sts, st.of_entries reflections := by
  induction rest generalizing i seen sts with
  | nil =>
    cases h
    exact fun st hst => (nomatch hst)
  | cons entry rest ih =>
    obtain ⟨seen', head, tail, hentry, htail, rfl⟩ := write_loop_cons h
    have hmem : entry ∈ reflections := hsub List.mem_cons_self
    intro st hst
    rcases List.mem_append.mp hst with hst | hst
    · cases hentry with
      | retain id => cases hst
      | repeated r c hc hseen => cases hst
      | create id body content row hc hseen hrow =>
        rw [List.mem_singleton.mp hst]
        exact insert_row_of_entry hmem rfl hc hrow
      | update id body content uuid stability row hc hseen huuid hrow =>
        rcases List.mem_cons.mp hst with rfl | hst
        · trivial
        · rw [List.mem_singleton.mp hst]
          exact insert_row_of_entry hmem rfl hc hrow
    · exact ih (List.subset_of_cons_subset hsub) htail st hst

theorem write_reflections_evolves {w : Writer} {reflections : List Reflection}
    {new_embeddings : Nat → Option (List K)}
    {existing_embeddings : String → Option (StoredVector K)}
    {existing : List (HindsightMemory K)} {result : Db K × Nat × Option Int}
    (hreq : write_reflections o cfg w reflections new_embeddings existing_embeddings existing db =
      .ok result) : db.MemoriesEvolve (OfReflection w reflections) removed result.1 := by
  unfold write_reflections at hreq
  obtain ⟨sts, hsts, hreq⟩ := bind_ok hreq
  obtain ⟨ids, writes, -, hwrites, rfl⟩ := write_statements_ok hsts
  have hentries : ∀ st ∈ (if existing ≠ [] &&
      prune_safe (existing ≠ []) (existing_consolidated_count w.agent_id db) ids.length
      then [.prune ids] else []) ++ writes, st.of_entries reflections := by
    intro st hst
    rcases List.mem_append.mp hst with hst | hst
    · split at hst
      · rw [List.mem_singleton.mp hst]
        trivial
      · cases hst
    · exact write_loop_of_entries (List.Subset.refl _) hwrites st hst
  cases hreq
  exact (statements_evolve w hentries (db, [])).mono (fun _ h => h) (fun _ h => h.elim)

theorem reflect_evolves {agent : AgentIdentity} {now : Timestamp}
    {answer : Except Failure (List Reflection)} {failed : List Nat}
    {result : Db K × Nat × Option Int}
    (hreq : reflect o cfg agent now answer failed db = .ok result) :
    db.MemoriesEvolve
      (DeploymentAction.makes o open_agents (.memory (.reflect agent now answer failed)))
      removed result.1 := by
  unfold reflect at hreq
  obtain ⟨u, -, hreq⟩ := bind_ok hreq
  simp only at hreq
  split at hreq
  · cases hreq
  · obtain ⟨reflections, hanswer, hreq⟩ := bind_ok hreq
    exact (write_reflections_evolves hreq).mono (fun _ h => ⟨reflections, hanswer, h⟩)
      (fun _ h => h)

theorem write_evolves {a : DeploymentAction K} (hkeyed : db.Keyed)
    (hwrite : DeploymentWrite o cfg cal open_agents db a db') :
    db.MemoriesEvolve (a.makes o open_agents) a.removes db' := by
  cases hwrite with
  | none => exact memories_same rfl (le_refl _)
  | remember hreq => exact remember_evolves open_agents hreq
  | remember_org hreq => exact remember_org_evolves hreq
  | reflect hreq => exact reflect_evolves hreq
  | forget hreq => exact forget_evolves hkeyed hreq
  | ingest hreq => exact ingest_evolves hreq
  | delete hreq => exact delete_knowledge_evolves hreq
  | access id now results => exact record_recall_access_evolves results _ now db
  | session_reads => exact memories_same rfl (le_refl _)
  | outcome memory_ids => exact commit_outcome_evolves _ memory_ids db
  | purge now => exact Evolves.delete _ _ fun _ _ hp => hp
  | graph ha now row => exact graph_transaction_evolves o cfg now row db
  | link => exact memories_same rfl (le_refl _)
  | embedding ha tbl id v => exact write_embedding_evolves tbl id v db
  | attempt ha tbl id => exact count_attempt_evolves tbl id db
  | reflection hopen hreq =>
    exact (write_reflections_evolves hreq).mono (fun _ h => ⟨_, _, hopen, h⟩) (fun _ h => h)
  | archive now => exact archive_evolves now db
  | summary => exact memories_same rfl (Nat.le_succ _)

/-! ## Every run -/

theorem memories_evolve_of_run {s s' : Deployment K} {actions : List (DeploymentAction K)}
    (h : GoodDeployment s) (hrun : runs.run (deployment_step o cfg cal) s actions = some s') :
    s.db.MemoriesEvolve
      (fun r => ∃ before s₁ a, runs.Takes (deployment_step o cfg cal) s actions before s₁ a ∧
        a.makes o s₁.open_agents r)
      (fun r => ∃ a ∈ actions, a.removes r) s'.db :=
  run_evolves memory_law (fun s : Deployment K => s.db.hindsight_memories)
    (fun s => s.db.next_id) (fun s a => DeploymentAction.makes o s.open_agents a)
    DeploymentAction.removes GoodDeployment removes_back
    (fun _ h hstep => write_evolves h.owned.keyed (deployment_step_writes hstep))
    deployment_step_good h hrun

/-- From any state that the service reaches to any later one: a memory with an id that was drawn
by then comes from the memory with that id, and a memory that is gone was forgotten by its agent or
had expired. -/
theorem memories_only_evolve (o : Outside K) (cfg : Settings) (cal : Calendar) (db : Db K)
    (hblank : db.Blank) (hagents : (db.qortia_agents.map (·.id)).Nodup)
    (earlier later : List (DeploymentAction K)) (s s' : Deployment K)
    (hearlier : runs.run (deployment_step o cfg cal) db.deployed earlier = some s)
    (hlater : runs.run (deployment_step o cfg cal) s later = some s') :
    (∀ r' ∈ s'.db.hindsight_memories, r'.id < s.db.next_id →
      ∃ r ∈ s.db.hindsight_memories, r.Becomes r') ∧
    ∀ r ∈ s.db.hindsight_memories, (∃ r' ∈ s'.db.hindsight_memories, r.Becomes r') ∨
      ∃ a ∈ later, a.removes r := by
  have hevolve := memories_evolve_of_run (good_deployment_of_run hblank hagents hearlier) hlater
  exact ⟨fun r' hr' hdrawn => hevolve.of_drawn hr' hdrawn, hevolve.kept⟩

/-- Every memory that is stored was remembered by its agent, or a reflect run of its agent wrote it
as one of the reflections that the language model had answered with, and it carries what was
written then. Each reflect run that is open has read the memories of its agent. -/
theorem memories_are_written (o : Outside K) (cfg : Settings) (cal : Calendar) (db : Db K)
    (hblank : db.Blank) (hagents : (db.qortia_agents.map (·.id)).Nodup)
    (actions : List (DeploymentAction K)) (s : Deployment K)
    (hrun : runs.run (deployment_step o cfg cal) db.deployed actions = some s) :
    (∀ r' ∈ s.db.hindsight_memories, ∃ before s₁ a r,
      runs.Takes (deployment_step o cfg cal) db.deployed actions before s₁ a ∧
        a.makes o s₁.open_agents r ∧ r.Becomes r') ∧
    ∀ key ∈ s.open_agents, ∃ now background,
      .read_reflection key.1 key.2 now background ∈ actions := by
  have hstart : GoodDeployment db.deployed := ⟨hblank.owned hagents, fun _ h => by cases h⟩
  have hevolve := memories_evolve_of_run hstart hrun
  constructor
  · intro r' hr'
    rcases hevolve.grown r' hr' with
      ⟨r, hr, -⟩ | ⟨r, ⟨before, s₁, a, htakes, hmakes⟩, -, hbecomes⟩
    · rw [show db.deployed.db.hindsight_memories = [] from hblank.hindsight_memories] at hr
      cases hr
    · exact ⟨before, s₁, a, r, htakes, hmakes, hbecomes⟩
  · intro key hkey
    rcases run_open_agents hrun hkey with hfirst | hread
    · cases hfirst
    · exact hread

end

/-! ## Two memories of an agent -/

/-- On each day it is the turn of no tenant. -/
def no_calendar : Calendar where
  weekday _ := 0
  today _ := ""
  strftime _ := ""
  day_offset _ := 1

/-- The agent remembers twice. -/
def remember_two : List (DeploymentAction ℚ) :=
  [.memory (.remember reporter 0 0 [standup_moved, standup_cancelled])]

/-- One of the memories is archived after two months, and the other is forgotten before that. -/
def archive_and_forget : List (DeploymentAction ℚ) :=
  [.memory (.forget reporter 1 1), .archive_old (60 * DAY)]

theorem memories_only_evolve_into_the_archive :
    ∃ s s' : Deployment ℚ, s'.db.hindsight_memories.map (fun r => (r.id, r.tier)) =
        [(0, .archive)] ∧
      (∀ r' ∈ s'.db.hindsight_memories, r'.id < s.db.next_id →
        ∃ r ∈ s.db.hindsight_memories, r.Becomes r') ∧
      ∀ r ∈ s.db.hindsight_memories, (∃ r' ∈ s'.db.hindsight_memories, r.Becomes r') ∨
        ∃ a ∈ archive_and_forget, a.removes r := by
  have hend : ((runs.run (deployment_step no_models {} no_calendar) tenants_db.deployed
      remember_two).bind fun s => (runs.run (deployment_step no_models {} no_calendar) s
        archive_and_forget).map fun s' => s'.db.hindsight_memories.map fun r => (r.id, r.tier)) =
      some [(0, .archive)] := by
    decide +kernel
  obtain ⟨s, hs, hend⟩ := Option.bind_eq_some_iff.mp hend
  obtain ⟨s', hs', hend⟩ := Option.map_eq_some_iff.mp hend
  exact ⟨s, s', hend, memories_only_evolve no_models {} no_calendar tenants_db
    ⟨rfl, rfl, rfl, rfl, rfl⟩ (by decide) remember_two archive_and_forget s s' hs hs'⟩

/-- The agent remembers, and a reflect run of the background writes a lesson. -/
def remember_and_reflect : List (DeploymentAction ℚ) :=
  [.memory (.remember reporter 0 0 [standup_moved]),
   .read_reflection 20 1 1 true,
   .write_reflection 0 2 [a_good_lesson] []]

theorem memories_are_written_by_a_reflection :
    ∃ s : Deployment ℚ, s.db.hindsight_memories.map (fun r => (r.type, r.content)) =
        [(.episodic, moved_to_ten), (.lesson, "pin the image")] ∧
      (∀ r' ∈ s.db.hindsight_memories, ∃ before s₁ a r,
        runs.Takes (deployment_step no_models { rerank_model := "gpt" } no_calendar)
          tenants_db.deployed remember_and_reflect before s₁ a ∧
        a.makes no_models s₁.open_agents r ∧ r.Becomes r') ∧
      ∀ key ∈ s.open_agents, ∃ now background,
        .read_reflection key.1 key.2 now background ∈ remember_and_reflect := by
  have hend : (runs.run (deployment_step no_models { rerank_model := "gpt" } no_calendar)
      tenants_db.deployed remember_and_reflect).map
        (fun s => s.db.hindsight_memories.map fun r => (r.type, r.content)) =
      some [(.episodic, moved_to_ten), (.lesson, "pin the image")] := by
    decide +kernel
  obtain ⟨s, hs, hend⟩ := Option.map_eq_some_iff.mp hend
  exact ⟨s, hend, memories_are_written no_models { rerank_model := "gpt" } no_calendar tenants_db
    ⟨rfl, rfl, rfl, rfl, rfl⟩ (by decide) remember_and_reflect s hs⟩

end qortia
