-- The audit trail of the whole service, with its loops. Records are only appended. A private memory
-- comes with a record of its agent, and it goes with one that has the hash of its content, but for
-- a short-term memory that has expired.
import Qortia.AuditTrail
import Qortia.TenantWrites

namespace qortia

open evolving

variable {K : Type}

/-! ## What the records say -/

/-- The record says that the memory was written. -/
structure MemoryHistory.Writes (h : MemoryHistory) (r : HindsightMemory K) : Prop where
  written : h.written = some r.id
  agent_id : h.agent_id = r.agent_id
  tenant_id : h.tenant_id = r.tenant_id

/-- The record says that the memory was forgotten. -/
structure MemoryHistory.Forgets (o : Outside K) (h : MemoryHistory) (r : HindsightMemory K) :
    Prop where
  forgotten : h.forgotten = some r.id
  agent_id : h.agent_id = r.agent_id
  tenant_id : h.tenant_id = r.tenant_id
  content_hash : h.content_hash = some (o.sha256 r.content)

theorem HindsightMemory.Becomes.tenant_eq {r r' : HindsightMemory K} (h : r.Becomes r') :
    r'.tenant_id = r.tenant_id :=
  (congrArg HindsightMemory.tenant_id h.recorded :)

theorem HindsightMemory.Becomes.content_eq {r r' : HindsightMemory K} (h : r.Becomes r') :
    r'.content = r.content :=
  (congrArg HindsightMemory.content h.recorded :)

/-- A record of a memory is one of what the memory becomes. -/
theorem MemoryHistory.Writes.becomes {h : MemoryHistory} {r r' : HindsightMemory K}
    (hw : h.Writes r) (hbecomes : r.Becomes r') : h.Writes r' where
  written := by
    rw [hbecomes.id_eq]
    exact hw.written
  agent_id := by
    rw [hbecomes.agent_eq]
    exact hw.agent_id
  tenant_id := by
    rw [hbecomes.tenant_eq]
    exact hw.tenant_id

theorem MemoryHistory.Forgets.back {o : Outside K} {h : MemoryHistory} {r r' : HindsightMemory K}
    (hf : h.Forgets o r') (hbecomes : r.Becomes r') : h.Forgets o r where
  forgotten := by
    rw [← hbecomes.id_eq]
    exact hf.forgotten
  agent_id := by
    rw [← hbecomes.agent_eq]
    exact hf.agent_id
  tenant_id := by
    rw [← hbecomes.tenant_eq]
    exact hf.tenant_id
  content_hash := by
    rw [← hbecomes.content_eq]
    exact hf.content_hash

/-! ## From one state to another -/

/-- Records are appended: one for each memory that is new, and one for each that is gone and was
not purged. -/
def Db.Accounts (o : Outside K) (purged : HindsightMemory K → Prop) (db db' : Db K) : Prop :=
  ∃ new, db'.memory_history = db.memory_history ++ new ∧
    db.MemoriesEvolve (fun r => ∃ h ∈ new, h.Writes r)
      (fun r => purged r ∨ ∃ h ∈ new, h.Forgets o r) db'

section
variable {o : Outside K} {purged purged₁ : HindsightMemory K → Prop} {db db' db'' : Db K}

/-- Records that are appended next to memories that stay. -/
theorem accounts_of_history (new : List MemoryHistory)
    (hhistory : db'.memory_history = db.memory_history ++ new)
    (hevolve : db.MemoriesEvolve (fun _ => False) (fun _ => False) db') :
    db.Accounts o purged db' :=
  ⟨new, hhistory, hevolve.mono (fun _ hr => hr.elim) (fun _ hr => hr.elim)⟩

/-- A write that leaves the history alone. -/
theorem accounts_quiet (hhistory : db'.memory_history = db.memory_history)
    (hevolve : db.MemoriesEvolve (fun _ => False) (fun _ => False) db') :
    db.Accounts o purged db' :=
  accounts_of_history [] (by rw [hhistory, List.append_nil]) hevolve

theorem Db.Accounts.mono (h : db.Accounts o purged db') (hp : ∀ r, purged r → purged₁ r) :
    db.Accounts o purged₁ db' := by
  obtain ⟨new, hhistory, hevolve⟩ := h
  exact ⟨new, hhistory, hevolve.mono (fun _ hr => hr) (fun r hr => hr.imp_left (hp r))⟩

theorem Db.Accounts.trans (h : db.Accounts o purged db') (h' : db'.Accounts o purged₁ db'')
    (hback : ∀ {r r' : HindsightMemory K}, r.Becomes r' → purged₁ r' → purged₁ r) :
    db.Accounts o (fun r => purged r ∨ purged₁ r) db'' := by
  obtain ⟨new, hhistory, hevolve⟩ := h
  obtain ⟨new₁, hhistory₁, hevolve₁⟩ := h'
  refine ⟨new ++ new₁, by rw [hhistory₁, hhistory, List.append_assoc], ?_⟩
  have hboth := Evolves.trans hevolve hevolve₁ fun hbecomes hr =>
    hr.imp (hback hbecomes) fun ⟨h, hmem, hforgets⟩ => ⟨h, hmem, hforgets.back hbecomes⟩
  refine hboth.mono (fun r hr => ?_) fun r hr => ?_
  · rcases hr with ⟨h, hmem, hwrites⟩ | ⟨h, hmem, hwrites⟩
    · exact ⟨h, List.mem_append_left _ hmem, hwrites⟩
    · exact ⟨h, List.mem_append_right _ hmem, hwrites⟩
  · rcases hr with (hpurged | ⟨h, hmem, hforgets⟩) | hpurged | ⟨h, hmem, hforgets⟩
    · exact Or.inl (Or.inl hpurged)
    · exact Or.inr ⟨h, List.mem_append_left _ hmem, hforgets⟩
    · exact Or.inl (Or.inr hpurged)
    · exact Or.inr ⟨h, List.mem_append_right _ hmem, hforgets⟩

/-! ## The requests -/

theorem remember_accounts {agent : AgentIdentity} {now : Timestamp} {choice : Nat}
    {memories : List MemoryItem} {result : Db K × List UUID}
    (hreq : remember o agent now choice memories db = .ok result) :
    db.Accounts o purged result.1 := by
  have hinserted : db.Accounts o (fun _ => False) result.1 := by
    refine remember_preserves (P := fun d => db.Accounts o (fun _ => False) d) hreq
      (fun d mem expires hd => ?_) (fun d n hd => ?_)
      (accounts_quiet rfl (memories_same rfl le_rfl))
    · have hlast : d.Accounts o (fun _ => False)
          (insert_memory (memory_row o agent now mem expires d.next_id)
            (d.memory_history ++ [remember_record o agent mem d.next_id]) d) :=
        ⟨[remember_record o agent mem d.next_id], rfl,
          memories_insert ⟨_, List.mem_singleton.mpr rfl, ⟨rfl, rfl, rfl⟩⟩ rfl rfl rfl⟩
      exact (hd.trans hlast fun _ hr => hr).mono fun _ hr => hr.elim id id
    · exact hd
  exact hinserted.mono fun _ hr => hr.elim

theorem forget_accounts {agent : AgentIdentity} {now : Timestamp} {id : UUID} (h : db.Owned)
    (hreq : forget o agent now id db = .ok db') : db.Accounts o purged db' := by
  obtain ⟨hactive, table, content, hfound, rfl⟩ := forget_eq hreq
  refine ⟨[forget_record o agent table id content], by cases table <;> rfl, ?_⟩
  rcases find_forgotten_cases hfound with ⟨rfl, r₀, hr₀, hid₀, howner, hcontent⟩ | ⟨rfl, -⟩
  · refine Evolves.delete _ _ fun r hr hp => Or.inr ⟨_, List.mem_singleton.mpr rfl, ?_⟩
    have hid : r.id = id := of_decide_eq_true hp
    obtain rfl := List.inj_on_of_nodup_map h.keyed.hindsight_nodup hr hr₀ (hid.trans hid₀.symm)
    have htenant := h.tenant_of_memory (assert_agent_active_key hactive) hr howner
    exact {
      forgotten := by rw [hid]; rfl
      agent_id := howner.symm
      tenant_id := htenant.symm
      content_hash := by rw [hcontent]; rfl }
  · exact memories_same rfl (le_refl _)

theorem ingest_accounts {agent : AgentIdentity} {now : Timestamp} {choice : Nat → Nat}
    {body : KnowledgeIngestRequest} {result : Db K × IngestResponse}
    (hreq : ingest_knowledge o agent now choice body db = .ok result) :
    db.Accounts o purged result.1 := by
  have hevolve : db.MemoriesEvolve (fun _ => False) (fun _ => False) result.1 :=
    ingest_evolves hreq
  obtain ⟨-, hsame | hinserted⟩ := ingest_committed hreq
  · exact accounts_quiet (by rw [hsame]) hevolve
  · exact accounts_of_history [knowledge_history agent .knowledge_ingest] (by rw [hinserted]; rfl)
      hevolve

theorem delete_knowledge_accounts {agent : AgentIdentity} {source_path : String}
    {result : Db K × Nat} (hreq : delete_knowledge agent source_path db = .ok result) :
    db.Accounts o purged result.1 := by
  obtain ⟨-, hresult⟩ := delete_knowledge_ok hreq
  rw [hresult]
  exact accounts_of_history [knowledge_history agent .knowledge_delete] rfl
    (memories_same rfl (le_refl _))

variable [Field K] [LinearOrder K] [HasSqrt K] {cfg : Settings}

/-- The memories of a reflect run have their records at its end. -/
theorem write_reflections_accounts {w : Writer} {reflections : List Reflection}
    {new_embeddings : Nat → Option (List K)}
    {existing_embeddings : String → Option (StoredVector K)}
    {existing : List (HindsightMemory K)} {result : Db K × Nat × Option Int} (h : db.Keyed)
    (hreq : write_reflections o cfg w reflections new_embeddings existing_embeddings existing db =
      .ok result) : db.Accounts o purged result.1 := by
  have hevolve : db.MemoriesEvolve (OfReflection w reflections) (fun _ => False) result.1 :=
    write_reflections_evolves hreq
  unfold write_reflections at hreq
  obtain ⟨sts, -, hreq⟩ := bind_ok hreq
  obtain ⟨new, hrows, hids, -⟩ := run_new_ids w sts db []
  have hframe := run_frame w sts (db, [])
  cases hreq
  refine ⟨new.map (reflect_record w), ?_, hevolve.next_le, fun r' hr' => ?_, fun r hr => ?_⟩
  · unfold write_history decrement_counter reflect_record
    rw [hids, hframe, List.nil_append]
  · rcases hevolve.grown r' hr' with hold | ⟨r, hmade, hnew, hbecomes⟩
    · exact Or.inl hold
    · refine Or.inr ⟨r, ⟨reflect_record w r.id, List.mem_map_of_mem ?_, ?_⟩, hnew, hbecomes⟩
      · -- The id is among the new ones, because the others were drawn before.
        have hmem : r'.id ∈ db.hindsight_memories.map (·.id) ++ new := by
          rw [← hrows]
          exact List.mem_map_of_mem hr'
        rw [hbecomes.id_eq] at hmem
        refine (List.mem_append.mp hmem).resolve_left fun hold => ?_
        obtain ⟨q, hq, hid⟩ := List.mem_map.mp hold
        exact absurd (h.hindsight_lt q hq) (Nat.not_lt.mpr (hid ▸ hnew))
      · exact ⟨rfl, hmade.agent_id.symm, hmade.tenant_id.symm⟩
  · exact (hevolve.kept r hr).imp_right False.elim

theorem reflect_accounts {agent : AgentIdentity} {now : Timestamp}
    {answer : Except Failure (List Reflection)} {failed : List Nat}
    {result : Db K × Nat × Option Int} (h : db.Keyed)
    (hreq : reflect o cfg agent now answer failed db = .ok result) :
    db.Accounts o purged result.1 := by
  unfold reflect at hreq
  obtain ⟨u, -, hreq⟩ := bind_ok hreq
  simp only at hreq
  split at hreq
  · cases hreq
  · obtain ⟨reflections, -, hreq⟩ := bind_ok hreq
    exact write_reflections_accounts h hreq

/-! ## Every run -/

variable {cal : Calendar} {open_agents : List (UUID × UUID)}

/-- The step is a purge after the memory has expired. -/
def DeploymentAction.purges (a : DeploymentAction K) (r : HindsightMemory K) : Prop :=
  ∃ now, a = .memory (.purge_expired now) ∧ expired_short_term now r = true

omit [Field K] [LinearOrder K] [HasSqrt K] in
theorem purges_back {a : DeploymentAction K} {r r' : HindsightMemory K} (hbecomes : r.Becomes r')
    (h : a.purges r') : a.purges r := by
  obtain ⟨now, ha, hexpired⟩ := h
  refine ⟨now, ha, ?_⟩
  unfold expired_short_term at hexpired ⊢
  rw [hbecomes.type_eq, hbecomes.expires_eq] at hexpired
  exact hexpired

theorem write_accounts {a : DeploymentAction K} (h : db.Owned)
    (hwrite : DeploymentWrite o cfg cal open_agents db a db') : db.Accounts o a.purges db' := by
  cases hwrite with
  | none => exact accounts_quiet rfl (memories_same rfl (le_refl _))
  | remember hreq => exact remember_accounts hreq
  | remember_org hreq =>
    obtain ⟨-, -, -, hdb'⟩ := remember_org_eq hreq
    exact accounts_of_history _ (congrArg Db.memory_history hdb') (remember_org_evolves hreq)
  | reflect hreq => exact reflect_accounts h.keyed hreq
  | forget hreq => exact forget_accounts h hreq
  | ingest hreq => exact ingest_accounts hreq
  | delete hreq => exact delete_knowledge_accounts hreq
  | access id now results =>
    refine accounts_quiet ?_ (record_recall_access_evolves results _ now db)
    unfold record_recall_access
    dsimp only
    split
    · rfl
    · rfl
  | session_reads => exact accounts_quiet rfl (memories_same rfl (le_refl _))
  | outcome memory_ids =>
    refine accounts_quiet ?_ (commit_outcome_evolves _ memory_ids db)
    unfold commit_outcome
    split
    · rfl
    · rfl
  | purge now =>
    refine ⟨[], (List.append_nil _).symm, ?_⟩
    exact Evolves.delete _ _ fun _ _ hp => Or.inl ⟨now, rfl, hp⟩
  | graph ha now row =>
    refine accounts_quiet ?_ (graph_transaction_evolves o cfg now row db)
    unfold graph_transaction
    rw [graph_entities_frame]
    unfold set_graphed
    split
    · rfl
    · rfl
  | link => exact accounts_quiet rfl (memories_same rfl (le_refl _))
  | embedding ha tbl id v =>
    refine accounts_quiet ?_ (write_embedding_evolves tbl id v db)
    cases tbl with
    | hindsight_memories | org_memory | org_knowledge | qortia_entities => rfl
  | attempt ha tbl id =>
    refine accounts_quiet ?_ (count_attempt_evolves tbl id db)
    cases tbl with
    | hindsight_memories | org_memory | org_knowledge | qortia_entities => rfl
  | reflection hopen hreq => exact write_reflections_accounts h.keyed hreq
  | archive now => exact accounts_quiet rfl (archive_evolves now db)
  | summary => exact accounts_quiet rfl (memories_same rfl (Nat.le_succ _))

theorem run_accounts {s s' : Deployment K} {actions : List (DeploymentAction K)}
    (h : GoodDeployment s) (hrun : runs.run (deployment_step o cfg cal) s actions = some s') :
    s.db.Accounts o (fun r => ∃ a ∈ actions, a.purges r) s'.db := by
  induction actions generalizing s with
  | nil =>
    cases hrun
    exact accounts_quiet rfl (memories_same rfl (le_refl _))
  | cons a actions ih =>
    obtain ⟨s₁, hs₁, hrun⟩ := Option.bind_eq_some_iff.mp hrun
    have hfirst := write_accounts h.owned (deployment_step_writes hs₁)
    have hrest := ih (deployment_step_good h hs₁) hrun
    have hboth := hfirst.trans hrest fun hbecomes ⟨b, hb, hpurges⟩ =>
      ⟨b, hb, purges_back hbecomes hpurges⟩
    refine hboth.mono fun r hr => ?_
    rcases hr with hpurges | ⟨b, hb, hpurges⟩
    · exact ⟨a, List.mem_cons_self, hpurges⟩
    · exact ⟨b, List.mem_cons_of_mem a hb, hpurges⟩

/-- From any state that the service reaches to any later one, the history is the earlier history
with records appended. A private memory that is new has a record of its agent among them, and one
that is gone has a record of its agent with the hash of its content, or it was purged after it had
expired. -/
theorem every_memory_is_accounted_for (o : Outside K) (cfg : Settings) (cal : Calendar) (db : Db K)
    (hblank : db.Blank) (hagents : (db.qortia_agents.map (·.id)).Nodup)
    (earlier later : List (DeploymentAction K)) (s s' : Deployment K)
    (hearlier : runs.run (deployment_step o cfg cal) db.deployed earlier = some s)
    (hlater : runs.run (deployment_step o cfg cal) s later = some s') :
    ∃ new, s'.db.memory_history = s.db.memory_history ++ new ∧
      (∀ r' ∈ s'.db.hindsight_memories,
        (∃ r ∈ s.db.hindsight_memories, r.id = r'.id) ∨ ∃ h ∈ new, h.Writes r') ∧
      ∀ r ∈ s.db.hindsight_memories, (∃ r' ∈ s'.db.hindsight_memories, r'.id = r.id) ∨
        (∃ h ∈ new, h.Forgets o r) ∨ ∃ a ∈ later, a.purges r := by
  obtain ⟨new, hhistory, hevolve⟩ :=
    run_accounts (good_deployment_of_run hblank hagents hearlier) hlater
  refine ⟨new, hhistory, fun r' hr' => ?_, fun r hr => ?_⟩
  · rcases hevolve.grown r' hr' with ⟨r, hr, hbecomes⟩ | ⟨r, ⟨h, hmem, hwrites⟩, -, hbecomes⟩
    · exact Or.inl ⟨r, hr, hbecomes.id_eq.symm⟩
    · exact Or.inr ⟨h, hmem, hwrites.becomes hbecomes⟩
  · rcases hevolve.kept r hr with ⟨r', hr', hbecomes⟩ | hpurges | hforgets
    · exact Or.inl ⟨r', hr', hbecomes.id_eq⟩
    · exact Or.inr (Or.inr hpurges)
    · exact Or.inr (Or.inl hforgets)

end

/-! ## The records of an agent -/

def on_call_note : String := "Ada is on call today"

theorem on_call_note_words : 5 ≤ (text.words on_call_note.toList).length := by decide

/-- A short-term memory, for less than a minute. -/
def on_call : MemoryItem :=
  { type := .short_term, content := on_call_note, ttl_seconds := some 50
    content_floor := on_call_note_words
    ttl_only_short_term := fun _ => rfl
    short_term_ttl := fun _ => ⟨50, rfl, by decide⟩ }

/-- The reporter forgets a memory, remembers two, and one of them is purged. -/
def forget_and_purge : List (DeploymentAction ℚ) :=
  [.memory (.forget reporter 1 0),
   .memory (.remember reporter 2 0 [standup_cancelled, on_call]),
   .memory (.purge_expired (62 * 1000000))]

theorem every_memory_is_accounted_for_after_a_purge :
    ∃ s s' : Deployment ℚ, s.db.hindsight_memories.map (·.id) = [0] ∧
      s'.db.hindsight_memories.map (·.id) = [1] ∧
      ∃ new, s'.db.memory_history = s.db.memory_history ++ new ∧
        (∀ r' ∈ s'.db.hindsight_memories,
          (∃ r ∈ s.db.hindsight_memories, r.id = r'.id) ∨ ∃ h ∈ new, h.Writes r') ∧
        ∀ r ∈ s.db.hindsight_memories, (∃ r' ∈ s'.db.hindsight_memories, r'.id = r.id) ∨
          (∃ h ∈ new, h.Forgets no_models r) ∨ ∃ a ∈ forget_and_purge, a.purges r := by
  have hend : ((runs.run (deployment_step no_models {} no_calendar) tenants_db.deployed
      reporter_remembers).bind fun s => (runs.run (deployment_step no_models {} no_calendar) s
        forget_and_purge).map fun s' => (s.db.hindsight_memories.map (·.id),
          s'.db.hindsight_memories.map (·.id))) = some ([0], [1]) := by
    decide +kernel
  obtain ⟨s, hs, hend⟩ := Option.bind_eq_some_iff.mp hend
  obtain ⟨s', hs', hend⟩ := Option.map_eq_some_iff.mp hend
  obtain ⟨hbefore, hafter⟩ := Prod.mk.inj hend
  exact ⟨s, s', hbefore, hafter, every_memory_is_accounted_for no_models {} no_calendar tenants_db
    ⟨rfl, rfl, rfl, rfl, rfl⟩ (by decide) reporter_remembers forget_and_purge s s' hs hs'⟩

end qortia
