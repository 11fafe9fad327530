-- A memory that was forgotten is gone for good. Its id was drawn once, and no request and no worker
-- brings a row back under an id that was drawn, so that no recall, no context and no other answer
-- shows the memory again.
import Qortia.Context
import Qortia.OrgEvolution
import Qortia.RecallPrivate
import Qortia.RememberBatch

namespace qortia

variable {K : Type}

/-- No memory has the id. -/
structure Db.Gone (db : Db K) (id : UUID) : Prop where
  hindsight_memories : id ∉ db.hindsight_memories.map (·.id)
  org_memory : id ∉ db.org_memory.map (·.id)

/-! ## The answers name rows -/

section
variable [Field K] [LinearOrder K] [HasSqrt K] {o : Outside K} {cfg : Settings} {env : RecallEnv K}
  {answer : Option json.Json} {body : RecallRequest} {agent : AgentIdentity} {db : Db K}
  {results : List (RecallResult K)} {x : RecallResult K} {id : UUID}

/-- The row that a result of a hybrid recall is of. -/
theorem hybrid_names_rows (hx : x ∈ hybrid_recall_pipeline o cfg env body agent db) :
    (x.scope = .private_ ∧ x.id ∈ db.hindsight_memories.map (·.id)) ∨
      (x.scope = .org ∧ x.id ∈ db.org_memory.map (·.id)) ∨ x.scope = .knowledge := by
  obtain ⟨i, hi⟩ := List.mem_iff_getElem?.mp hx
  have hat := hybrid_at o cfg env body agent db i
  rw [hi, Option.map_some] at hat
  obtain ⟨y, hy, hxy⟩ := Option.map_eq_some_iff.mp hat.symm
  have hid : y.id = x.id := (congrArg RecallResult.id hxy :)
  have hscope : y.scope = x.scope := (congrArg RecallResult.scope hxy :)
  rw [← hid, ← hscope]
  rcases List.mem_append.mp (List.mem_of_getElem? hy) with hmemory | hknowledge
  · rcases List.mem_append.mp hmemory with hfused | hlinked
    · obtain ⟨hsearch, hscope⟩ := mem_fused_part hfused
      rcases mem_search hsearch with ⟨r, hr, -, score, rank, rfl⟩ | ⟨horg, q, hq, hqid⟩ |
        ⟨hknowledge, -⟩
      · exact Or.inl ⟨rfl, List.mem_map_of_mem hr⟩
      · rw [← hqid]
        exact Or.inr (Or.inl ⟨horg, List.mem_map_of_mem hq⟩)
      · exact absurd hknowledge hscope
    · obtain ⟨-, r, hr, -, per_source, rfl⟩ := mem_linked_part hlinked
      exact Or.inl ⟨rfl, List.mem_map_of_mem hr⟩
  · obtain ⟨z, hz, -, hzscope⟩ := mem_select_knowledge hknowledge
    rw [hzscope]
    exact Or.inr (Or.inr (of_decide_eq_true (List.mem_filter.mp hz).2))

/-- No recall shows a memory that is gone. -/
theorem Db.Gone.recall (h : db.Gone id)
    (hrecall : «recall» o cfg env answer body agent db = .ok results) (hx : x ∈ results)
    (hscope : x.scope ≠ .knowledge) : x.id ≠ id := by
  rintro rfl
  cases hrouted : routed body with
  | true =>
    obtain ⟨r, hr, -, score, rank, rfl⟩ := routed_response hrouted hrecall hx
    exact h.hindsight_memories (List.mem_map_of_mem hr)
  | false =>
    obtain ⟨found, hfound, rfl⟩ := recall_shows hrecall
    obtain rfl := route_hybrid hrouted hfound
    obtain ⟨i, -, hix⟩ := ranking.mem_at_places.mp hx
    rcases hybrid_names_rows (List.mem_of_getElem? hix) with ⟨-, hmem⟩ | ⟨-, hmem⟩ | hknowledge
    · exact h.hindsight_memories hmem
    · exact h.org_memory hmem
    · exact hscope hknowledge

end

section
variable {agent : AgentIdentity} {db : Db K} {id : UUID}

/-- The private memories that the transaction of the context fetches. -/
def ContextRows.private_rows (f : ContextRows K) : List (HindsightMemory K) :=
  f.mental_models ++ f.decisions ++ f.lessons

theorem mem_select_private {s : Session} {agent_id : UUID} {w : HindsightMemory K → Bool}
    {r : HindsightMemory K} (h : r ∈ select_private s db agent_id w) :
    r ∈ db.hindsight_memories :=
  List.mem_of_mem_filter h

/-- No context shows a memory that is gone. -/
theorem Db.Gone.context (h : db.Gone id) {f : ContextRows K}
    (hfetch : fetch_context db agent = .ok f) :
    (∀ r ∈ f.private_rows, r.id ≠ id) ∧ ∀ q ∈ f.org, q.id ≠ id := by
  constructor
  · rintro r hr rfl
    refine h.hindsight_memories (List.mem_map_of_mem ?_)
    unfold fetch_context at hfetch
    obtain ⟨u, -, hfetch⟩ := bind_ok hfetch
    cases hfetch
    simp only [ContextRows.private_rows, List.mem_append] at hr
    rcases hr with (hr | hr) | hr
    · exact mem_select_private (rows.mem_order_desc.mp (List.mem_of_mem_take hr))
    · exact mem_select_private
        (rows.mem_order_desc.mp (rows.mem_order_desc.mp (List.mem_of_mem_take hr)))
    · exact mem_select_private (rows.mem_order_desc.mp (List.mem_of_mem_take hr))
  · rintro q hq rfl
    refine h.org_memory (List.mem_map_of_mem ?_)
    obtain ⟨hcharts, hprocesses, hhandoffs, hsummary⟩ := fetch_context_ok hfetch
    have hnewest : ∀ {n : Nat} {ty : OrgType}, q ∈ newest n ty db → q ∈ db.org_memory :=
      fun hq => List.mem_of_mem_filter (rows.mem_order_desc.mp (List.mem_of_mem_take hq))
    unfold ContextRows.org at hq
    rw [hcharts, hprocesses, hhandoffs, hsummary] at hq
    simp only [List.mem_append, rows.mem_order_asc, Option.mem_toList] at hq
    rcases hq with ((hq | hq) | hq) | hq
    · exact List.mem_of_mem_filter hq
    · exact List.mem_of_mem_filter hq
    · exact hnewest hq
    · exact hnewest (List.mem_of_mem_head? hq)

/-- The ids that `remember` answers with are of rows. -/
theorem Batch.names_rows {o : Outside K} {now : Timestamp} {choice : Nat} {db' : Db K}
    {memories : List MemoryItem} {ids : List UUID} {n : Nat}
    (h : Batch o agent now choice db memories db' ids n) :
    ∀ i ∈ ids, i ∈ db'.hindsight_memories.map (·.id) := by
  induction h with
  | nil db => exact fun i hi => (nomatch hi)
  | duplicate expires existing hexpires hdedup hpick hrest ih =>
    intro i hi
    rcases List.mem_cons.mp hi with rfl | hi
    · exact List.mem_map_of_mem (hrest.subset (mem_recent_duplicates.mp (pick_mem hpick)).1)
    · exact ih i hi
  | insert expires hexpires hnew hstorable hrest ih =>
    intro i hi
    rcases List.mem_cons.mp hi with rfl | hi
    · exact List.mem_map_of_mem hrest.inserted_mem
    · exact ih i hi

theorem remember_names_rows {o : Outside K} {now : Timestamp} {choice : Nat}
    {memories : List MemoryItem} {result : Db K × List UUID}
    (hreq : remember o agent now choice memories db = .ok result) :
    ∀ i ∈ result.2, i ∈ result.1.hindsight_memories.map (·.id) := by
  obtain ⟨db', ids⟩ := result
  obtain ⟨-, db₁, n, hbatch, rfl⟩ := remember_iff_batch.mp hreq
  unfold counted
  split
  · exact hbatch.names_rows
  · exact hbatch.names_rows

/-- No memory is remembered under an id that was drawn and is gone. -/
theorem Db.Gone.remember (h : db.Gone id) (hdrawn : id < db.next_id) {o : Outside K}
    {now : Timestamp} {choice : Nat} {memories : List MemoryItem} {result : Db K × List UUID}
    (hreq : remember o agent now choice memories db = .ok result) : id ∉ result.2 := by
  intro hid
  have hevolve : db.MemoriesEvolve _ (fun _ => False) result.1 := remember_evolves [] hreq
  exact hevolve.absent hdrawn h.hindsight_memories (remember_names_rows hreq id hid)

/-- Nobody forgets a memory twice. -/
theorem Db.Gone.forget (h : db.Gone id) (o : Outside K) (now : Timestamp) (db' : Db K) :
    forget o agent now id db ≠ .ok db' := by
  intro hreq
  obtain ⟨-, table, content, hfound, -⟩ := forget_eq hreq
  rcases find_forgotten_cases hfound with ⟨-, r, hr, rfl, -⟩ | ⟨-, q, hq, rfl, -⟩
  · exact h.hindsight_memories (List.mem_map_of_mem hr)
  · exact h.org_memory (List.mem_map_of_mem hq)

/-! ## The forget -/

theorem Db.Keyed.unique_ids (h : db.Keyed) : db.UniqueIds := by
  refine List.nodup_append.mpr ⟨h.hindsight_nodup, h.org_nodup, ?_⟩
  intro i hi j hj
  obtain ⟨r, hr, rfl⟩ := List.mem_map.mp hi
  obtain ⟨q, hq, rfl⟩ := List.mem_map.mp hj
  exact h.disjoint r hr q hq

theorem forget_gone {o : Outside K} {now : Timestamp} {db' : Db K} (hkeyed : db.Keyed)
    (hreq : forget o agent now id db = .ok db') :
    db'.Gone id ∧ id < db'.next_id := by
  obtain ⟨-, table, content, hfound, rfl⟩ := forget_eq hreq
  have hcontent := find_forgotten_content hfound
  rw [delete_memory_eq hkeyed.unique_ids hcontent]
  refine ⟨⟨?_, ?_⟩, ?_⟩
  · intro hid
    obtain ⟨r, hr, rfl⟩ := List.mem_map.mp hid
    exact absurd rfl (of_decide_eq_true (List.mem_filter.mp hr).2)
  · intro hid
    obtain ⟨q, hq, rfl⟩ := List.mem_map.mp hid
    exact absurd rfl (of_decide_eq_true (List.mem_filter.mp hq).2)
  · rcases find_forgotten_cases hfound with ⟨-, r, hr, rfl, -⟩ | ⟨-, q, hq, rfl, -⟩
    · exact hkeyed.hindsight_lt r hr
    · exact hkeyed.org_lt q hq

end

/-! ## Every run -/

section
variable [Field K] [LinearOrder K] [HasSqrt K] {o : Outside K} {cfg : Settings} {cal : Calendar}

/-- What is gone under an id that was drawn stays gone. -/
theorem gone_of_run {s s' : Deployment K} {id : UUID} {actions : List (DeploymentAction K)}
    (hgood : GoodDeployment s) (hgone : s.db.Gone id) (hdrawn : id < s.db.next_id)
    (hrun : runs.run (deployment_step o cfg cal) s actions = some s') :
    s'.db.Gone id ∧ id < s'.db.next_id := by
  have hmemories := memories_evolve_of_run hgood hrun
  have horg := org_evolves_of_run hgood hrun
  exact ⟨⟨hmemories.absent hdrawn hgone.hindsight_memories,
    horg.absent hdrawn hgone.org_memory⟩, hdrawn.trans_le hmemories.next_le⟩

/-- After a forget has committed, whatever the service does next: the memory is in no table, no
recall and no context of any agent shows it, no memory is remembered under its id, and it cannot be
forgotten again. -/
theorem forgotten_for_good (o : Outside K) (cfg : Settings) (cal : Calendar) (db : Db K)
    (hblank : db.Blank) (hagents : (db.qortia_agents.map (·.id)).Nodup)
    (earlier later : List (DeploymentAction K)) (s s₁ s' : Deployment K) (agent : AgentIdentity)
    (now : Timestamp) (id : UUID)
    (hearlier : runs.run (deployment_step o cfg cal) db.deployed earlier = some s)
    (hforget : forget o agent now id s.db = .ok s₁.db)
    (hstep : deployment_step o cfg cal s (.memory (.forget agent now id)) = some s₁)
    (hlater : runs.run (deployment_step o cfg cal) s₁ later = some s') :
    s'.db.Gone id ∧
    (∀ env answer body reader results, «recall» o cfg env answer body reader s'.db = .ok results →
      ∀ x ∈ results, x.scope ≠ .knowledge → x.id ≠ id) ∧
    (∀ reader f, fetch_context s'.db reader = .ok f →
      (∀ r ∈ f.private_rows, r.id ≠ id) ∧ ∀ q ∈ f.org, q.id ≠ id) ∧
    (∀ writer at_ choice memories result,
      remember o writer at_ choice memories s'.db = .ok result → id ∉ result.2) ∧
    ∀ writer at_ db', forget o writer at_ id s'.db ≠ .ok db' := by
  have hgood := good_deployment_of_run hblank hagents hearlier
  obtain ⟨hgone₁, hdrawn₁⟩ := forget_gone hgood.owned.keyed hforget
  obtain ⟨hgone, hdrawn⟩ := gone_of_run (deployment_step_good hgood hstep) hgone₁ hdrawn₁ hlater
  refine ⟨hgone, ?_, ?_, ?_, ?_⟩
  · intro env answer body reader results hrecall x hx hscope
    exact hgone.recall hrecall hx hscope
  · intro reader f hfetch
    exact hgone.context hfetch
  · intro writer at_ choice memories result hreq
    exact hgone.remember hdrawn hreq
  · intro writer at_ db'
    exact hgone.forget o at_ db'

/-- A forget leaves the tables alone, or it commits. -/
theorem forget_step_commits {s s₁ : Deployment K} {agent : AgentIdentity} {now : Timestamp}
    {id : UUID} (hstep : deployment_step o cfg cal s (.memory (.forget agent now id)) = some s₁) :
    s₁.db = s.db ∨ forget o agent now id s.db = .ok s₁.db := by
  obtain ⟨outcomes, houtcomes, rfl⟩ := Option.map_eq_some_iff.mp hstep
  obtain ⟨service, hservice, rfl⟩ := Option.map_eq_some_iff.mp houtcomes
  obtain ⟨requests, hforget, rfl⟩ := Option.map_eq_some_iff.mp hservice
  rcases forget_answered hforget with rfl | ⟨db', hreq, rfl⟩
  · exact Or.inl rfl
  · exact Or.inr hreq

end

/-! ## The handoff of an engineer -/

/-- The engineer hands the same over again. -/
def hand_over_again : List (DeploymentAction ℚ) :=
  [.memory (.remember_org engineer_21 6 shift_handoff)]

theorem forgotten_for_good_engineer :
    ∃ s' : Deployment ℚ, s'.db.org_memory.map (fun q => (q.id, q.type)) =
        [(0, .process), (3, .handoff)] ∧ s'.db.Gone 1 ∧
      (∀ env answer body reader results,
        «recall» no_models {} env answer body reader s'.db = .ok results →
          ∀ x ∈ results, x.scope ≠ .knowledge → x.id ≠ 1) ∧
      (∀ reader f, fetch_context s'.db reader = .ok f →
        (∀ r ∈ f.private_rows, r.id ≠ 1) ∧ ∀ q ∈ f.org, q.id ≠ 1) ∧
      (∀ writer at_ choice memories result,
        remember no_models writer at_ choice memories s'.db = .ok result → 1 ∉ result.2) ∧
      ∀ writer at_ db', forget no_models writer at_ 1 s'.db ≠ .ok db' := by
  have hend : ((runs.run (deployment_step no_models {} no_calendar) engineer_db.deployed
      write_org).bind fun s =>
        (deployment_step no_models {} no_calendar s (.memory (.forget engineer_21 5 1))).bind
          fun s₁ => (runs.run (deployment_step no_models {} no_calendar) s₁ hand_over_again).map
            fun s' => (s.db.org_memory.length, s₁.db.org_memory.length,
              s'.db.org_memory.map fun q => (q.id, q.type))) =
      some (2, 1, [(0, .process), (3, .handoff)]) := by
    decide +kernel
  obtain ⟨s, hs, hend⟩ := Option.bind_eq_some_iff.mp hend
  obtain ⟨s₁, hs₁, hend⟩ := Option.bind_eq_some_iff.mp hend
  obtain ⟨s', hs', hend⟩ := Option.map_eq_some_iff.mp hend
  obtain ⟨hbefore, hend⟩ := Prod.mk.inj hend
  obtain ⟨hafter, hrows⟩ := Prod.mk.inj hend
  refine ⟨s', hrows, forgotten_for_good no_models {} no_calendar engineer_db
    ⟨rfl, rfl, rfl, rfl, rfl⟩ (by decide) write_org hand_over_again s s₁ s' engineer_21 5 1 hs ?_
    hs₁ hs'⟩
  rcases forget_step_commits hs₁ with hsame | hforget
  · rw [hsame, hbefore] at hafter
    cases hafter
  · exact hforget

end qortia
