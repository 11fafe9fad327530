-- The shape of a stored memory, which the searches and the loops rely on: when it expires, what may
-- be consolidated, closed and archived. It holds of every row in every run, because it holds of
-- what is written and of what becomes of it.
import Qortia.MemoryEvolution

namespace qortia

variable {K : Type}

/-- The types that a reflect run writes. -/
def MemoryType.reflected (type : MemoryType) : Prop := type = .mental_model ∨ type = .lesson

/-- Only a short-term memory expires, after it was created. A memory of the consolidated set is
open and of a type that is reflected, as is one that was closed. In the archive are episodes of
little importance. -/
structure HindsightMemory.WellFormed (r : HindsightMemory K) : Prop where
  importance : 0 ≤ r.importance ∧ r.importance ≤ 1
  expires : r.type = .short_term ↔ r.expires_at.isSome = true
  expires_later : ∀ e, r.expires_at = some e → r.created_at < e ∧ e ≤ MAX_TIMESTAMP
  consolidated : r.is_consolidated = true → r.type.reflected ∧ r.valid_until = none
  closed : r.valid_until.isSome = true → r.type.reflected ∧ r.is_consolidated = false
  archived : r.tier = .archive → r.type = .episodic ∧ r.importance < 4 / 10

/-! ## What is written -/

theorem IMPORTANCE_unit (type : MemoryType) : 0 ≤ IMPORTANCE type ∧ IMPORTANCE type ≤ 1 := by
  cases type with
  | episodic | experiential | mental_model | decision | lesson | short_term =>
    norm_num [IMPORTANCE]

/-- A memory that is remembered. The ttl of a short-term one is positive. -/
theorem memory_row_well_formed (o : Outside K) (agent : AgentIdentity) {now : Timestamp}
    {mem : MemoryItem} {expires : Option Timestamp} (h : expires_at now mem = .ok expires)
    (id : UUID) : (memory_row o agent now mem expires id).WellFormed := by
  have hexpires : (mem.type = .short_term ↔ expires.isSome = true) ∧
      ∀ e, expires = some e → now < e ∧ e ≤ MAX_TIMESTAMP := by
    unfold expires_at at h
    cases httl : mem.ttl_seconds with
    | none =>
      rw [httl] at h
      cases h
      refine ⟨⟨fun htype => ?_, fun hnone => by cases hnone⟩, fun e he => by cases he⟩
      obtain ⟨n, hn, -⟩ := mem.short_term_ttl htype
      rw [httl] at hn
      cases hn
    | some ttl =>
      have htype := mem.ttl_only_short_term (by rw [httl]; exact Option.some_ne_none ttl)
      obtain ⟨n, hn, hpos⟩ := mem.short_term_ttl htype
      rw [httl] at hn h
      cases hn
      simp only at h
      split at h
      · split at h
        · cases h
        · rename_i hlast
          cases h
          refine ⟨⟨fun _ => rfl, fun _ => htype⟩, fun e he => ?_⟩
          cases he
          have hmicros : 0 < ttl * 1000000 := by omega
          exact ⟨lt_add_of_pos_right now hmicros, not_lt.mp hlast⟩
      · rename_i hno
        exact absurd ⟨htype, hpos.ne'⟩ hno
  exact {
    importance := IMPORTANCE_unit mem.type
    expires := hexpires.1
    expires_later := hexpires.2
    consolidated := fun hr => by cases hr
    closed := fun hr => by cases hr
    archived := fun hr => by cases hr }

theorem column_importance_unit {importance : json.Number} {q : ℚ}
    (h : column_importance importance = .ok q) : 0 ≤ q ∧ q ≤ 1 := by
  unfold column_importance at h
  split at h
  · split_ifs at h with hfloat hunit
    cases h
    exact ⟨by exact_mod_cast hunit.1, by exact_mod_cast hunit.2⟩
  · split_ifs at h with hunit
    cases h
    exact hunit
  · cases h
  · cases h

theorem memory_type_reflected (type : ReflectionType) : type.memory_type.reflected := by
  cases type with
  | mental_model => exact Or.inl rfl
  | lesson => exact Or.inr rfl

theorem OfReflection.well_formed {w : Writer} {reflections : List Reflection}
    {r : HindsightMemory K} (h : OfReflection w reflections r) : r.WellFormed := by
  obtain ⟨entry, -, body, -, -, htype, himportance⟩ := h.entry
  have hreflected : r.type.reflected := by
    rw [htype]
    exact memory_type_reflected body.type
  have hexpires : r.expires_at = none := h.is_active.2
  exact {
    importance := column_importance_unit himportance
    expires := by
      rw [hexpires]
      refine ⟨fun hshort => ?_, fun hnone => by cases hnone⟩
      rcases hreflected with hmodel | hlesson
      · rw [hmodel] at hshort
        cases hshort
      · rw [hlesson] at hshort
        cases hshort
    expires_later := fun e he => by
      rw [hexpires] at he
      cases he
    consolidated := fun _ => ⟨hreflected, h.is_open.2⟩
    closed := fun hclosed => by
      rw [h.is_open.2] at hclosed
      cases hclosed
    archived := fun harchive => by
      rw [h.is_active.1] at harchive
      cases harchive }

theorem makes_well_formed {o : Outside K} {open_agents : List (UUID × UUID)}
    {a : DeploymentAction K} {r : HindsightMemory K} (h : a.makes o open_agents r) :
    r.WellFormed := by
  unfold DeploymentAction.makes at h
  split at h
  · obtain ⟨mem, -, expires, hexpires, hrow⟩ := h
    rw [hrow]
    exact memory_row_well_formed o _ hexpires _
  · obtain ⟨reflections, -, hreflection⟩ := h
    exact hreflection.well_formed
  · obtain ⟨agent_id, tenant_id, -, hreflection⟩ := h
    exact hreflection.well_formed
  · exact h.elim

/-! ## What becomes of it -/

theorem HindsightMemory.Becomes.well_formed {r r' : HindsightMemory K} (h : r.Becomes r')
    (hr : r.WellFormed) : r'.WellFormed := by
  have hcreated : r'.created_at = r.created_at := (congrArg HindsightMemory.created_at h.recorded :)
  exact {
    importance := by
      rw [h.importance_eq]
      exact hr.importance
    expires := by
      rw [h.type_eq, h.expires_eq]
      exact hr.expires
    expires_later := by
      rw [h.expires_eq, hcreated]
      exact hr.expires_later
    consolidated := fun hconsolidated => by
      rw [h.type_eq]
      obtain ⟨htype, hopen⟩ := hr.consolidated (h.is_consolidated hconsolidated)
      rcases h.valid_until with hsame | ⟨-, hno⟩
      · rw [hsame]
        exact ⟨htype, hopen⟩
      · rw [hno] at hconsolidated
        cases hconsolidated
    closed := fun hclosed => by
      rw [h.type_eq]
      rcases h.valid_until with hsame | ⟨hwas, hno⟩
      · rw [hsame] at hclosed
        obtain ⟨htype, hno⟩ := hr.closed hclosed
        refine ⟨htype, ?_⟩
        cases hconsolidated : r'.is_consolidated with
        | false => rfl
        | true =>
          rw [h.is_consolidated hconsolidated] at hno
          cases hno
      · exact ⟨(hr.consolidated hwas).1, hno⟩
    archived := fun harchive => by
      rw [h.type_eq, h.importance_eq]
      rcases h.tier with hsame | ⟨htype, himportance, -, -⟩
      · rw [hsame] at harchive
        exact hr.archived harchive
      · exact ⟨htype, himportance⟩ }

/-! ## Every run -/

section
variable [Field K] [LinearOrder K] [HasSqrt K]

/-- In every state that the service reaches, every stored memory is well formed. -/
theorem stored_memories_are_well_formed (o : Outside K) (cfg : Settings) (cal : Calendar)
    (db : Db K) (hblank : db.Blank) (hagents : (db.qortia_agents.map (·.id)).Nodup)
    (actions : List (DeploymentAction K)) (s : Deployment K)
    (hrun : runs.run (deployment_step o cfg cal) db.deployed actions = some s) :
    ∀ r ∈ s.db.hindsight_memories, r.WellFormed := by
  have hstart : GoodDeployment db.deployed := ⟨hblank.owned hagents, fun _ h => by cases h⟩
  apply (memories_evolve_of_run hstart hrun).all HindsightMemory.Becomes.well_formed
  · rintro r ⟨before, s₁, a, -, hmakes⟩
    exact makes_well_formed hmakes
  · intro r hr
    rw [show db.deployed.db.hindsight_memories = [] from hblank.hindsight_memories] at hr
    cases hr

end

/-- The agent remembers an episode, which is archived, and a reflect run writes a lesson. -/
def remember_reflect_archive : List (DeploymentAction ℚ) :=
  remember_and_reflect ++ [.archive_old (60 * DAY)]

theorem stored_memories_are_well_formed_in_the_archive :
    ∃ s : Deployment ℚ, s.db.hindsight_memories.map (fun r => (r.type, r.tier)) =
        [(.episodic, .archive), (.lesson, .active)] ∧
      ∀ r ∈ s.db.hindsight_memories, r.WellFormed := by
  have hend : (runs.run (deployment_step no_models { rerank_model := "gpt" } no_calendar)
      tenants_db.deployed remember_reflect_archive).map
        (fun s => s.db.hindsight_memories.map fun r => (r.type, r.tier)) =
      some [(.episodic, .archive), (.lesson, .active)] := by
    decide +kernel
  obtain ⟨s, hs, hend⟩ := Option.map_eq_some_iff.mp hend
  exact ⟨s, hend, stored_memories_are_well_formed no_models { rerank_model := "gpt" } no_calendar
    tenants_db ⟨rfl, rfl, rfl, rfl, rfl⟩ (by decide) remember_reflect_archive s hs⟩

end qortia
