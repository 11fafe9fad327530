-- What row-level security does for the service: nothing. Every table has the permissive policy
-- `platform_write`, so a statement of `qortia_platform` is held to a tenant by its own WHERE
-- clause only. Any other role is held to the tenant of its session.
import Qortia.Policies

namespace qortia

open row_security

variable {K : Type}

/-- The rows of tenant `t`. -/
def TenantTable.of_tenant (T : TenantTable) (t : UUID) (contents : List (T.Row K)) :
    List (T.Row K) := contents.filter fun r => T.tenant_id r = t

/-- Every row that the statement reads or writes is a row of tenant `t`. -/
def Confined (T : TenantTable) (s : Session) (t : UUID) (stmt : Statement (T.Row K))
    (contents : List (T.Row K)) : Prop :=
  ∀ r ∈ T.platform_touches s stmt contents, T.tenant_id r = t

/-- The query gives the same rows in any two contents that agree on tenant `t`. -/
def SeesOnlyTenant (T : TenantTable) (s : Session) (t : UUID) (w : T.Row K → Bool) : Prop :=
  ∀ c c' : List (T.Row K), T.of_tenant t c = T.of_tenant t c' →
    T.platform_touches s (.select w) c = T.platform_touches s (.select w) c'

/-- A session of another role is confined to its own tenant. -/
theorem another_role_is_confined (T : TenantTable) (s : Session) (name : String)
    (hs : s.current_user = .other name) (stmt : Statement (T.Row K)) (contents : List (T.Row K)) :
    ∀ r ∈ touched T.policies s.current_user s stmt contents,
      s.tenant_id = some (T.tenant_id r) := by
  refine touched_of_demand ?_ ?_ stmt contents
  · intro cmd r h
    simp only [visible, Bool.and_eq_true] at h
    exact other_role_demands_tenant T s name hs _ (fun _ _ => Or.inl rfl) cmd r h.1
  · intro cmd r h
    simp only [writable, Bool.and_eq_true] at h
    exact other_role_demands_tenant T s name hs _ (fun _ _ => Or.inr rfl) cmd r h.1

theorem select_targets_filter (T : TenantTable) (s : Session)
    (hs : s.current_user = .qortia_platform) (w : T.Row K → Bool) (c : List (T.Row K)) :
    T.platform_touches s (.select w) c = c.filter w := by
  rw [platform_touches_eq T s hs]
  cases T <;> rfl

/-- In `tenant_transaction(pool, t, ...)` a statement of the service is confined to `t` exactly
when the rows that it picks and writes by itself are all of `t`. A query sees only `t` exactly
when its own WHERE clause asks for `t`. -/
theorem a_statement_is_confined_only_by_its_own_where (T : TenantTable) (db : Db K) (t : UUID)
    (agent_id : Option UUID) (order : Option Int) (division : Option String) :
    let s := tenant_transaction db .qortia_platform t agent_id order division
    (∀ (stmt : Statement (T.Row K)) (contents : List (T.Row K)),
      Confined T s t stmt contents ↔
        (T.granted stmt.command = true → ∀ r ∈ stmt.targets contents, T.tenant_id r = t)) ∧
    ∀ w : T.Row K → Bool, SeesOnlyTenant T s t w ↔ ∀ r, w r = true → T.tenant_id r = t := by
  intro s
  have hs : s.current_user = .qortia_platform := rfl
  refine ⟨fun stmt contents => ?_, fun w => ⟨fun h r hr => ?_, fun h c c' hc => ?_⟩⟩
  · unfold Confined
    rw [platform_touches_eq T s hs]
    cases T.granted stmt.command <;> simp
  · -- One row of another tenant, there or not there, makes the difference.
    by_contra hne
    have := h [r] [] (by simp [TenantTable.of_tenant, hne])
    rw [select_targets_filter T s hs, select_targets_filter T s hs] at this
    simp [hr] at this
  · have key (c : List (T.Row K)) : c.filter w = (T.of_tenant t c).filter w := by
      unfold TenantTable.of_tenant
      rw [List.filter_filter]
      refine List.filter_congr fun r _ => ?_
      by_cases hr : w r = true
      · simp [hr, h r hr]
      · simp [hr]
    rw [select_targets_filter T s hs, select_targets_filter T s hs, key c, key c', hc]

/-- A decision of tenant 2. -/
def foreign_decision : HindsightMemory ℚ :=
  { id := 10, tenant_id := 2, agent_id := 20, type := .decision,
    content := "use Postgres for the ledger", valid_from := 0, created_at := 0 }

/-- `SELECT * FROM hindsight_memories` in a session of tenant 1 reads the row of tenant 2, so its
result depends on rows that are not of tenant 1. -/
theorem a_plain_select_reads_another_tenant :
    ¬ Confined .hindsight_memories (tenant_transaction ({} : Db ℚ) .qortia_platform 1 (some 20)) 1
        (.select fun _ => true) [foreign_decision] ∧
      ¬ SeesOnlyTenant (K := ℚ) .hindsight_memories
        (tenant_transaction ({} : Db ℚ) .qortia_platform 1 (some 20)) 1 (fun _ => true) := by
  refine ⟨fun h => ?_, fun h => ?_⟩
  · exact absurd (h foreign_decision (by decide +kernel)) (by decide +kernel)
  · exact absurd (h [foreign_decision] [] (by decide +kernel)) (by decide +kernel)

end qortia
