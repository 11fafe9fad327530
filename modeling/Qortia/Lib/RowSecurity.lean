-- Row-level security as Postgres evaluates it: a command may touch a row when at least one
-- permissive policy lets it and every restrictive policy lets it. A policy counts when it is
-- for the command and for the role.
import Mathlib.Data.List.Basic
import Qortia.Lib.Rows

namespace row_security

inductive Command where
  | select
  | insert
  | update
  | delete
  deriving DecidableEq, Repr

/-- `CREATE POLICY`. `command = none` is `FOR ALL`, and `role = none` is `TO PUBLIC`. A policy
with no `WITH CHECK` uses its `USING` expression for new rows. -/
structure Policy (Role Ctx Row : Type) where
  restrictive : Bool := false
  command : Option Command := none
  role : Option Role := none
  using_ : Ctx → Row → Bool
  with_check : Option (Ctx → Row → Bool) := none

variable {Role Ctx Row : Type} [DecidableEq Role]

/-- The expression that a new row has to pass. -/
def Policy.check (p : Policy Role Ctx Row) : Ctx → Row → Bool := p.with_check.getD p.using_

def Policy.applies (p : Policy Role Ctx Row) (role : Role) (cmd : Command) : Bool :=
  (p.command = none ∨ p.command = some cmd) ∧ (p.role = none ∨ p.role = some role)

/-- The policies combine: some permissive one and all restrictive ones. -/
def combine (ps : List (Policy Role Ctx Row)) (expr : Policy Role Ctx Row → Row → Bool)
    (role : Role) (cmd : Command) (r : Row) : Bool :=
  ps.any (fun p => p.applies role cmd && !p.restrictive && expr p r) &&
    ps.all (fun p => !(p.applies role cmd && p.restrictive) || expr p r)

/-- The row that stands in the table is one that the command may touch. A command that picks
its rows with a WHERE clause needs the SELECT policies too. -/
def visible (ps : List (Policy Role Ctx Row)) (role : Role) (ctx : Ctx) (cmd : Command)
    (r : Row) : Bool :=
  combine ps (fun p => p.using_ ctx) role cmd r &&
    combine ps (fun p => p.using_ ctx) role .select r

/-- The new row is one that the command may write. The new row of an UPDATE has to stay
readable. -/
def writable (ps : List (Policy Role Ctx Row)) (role : Role) (ctx : Ctx) (cmd : Command)
    (r : Row) : Bool :=
  combine ps (fun p => p.check ctx) role cmd r &&
    (cmd ≠ .update || combine ps (fun p => p.using_ ctx) role .select r)

/-! ## Statements under row security -/

/-- One statement: the rows its own WHERE clause picks, and what it does with them. -/
inductive Statement (Row : Type) where
  | select (where_ : Row → Bool)
  | insert (r : Row)
  | update (where_ : Row → Bool) (set : Row → Row)
  | delete (where_ : Row → Bool)

def Statement.command : Statement Row → Command
  | .select _ => .select
  | .insert _ => .insert
  | .update _ _ => .update
  | .delete _ => .delete

/-- The rows that a statement reads or writes when no policy stops it. -/
def Statement.targets (s : Statement Row) (t : List Row) : List Row :=
  match s with
  | .select w => t.filter w
  | .insert r => [r]
  | .update w f => t.filter w ++ (t.filter w).map f
  | .delete w => t.filter w

section
variable (ps : List (Policy Role Ctx Row)) (role : Role) (ctx : Ctx)

/-- `SELECT ... WHERE w` under the policies. -/
def select (w : Row → Bool) (t : List Row) : List Row :=
  t.filter fun r => visible ps role ctx .select r && w r

/-- The rows that a statement reads or writes under the policies. A new row that may not be
written fails the whole statement. -/
def touched (s : Statement Row) (t : List Row) : List Row :=
  match s with
  | .select w => select ps role ctx w t
  | .insert r => if writable ps role ctx .insert r then [r] else []
  | .update w f =>
    let old := t.filter fun r => visible ps role ctx .update r && w r
    if (old.map f).all (writable ps role ctx .update) then old ++ old.map f else old
  | .delete w => t.filter fun r => visible ps role ctx .delete r && w r

end

/-! ## What the policies allow -/

variable {ps : List (Policy Role Ctx Row)} {role : Role} {ctx : Ctx} {cmd : Command} {r : Row}

theorem combine_eq_true {expr : Policy Role Ctx Row → Row → Bool} :
    combine ps expr role cmd r = true ↔
      (∃ p ∈ ps, p.applies role cmd = true ∧ p.restrictive = false ∧ expr p r = true) ∧
        ∀ p ∈ ps, p.applies role cmd = true → p.restrictive = true → expr p r = true := by
  unfold combine
  simp only [Bool.and_eq_true, List.any_eq_true, List.all_eq_true, Bool.or_eq_true,
    Bool.not_eq_true', Bool.and_eq_false_iff, and_assoc]
  refine and_congr Iff.rfl ⟨fun h p hp ha hr => ?_, fun h p hp => ?_⟩
  · rcases h p hp with (h1 | h1) | h1
    · rw [ha] at h1; cases h1
    · rw [hr] at h1; cases h1
    · exact h1
  · by_cases ha : p.applies role cmd = true
    · by_cases hr : p.restrictive = true
      · exact Or.inr (h p hp ha hr)
      · exact Or.inl (Or.inr (by simpa using hr))
    · exact Or.inl (Or.inl (by simpa using ha))

/-- What every permissive policy demands, the policies together demand. -/
theorem combine_of_permissive {expr : Policy Role Ctx Row → Row → Bool} {P : Row → Prop}
    (h : ∀ p ∈ ps, p.applies role cmd = true → p.restrictive = false → expr p r = true → P r)
    (hc : combine ps expr role cmd r = true) : P r := by
  obtain ⟨⟨p, hp, ha, hr, he⟩, _⟩ := combine_eq_true.mp hc
  exact h p hp ha hr he

/-- Where the policies let everything through, a statement touches its own targets. -/
theorem touched_eq_targets (hv : ∀ cmd r, visible ps role ctx cmd r = true)
    (hw : ∀ cmd r, writable ps role ctx cmd r = true) (s : Statement Row) (t : List Row) :
    touched ps role ctx s t = s.targets t := by
  cases s with
  | select w => simp [touched, select, Statement.targets, hv]
  | insert r => simp [touched, Statement.targets, hw]
  | update w f => simp [touched, Statement.targets, hv, hw]
  | delete w => simp [touched, Statement.targets, hv]

/-- Where every policy demands `P`, a statement touches only rows of `P`. -/
theorem touched_of_demand {P : Row → Prop} (hv : ∀ cmd r, visible ps role ctx cmd r = true → P r)
    (hw : ∀ cmd r, writable ps role ctx cmd r = true → P r) (s : Statement Row) (t : List Row) :
    ∀ r ∈ touched ps role ctx s t, P r := by
  intro r hr
  cases s with
  | select w =>
    simp only [touched, select, List.mem_filter, Bool.and_eq_true] at hr
    exact hv _ r hr.2.1
  | insert x =>
    simp only [touched] at hr
    split at hr
    · rename_i hx
      rw [List.mem_singleton] at hr
      exact hr ▸ hw _ x hx
    · cases hr
  | update w f =>
    have hold : ∀ x ∈ t.filter fun r => visible ps role ctx .update r && w r, P x := by
      intro x hx
      simp only [List.mem_filter, Bool.and_eq_true] at hx
      exact hv _ x hx.2.1
    simp only [touched] at hr
    split at hr
    · rename_i hall
      rcases List.mem_append.mp hr with hr | hr
      · exact hold r hr
      · exact hw _ r (List.all_eq_true.mp hall r hr)
    · exact hold r hr
  | delete w =>
    simp only [touched, List.mem_filter, Bool.and_eq_true] at hr
    exact hv _ r hr.2.1

end row_security
