-- The weekly summary of `qortia.knowledge` on any number of worker replicas. One replica at a time
-- leads, and it summarises a tenant in a transaction of its own, next to the requests that write
-- and forget handoffs. The laws are about which handoffs a summary counts.
import Qortia.Lib.Runs
import Qortia.Lib.Text
import Qortia.Owners

namespace qortia

variable {K : Type}

/-! ## The summary of the handoffs -/

/-- The calendar of the workers: `date.today().weekday()` and `date.today().isoformat()` at a time,
`strftime("%Y-%m-%d")` of a time, and `int(md5(str(tenant_id)).hexdigest(), 16) % 7`. -/
structure Calendar where
  weekday : Timestamp → Nat
  today : Timestamp → String
  strftime : Timestamp → String
  day_offset : UUID → Nat

/-- A row of the query, with the id of the handoff, which the query does not select. -/
structure Handoff where
  id : UUID
  title : String
  content : String
  created_at : Timestamp
  lang : String
  agent_name : Option String
  deriving DecidableEq

/-- `build_weekly_summary`. -/
def build_weekly_summary (cal : Calendar) (handoffs : List Handoff) : String :=
  "\n\n---\n\n".intercalate ((rows.order_desc (·.created_at) handoffs).map fun h =>
    "[" ++ (h.agent_name.filter (· ≠ "")).getD "Unknown" ++ " | " ++ cal.strftime h.created_at ++
      "]\n" ++ String.ofList (text.strip h.content.toList))

/-- `lang_counts.most_common(1)[0][0] if lang_counts else "en"`. -/
def dominant_lang (handoffs : List Handoff) : String :=
  let langs := (handoffs.map (·.lang)).filter (· ≠ "")
  ((rows.order_desc langs.count langs.eraseDups).head?).getD "en"

/-- `SELECT .. FROM org_memory om LEFT JOIN qortia_agents a ON a.id = om.author_id WHERE ..`. -/
def fetch_handoffs (tenant_id : UUID) (now : Timestamp) (db : Db K) : List Handoff :=
  (rows.order_desc (·.created_at) (db.org_memory.filter fun r =>
    r.tenant_id = tenant_id && r.type = .handoff && now - 7 * DAY < r.created_at)).map fun r =>
      { id := r.id, title := r.title, content := r.content, created_at := r.created_at
        lang := r.lang
        agent_name := (r.author_id.bind fun author_id =>
          db.qortia_agents.find? (·.id = author_id)).bind (·.name) }

/-- The row of the summary. -/
def weekly_row (cal : Calendar) (tenant_id : UUID) (now today : Timestamp)
    (handoffs : List Handoff) (id : UUID) : OrgMemory K :=
  { id, tenant_id, type := .weekly_summary, title := "Weekly Summary — " ++ cal.today today
    content := build_weekly_summary cal handoffs, lang := dominant_lang handoffs
    valid_from := now, created_at := now, updated_at := now }

/-- `last_run_at and (datetime.now(UTC) - last_run_at).days < 7`. -/
def run_lately (last_run_at : Option Timestamp) (now : Timestamp) : Bool :=
  last_run_at.any fun last => (now - last) / DAY < 7

/-! ## The replicas -/

/-- Where `_summarise_tenant` stands: its transaction has begun at `now()`, holds the row of the
tenant, or has read the handoffs. -/
inductive SummaryTx where
  | began (tenant_id : UUID) (last_run_at : Option Timestamp) (now : Timestamp)
  | locked (tenant_id : UUID) (now : Timestamp)
  | fetched (tenant_id : UUID) (now : Timestamp) (handoffs : List Handoff)
  deriving DecidableEq

/-- A cycle: the tenants that are left, as they were read at its start. -/
structure SummaryCycle where
  tenants : List (UUID × Option Timestamp)
  tx : Option SummaryTx := none
  deriving DecidableEq

/-- A committed summary, with the handoffs that it includes. -/
structure WeeklySummary where
  tenant_id : UUID
  created_at : Timestamp
  handoffs : List UUID
  deriving DecidableEq

/-- The database, the clock, the replica that holds the advisory lock, and the summaries in the
order of their commits. -/
structure Weekly (K : Type) where
  db : Db K
  clock : Timestamp
  leader : Option (Nat × SummaryCycle) := none
  summaries : List WeeklySummary := []
  deriving DecidableEq

/-- The clock, the requests, and the steps of a replica. A request carries the time at which its
transaction began. `skipped` says that another transaction has the row of the tenant locked. -/
inductive WeeklyAction where
  | tick (now : Timestamp)
  | remember_org (agent : AgentIdentity) (began : Timestamp) (body : RememberOrgRequest)
  | forget (agent : AgentIdentity) (began : Timestamp) (id : UUID)
  | lead (replica : Nat)
  | begin_tenant (replica : Nat)
  | lock_tenant (replica : Nat) (skipped : Bool)
  | fetch (replica : Nat)
  | commit (replica : Nat)
  | release (replica : Nat)
  | crash (replica : Nat)

def SummaryTx.tenant_id : SummaryTx → UUID
  | .began tenant_id _ _ | .locked tenant_id _ | .fetched tenant_id _ _ => tenant_id

/-- The tenant whose row is locked `FOR UPDATE`. -/
def Weekly.locked_tenant (s : Weekly K) : Option UUID :=
  match s.leader with
  | some (_, { tx := some (.locked tenant_id _), .. })
  | some (_, { tx := some (.fetched tenant_id _ _), .. }) => some tenant_id
  | _ => none

def Weekly.cycle (s : Weekly K) (replica : Nat) (tenants : List (UUID × Option Timestamp))
    (tx : Option SummaryTx) : Weekly K :=
  { s with leader := some (replica, { tenants, tx }) }

def weekly_step (o : Outside K) (cal : Calendar) (s : Weekly K) :
    WeeklyAction → Option (Weekly K)
  | .tick now => if s.clock ≤ now then some { s with clock := now } else none
  | .remember_org agent began body =>
    if s.clock < began then none
    -- The foreign key of a new row asks for the row of the tenant, and waits for its lock.
    else if s.locked_tenant = some agent.tenant_id ∧
        ¬ s.db.org_memory.any (org_conflict agent body) = true then none
    else
      match remember_org o agent began body s.db with
      | .ok (db, _) => some { s with db }
      | .error _ => some s
  | .forget agent began id =>
    match forget o agent began id s.db with
    | .ok db => some { s with db }
    | .error _ => some s
  | .lead replica =>
    match s.leader with
    | none =>
      let tenants := (s.db.qortia_tenants.filter (·.status = "active")).map fun t =>
        (t.id, t.weekly_summary_last_run_at)
      some (s.cycle replica tenants none)
    | some _ => none
  | .begin_tenant replica =>
    match s.leader with
    | some (i, { tenants := (tenant_id, last_run_at) :: tenants, tx := none }) =>
      if i ≠ replica then none
      else if cal.weekday s.clock ≠ cal.day_offset tenant_id then
        some (s.cycle replica tenants none)
      else some (s.cycle replica tenants (some (.began tenant_id last_run_at s.clock)))
    | _ => none
  | .lock_tenant replica skipped =>
    match s.leader with
    | some (i, { tenants, tx := some (.began tenant_id last_run_at now) }) =>
      if i ≠ replica then none
      else if skipped ∨ ¬ s.db.qortia_tenants.any (·.id = tenant_id) = true then
        some (s.cycle replica tenants none)
      else if run_lately last_run_at s.clock then some (s.cycle replica tenants none)
      else some (s.cycle replica tenants (some (.locked tenant_id now)))
    | _ => none
  | .fetch replica =>
    match s.leader with
    | some (i, { tenants, tx := some (.locked tenant_id now) }) =>
      if i ≠ replica then none
      else
        let handoffs := fetch_handoffs tenant_id now s.db
        if handoffs.length < 3 then some (s.cycle replica tenants none)
        else some (s.cycle replica tenants (some (.fetched tenant_id now handoffs)))
    | _ => none
  | .commit replica =>
    match s.leader with
    | some (i, { tenants, tx := some (.fetched tenant_id now handoffs) }) =>
      if i ≠ replica then none
      else
        let row := weekly_row cal tenant_id now s.clock handoffs s.db.next_id
        some { s.cycle replica tenants none with
          db := { s.db with
            org_memory := s.db.org_memory ++ [row], next_id := s.db.next_id + 1
            qortia_tenants := rows.update (fun t => t.id = tenant_id)
              (fun t => { t with weekly_summary_last_run_at := some now }) s.db.qortia_tenants }
          summaries := s.summaries ++ [⟨tenant_id, now, handoffs.map (·.id)⟩] }
    | _ => none
  | .release replica =>
    match s.leader with
    | some (i, { tenants := [], tx := none }) =>
      if i ≠ replica then none else some { s with leader := none }
    | _ => none
  | .crash replica =>
    match s.leader with
    | some (i, _) => if i ≠ replica then none else some { s with leader := none }
    | none => none

/-! ## What has to hold -/

/-- Two summaries of a tenant are seven days apart and have no handoff in common. -/
structure Apart (σ τ : WeeklySummary) : Prop where
  days : σ.created_at + 7 * DAY ≤ τ.created_at
  handoffs : List.Disjoint σ.handoffs τ.handoffs

def CountsOnce (s : Weekly K) : Prop :=
  s.summaries.Pairwise fun σ τ => σ.tenant_id = τ.tenant_id → Apart σ τ

/-- `now()` of a transaction that asks for the row of its tenant. -/
def Weekly.began_at (s : Weekly K) : Option Timestamp :=
  match s.leader with
  | some (_, { tx := some (.began _ _ now), .. }) => some now
  | _ => none

/-- In the transaction of a summary Python reads the clock as `now()` does. -/
def ReadsOneClock (s : Weekly K) : WeeklyAction → Prop
  | .lock_tenant _ _ => ∀ now ∈ s.began_at, s.clock = now
  | .tick _ | .remember_org .. | .forget .. | .lead _ | .begin_tenant _ | .fetch _ | .commit _
  | .release _ | .crash _ => True

instance (s : Weekly K) : DecidablePred (ReadsOneClock s)
  | .lock_tenant _ _ => inferInstanceAs (Decidable (∀ now ∈ s.began_at, s.clock = now))
  | .tick _ | .remember_org .. | .forget .. | .lead _ | .begin_tenant _ | .fetch _ | .commit _
  | .release _ | .crash _ => isTrue trivial

/-! ## What every step keeps -/

/-- The id is drawn, and a row that has it was created by then. -/
structure Db.counted_by (db : Db K) (until_ : Timestamp) (id : UUID) : Prop where
  drawn : id < db.next_id
  created : ∀ r ∈ db.org_memory, r.id = id → r.created_at ≤ until_

/-- The tenant is there, and its last summary is not older. -/
structure Db.ran_since (db : Db K) (tenant_id : UUID) (last : Timestamp) : Prop where
  there : ∃ t ∈ db.qortia_tenants, t.id = tenant_id
  ran : ∀ t ∈ db.qortia_tenants, t.id = tenant_id →
    ∃ l, t.weekly_summary_last_run_at = some l ∧ last ≤ l

/-- The tenant is there, and its last summary is seven days old. -/
structure Db.rested (db : Db K) (tenant_id : UUID) (now : Timestamp) : Prop where
  there : ∃ t ∈ db.qortia_tenants, t.id = tenant_id
  rest : ∀ t ∈ db.qortia_tenants, t.id = tenant_id →
    ∀ last, t.weekly_summary_last_run_at = some last → last + 7 * DAY ≤ now

/-- What the cycle has read of the tenant still holds. -/
def Db.last_run_is (db : Db K) (tenant_id : UUID) (last_run_at : Option Timestamp) : Prop :=
  ∀ t ∈ db.qortia_tenants, t.id = tenant_id → t.weekly_summary_last_run_at = last_run_at

def SummaryTx.Good (s : Weekly K) : SummaryTx → Prop
  | .began tenant_id last_run_at now => now ≤ s.clock ∧ s.db.last_run_is tenant_id last_run_at
  | .locked tenant_id now =>
    now ≤ s.clock ∧ s.db.rested tenant_id now ∧
      ∀ r ∈ s.db.org_memory, r.tenant_id = tenant_id → r.type = .handoff → r.created_at ≤ now
  | .fetched tenant_id now handoffs =>
    now ≤ s.clock ∧ s.db.rested tenant_id now ∧ ∀ h ∈ handoffs, s.db.counted_by now h.id ∧
      ∀ σ ∈ s.summaries, σ.tenant_id = tenant_id → h.id ∉ σ.handoffs

structure GoodWeekly (s : Weekly K) : Prop where
  tenants : (s.db.qortia_tenants.map (·.id)).Nodup
  ids : (s.db.org_memory.map (·.id)).Nodup
  created : ∀ r ∈ s.db.org_memory, r.created_at ≤ s.clock
  drawn : ∀ r ∈ s.db.org_memory, r.id < s.db.next_id
  ran : ∀ σ ∈ s.summaries, s.db.ran_since σ.tenant_id σ.created_at
  counted : ∀ σ ∈ s.summaries, ∀ id ∈ σ.handoffs, s.db.counted_by σ.created_at id
  once : CountsOnce s
  left : ∀ i c, s.leader = some (i, c) → (c.tenants.map (·.1)).Nodup ∧
    ∀ x ∈ c.tenants, s.db.last_run_is x.1 x.2
  tx : ∀ i c tx, s.leader = some (i, c) → c.tx = some tx →
    tx.Good s ∧ tx.tenant_id ∉ c.tenants.map (·.1)

/-- A request leaves the tenants as they are. A row that is there after it was there before with
the same times, or is new, and no new row is a handoff of a locked tenant. -/
structure OrgStep (s : Weekly K) (db : Db K) : Prop where
  tenants : db.qortia_tenants = s.db.qortia_tenants
  next_id : s.db.next_id ≤ db.next_id
  ids : (db.org_memory.map (·.id)).Nodup
  rows : ∀ r ∈ db.org_memory,
    (∃ r₀ ∈ s.db.org_memory, r₀.id = r.id ∧ r₀.tenant_id = r.tenant_id ∧ r₀.type = r.type ∧
      r₀.created_at = r.created_at) ∨
    (s.db.next_id ≤ r.id ∧ r.id < db.next_id ∧ r.created_at ≤ s.clock ∧
      s.locked_tenant ≠ some r.tenant_id)

section
variable {s : Weekly K}

theorem Db.counted_by.kept {until_ : Timestamp} {id : UUID} {db : Db K}
    (h : s.db.counted_by until_ id) (hk : OrgStep s db) : db.counted_by until_ id := by
  refine ⟨lt_of_lt_of_le h.drawn hk.next_id, fun r hr hid => ?_⟩
  rcases hk.rows r hr with ⟨r₀, hr₀, hid₀, -, -, hcreated⟩ | ⟨hnew, -⟩
  · rw [← hcreated]
    exact h.created r₀ hr₀ (hid₀.trans hid)
  · have hlt := h.drawn
    rw [hid] at hnew
    exact absurd hlt (Nat.not_lt.mpr hnew)

theorem GoodWeekly.of_org_step (h : GoodWeekly s) {db : Db K} (hk : OrgStep s db) :
    GoodWeekly { s with db := db } := by
  have htenants := hk.tenants
  refine ⟨?_, hk.ids, fun r hr => ?_, fun r hr => ?_, fun σ hσ => ?_, fun σ hσ id hid => ?_,
    h.once, fun i c hc => ?_, fun i c tx hc htx => ?_⟩
  · rw [htenants]
    exact h.tenants
  · rcases hk.rows r hr with ⟨r₀, hr₀, -, -, -, hcreated⟩ | ⟨-, -, hcreated, -⟩
    · rw [← hcreated]
      exact h.created r₀ hr₀
    · exact hcreated
  · rcases hk.rows r hr with ⟨r₀, hr₀, hid, -⟩ | ⟨-, hlt, -⟩
    · rw [← hid]
      exact lt_of_lt_of_le (h.drawn r₀ hr₀) hk.next_id
    · exact hlt
  · obtain ⟨hthere, hran⟩ := h.ran σ hσ
    rw [← htenants] at hthere hran
    exact ⟨hthere, hran⟩
  · exact (h.counted σ hσ id hid).kept hk
  · unfold Db.last_run_is
    rw [htenants]
    exact h.left i c hc
  · obtain ⟨hgood, hleft⟩ := h.tx i c tx hc htx
    refine ⟨?_, hleft⟩
    cases tx with
    | began tenant_id last_run_at now =>
      obtain ⟨hnow, hread⟩ := hgood
      unfold Db.last_run_is at hread
      rw [← htenants] at hread
      exact ⟨hnow, hread⟩
    | locked tenant_id now =>
      obtain ⟨hnow, ⟨hthere, hrest⟩, hall⟩ := hgood
      rw [← htenants] at hthere hrest
      refine ⟨hnow, ⟨hthere, hrest⟩, fun r hr htenant htype => ?_⟩
      rcases hk.rows r hr with ⟨r₀, hr₀, -, ht, hty, hcreated⟩ | ⟨-, -, -, hfree⟩
      · rw [← hcreated]
        exact hall r₀ hr₀ (ht.trans htenant) (hty.trans htype)
      · -- The new row waits for the lock of its tenant.
        have hlocked : s.locked_tenant = some tenant_id := by
          unfold Weekly.locked_tenant
          obtain ⟨tenants, tx⟩ := c
          simp only at htx
          rw [hc, htx]
        rw [htenant] at hfree
        exact absurd hlocked hfree
    | fetched tenant_id now handoffs =>
      obtain ⟨hnow, ⟨hthere, hrest⟩, hall⟩ := hgood
      rw [← htenants] at hthere hrest
      refine ⟨hnow, ⟨hthere, hrest⟩, fun x hx => ?_⟩
      obtain ⟨hcounted, hnone⟩ := hall x hx
      exact ⟨hcounted.kept hk, hnone⟩

theorem remember_org_step {o : Outside K} {agent : AgentIdentity} {began : Timestamp}
    {body : RememberOrgRequest} {db : Db K} {row_id : UUID} (h : GoodWeekly s)
    (hbegan : ¬ s.clock < began)
    (hlock : ¬ (s.locked_tenant = some agent.tenant_id ∧
      ¬ s.db.org_memory.any (org_conflict agent body) = true))
    (hreq : remember_org o agent began body s.db = .ok (db, row_id)) : OrgStep s db := by
  obtain ⟨-, -, -, rfl⟩ := remember_org_eq hreq
  by_cases hany : s.db.org_memory.any (org_conflict agent body) = true
  · simp only [rows.upsert_of_any hany]
    refine ⟨rfl, Nat.le_succ _, ?_, fun r hr => ?_⟩
    · exact (rows.sublist_update (g := OrgMemory.id) (by intro r; rfl) _ _).nodup h.ids
    · obtain ⟨r₀, hr₀, ⟨-, rfl⟩ | ⟨-, rfl⟩⟩ := rows.mem_update.mp hr
      · exact Or.inl ⟨r₀, hr₀, rfl, rfl, rfl, rfl⟩
      · exact Or.inl ⟨r, hr₀, rfl, rfl, rfl, rfl⟩
  · simp only [rows.upsert_of_not_any hany]
    refine ⟨rfl, Nat.le_succ _, nodup_append_fresh h.ids h.drawn rfl, fun r hr => ?_⟩
    rcases List.mem_append.mp hr with hr | hr
    · exact Or.inl ⟨r, hr, rfl, rfl, rfl, rfl⟩
    · rw [List.mem_singleton.mp hr]
      refine Or.inr ⟨le_refl _, Nat.lt_succ_self _, Int.not_lt.mp hbegan, ?_⟩
      exact fun hl => hlock ⟨hl, hany⟩

theorem forget_org_step {o : Outside K} {agent : AgentIdentity} {began : Timestamp} {id : UUID}
    {db : Db K} (h : GoodWeekly s) (hreq : forget o agent began id s.db = .ok db) :
    OrgStep s db := by
  obtain ⟨-, table, content, -, rfl⟩ := forget_eq hreq
  cases table with
  | hindsight_memories | org_knowledge =>
    exact ⟨rfl, le_refl _, h.ids, fun r hr => Or.inl ⟨r, hr, rfl, rfl, rfl, rfl⟩⟩
  | org_memory =>
    refine ⟨rfl, le_refl _, (List.filter_sublist.map _).nodup h.ids,
      fun r hr => Or.inl ⟨r, ?_, rfl, rfl, rfl, rfl⟩⟩
    exact (rows.mem_delete.mp hr).1

/-- The clock goes on. -/
theorem GoodWeekly.tick (h : GoodWeekly s) {now : Timestamp} (hnow : s.clock ≤ now) :
    GoodWeekly { s with clock := now } := by
  refine ⟨h.tenants, h.ids, fun r hr => le_trans (h.created r hr) hnow, h.drawn, h.ran, h.counted,
    h.once, h.left, fun i c tx hc htx => ?_⟩
  obtain ⟨hgood, hleft⟩ := h.tx i c tx hc htx
  refine ⟨?_, hleft⟩
  cases tx with
  | began tenant_id last_run_at began => exact ⟨le_trans hgood.1 hnow, hgood.2⟩
  | locked tenant_id began => exact ⟨le_trans hgood.1 hnow, hgood.2⟩
  | fetched tenant_id began handoffs => exact ⟨le_trans hgood.1 hnow, hgood.2⟩

/-- The replica goes on in its cycle. -/
theorem GoodWeekly.move (h : GoodWeekly s) (i : Nat) {tenants : List (UUID × Option Timestamp)}
    {tx : Option SummaryTx} (hnodup : (tenants.map (·.1)).Nodup)
    (hleft : ∀ x ∈ tenants, s.db.last_run_is x.1 x.2)
    (htx : ∀ t, tx = some t → t.Good s ∧ t.tenant_id ∉ tenants.map (·.1)) :
    GoodWeekly (s.cycle i tenants tx) := by
  refine ⟨h.tenants, h.ids, h.created, h.drawn, h.ran, h.counted, h.once, fun j c hc => ?_,
    fun j c t hc ht => ?_⟩
  · cases hc
    exact ⟨hnodup, hleft⟩
  · cases hc
    obtain ⟨hgood, hnot⟩ := htx t ht
    refine ⟨?_, hnot⟩
    cases t with
    | began => exact hgood
    | locked => exact hgood
    | fetched => exact hgood

theorem GoodWeekly.leave (h : GoodWeekly s) : GoodWeekly { s with leader := none } :=
  ⟨h.tenants, h.ids, h.created, h.drawn, h.ran, h.counted, h.once, fun _ _ hc => (by cases hc),
    fun _ _ _ hc => (by cases hc)⟩

theorem rested_of_not_lately {tenant_id : UUID} {last_run_at : Option Timestamp} {now : Timestamp}
    (hread : s.db.last_run_is tenant_id last_run_at)
    (hthere : s.db.qortia_tenants.any (·.id = tenant_id) = true)
    (hage : run_lately last_run_at now = false) : s.db.rested tenant_id now := by
  obtain ⟨t, ht, hid⟩ := List.any_eq_true.mp hthere
  refine ⟨⟨t, ht, of_decide_eq_true hid⟩, fun t ht hid last hlast => ?_⟩
  have hread := hread t ht hid
  rw [hlast] at hread
  subst hread
  have hdays : ¬ (now - last) / DAY < 7 := by
    simpa [run_lately] using hage
  have hday : (0 : Int) < DAY := by decide
  exact Int.add_le_of_le_sub_left ((Int.le_ediv_iff_mul_le hday).mp (Int.not_lt.mp hdays))

theorem mem_fetch_handoffs {tenant_id : UUID} {now : Timestamp} {h : Handoff}
    (hh : h ∈ fetch_handoffs tenant_id now s.db) :
    ∃ r ∈ s.db.org_memory, r.id = h.id ∧ r.tenant_id = tenant_id ∧ r.type = .handoff ∧
      now - 7 * DAY < r.created_at := by
  obtain ⟨r, hr, rfl⟩ := List.mem_map.mp hh
  obtain ⟨hr, hwhere⟩ := List.mem_filter.mp (rows.mem_order_desc.mp hr)
  simp only [Bool.and_eq_true, decide_eq_true_eq] at hwhere
  exact ⟨r, hr, rfl, hwhere.1.1, hwhere.1.2, hwhere.2⟩

/-- What a summary reads was created by its `now()` and is in no earlier summary of the tenant. -/
theorem GoodWeekly.fetched (h : GoodWeekly s) {tenant_id : UUID} {now : Timestamp}
    (hrested : s.db.rested tenant_id now)
    (hall : ∀ r ∈ s.db.org_memory, r.tenant_id = tenant_id → r.type = .handoff →
      r.created_at ≤ now) {x : Handoff} (hx : x ∈ fetch_handoffs tenant_id now s.db) :
    s.db.counted_by now x.id ∧
      ∀ σ ∈ s.summaries, σ.tenant_id = tenant_id → x.id ∉ σ.handoffs := by
  obtain ⟨r, hr, hid, htenant, htype, hwindow⟩ := mem_fetch_handoffs hx
  constructor
  · refine ⟨?_, fun r' hr' hid' => ?_⟩
    · rw [← hid]
      exact h.drawn r hr
    · rw [List.inj_on_of_nodup_map h.ids hr' hr (hid'.trans hid.symm)]
      exact hall r hr htenant htype
  · intro σ hσ hσt hmem
    have hold := (h.counted σ hσ x.id hmem).created r hr hid
    obtain ⟨⟨t, ht, hidt⟩, hran⟩ := h.ran σ hσ
    obtain ⟨last, hlast, hle⟩ := hran t ht hidt
    have hrest := hrested.rest t ht (hidt.trans hσt) last hlast
    have hbefore := le_trans hold (le_trans hle (Int.le_sub_right_of_add_le hrest))
    exact absurd hwindow (Int.not_lt.mpr hbefore)

/-- The UPDATE of the tenant writes the time of the summary into its row. -/
theorem mem_stamp {tenant_id : UUID} {now : Timestamp} {tenants : List Tenant} {t : Tenant}
    (ht : t ∈ rows.update (fun t => t.id = tenant_id)
      (fun t : Tenant => { t with weekly_summary_last_run_at := some now }) tenants) :
    ∃ t₀ ∈ tenants, t₀.id = t.id ∧ t.weekly_summary_last_run_at =
      if t.id = tenant_id then some now else t₀.weekly_summary_last_run_at := by
  obtain ⟨t₀, ht₀, ⟨hid, rfl⟩ | ⟨hid, rfl⟩⟩ := rows.mem_update.mp ht
  · refine ⟨t₀, ht₀, rfl, ?_⟩
    exact (if_pos (of_decide_eq_true hid)).symm
  · refine ⟨t, ht₀, rfl, ?_⟩
    exact (if_neg (of_decide_eq_false hid)).symm

theorem stamp_keeps {tenant_id : UUID} {now : Timestamp} {tenants : List Tenant} {t₀ : Tenant}
    (ht₀ : t₀ ∈ tenants) :
    ∃ t ∈ rows.update (fun t => t.id = tenant_id)
      (fun t : Tenant => { t with weekly_summary_last_run_at := some now }) tenants,
      t.id = t₀.id := by
  by_cases hid : t₀.id = tenant_id
  · exact ⟨_, rows.mem_update.mpr ⟨t₀, ht₀, Or.inl ⟨decide_eq_true hid, rfl⟩⟩, rfl⟩
  · exact ⟨t₀, rows.mem_update.mpr ⟨t₀, ht₀, Or.inr ⟨decide_eq_false hid, rfl⟩⟩, rfl⟩

/-- The summaries of a tenant that has rested are a week old. -/
theorem GoodWeekly.week_old (h : GoodWeekly s) {tenant_id : UUID} {now : Timestamp}
    (hrested : s.db.rested tenant_id now) {σ : WeeklySummary} (hσ : σ ∈ s.summaries)
    (hσt : σ.tenant_id = tenant_id) : σ.created_at + 7 * DAY ≤ now := by
  obtain ⟨⟨t, ht, hid⟩, hran⟩ := h.ran σ hσ
  obtain ⟨last, hlast, hle⟩ := hran t ht hid
  have hrest := hrested.rest t ht (hid.trans hσt) last hlast
  exact le_trans (Int.add_le_add_right hle _) hrest

/-- After the UPDATE the tenant of each summary has run since. -/
theorem GoodWeekly.ran_after (h : GoodWeekly s) {tenant_id : UUID} {now : Timestamp}
    (hrested : s.db.rested tenant_id now) {db : Db K}
    (htenants : db.qortia_tenants = rows.update (fun t => t.id = tenant_id)
      (fun t => { t with weekly_summary_last_run_at := some now }) s.db.qortia_tenants)
    {σ : WeeklySummary} {ids : List UUID} (hσ : σ ∈ s.summaries ++ [⟨tenant_id, now, ids⟩]) :
    db.ran_since σ.tenant_id σ.created_at := by
  have hlater : σ.tenant_id = tenant_id → σ.created_at ≤ now := by
    intro hσt
    rcases List.mem_append.mp hσ with hσ | hσ
    · have hold := h.week_old hrested hσ hσt
      have hweek : (0 : Int) ≤ 7 * DAY := by decide
      exact le_trans (Int.le_add_of_nonneg_right hweek) hold
    · rw [List.mem_singleton.mp hσ]
  have hthere : ∃ t ∈ s.db.qortia_tenants, t.id = σ.tenant_id := by
    rcases List.mem_append.mp hσ with hσ | hσ
    · exact (h.ran σ hσ).there
    · rw [List.mem_singleton.mp hσ]
      exact hrested.there
  constructor
  · obtain ⟨t₀, ht₀, hid⟩ := hthere
    obtain ⟨t, ht, hid'⟩ := @stamp_keeps tenant_id now _ _ ht₀
    rw [← htenants] at ht
    exact ⟨t, ht, hid'.trans hid⟩
  · intro t ht hid
    rw [htenants] at ht
    obtain ⟨t₀, ht₀, hid₀, hlast⟩ := mem_stamp ht
    by_cases hσt : σ.tenant_id = tenant_id
    · rw [if_pos (hid.trans hσt)] at hlast
      exact ⟨now, hlast, hlater hσt⟩
    · rw [hid, if_neg hσt] at hlast
      rcases List.mem_append.mp hσ with hσ | hσ
      · obtain ⟨l, hl, hle⟩ := (h.ran σ hσ).ran t₀ ht₀ (hid₀.trans hid)
        exact ⟨l, hlast.trans hl, hle⟩
      · rw [List.mem_singleton.mp hσ] at hσt
        exact absurd rfl hσt

/-- The row of the summary is no row that was counted before. -/
theorem Db.counted_by.insert {until_ : Timestamp} {id : UUID} {db db' : Db K}
    (h : db.counted_by until_ id) {row : OrgMemory K} (hrow : row.id = db.next_id)
    (horg : db'.org_memory = db.org_memory ++ [row]) (hnext : db'.next_id = db.next_id + 1) :
    db'.counted_by until_ id := by
  constructor
  · rw [hnext]
    exact lt_trans h.drawn (Nat.lt_succ_self _)
  · intro r hr hid
    rw [horg] at hr
    rcases List.mem_append.mp hr with hr | hr
    · exact h.created r hr hid
    · have hlt := h.drawn
      rw [← hid, List.mem_singleton.mp hr, hrow] at hlt
      exact absurd hlt (Nat.lt_irrefl _)

/-- The summary is committed. -/
theorem GoodWeekly.commit (h : GoodWeekly s) (cal : Calendar) (i : Nat)
    {tenants : List (UUID × Option Timestamp)} {tenant_id : UUID} {now : Timestamp}
    {handoffs : List Handoff} (hnodup : (tenants.map (·.1)).Nodup)
    (hleft : ∀ x ∈ tenants, s.db.last_run_is x.1 x.2) (hnot : tenant_id ∉ tenants.map (·.1))
    (hgood : (SummaryTx.fetched tenant_id now handoffs).Good s) :
    GoodWeekly { s.cycle i tenants none with
      db := { s.db with
        org_memory := s.db.org_memory ++
          [weekly_row cal tenant_id now s.clock handoffs s.db.next_id]
        next_id := s.db.next_id + 1
        qortia_tenants := rows.update (fun t => t.id = tenant_id)
          (fun t => { t with weekly_summary_last_run_at := some now }) s.db.qortia_tenants }
      summaries := s.summaries ++ [⟨tenant_id, now, handoffs.map (·.id)⟩] } := by
  obtain ⟨hnow, hrested, hall⟩ := hgood
  refine ⟨?_, nodup_append_fresh h.ids h.drawn rfl, fun r hr => ?_, fun r hr => ?_,
    fun σ hσ => h.ran_after hrested rfl hσ, fun σ hσ id hid => ?_, ?_, fun j c hc => ?_,
    fun j c tx hc htx => ?_⟩
  · exact (rows.sublist_update (g := Tenant.id) (by intro t; rfl) _ _).nodup h.tenants
  · rcases List.mem_append.mp hr with hr | hr
    · exact h.created r hr
    · rw [List.mem_singleton.mp hr]
      exact hnow
  · rcases List.mem_append.mp hr with hr | hr
    · exact lt_trans (h.drawn r hr) (Nat.lt_succ_self _)
    · rw [List.mem_singleton.mp hr]
      exact Nat.lt_succ_self _
  · have hc : s.db.counted_by σ.created_at id := by
      rcases List.mem_append.mp hσ with hσ | hσ
      · exact h.counted σ hσ id hid
      · rw [List.mem_singleton.mp hσ] at hid ⊢
        obtain ⟨x, hx, rfl⟩ := List.mem_map.mp hid
        exact (hall x hx).1
    exact hc.insert rfl rfl rfl
  · unfold CountsOnce
    rw [List.pairwise_append]
    refine ⟨h.once, List.pairwise_singleton _ _, fun σ hσ τ hτ hσt => ?_⟩
    rw [List.mem_singleton.mp hτ] at hσt ⊢
    refine ⟨h.week_old hrested hσ hσt, fun id hid hid' => ?_⟩
    obtain ⟨x, hx, rfl⟩ := List.mem_map.mp hid'
    exact (hall x hx).2 σ hσ hσt hid
  · cases hc
    refine ⟨hnodup, fun x hx t ht hid => ?_⟩
    obtain ⟨t₀, ht₀, hid₀, hlast⟩ := mem_stamp ht
    have hother : t.id ≠ tenant_id := by
      intro heq
      apply hnot
      rw [← heq, hid]
      exact List.mem_map_of_mem hx
    rw [if_neg hother] at hlast
    rw [hlast]
    exact hleft x hx t₀ ht₀ (hid₀.trans hid)
  · cases hc
    cases htx

end

section
variable {o : Outside K} {cal : Calendar} {s s' : Weekly K} {replica : Nat}

/-- The leader reads the active tenants. -/
theorem GoodWeekly.lead (h : GoodWeekly s) (hstep : weekly_step o cal s (.lead replica) = some s') :
    GoodWeekly s' := by
  simp only [weekly_step] at hstep
  split at hstep
  · cases hstep
    refine h.move replica ?_ (fun x hx t ht hid => ?_) (fun t ht => by cases ht)
    · rw [List.map_map]
      exact (List.filter_sublist.map _).nodup h.tenants
    · obtain ⟨t₀, ht₀, rfl⟩ := List.mem_map.mp hx
      rw [List.inj_on_of_nodup_map h.tenants ht (List.mem_of_mem_filter ht₀) hid]
  · cases hstep

theorem GoodWeekly.begin_tenant (h : GoodWeekly s)
    (hstep : weekly_step o cal s (.begin_tenant replica) = some s') : GoodWeekly s' := by
  simp only [weekly_step] at hstep
  split at hstep
  · rename_i i tenant_id last_run_at tenants hleader
    obtain ⟨hnodup, hleft⟩ := h.left _ _ hleader
    obtain ⟨hnot, hnodup⟩ := List.nodup_cons.mp hnodup
    have hrest : ∀ x ∈ tenants, s.db.last_run_is x.1 x.2 :=
      fun x hx => hleft x (List.mem_cons_of_mem _ hx)
    split at hstep
    · cases hstep
    · split at hstep
      · cases hstep
        exact h.move replica hnodup hrest (fun t ht => by cases ht)
      · cases hstep
        refine h.move replica hnodup hrest fun t ht => ?_
        cases ht
        exact ⟨⟨le_refl _, hleft (tenant_id, last_run_at) List.mem_cons_self⟩, hnot⟩
  · cases hstep

/-- The row of the tenant is locked: what the cycle has read of it still holds. -/
theorem GoodWeekly.lock_tenant (h : GoodWeekly s) {skipped : Bool}
    (hok : ReadsOneClock s (.lock_tenant replica skipped))
    (hstep : weekly_step o cal s (.lock_tenant replica skipped) = some s') : GoodWeekly s' := by
  simp only [weekly_step] at hstep
  split at hstep
  · rename_i i tenants tenant_id last_run_at now hleader
    obtain ⟨hnodup, hleft⟩ := h.left _ _ hleader
    obtain ⟨⟨hnow, hread⟩, hnot⟩ := h.tx _ _ _ hleader rfl
    have hclock : s.clock = now := by
      apply hok now
      unfold Weekly.began_at
      rw [hleader]
      rfl
    split at hstep
    · cases hstep
    · split at hstep
      · cases hstep
        exact h.move replica hnodup hleft (fun t ht => by cases ht)
      · rename_i hfound
        split at hstep
        · cases hstep
          exact h.move replica hnodup hleft (fun t ht => by cases ht)
        · rename_i hage
          cases hstep
          have hthere : s.db.qortia_tenants.any (·.id = tenant_id) = true := by
            by_contra hnone
            exact hfound (Or.inr hnone)
          have hrested := rested_of_not_lately hread hthere (Bool.eq_false_of_not_eq_true hage)
          refine h.move replica hnodup hleft fun t ht => ?_
          cases ht
          rw [hclock] at hrested
          refine ⟨⟨hnow, hrested, fun r hr _ _ => ?_⟩, hnot⟩
          rw [← hclock]
          exact h.created r hr
  · cases hstep

theorem GoodWeekly.fetch (h : GoodWeekly s)
    (hstep : weekly_step o cal s (.fetch replica) = some s') : GoodWeekly s' := by
  simp only [weekly_step] at hstep
  split at hstep
  · rename_i i tenants tenant_id now hleader
    obtain ⟨hnodup, hleft⟩ := h.left _ _ hleader
    obtain ⟨⟨hnow, hrested, hall⟩, hnot⟩ := h.tx _ _ _ hleader rfl
    split at hstep
    · cases hstep
    · split at hstep
      · cases hstep
        exact h.move replica hnodup hleft (fun t ht => by cases ht)
      · cases hstep
        refine h.move replica hnodup hleft fun t ht => ?_
        cases ht
        exact ⟨⟨hnow, hrested, fun x hx => h.fetched hrested hall hx⟩, hnot⟩
  · cases hstep

end

/-- What every step keeps, as long as Python reads the clock as `now()` does. -/
theorem weekly_step_good {o : Outside K} {cal : Calendar} {s s' : Weekly K} {a : WeeklyAction}
    (h : GoodWeekly s) (hok : ReadsOneClock s a) (hstep : weekly_step o cal s a = some s') :
    GoodWeekly s' := by
  cases a with
  | tick now =>
    simp only [weekly_step] at hstep
    split at hstep
    · rename_i hnow
      cases hstep
      exact h.tick hnow
    · cases hstep
  | remember_org agent began body =>
    simp only [weekly_step] at hstep
    split at hstep
    · cases hstep
    · rename_i hbegan
      split at hstep
      · cases hstep
      · rename_i hlock
        split at hstep
        · rename_i db row_id hreq
          cases hstep
          exact h.of_org_step (remember_org_step h hbegan hlock hreq)
        · cases hstep
          exact h
  | forget agent began id =>
    simp only [weekly_step] at hstep
    split at hstep
    · rename_i db hreq
      cases hstep
      exact h.of_org_step (forget_org_step h hreq)
    · cases hstep
      exact h
  | lead replica => exact h.lead hstep
  | begin_tenant replica => exact h.begin_tenant hstep
  | lock_tenant replica skipped => exact h.lock_tenant hok hstep
  | fetch replica => exact h.fetch hstep
  | commit replica =>
    simp only [weekly_step] at hstep
    split at hstep
    · rename_i i tenants tenant_id now handoffs hleader
      obtain ⟨hnodup, hleft⟩ := h.left _ _ hleader
      obtain ⟨hgood, hnot⟩ := h.tx _ _ _ hleader rfl
      split at hstep
      · cases hstep
      · cases hstep
        exact h.commit cal replica hnodup hleft hnot hgood
    · cases hstep
  | release replica =>
    simp only [weekly_step] at hstep
    split at hstep
    · split at hstep
      · cases hstep
      · cases hstep
        exact h.leave
    · cases hstep
  | crash replica =>
    simp only [weekly_step] at hstep
    split at hstep
    · split at hstep
      · cases hstep
      · cases hstep
        exact h.leave
    · cases hstep

/-- Along every run that starts without memories, two summaries of a tenant are seven days apart and
no handoff is in both, if Python reads the clock as `now()` does in the transaction of a summary. -/
theorem weekly_summary_counts_once (o : Outside K) (cal : Calendar) (db : Db K) (clock : Timestamp)
    (hblank : db.Blank) (htenants : (db.qortia_tenants.map (·.id)).Nodup)
    (actions : List WeeklyAction)
    (hok : runs.Guarded (weekly_step o cal) ReadsOneClock { db, clock } actions) :
    runs.Always (weekly_step o cal) CountsOnce { db, clock } actions := by
  have hstart : GoodWeekly { db, clock } := by
    have hnone : ∀ r, r ∉ db.org_memory := by
      intro r
      rw [hblank.org_memory]
      exact List.not_mem_nil
    refine ⟨htenants, ?_, fun r hr => absurd hr (hnone r), fun r hr => absurd hr (hnone r),
      fun σ hσ => absurd hσ List.not_mem_nil, fun σ hσ => absurd hσ List.not_mem_nil,
      List.Pairwise.nil, fun _ _ hc => (by cases hc), fun _ _ _ hc => (by cases hc)⟩
    simp only [hblank.org_memory]
    exact List.nodup_nil
  exact runs.always_of_invariant (fun s hs => hs.once)
    (fun s a s' hs hok hstep => weekly_step_good hs hok hstep) hstart hok

/-- Every day is the day of every tenant. -/
def one_day : Calendar where
  weekday _ := 0
  today _ := "2026-01-05"
  strftime _ := "2026-01-05"
  day_offset _ := 0

def summary_db : Db ℚ := { chief_db with qortia_tenants := [{ id := 1 }] }

theorem summary_db_blank : summary_db.Blank := ⟨rfl, rfl, rfl, rfl, rfl⟩

def handoff_at (now : Timestamp) : WeeklyAction :=
  .remember_org chief now
    { type := .handoff, title := "deploy", content := wait_once
      content_floor := wait_once_floor }

/-- A cycle of one replica, from the advisory lock to its release. -/
def summary_cycle (replica : Nat) : List WeeklyAction :=
  [.lead replica, .begin_tenant replica, .lock_tenant replica false, .fetch replica,
   .commit replica, .release replica]

/-- Three handoffs and a summary, and a week later three handoffs and a summary of another
replica. -/
def two_weeks : List WeeklyAction :=
  [handoff_at 0, handoff_at 0, handoff_at 0] ++ summary_cycle 0 ++ [.tick (7 * DAY)] ++
    [handoff_at 1, handoff_at 2, handoff_at 3] ++ summary_cycle 1

theorem weekly_summary_counts_once_in_two_weeks :
    runs.Always (weekly_step no_models one_day) CountsOnce { db := summary_db, clock := 0 }
      two_weeks :=
  weekly_summary_counts_once no_models one_day summary_db 0 summary_db_blank (by decide) two_weeks
    (by decide +kernel)

example : (runs.run (weekly_step no_models one_day) { db := summary_db, clock := 0 }
    two_weeks).map (fun s => s.summaries.map (·.handoffs)) = some [[0, 1, 2], [6, 5, 4]] := by
  decide +kernel

end qortia
