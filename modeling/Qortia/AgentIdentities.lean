-- Who an agent is in the foreground and in the background: `qortia.auth.require_agent` for a
-- request, and `_fetch_agent_clearance` with `tenant_transaction` for an idle reflection. A
-- clearance label that is not in the table costs the agent its division in the background only.
import Qortia.Lib.Text
import Qortia.Outside
import Qortia.Policies

namespace qortia

variable {K : Type}

/-! ## Agents and keys -/

structure ApiKey where
  tenant_id : UUID
  key_hash : String
  revoked_at : Option Timestamp := none

/-- `provisioning.create_agent`, which checks neither of the labels. -/
def create_agent (now : Timestamp) (agent_id tenant_id : UUID) (name : Option String := none)
    (clearance_level : String := "internal") (division : String := "all") (db : Db K) : Db K :=
  { db with
    qortia_agents := db.qortia_agents ++
      [{ id := agent_id, tenant_id, name, clearance_level, division, updated_at := now }] }

def agent_row (db : Db K) (agent_id tenant_id : UUID) : Option Agent :=
  db.qortia_agents.find? fun a => a.id = agent_id && a.tenant_id = tenant_id

/-! ## The foreground -/

/-- The token of the header `Authorization`. -/
def bearer_key (authorization : Option String) : Except Failure (List Char) :=
  match authorization with
  | none => .error (.HTTPException 401 "Missing or malformed Authorization header")
  | some header =>
    if "Bearer ".toList.isPrefixOf header.toList then
      let api_key := text.strip (text.dropPrefix "Bearer ".toList header.toList)
      if api_key = [] then .error (.HTTPException 401 "Missing API key") else .ok api_key
    else .error (.HTTPException 401 "Missing or malformed Authorization header")

/-- The UUID of the header `X-Agent-Id`. -/
def requested_agent (x_agent_id : Option String) : Except Failure UUID :=
  match x_agent_id with
  | none => .error (.HTTPException 401 "Missing X-Agent-Id header")
  | some header =>
    match text.toUuid header with
    | none => .error (.HTTPException 401 "X-Agent-Id is not a valid UUID")
    | some agent_id => .ok agent_id

/-- The LEFT JOIN of `require_agent`, with a default for each column. -/
def resolve_agent (db : Db K) (agent_id tenant_id : UUID) : Except Failure AgentIdentity :=
  match agent_row db agent_id tenant_id with
  | none => .error (.HTTPException 403 "Agent does not belong to the authenticated tenant")
  | some a => .ok
    { agent_id, tenant_id
      clearance_order := (db.level_order a.clearance_level).getD 2
      division := if a.division = "" then "all" else a.division }

/-- `require_agent`. -/
def require_agent (o : Outside K) (qortia_api_keys : List ApiKey) (db : Db K)
    (authorization x_agent_id : Option String) : Except Failure AgentIdentity := do
  let api_key ← bearer_key authorization
  let agent_id ← requested_agent x_agent_id
  let key_hash := o.sha256 (String.ofList api_key)
  match qortia_api_keys.find? fun k => k.key_hash = key_hash && k.revoked_at.isNone with
  | none => .error (.HTTPException 401 "Invalid or revoked API key")
  | some key => resolve_agent db agent_id key.tenant_id

/-! ## The background -/

/-- `_fetch_agent_clearance`. The JOIN has no row when the label is not in the table. -/
def fetch_agent_clearance (db : Db K) (agent_id tenant_id : UUID) : Int × String :=
  match agent_row db agent_id tenant_id with
  | none => (2, "all")
  | some a =>
    match db.level_order a.clearance_level with
    | none => (2, "all")
    | some level_order => (level_order, a.division)

/-- The session in which an agent is reflected in the background. -/
def background_session (db : Db K) (current_user : Role) (agent_id tenant_id : UUID) : Session :=
  let (clearance_order, agent_division) := fetch_agent_clearance db agent_id tenant_id
  tenant_transaction db current_user tenant_id (some agent_id) (some clearance_order)
    (some agent_division)

/-- The session has the clearance and the division of the identity. -/
def Session.ActsAs (s : Session) (agent : AgentIdentity) : Prop :=
  s.memory_clearance_order = some agent.clearance_order ∧ s.agent_division = some agent.division

/-! ## Where the two agree -/

theorem require_agent_resolves {o : Outside K} {keys : List ApiKey} {db : Db K}
    {authorization x_agent_id : Option String} {agent : AgentIdentity}
    (h : require_agent o keys db authorization x_agent_id = .ok agent) :
    resolve_agent db agent.agent_id agent.tenant_id = .ok agent := by
  unfold require_agent at h
  obtain ⟨api_key, -, h⟩ := bind_ok h
  obtain ⟨agent_id, -, h⟩ := bind_ok h
  simp only at h
  split at h
  · cases h
  · rename_i key hkey
    have hsame : agent.agent_id = agent_id ∧ agent.tenant_id = key.tenant_id := by
      unfold resolve_agent at h
      split at h
      · cases h
      · cases h
        exact ⟨rfl, rfl⟩
    rw [hsame.1, hsame.2]
    exact h

/-- An identity is made of the row of its agent. -/
theorem resolve_agent_row {db : Db K} {agent : AgentIdentity}
    (h : resolve_agent db agent.agent_id agent.tenant_id = .ok agent) :
    ∃ a, agent_row db agent.agent_id agent.tenant_id = some a ∧
      agent.clearance_order = (db.level_order a.clearance_level).getD 2 ∧
      agent.division = if a.division = "" then "all" else a.division := by
  unfold resolve_agent at h
  split at h
  · cases h
  · rename_i a ha
    refine ⟨a, ha, ?_⟩
    rw [← Except.ok.inj h]
    exact ⟨rfl, rfl⟩

theorem agent_row_eq {db : Db K} (hnodup : (db.qortia_agents.map (·.id)).Nodup) {a r : Agent}
    {agent_id tenant_id : UUID} (ha : a ∈ db.qortia_agents) (hid : a.id = agent_id)
    (h : agent_row db agent_id tenant_id = some r) : r = a := by
  have hr := List.find?_some h
  simp only [Bool.and_eq_true, decide_eq_true_eq] at hr
  exact List.inj_on_of_nodup_map hnodup (List.mem_of_find?_eq_some h) ha (hr.1.trans hid.symm)

theorem level_order_isSome (db : Db K) (name : String) :
    (db.level_order name).isSome = true ↔
      ∃ l ∈ db.qortia_clearance_levels, l.level_name = name := by
  unfold Db.level_order
  rw [Option.isSome_map, List.find?_isSome]
  simp

/-- What the session has, by the row of the agent. -/
theorem background_session_of_row {db : Db K} {agent_id tenant_id : UUID} {a : Agent}
    (current_user : Role) (h : agent_row db agent_id tenant_id = some a) :
    (background_session db current_user agent_id tenant_id).memory_clearance_order =
        some ((db.level_order a.clearance_level).getD 2) ∧
      (background_session db current_user agent_id tenant_id).agent_division =
        some (if a.division = "" ∨ (db.level_order a.clearance_level).isNone then "all"
          else a.division) := by
  unfold background_session fetch_agent_clearance
  rw [h]
  simp only
  cases db.level_order a.clearance_level with
  | none => simp [tenant_transaction]
  | some order => simp [tenant_transaction]

/-- A session and a request have the same identity for an agent exactly when its clearance label
is in the table or its division is empty or `all`. -/
theorem the_background_acts_as_the_agent_iff {o : Outside K} {keys : List ApiKey} {db : Db K}
    {authorization x_agent_id : Option String} {agent : AgentIdentity} {a : Agent}
    (current_user : Role) (hnodup : (db.qortia_agents.map (·.id)).Nodup)
    (ha : a ∈ db.qortia_agents) (hid : a.id = agent.agent_id)
    (h : require_agent o keys db authorization x_agent_id = .ok agent) :
    (background_session db current_user agent.agent_id agent.tenant_id).ActsAs agent ↔
      (∃ l ∈ db.qortia_clearance_levels, l.level_name = a.clearance_level) ∨
        a.division = "" ∨ a.division = "all" := by
  obtain ⟨r, hr, hclearance, hdivision⟩ := resolve_agent_row (require_agent_resolves h)
  have hsame : r = a := agent_row_eq hnodup ha hid hr
  subst hsame
  obtain ⟨hsession, hsession_division⟩ := background_session_of_row current_user hr
  unfold Session.ActsAs
  rw [hsession, hsession_division, hclearance, hdivision, ← level_order_isSome]
  by_cases hempty : r.division = ""
  · simp [hempty]
  · cases db.level_order r.clearance_level with
    | none => simp [hempty, eq_comm]
    | some order => simp

/-- An agent of the division `sales` whose label is in no table, as the service provisions it. -/
def unlabelled_db : Db ℚ := create_agent 0 7 1 (some "Ada") "secret" "sales" {}

/-- An agent of the division `sales` with a label of the table. -/
def labelled_db : Db ℚ := create_agent 0 7 1 (some "Ada") "restricted" "sales" {}

def tenant_keys : List ApiKey := [{ tenant_id := 1, key_hash := "qortia_sk_1" }]

/-- The request has the division of the agent, and its reflection has every division. -/
theorem a_label_that_is_in_no_table :
    require_agent no_models tenant_keys unlabelled_db (some "Bearer qortia_sk_1")
        (some (text.ofUuid 7)) =
      .ok { agent_id := 7, tenant_id := 1, clearance_order := 2, division := "sales" } ∧
    (background_session unlabelled_db .qortia_platform 7 1).agent_division = some "all" := by
  decide +kernel

theorem a_label_of_the_table :
    (background_session labelled_db .qortia_platform 7 1).ActsAs
      { agent_id := 7, tenant_id := 1, clearance_order := 3, division := "sales" } :=
  (the_background_acts_as_the_agent_iff .qortia_platform (by decide) List.mem_cons_self rfl
    (show require_agent no_models tenant_keys labelled_db (some "Bearer qortia_sk_1")
        (some (text.ofUuid 7)) =
      .ok { agent_id := 7, tenant_id := 1, clearance_order := 3, division := "sales" } from by
        decide +kernel)).mpr (Or.inl ⟨⟨"restricted", 3⟩, by decide, rfl⟩)

end qortia
