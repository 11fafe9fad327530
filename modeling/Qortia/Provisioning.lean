-- Tenants, agents and API keys (`qortia.provisioning`, `qortia.admin_router`), next to the service
-- that they open. A key is stored as its hash. What was provisioned is written down here in a log,
-- which the tables have to agree with.
import Qortia.AgentIdentities
import Qortia.Lib.Credentials
import Qortia.OrgEvolution

namespace qortia

variable {K : Type}

/-- The primary key of `qortia_api_keys`, next to what `require_agent` reads. -/
structure ApiKeyRow extends ApiKey where
  id : UUID

/-- The service with the table of its keys. -/
structure Platform (K : Type) where
  service : Deployment K := ({} : Db K).deployed
  qortia_api_keys : List ApiKeyRow := []

def Platform.db (s : Platform K) : Db K := s.service.db

def Platform.with_db (s : Platform K) (db : Db K) : Platform K :=
  { s with service := s.service.with_db db }

@[simp] theorem Platform.with_db_db (s : Platform K) (db : Db K) : (s.with_db db).db = db := rfl

namespace provisioning

/-! ## The functions of `qortia.provisioning`

An INSERT raises when its primary key is taken, when the tenant is not there, and when a text has a
NUL. The ids are those that `uuid4()` draws. -/

def urlsafe (c : Char) : Bool := c.isAlphanum || c = '-' || c = '_'

/-- `secrets.token_urlsafe(32)`. -/
abbrev Token := { token : String // token.length = 43 ∧ token.toList.all urlsafe = true }

def tenant_exists (tenant_id : UUID) (db : Db K) : Bool :=
  db.qortia_tenants.any fun t => t.id = tenant_id

def create_tenant (tenant_id : UUID) (name : Option String) (db : Db K) : Except Failure (Db K) :=
  if tenant_exists tenant_id db || !name.all json.no_nul then .error .PostgresError
  else .ok { db with qortia_tenants := db.qortia_tenants ++ [{ id := tenant_id }] }

def create_agent (now : Timestamp) (agent_id tenant_id : UUID) (name : Option String)
    (clearance_level division : String) (db : Db K) : Except Failure (Db K) :=
  if (db.qortia_agents.any fun a => a.id = agent_id) || !tenant_exists tenant_id db ||
      !(name.all json.no_nul && json.no_nul clearance_level && json.no_nul division) then
    .error .PostgresError
  else .ok (qortia.create_agent now agent_id tenant_id name clearance_level division db)

/-- The plaintext is returned, and its hash is stored. -/
def issue_api_key (o : Outside K) (key_id tenant_id : UUID) (token : Token) (s : Platform K) :
    Except Failure (Platform K × String) :=
  let plaintext_key := "qortia_sk_" ++ token.1
  let key_hash := o.sha256 plaintext_key
  if (s.qortia_api_keys.any fun k => k.id = key_id || k.key_hash = key_hash) ||
      !tenant_exists tenant_id s.db then .error .PostgresError
  else .ok ({ s with
    qortia_api_keys := s.qortia_api_keys ++ [{ id := key_id, tenant_id, key_hash }] },
    plaintext_key)

def revoke_api_key (now : Timestamp) (key_id : UUID) (s : Platform K) : Platform K :=
  { s with
    qortia_api_keys := rows.update (fun k => k.id = key_id)
      (fun k => { k with revoked_at := some now }) s.qortia_api_keys }

/-! ## The admin API -/

/-- `secrets.compare_digest` of two texts, which have to be ASCII. -/
def compare_digest (a b : String) : Except Failure Bool :=
  if a.toList.all (·.toNat < 128) && b.toList.all (·.toNat < 128) then .ok (a = b)
  else .error .TypeError

/-- `require_admin`. -/
def require_admin (admin_token : String) (authorization : Option String) :
    Except Failure Unit := do
  if admin_token = "" then throw (.HTTPException 404 "Not Found")
  match authorization with
  | none => throw (.HTTPException 401 "Missing or malformed Authorization header")
  | some header =>
    if "Bearer ".toList.isPrefixOf header.toList then
      let provided := text.strip (text.dropPrefix "Bearer ".toList header.toList)
      if provided = [] then throw (.HTTPException 401 "Missing admin token")
      if !(← compare_digest (String.ofList provided) admin_token) then
        throw (.HTTPException 401 "Invalid admin token")
    else throw (.HTTPException 401 "Missing or malformed Authorization header")

/-- `_assert_tenant_exists`. -/
def assert_tenant_exists (tenant_id : UUID) (db : Db K) : Except Failure Unit :=
  if tenant_exists tenant_id db then .ok () else .error (.HTTPException 404 "Tenant not found")

/-- What a command asks for. -/
inductive Command where
  | create_tenant (tenant_id : UUID) (name : Option String)
  | create_agent (now : Timestamp) (agent_id tenant_id : UUID) (name : Option String)
      (clearance_level division : String)
  | issue_api_key (key_id tenant_id : UUID) (token : Token)

inductive Response where
  | tenant_id (id : UUID)
  | agent_id (id : UUID)
  | api_key (plaintext_key : String)
  deriving DecidableEq, Repr

/-- The commands of `qortia-admin`, which go to the database. -/
def Command.cli (o : Outside K) (c : Command) (s : Platform K) :
    Except Failure (Platform K × Response) :=
  match c with
  | .create_tenant tenant_id name =>
    (provisioning.create_tenant tenant_id name s.db).map
      fun db => (s.with_db db, .tenant_id tenant_id)
  | .create_agent now agent_id tenant_id name clearance_level division =>
    (provisioning.create_agent now agent_id tenant_id name clearance_level division s.db).map
      fun db => (s.with_db db, .agent_id agent_id)
  | .issue_api_key key_id tenant_id token =>
    (provisioning.issue_api_key o key_id tenant_id token s).map fun (s, key) => (s, .api_key key)

/-- `admin_create_tenant`. -/
def admin_create_tenant (o : Outside K) (tenant_id : UUID) (name : Option String)
    (s : Platform K) : Except Failure (Platform K × Response) :=
  (Command.create_tenant tenant_id name).cli o s

/-- `admin_create_agent`. -/
def admin_create_agent (o : Outside K) (now : Timestamp) (agent_id tenant_id : UUID)
    (name : Option String) (clearance_level division : String) (s : Platform K) :
    Except Failure (Platform K × Response) := do
  assert_tenant_exists tenant_id s.db
  (Command.create_agent now agent_id tenant_id name clearance_level division).cli o s

/-- `admin_issue_api_key`. -/
def admin_issue_api_key (o : Outside K) (key_id tenant_id : UUID) (token : Token)
    (s : Platform K) : Except Failure (Platform K × Response) := do
  assert_tenant_exists tenant_id s.db
  (Command.issue_api_key key_id tenant_id token).cli o s

/-- A request of the router `/v1/admin`, which asks for the token first. -/
def Command.admin (o : Outside K) (admin_token : String) (authorization : Option String)
    (c : Command) (s : Platform K) : Except Failure (Platform K × Response) := do
  require_admin admin_token authorization
  match c with
  | .create_tenant tenant_id name => admin_create_tenant o tenant_id name s
  | .create_agent now agent_id tenant_id name clearance_level division =>
    admin_create_agent o now agent_id tenant_id name clearance_level division s
  | .issue_api_key key_id tenant_id token => admin_issue_api_key o key_id tenant_id token s

/-! ## The log -/

/-- What was provisioned: the tenants, the agents with their labels, and the keys, which the tables
have as hashes only. -/
structure Log where
  tenants : List UUID := []
  agents : List (UUID × UUID × String × String) := []
  keys : credentials.Ledger UUID UUID String := {}

def Log.record (l : Log) (c : Command) (r : Response) : Log :=
  match c, r with
  | .create_tenant _ _, .tenant_id id => { l with tenants := l.tenants ++ [id] }
  | .create_agent _ _ tenant_id _ clearance_level division, .agent_id id =>
    { l with agents := l.agents ++ [(id, tenant_id, clearance_level, division)] }
  | .issue_api_key key_id tenant_id _, .api_key plaintext_key =>
    { l with keys := l.keys.issue ⟨key_id, tenant_id, plaintext_key⟩ }
  | _, _ => l

/-- The service with its log. -/
structure Logged (K : Type) where
  platform : Platform K := {}
  log : Log := {}

def Logged.answer (s : Logged K) (c : Command) (answer : Except Failure (Platform K × Response)) :
    Logged K :=
  match answer with
  | .ok (platform, r) => ⟨platform, s.log.record c r⟩
  | .error _ => s

inductive PlatformAction (K : Type) where
  | admin (authorization : Option String) (c : Command)
  | cli (c : Command)
  | revoke_api_key (now : Timestamp) (key_id : UUID)
  | service (a : DeploymentAction K)

/-- The commands and the steps of the service, in any order. -/
def platform_step [Field K] [LinearOrder K] [HasSqrt K] (o : Outside K) (cfg : Settings)
    (cal : Calendar) (admin_token : String) (s : Logged K) : PlatformAction K → Option (Logged K)
  | .admin authorization c => some (s.answer c (c.admin o admin_token authorization s.platform))
  | .cli c => some (s.answer c (c.cli o s.platform))
  | .revoke_api_key now key_id => some
    { platform := revoke_api_key now key_id s.platform
      log := { s.log with keys := s.log.keys.revoke key_id } }
  | .service a => (deployment_step o cfg cal s.platform.service a).map fun service =>
    { s with platform := { s.platform with service } }

end provisioning

end qortia
