-- The laws of one `forget` request: whose memory it deletes, what is left in the tables, and what
-- is left of a request that fails on the way.
import Qortia.Lib.Transaction
import Qortia.Remember

namespace qortia

open transaction

variable {K : Type}

/-! ## What has to hold -/

/-- No two memories have one id, private or of the organisation. -/
def Db.UniqueIds (db : Db K) : Prop :=
  (db.hindsight_memories.map (·.id) ++ db.org_memory.map (·.id)).Nodup

/-- The agent may delete an organisation memory of this type. -/
def deletable (agent : AgentIdentity) (q : OrgMemory K) (db : Db K) : Prop :=
  (q.type = .handoff ∧ q.author_id = some agent.agent_id) ∨
    (q.type = .process ∨ q.type = .decision_log) ∧
      db.role agent.agent_id agent.tenant_id = some "chief"

/-- `id` is a private memory of the agent, or a memory of its organisation that it may delete. -/
def Db.forgettable (db : Db K) (agent : AgentIdentity) (id : UUID) : Prop :=
  (∃ r ∈ db.hindsight_memories, r.id = id ∧ r.agent_id = agent.agent_id) ∨
    ∃ q ∈ db.org_memory, q.id = id ∧ q.tenant_id = agent.tenant_id ∧ deletable agent q db

/-- The content of the memory `id` of the table. -/
def Db.has_content (db : Db K) : TargetTable → UUID → String → Prop
  | .hindsight_memories, id, content =>
    ∃ r ∈ db.hindsight_memories, r.id = id ∧ r.content = content
  | .org_memory, id, content => ∃ q ∈ db.org_memory, q.id = id ∧ q.content = content
  | .org_knowledge, _, _ => False

/-- An entity of the tenant without the memory. -/
def without_link (tenant_id id : UUID) (now : Timestamp) (e : Entity K) : Entity K :=
  if e.tenant_id = tenant_id ∧ id ∈ e.linked_memory_ids then
    { e with linked_memory_ids := e.linked_memory_ids.filter (· ≠ id), updated_at := now }
  else e

/-- The tables without the memory, and with the record of its deletion. -/
def without_memory (o : Outside K) (agent : AgentIdentity) (now : Timestamp) (id : UUID)
    (table : TargetTable) (content : String) (db : Db K) : Db K :=
  { db with
    hindsight_memories := db.hindsight_memories.filter fun r => r.id ≠ id
    org_memory := db.org_memory.filter fun q => q.id ≠ id
    qortia_entities := db.qortia_entities.map (without_link agent.tenant_id id now)
    memory_links := db.memory_links.filter fun l =>
      ¬ (l.tenant_id = agent.tenant_id ∧ (l.source_id = id ∨ l.target_id = id))
    memory_history := db.memory_history ++ [forget_record o agent table id content] }

/-! ## The request, statement by statement -/

/-- The checks before an organisation memory is deleted. The role is read for the types that need
the chief. -/
def may_forget_script (raises : Faults Failure) (agent : AgentIdentity) (om : OrgMemory K) :
    Script (Db K) Failure Unit :=
  if om.type = .org_chart ∨ om.type = .weekly_summary then
    compute (.error (.HTTPException 403 ("Cannot delete type '" ++ om.type.name ++ "'")))
  else if om.type = .handoff ∧ om.author_id ≠ some agent.agent_id then
    compute (.error (.HTTPException 403 "Cannot delete another agent's handoff"))
  else if om.type = .process ∨ om.type = .decision_log then do
    let role ← statement raises fun db => (db.role agent.agent_id agent.tenant_id, db)
    compute (if role ≠ some "chief"
      then .error (.HTTPException 403 ("Only chief can delete type '" ++ om.type.name ++ "'"))
      else .ok ())
  else compute (.ok ())

/-- What follows the lookup of an organisation memory. -/
def found_org_script (raises : Faults Failure) (agent : AgentIdentity) :
    Option (OrgMemory K) → Script (Db K) Failure (TargetTable × String)
  | some om => do
    may_forget_script raises agent om
    compute (.ok (.org_memory, om.content))
  | none => compute (.error (.HTTPException 404 "Memory not found"))

/-- What follows the lookup of a private memory. -/
def found_private_script (raises : Faults Failure) (agent : AgentIdentity) (id : UUID) :
    Option (HindsightMemory K) → Script (Db K) Failure (TargetTable × String)
  | some hm => compute (.ok (.hindsight_memories, hm.content))
  | none => do
    let om ← statement raises fun db =>
      (db.org_memory.find? fun r => r.id = id ∧ r.tenant_id = agent.tenant_id, db)
    found_org_script raises agent om

/-- The lookups. -/
def find_forgotten_script (raises : Faults Failure) (agent : AgentIdentity) (id : UUID) :
    Script (Db K) Failure (TargetTable × String) := do
  let hm ← statement raises fun db =>
    (db.hindsight_memories.find? fun r => r.id = id ∧ r.agent_id = agent.agent_id, db)
  found_private_script raises agent id hm

/-- The body of `forget`. -/
def forget_script (o : Outside K) (raises : Faults Failure) (agent : AgentIdentity)
    (now : Timestamp) (id : UUID) : Script (Db K) Failure UUID := do
  let active ← statement raises fun db =>
    (assert_agent_active agent.agent_id agent.tenant_id db, db)
  compute active
  let (table, content) ← find_forgotten_script raises agent id
  statement raises fun db => ((), delete_memory table id db)
  statement raises fun db =>
    ((), { db with qortia_entities := (unlink_memory agent.tenant_id id now db).qortia_entities })
  statement raises fun db =>
    ((), { db with memory_links := (unlink_memory agent.tenant_id id now db).memory_links })
  statement raises fun db =>
    ((), { db with
      memory_history := db.memory_history ++ [forget_record o agent table id content] })
  compute (.ok id)

/-- The request as the client sees it: an exception rolls the transaction back. -/
def forget_request (o : Outside K) (raises : Faults Failure) (agent : AgentIdentity)
    (now : Timestamp) (id : UUID) (db : Db K) : Except Failure UUID × Db K :=
  atomically raises (forget_script o raises agent now id) db

variable {o : Outside K} {raises : Faults Failure} {agent : AgentIdentity} {now : Timestamp}
  {id : UUID}

theorem may_forget_script_does (om : OrgMemory K) :
    Does raises (may_forget_script raises agent om)
      (fun db => (may_forget_org agent om db).map fun u => (u, db)) := by
  unfold may_forget_script may_forget_org
  by_cases hreserved : om.type = .org_chart ∨ om.type = .weekly_summary
  · simp only [if_pos hreserved]
    exact (does_compute _).congr fun _ => rfl
  by_cases hauthor : om.type = .handoff ∧ om.author_id ≠ some agent.agent_id
  · simp only [if_neg hreserved, if_pos hauthor]
    exact (does_compute _).congr fun _ => rfl
  simp only [if_neg hreserved, if_neg hauthor]
  by_cases hchief : om.type = .process ∨ om.type = .decision_log
  · simp only [if_pos hchief]
    refine (Does.bind (does_statement _) fun _ => does_compute _).congr fun db => ?_
    by_cases hrole : db.role agent.agent_id agent.tenant_id = some "chief"
    · simp [hrole, Bind.bind, Except.bind, pure, Except.pure, Except.map]
    · simp [hrole, hchief, Bind.bind, Except.bind, Except.map, throw, throwThe,
        MonadExceptOf.throw]
  · simp only [if_neg hchief]
    refine (does_compute _).congr fun db => ?_
    simp [hchief, pure, Except.pure]

theorem found_org_script_does (om : Option (OrgMemory K)) :
    Does raises (found_org_script raises agent om)
      (fun db => match om with
        | some om => (may_forget_org agent om db).map fun _ => ((.org_memory, om.content), db)
        | none => .error (.HTTPException 404 "Memory not found")) := by
  cases om with
  | none => exact does_compute _
  | some om =>
    refine (Does.bind (may_forget_script_does om) fun _ => does_compute _).congr fun db => ?_
    cases h : may_forget_org agent om db with
    | error e => simp [Bind.bind, Except.bind, Except.map, h]
    | ok u => simp [Bind.bind, Except.bind, Except.map, h]

theorem found_private_script_does (hm : Option (HindsightMemory K)) :
    Does raises (found_private_script raises agent id hm)
      (fun db => match hm with
        | some hm => .ok ((.hindsight_memories, hm.content), db)
        | none => match db.org_memory.find? fun r => r.id = id ∧ r.tenant_id = agent.tenant_id with
          | some om => (may_forget_org agent om db).map fun _ => ((.org_memory, om.content), db)
          | none => .error (.HTTPException 404 "Memory not found")) := by
  cases hm with
  | some hm => exact does_compute _
  | none => exact Does.bind (does_statement _) found_org_script_does

theorem find_forgotten_script_does :
    Does raises (find_forgotten_script (K := K) raises agent id)
      (fun db => (find_forgotten agent id db).map fun found => (found, db)) := by
  refine (Does.bind (does_statement _) found_private_script_does).congr fun db => ?_
  unfold find_forgotten
  simp only [Bind.bind, Except.bind]
  cases db.hindsight_memories.find? fun r => r.id = id ∧ r.agent_id = agent.agent_id with
  | some hm => rfl
  | none =>
    simp only
    cases db.org_memory.find? fun r => r.id = id ∧ r.tenant_id = agent.tenant_id with
    | none => rfl
    | some om =>
      simp only
      cases may_forget_org agent om db <;> rfl

/-- The statements of `forget` do what `forget` does. -/
theorem forget_script_does :
    Does raises (forget_script (K := K) o raises agent now id)
      (fun db => (forget o agent now id db).map fun db' => (id, db')) := by
  refine (Does.bind (does_statement _) fun active => Does.bind (does_compute active) fun _ =>
    Does.bind find_forgotten_script_does fun found => Does.bind (does_statement _) fun _ =>
    Does.bind (does_statement _) fun _ => Does.bind (does_statement _) fun _ =>
    Does.bind (does_statement _) fun _ => does_compute _).congr fun db => ?_
  unfold forget
  simp only [Bind.bind, Except.bind]
  cases hactive : assert_agent_active agent.agent_id agent.tenant_id db with
  | error e => rfl
  | ok u =>
    cases hfound : find_forgotten agent id db with
    | error e => simp [hfound, Except.map]
    | ok found =>
      simp only [Except.map, hfound]
      cases found with
      | mk table content => cases table <;> rfl

/-- What a request that returns has committed. -/
theorem forget_request_ok {db db' : Db K} {row_id : UUID}
    (h : forget_request o raises agent now id db = (.ok row_id, db')) :
    row_id = id ∧ forget o agent now id db = .ok db' := by
  have hdone := forget_script_does.committed h
  cases hforget : forget o agent now id db with
  | error e =>
    rw [hforget] at hdone
    cases hdone
  | ok db₁ =>
    rw [hforget] at hdone
    cases hdone
    exact ⟨rfl, rfl⟩

/-- When no statement raises, the request is `forget`. -/
theorem forget_request_iff {db db' : Db K} :
    forget_request o (fun _ => none) agent now id db = (.ok id, db') ↔
      forget o agent now id db = .ok db' := by
  constructor
  · intro h
    exact (forget_request_ok h).2
  · intro h
    exact forget_script_does.atomically_ok_iff.mpr (by rw [h]; rfl)

/-! ## Whose memory it is -/

theorem may_forget_org_iff {om : OrgMemory K} {db : Db K} :
    may_forget_org agent om db = .ok () ↔ deletable agent om db := by
  unfold may_forget_org deletable
  cases htype : om.type <;>
    simp [Bind.bind, Except.bind, pure, Except.pure, throw, throwThe, MonadExceptOf.throw]

theorem Db.UniqueIds.private_not_org {db : Db K} (h : db.UniqueIds) {r : HindsightMemory K}
    (hr : r ∈ db.hindsight_memories) {q : OrgMemory K} (hq : q ∈ db.org_memory) : r.id ≠ q.id :=
  (List.nodup_append.mp h).2.2 r.id (List.mem_map_of_mem hr) q.id (List.mem_map_of_mem hq)

/-- The lookups find the memory if the agent may delete it. -/
theorem find_forgotten_ok_iff {db : Db K} (hids : db.UniqueIds) :
    (∃ found, find_forgotten agent id db = .ok found) ↔ db.forgettable agent id := by
  unfold find_forgotten Db.forgettable
  cases hhm : db.hindsight_memories.find? fun r => r.id = id ∧ r.agent_id = agent.agent_id with
  | some hm =>
    have hkey := List.find?_some hhm
    simp only [Bool.decide_and, Bool.and_eq_true, decide_eq_true_eq] at hkey
    exact iff_of_true ⟨_, rfl⟩ (.inl ⟨hm, List.mem_of_find?_eq_some hhm, hkey⟩)
  | none =>
    have hnot : ¬ ∃ r ∈ db.hindsight_memories, r.id = id ∧ r.agent_id = agent.agent_id := by
      rintro ⟨r, hr, hkey⟩
      have hother := List.find?_eq_none.mp hhm r hr
      simp only [hkey, and_self, decide_true, not_true_eq_false] at hother
    rw [or_iff_right hnot]
    simp only
    cases hom : db.org_memory.find? fun r => r.id = id ∧ r.tenant_id = agent.tenant_id with
    | none =>
      refine iff_of_false (fun h => nomatch h) ?_
      rintro ⟨q, hq, hid, htenant, -⟩
      have hother := List.find?_eq_none.mp hom q hq
      simp only [hid, htenant, and_self, decide_true, not_true_eq_false] at hother
    | some om =>
      have hkey := List.find?_some hom
      simp only [Bool.decide_and, Bool.and_eq_true, decide_eq_true_eq] at hkey
      have hmem := List.mem_of_find?_eq_some hom
      simp only
      constructor
      · rintro ⟨found, hfound⟩
        cases hmay : may_forget_org agent om db with
        | error e =>
          rw [hmay] at hfound
          cases hfound
        | ok u => exact ⟨om, hmem, hkey.1, hkey.2, may_forget_org_iff.mp hmay⟩
      · rintro ⟨q, hq, hid, -, hdeletable⟩
        have hsame : q = om :=
          List.inj_on_of_nodup_map (List.nodup_append.mp hids).2.1 hq hmem (hid.trans hkey.1.symm)
        rw [may_forget_org_iff.mpr (hsame ▸ hdeletable)]
        exact ⟨_, rfl⟩

/-! ## What is left in the tables -/

/-- Deleting by the primary key takes the memory from its table, and the other table does not have
it. -/
theorem delete_memory_eq {db : Db K} (hids : db.UniqueIds) {table : TargetTable} {content : String}
    (h : db.has_content table id content) :
    delete_memory table id db = { db with
      hindsight_memories := db.hindsight_memories.filter fun r => r.id ≠ id
      org_memory := db.org_memory.filter fun q => q.id ≠ id } := by
  cases table with
  | hindsight_memories =>
    obtain ⟨r, hr, rfl, -⟩ := h
    have horg : db.org_memory.filter (fun q => q.id ≠ r.id) = db.org_memory := by
      refine List.filter_eq_self.mpr fun q hq => ?_
      simpa using (hids.private_not_org hr hq).symm
    rw [horg]
    simp [delete_memory, rows.delete]
  | org_memory =>
    obtain ⟨q, hq, rfl, -⟩ := h
    have hprivate :
        db.hindsight_memories.filter (fun r => r.id ≠ q.id) = db.hindsight_memories := by
      refine List.filter_eq_self.mpr fun r hr => ?_
      simpa using hids.private_not_org hr hq
    rw [hprivate]
    simp [delete_memory, rows.delete]
  | org_knowledge => cases h

theorem unlink_memory_eq (tenant_id id : UUID) (now : Timestamp) (db : Db K) :
    unlink_memory tenant_id id now db = { db with
      qortia_entities := db.qortia_entities.map (without_link tenant_id id now)
      memory_links := db.memory_links.filter fun l =>
        ¬ (l.tenant_id = tenant_id ∧ (l.source_id = id ∨ l.target_id = id)) } := by
  unfold unlink_memory rows.update rows.delete
  congr 1
  · refine List.map_congr_left fun e _ => ?_
    unfold without_link
    simp [and_comm]
  · refine List.filter_congr fun l _ => ?_
    simp [Bool.or_comm]

theorem find_forgotten_content {db : Db K} {table : TargetTable} {content : String}
    (h : find_forgotten agent id db = .ok (table, content)) : db.has_content table id content := by
  rcases find_forgotten_cases h with ⟨rfl, r, hr, hid, -, hcontent⟩ | ⟨rfl, q, hq, hid, -, hcontent⟩
  · exact ⟨r, hr, hid, hcontent⟩
  · exact ⟨q, hq, hid, hcontent⟩

theorem forget_ok_iff {db : Db K} (hids : db.UniqueIds)
    (hactive : assert_agent_active agent.agent_id agent.tenant_id db = .ok ()) :
    (∃ db', forget o agent now id db = .ok db') ↔ db.forgettable agent id := by
  rw [← find_forgotten_ok_iff hids]
  constructor
  · rintro ⟨db', h⟩
    obtain ⟨-, table, content, hfound, -⟩ := forget_eq h
    exact ⟨_, hfound⟩
  · rintro ⟨found, hfound⟩
    unfold forget
    rw [hactive, hfound]
    exact ⟨_, rfl⟩

theorem forget_ok_eq {db db' : Db K} (hids : db.UniqueIds)
    (h : forget o agent now id db = .ok db') :
    ∃ table content, db.has_content table id content ∧
      db' = without_memory o agent now id table content db := by
  obtain ⟨-, table, content, hfound, rfl⟩ := forget_eq h
  have hcontent := find_forgotten_content hfound
  refine ⟨table, content, hcontent, ?_⟩
  rw [unlink_memory_eq, delete_memory_eq hids hcontent]
  rfl

/-- When no statement raises, the request succeeds if and only if the agent may delete the memory.
One that succeeds takes the memory out of the tables and adds one record, and one that fails
changes nothing, whichever statements raise. -/
theorem forget_deletes_one_memory {db : Db K} (hids : db.UniqueIds)
    (hactive : assert_agent_active agent.agent_id agent.tenant_id db = .ok ()) :
    ((forget_request o (fun _ => none) agent now id db).1 = .ok id ↔ db.forgettable agent id) ∧
      ∀ raises result db', forget_request o raises agent now id db = (result, db') →
        (result = .ok id ∧ db.forgettable agent id ∧
          ∃ table content, db.has_content table id content ∧
            db' = without_memory o agent now id table content db) ∨
        ((∃ e, result = .error e) ∧ db' = db) := by
  constructor
  · have hok : (∃ db', forget o agent now id db = .ok db') ↔ db.forgettable agent id :=
      forget_ok_iff hids hactive
    rw [← hok]
    constructor
    · intro h
      exact ⟨_, forget_request_iff.mp (Prod.ext h rfl)⟩
    · rintro ⟨db', h⟩
      rw [forget_request_iff.mpr h]
  · intro raises result db' h
    rcases atomically_cases h with ⟨e, he, hdb'⟩ | ⟨row_id, c, rfl, -, -⟩
    · exact .inr ⟨⟨e, he⟩, hdb'⟩
    · obtain ⟨rfl, hforget⟩ := forget_request_ok h
      exact .inl ⟨rfl, (forget_ok_iff hids hactive).mp ⟨db', hforget⟩, forget_ok_eq hids hforget⟩

/-- A process and a private memory of the chief, a link between them, and entities of two
tenants. -/
def release_db : Db ℚ :=
  { chief_db with
    hindsight_memories := [{ id := 0, tenant_id := 1, agent_id := 20, type := .lesson
                             content := wait_once, valid_from := 0, created_at := 0 }]
    org_memory := [{ id := 1, tenant_id := 1, type := .process, title := "deploy"
                     content := wait_twice, valid_from := 0, created_at := 0, updated_at := 0 }]
    qortia_entities :=
      [{ id := 0, tenant_id := 1, agent_id := none, entity_text := "build", entity_type := "TOOL"
         linked_memory_ids := [0, 1], created_at := 0, updated_at := 0 },
       { id := 1, tenant_id := 2, agent_id := none, entity_text := "build", entity_type := "TOOL"
         linked_memory_ids := [5], created_at := 0, updated_at := 0 }]
    memory_links := [{ tenant_id := 1, source_id := 0, target_id := 1, similarity := 1 }]
    next_id := 6 }

theorem forget_deletes_one_memory_process :
    ((forget_request no_models (fun _ => none) chief 7 1 release_db).1 = .ok 1 ↔
        release_db.forgettable chief 1) ∧
      ∀ raises result db', forget_request no_models raises chief 7 1 release_db = (result, db') →
        (result = .ok 1 ∧ release_db.forgettable chief 1 ∧
          ∃ table content, release_db.has_content table 1 content ∧
            db' = without_memory no_models chief 7 1 table content release_db) ∨
        ((∃ e, result = .error e) ∧ db' = release_db) :=
  forget_deletes_one_memory (by unfold Db.UniqueIds; decide) rfl

end qortia
