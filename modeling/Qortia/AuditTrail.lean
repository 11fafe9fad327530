-- The laws of the audit trail: `memory_history` accounts for the memories, whatever the agents
-- request. A request writes its rows and their records in one transaction, and one that fails
-- writes neither.
import Qortia.GraphMirror
import Qortia.Lib.Journal

namespace qortia

variable {K : Type}

/-! ## What the records say -/

/-- The private memory that was written. -/
def MemoryHistory.written (h : MemoryHistory) : Option UUID :=
  if h.operation = .remember ∨ h.operation = .reflect then h.target_id else none

/-- The organisation memory that was written. -/
def MemoryHistory.written_org (h : MemoryHistory) : Option UUID :=
  if h.operation = .remember_org then h.target_id else none

def MemoryHistory.forgotten (h : MemoryHistory) : Option UUID :=
  if h.operation = .forget then h.target_id else none

/-- A memory of the table has the id and the content. -/
def Db.holds (db : Db K) (table : TargetTable) (id : UUID) (content : String) : Prop :=
  match table with
  | .hindsight_memories => ∃ r ∈ db.hindsight_memories, r.id = id ∧ r.content = content
  | .org_memory => ∃ q ∈ db.org_memory, q.id = id ∧ q.content = content
  | .org_knowledge => ∃ c ∈ db.org_knowledge, c.id = id ∧ c.content = content

/-- The memories are those that were written and not forgotten. No memory is forgotten twice, and
the last record of an organisation memory has the hash of its content. -/
structure AuditTrail (o : Outside K) (db : Db K) : Prop where
  private_ids : journal.Accounts (·.written) (·.forgotten)
    (fun i => ∃ r ∈ db.hindsight_memories, r.id = i) db.memory_history
  org_ids : journal.Accounts (·.written_org) (·.forgotten)
    (fun i => ∃ q ∈ db.org_memory, q.id = i) db.memory_history
  forgotten_once : journal.DroppedOnce (·.forgotten) db.memory_history
  org_hashes : ∀ q ∈ db.org_memory, ∃ h,
    journal.latest (·.written_org) q.id db.memory_history = some h ∧
      h.content_hash = some (o.sha256 q.content)

/-! ## Runs -/

inductive AuditRequest where
  | remember (agent : AgentIdentity) (now : Timestamp) (choice : Nat) (memories : List MemoryItem)
  | remember_org (agent : AgentIdentity) (now : Timestamp) (body : RememberOrgRequest)
  | forget (agent : AgentIdentity) (now : Timestamp) (id : UUID)
  | reflect (agent : AgentIdentity) (now : Timestamp) (answer : Except Failure (List Reflection))
      (failed : List Nat)

/-- A request. `interrupted` is an exception that is not of the request's own, anywhere before
the COMMIT. -/
structure AuditCall where
  request : AuditRequest
  interrupted : Bool := false

def audit_step [Field K] [LinearOrder K] [HasSqrt K] (o : Outside K) (cfg : Settings) (db : Db K)
    (call : AuditCall) : Option (Db K) :=
  if call.interrupted then some db
  else match call.request with
    | .remember agent now choice memories =>
      some (after db (·.1) (remember o agent now choice memories db))
    | .remember_org agent now body => some (after db (·.1) (remember_org o agent now body db))
    | .forget agent now id => some (after db (fun db' => db') (forget o agent now id db))
    | .reflect agent now answer failed =>
      some (after db (·.1) (reflect o cfg agent now answer failed db))

/-- A new record of a deletion has the hash of the content that is gone. -/
def DeletionsRecorded (o : Outside K) (db : Db K) (_ : AuditCall) (db' : Db K) : Prop :=
  ∃ new, db'.memory_history = db.memory_history ++ new ∧
    ∀ h ∈ new, ∀ i, h.forgotten = some i → ∃ content, db.holds h.target_table i content ∧
      h.content_hash = some (o.sha256 content) ∧ ∀ c, ¬ db'.holds h.target_table i c

/-! ## The invariant -/

/-- `ON CONFLICT (tenant_id, type, title)` finds at most one row. -/
def Db.TitlesUnique (db : Db K) : Prop :=
  ∀ q ∈ db.org_memory, ∀ q' ∈ db.org_memory, q.type = .process ∨ q.type = .decision_log →
    q.tenant_id = q'.tenant_id → q.type = q'.type → q.title = q'.title → q.id = q'.id

structure GoodTrail (o : Outside K) (db : Db K) : Prop where
  owned : db.Owned
  trail : AuditTrail o db
  named : ∀ h ∈ db.memory_history, ∀ i, h.target_id = some i → i < db.next_id
  titles : db.TitlesUnique

theorem forgotten_eq_some {h : MemoryHistory} {i : UUID} (hi : h.forgotten = some i) :
    h.target_id = some i := by
  unfold MemoryHistory.forgotten at hi
  split at hi
  · exact hi
  · cases hi

/-- A record of an id that no record names yet. -/
theorem GoodTrail.fresh {o : Outside K} {db : Db K} (h : GoodTrail o db) {i : UUID}
    (hi : db.next_id ≤ i) : ∀ x ∈ db.memory_history, x.forgotten ≠ some i := by
  intro x hx hforgotten
  exact Nat.not_lt.mpr hi (h.named x hx i (forgotten_eq_some hforgotten))

/-! ## The requests that write private memories -/

/-- New private memories come with one record each. -/
theorem GoodTrail.add {o : Outside K} {db db' : Db K} (h : GoodTrail o db) (howned : db'.Owned)
    (new : List UUID) (record : UUID → MemoryHistory)
    (hids : db'.hindsight_memories.map (·.id) = db.hindsight_memories.map (·.id) ++ new)
    (hhistory : db'.memory_history = db.memory_history ++ new.map record)
    (horg : db'.org_memory = db.org_memory) (hle : db.next_id ≤ db'.next_id)
    (hrecord : ∀ i, (record i).target_id = some i ∧
      ((record i).operation = .remember ∨ (record i).operation = .reflect))
    (hnew : ∀ i ∈ new, db.next_id ≤ i ∧ i < db'.next_id) : GoodTrail o db' := by
  have hwritten : ∀ i, (record i).written = some i := by
    intro i
    simp [MemoryHistory.written, hrecord i]
  have hforgotten : ∀ x ∈ new.map record, x.forgotten = none := by
    intro x hx
    obtain ⟨i, -, rfl⟩ := List.mem_map.mp hx
    rcases (hrecord i).2 with hop | hop <;> simp [MemoryHistory.forgotten, hop]
  have horg_none : ∀ x ∈ new.map record, x.written_org = none := by
    intro x hx
    obtain ⟨i, -, rfl⟩ := List.mem_map.mp hx
    rcases (hrecord i).2 with hop | hop <;> simp [MemoryHistory.written_org, hop]
  have hlive : ∀ i, (∃ r ∈ db'.hindsight_memories, r.id = i) ↔
      (∃ r ∈ db.hindsight_memories, r.id = i) ∨ ∃ x ∈ new.map record, x.written = some i := by
    intro i
    rw [← List.mem_map (f := fun r : HindsightMemory K => r.id), hids, List.mem_append,
      List.mem_map]
    simp [hwritten]
  refine ⟨howned, ⟨?_, ?_, ?_, ?_⟩, ?_, ?_⟩
  · rw [hhistory]
    refine (h.trail.private_ids.append hforgotten ?_).congr hlive
    intro x hx i hi
    obtain ⟨j, hj, rfl⟩ := List.mem_map.mp hx
    rw [hwritten, Option.some.injEq] at hi
    subst hi
    exact h.fresh (hnew j hj).1
  · rw [hhistory, horg]
    refine (h.trail.org_ids.append hforgotten ?_).congr fun i => ?_
    · intro x hx i hi
      rw [horg_none x hx] at hi
      cases hi
    · constructor
      · exact Or.inl
      · rintro (hi | ⟨x, hx, hi⟩)
        · exact hi
        · rw [horg_none x hx] at hi
          cases hi
  · rw [hhistory]
    exact h.trail.forgotten_once.append hforgotten
  · rw [hhistory, horg]
    intro q hq
    rw [journal.latest_append fun x hx => by simp [horg_none x hx]]
    exact h.trail.org_hashes q hq
  · rw [hhistory]
    intro x hx i hi
    rcases List.mem_append.mp hx with hx | hx
    · exact lt_of_lt_of_le (h.named x hx i hi) hle
    · obtain ⟨j, hj, rfl⟩ := List.mem_map.mp hx
      rw [(hrecord j).1, Option.some.injEq] at hi
      subst hi
      exact (hnew j hj).2
  · unfold Db.TitlesUnique
    rw [horg]
    exact h.titles

theorem trail_after_remember {o : Outside K} {db db' : Db K} (h : GoodTrail o db)
    {agent : AgentIdentity} {now : Timestamp} {choice : Nat} {memories : List MemoryItem}
    {ids : List UUID} (hreq : remember o agent now choice memories db = .ok (db', ids)) :
    GoodTrail o db' := by
  have howner := assert_agent_active_key (remember_active hreq)
  have hboth : GoodTrail o db' ∧ (agent.agent_id, agent.tenant_id) ∈ db'.agent_keys := by
    apply remember_preserves
      (P := fun db => GoodTrail o db ∧ (agent.agent_id, agent.tenant_id) ∈ db.agent_keys) hreq
    · rintro db₁ mem expires ⟨h₁, howner₁⟩
      refine ⟨?_, howner₁⟩
      apply h₁.add (h₁.owned.insert_memory rfl howner₁ _) [db₁.next_id]
        (remember_record o agent mem)
      · simp [insert_memory, memory_row]
      · rfl
      · rfl
      · exact Nat.le_succ _
      · intro i
        exact ⟨rfl, .inl rfl⟩
      · intro i hi
        rw [List.mem_singleton.mp hi]
        exact ⟨le_refl _, Nat.lt_succ_self _⟩
    · rintro db₁ n ⟨h₁, howner₁⟩
      have hkeys : (count_episodic agent.agent_id now n db₁).agent_keys = db₁.agent_keys :=
        agent_keys_update (by intro a; rfl)
      have howned : (count_episodic agent.agent_id now n db₁).Owned :=
        h₁.owned.of_sublist (le_refl _) hkeys (List.Sublist.refl _) (List.Sublist.refl _)
      exact ⟨⟨howned, ⟨h₁.trail.1, h₁.trail.2, h₁.trail.3, h₁.trail.4⟩, h₁.named, h₁.titles⟩,
        hkeys ▸ howner₁⟩
    · exact ⟨h, howner⟩
  exact hboth.1

theorem trail_after_reflect [Field K] [LinearOrder K] [HasSqrt K] {o : Outside K} {db db' : Db K}
    (h : GoodTrail o db) {cfg : Settings} {agent : AgentIdentity} {now : Timestamp}
    {answer : Except Failure (List Reflection)} {failed : List Nat} {n : Nat}
    {counter : Option Int}
    (hreq : reflect o cfg agent now answer failed db = .ok (db', n, counter)) :
    GoodTrail o db' := by
  have hkept := reflect_keeps h.owned hreq
  obtain ⟨new, hids, hhistory, horg, hnew⟩ := reflect_new_ids hreq
  apply h.add hkept.owned new (reflect_record ⟨agent.agent_id, agent.tenant_id, now⟩) hids hhistory
    horg hkept.next_id
  · intro i
    exact ⟨rfl, .inr rfl⟩
  · exact hnew

/-! ## remember-org -/

/-- The rows in conflict with a request are one. -/
theorem Db.TitlesUnique.conflict {db : Db K} (h : db.TitlesUnique) {agent : AgentIdentity}
    {body : RememberOrgRequest} {q q' : OrgMemory K} (hq : q ∈ db.org_memory)
    (hq' : q' ∈ db.org_memory) (hconf : org_conflict agent body q = true)
    (hconf' : org_conflict agent body q' = true) : q.id = q'.id := by
  simp only [org_conflict, Bool.and_eq_true, decide_eq_true_eq] at hconf hconf'
  obtain ⟨⟨⟨htype, htenant⟩, hqtype⟩, htitle⟩ := hconf
  obtain ⟨⟨⟨-, htenant'⟩, hqtype'⟩, htitle'⟩ := hconf'
  apply h q hq q' hq'
  · rw [hqtype]
    cases hbody : body.type with
    | handoff => exact absurd hbody htype
    | process => exact .inl rfl
    | decision_log => exact .inr rfl
  · exact htenant.trans htenant'.symm
  · exact hqtype.trans hqtype'.symm
  · exact htitle.trans htitle'.symm

/-- One row is written, and its record. -/
theorem GoodTrail.write_org {o : Outside K} {db : Db K} (h : GoodTrail o db)
    {agent : AgentIdentity} {body : RememberOrgRequest} {row_id : UUID} {t : List (OrgMemory K)}
    (howned : Db.Owned { db with
      org_memory := t, memory_history := db.memory_history ++ [org_record o agent body row_id]
      next_id := db.next_id + 1 })
    (hids : ∀ i, (∃ q ∈ t, q.id = i) ↔ (∃ q ∈ db.org_memory, q.id = i) ∨ i = row_id)
    (hrow : ∀ q ∈ t, q.id = row_id ∧ q.content = body.content ∨ q.id ≠ row_id ∧ q ∈ db.org_memory)
    (hforgotten : ∀ x ∈ db.memory_history, x.forgotten ≠ some row_id)
    (hlt : row_id < db.next_id + 1)
    (htitles : Db.TitlesUnique { db with org_memory := t }) :
    GoodTrail o { db with
      org_memory := t, memory_history := db.memory_history ++ [org_record o agent body row_id]
      next_id := db.next_id + 1 } := by
  have hnone : ∀ x ∈ [org_record o agent body row_id], x.forgotten = none := by
    simp [MemoryHistory.forgotten, org_record]
  have hwritten : (org_record o agent body row_id).written = none := by
    simp [MemoryHistory.written, org_record]
  have hwritten_org : (org_record o agent body row_id).written_org = some row_id := by
    simp [MemoryHistory.written_org, org_record]
  refine ⟨howned, ⟨?_, ?_, h.trail.forgotten_once.append hnone, ?_⟩, ?_, htitles⟩
  · apply (h.trail.private_ids.append hnone ?_).congr
    · intro i
      simp [hwritten]
    · simp [hwritten]
  · apply (h.trail.org_ids.append hnone ?_).congr
    · intro i
      rw [hids]
      simp [hwritten_org, eq_comm]
    · simp only [List.mem_singleton, forall_eq, hwritten_org, Option.some.injEq]
      intro i hi
      subst hi
      exact hforgotten
  · intro q hq
    rcases hrow q hq with ⟨hid, hcontent⟩ | ⟨hid, hold⟩
    · refine ⟨org_record o agent body row_id, ?_, by rw [hcontent]; rfl⟩
      rw [hid]
      exact journal.latest_put hwritten_org
    · rw [journal.latest_append]
      · exact h.trail.org_hashes q hold
      · simp [hwritten_org, Ne.symm hid]
  · intro x hx i hi
    rcases List.mem_append.mp hx with hx | hx
    · exact lt_trans (h.named x hx i hi) (Nat.lt_succ_self _)
    · rw [List.mem_singleton.mp hx] at hi
      cases hi
      exact hlt

/-- The titles that a request writes are unique. -/
theorem Db.TitlesUnique.upsert {db : Db K} (h : db.TitlesUnique) (o : Outside K)
    (agent : AgentIdentity) (now : Timestamp) (body : RememberOrgRequest) (id : UUID) :
    Db.TitlesUnique { db with
      org_memory := rows.upsert (org_conflict agent body) (org_excluded o agent now body)
        (org_row o agent now body id) db.org_memory } := by
  have hkeep : ∀ q, (org_excluded o agent now body q).id = q.id ∧
      (org_excluded o agent now body q).tenant_id = q.tenant_id ∧
      (org_excluded o agent now body q).type = q.type ∧
      (org_excluded o agent now body q).title = q.title := fun q => ⟨rfl, rfl, rfl, rfl⟩
  intro q hq q' hq'
  by_cases hany : db.org_memory.any (org_conflict agent body) = true
  · rw [rows.upsert_of_any hany] at hq hq'
    obtain ⟨p, hp, hqp⟩ := rows.mem_update.mp hq
    obtain ⟨p', hp', hqp'⟩ := rows.mem_update.mp hq'
    have hsame : q.id = p.id ∧ q.tenant_id = p.tenant_id ∧ q.type = p.type ∧ q.title = p.title := by
      rcases hqp with ⟨-, rfl⟩ | ⟨-, rfl⟩
      · exact hkeep p
      · simp
    have hsame' : q'.id = p'.id ∧ q'.tenant_id = p'.tenant_id ∧ q'.type = p'.type ∧
        q'.title = p'.title := by
      rcases hqp' with ⟨-, rfl⟩ | ⟨-, rfl⟩
      · exact hkeep p'
      · simp
    obtain ⟨hid, htenant, htype, htitle⟩ := hsame
    obtain ⟨hid', htenant', htype', htitle'⟩ := hsame'
    rw [hid, hid', htenant, htenant', htype, htype', htitle, htitle']
    exact h p hp p' hp'
  · rw [rows.upsert_of_not_any hany] at hq hq'
    have hnone : ∀ p ∈ db.org_memory, org_conflict agent body p = false := by
      intro p hp
      by_contra hconf
      exact hany (List.any_eq_true.mpr ⟨p, hp, eq_true_of_ne_false hconf⟩)
    -- A row with the title of the new one would be in conflict with the request.
    have hnew : ∀ p ∈ db.org_memory, p.type = .process ∨ p.type = .decision_log →
        p.tenant_id = agent.tenant_id → p.type = body.type.org_type → p.title = body.title →
          False := by
      intro p hp htyped htenant htype htitle
      have hconf := hnone p hp
      rw [htype] at htyped
      have hhandoff : body.type ≠ .handoff := by
        rintro hbody
        simp [hbody, WritableOrgType.org_type] at htyped
      simp [org_conflict, hhandoff, htenant, htype, htitle] at hconf
    intro htyped htenant htype htitle
    rcases List.mem_append.mp hq with hq | hq
    · rcases List.mem_append.mp hq' with hq' | hq'
      · exact h q hq q' hq' htyped htenant htype htitle
      · rw [List.mem_singleton.mp hq'] at htenant htype htitle
        exact (hnew q hq htyped htenant htype htitle).elim
    · rcases List.mem_append.mp hq' with hq' | hq'
      · rw [List.mem_singleton.mp hq] at htenant htype htitle htyped
        rw [htype] at htyped
        exact (hnew q' hq' htyped htenant.symm htype.symm htitle.symm).elim
      · rw [List.mem_singleton.mp hq, List.mem_singleton.mp hq']

/-- An organisation memory comes with one record, or changes with one. -/
theorem trail_after_remember_org {o : Outside K} {db db' : Db K} (h : GoodTrail o db)
    {agent : AgentIdentity} {now : Timestamp} {body : RememberOrgRequest} {row_id : UUID}
    (hreq : remember_org o agent now body db = .ok (db', row_id)) : GoodTrail o db' := by
  have howned := (remember_org_keeps h.owned hreq).owned
  have htitles := h.titles.upsert o agent now body db.next_id
  obtain ⟨-, -, hrow_id, rfl⟩ := remember_org_eq hreq
  cases hfind : db.org_memory.find? (org_conflict agent body) with
  | some q₀ =>
    have hq₀ := List.mem_of_find?_eq_some hfind
    have hconf₀ := List.find?_some hfind
    rw [hfind] at hrow_id
    subst hrow_id
    rw [rows.upsert_some hfind] at howned ⊢
    refine h.write_org howned ?_ ?_ ?_ ?_ ?_
    · intro i
      rw [← List.mem_map (f := fun q : OrgMemory K => q.id),
        rows.map_update (fun q => by rfl), List.mem_map]
      constructor
      · exact Or.inl
      · rintro (hi | rfl)
        · exact hi
        · exact ⟨q₀, hq₀, rfl⟩
    · intro q hq
      obtain ⟨p, hp, ⟨hconf, rfl⟩ | ⟨hconf, rfl⟩⟩ := rows.mem_update.mp hq
      · have hid : p.id = q₀.id := h.titles.conflict hp hq₀ hconf hconf₀
        exact .inl ⟨hid, rfl⟩
      · refine .inr ⟨fun hid => ?_, hp⟩
        rw [List.inj_on_of_nodup_map h.owned.keyed.org_nodup hp hq₀ hid, hconf₀] at hconf
        cases hconf
    · exact h.trail.org_ids.not_dropped ⟨q₀, hq₀, rfl⟩
    · exact lt_trans (h.owned.keyed.org_lt q₀ hq₀) (Nat.lt_succ_self _)
    · exact rows.upsert_some hfind ▸ htitles
  | none =>
    rw [hfind] at hrow_id
    subst hrow_id
    rw [rows.upsert_none hfind] at howned ⊢
    refine h.write_org howned ?_ ?_ ?_ ?_ ?_
    · intro i
      simp only [List.mem_append, List.mem_singleton, or_and_right, exists_or, exists_eq_left]
      exact or_congr_right eq_comm
    · intro q hq
      rcases List.mem_append.mp hq with hq | hq
      · exact .inr ⟨Nat.ne_of_lt (h.owned.keyed.org_lt q hq), hq⟩
      · rw [List.mem_singleton.mp hq]
        exact .inl ⟨rfl, rfl⟩
    · exact h.fresh (le_refl _)
    · exact Nat.lt_succ_self _
    · exact rows.upsert_none hfind ▸ htitles

/-! ## forget -/

/-- The tables without the memory that is found. -/
theorem deleted_ids {db : Db K} (h : db.Keyed) {agent : AgentIdentity} {id : UUID}
    {table : TargetTable} {content : String}
    (hfound : find_forgotten agent id db = .ok (table, content)) (i : UUID) :
    ((∃ r ∈ (delete_memory table id db).hindsight_memories, r.id = i) ↔
        (∃ r ∈ db.hindsight_memories, r.id = i) ∧ i ≠ id) ∧
      ((∃ q ∈ (delete_memory table id db).org_memory, q.id = i) ↔
        (∃ q ∈ db.org_memory, q.id = i) ∧ i ≠ id) := by
  rcases find_forgotten_cases hfound with ⟨rfl, r, hr, rfl, -⟩ | ⟨rfl, q, hq, rfl, -⟩
  · constructor
    · simp only [delete_memory, rows.mem_delete, decide_eq_false_iff_not]
      constructor
      · rintro ⟨x, ⟨hx, hne⟩, rfl⟩
        exact ⟨⟨x, hx, rfl⟩, hne⟩
      · rintro ⟨⟨x, hx, rfl⟩, hne⟩
        exact ⟨x, ⟨hx, hne⟩, rfl⟩
    · constructor
      · rintro ⟨x, hx, rfl⟩
        exact ⟨⟨x, hx, rfl⟩, (h.disjoint r hr x hx).symm⟩
      · exact And.left
  · constructor
    · constructor
      · rintro ⟨x, hx, rfl⟩
        exact ⟨⟨x, hx, rfl⟩, h.disjoint x hx q hq⟩
      · exact And.left
    · simp only [delete_memory, rows.mem_delete, decide_eq_false_iff_not]
      constructor
      · rintro ⟨x, ⟨hx, hne⟩, rfl⟩
        exact ⟨⟨x, hx, rfl⟩, hne⟩
      · rintro ⟨⟨x, hx, rfl⟩, hne⟩
        exact ⟨x, ⟨hx, hne⟩, rfl⟩

/-- A memory goes with one record, which has the hash of its content. -/
theorem trail_after_forget {o : Outside K} {db db' : Db K} (h : GoodTrail o db)
    {agent : AgentIdentity} {now : Timestamp} {id : UUID}
    (hreq : forget o agent now id db = .ok db') : GoodTrail o db' := by
  have howned := forget_owned h.owned hreq
  obtain ⟨-, table, content, hfound, rfl⟩ := forget_eq hreq
  have hids := deleted_ids h.owned.keyed hfound
  have hwritten : (forget_record o agent table id content).written = none := by
    simp [MemoryHistory.written, forget_record]
  have hwritten_org : (forget_record o agent table id content).written_org = none := by
    simp [MemoryHistory.written_org, forget_record]
  have hforgotten : (forget_record o agent table id content).forgotten = some id := by
    simp [MemoryHistory.forgotten, forget_record]
  have hnot : ∀ x ∈ db.memory_history, x.forgotten ≠ some id := by
    rcases find_forgotten_cases hfound with ⟨-, r, hr, hid, -⟩ | ⟨-, q, hq, hid, -⟩
    · exact h.trail.private_ids.not_dropped ⟨r, hr, hid⟩
    · exact h.trail.org_ids.not_dropped ⟨q, hq, hid⟩
  have hsub : ∀ q ∈ (delete_memory table id db).org_memory, q ∈ db.org_memory := by
    intro q hq
    cases table with
    | hindsight_memories => exact hq
    | org_memory => exact (rows.mem_delete.mp hq).1
    | org_knowledge => exact hq
  have hnext : (delete_memory table id db).next_id = db.next_id := by
    cases table <;> rfl
  refine ⟨howned, ⟨?_, ?_, h.trail.forgotten_once.drop hforgotten hnot, ?_⟩, ?_, ?_⟩
  · exact (h.trail.private_ids.drop hwritten hforgotten).congr fun i => (hids i).1
  · exact (h.trail.org_ids.drop hwritten_org hforgotten).congr fun i => (hids i).2
  · intro q hq
    rw [journal.latest_append (by simp [hwritten_org])]
    exact h.trail.org_hashes q (hsub q hq)
  · intro x hx i hi
    refine lt_of_lt_of_eq ?_ hnext.symm
    rcases List.mem_append.mp hx with hx | hx
    · exact h.named x hx i hi
    · rw [List.mem_singleton.mp hx] at hi
      cases hi
      rcases find_forgotten_cases hfound with ⟨-, r, hr, rfl, -⟩ | ⟨-, q, hq, rfl, -⟩
      · exact h.owned.keyed.hindsight_lt r hr
      · exact h.owned.keyed.org_lt q hq
  · intro q hq q' hq'
    exact h.titles q (hsub q hq) q' (hsub q' hq')

/-- The record of the deletion has the hash of the content that was there. -/
theorem deletions_recorded_forget {o : Outside K} {db db' : Db K} (h : db.Keyed)
    {agent : AgentIdentity} {now : Timestamp} {id : UUID}
    (hreq : forget o agent now id db = .ok db') (call : AuditCall) :
    DeletionsRecorded o db call db' := by
  obtain ⟨-, table, content, hfound, rfl⟩ := forget_eq hreq
  refine ⟨_, rfl, ?_⟩
  intro x hx i hi
  rw [List.mem_singleton.mp hx] at hi ⊢
  have hid : id = i := Option.some.inj (forgotten_eq_some hi)
  subst hid
  have hgone := deleted_ids h hfound id
  rcases find_forgotten_cases hfound with ⟨rfl, r, hr, hid, -, hc⟩ | ⟨rfl, q, hq, hid, -, hc⟩
  · refine ⟨content, ⟨r, hr, hid, hc⟩, rfl, ?_⟩
    rintro c ⟨x, hx, hxid, -⟩
    exact (hgone.1.mp ⟨x, hx, hxid⟩).2 rfl
  · refine ⟨content, ⟨q, hq, hid, hc⟩, rfl, ?_⟩
    rintro c ⟨x, hx, hxid, -⟩
    exact (hgone.2.mp ⟨x, hx, hxid⟩).2 rfl

/-! ## The laws -/

/-- Records of no deletion. -/
theorem deletions_recorded_append {o : Outside K} {db db' : Db K} {new : List MemoryHistory}
    (hhistory : db'.memory_history = db.memory_history ++ new)
    (hnone : ∀ x ∈ new, x.forgotten = none) (call : AuditCall) :
    DeletionsRecorded o db call db' := by
  refine ⟨new, hhistory, fun x hx i hi => ?_⟩
  rw [hnone x hx] at hi
  cases hi

theorem deletions_recorded_remember {o : Outside K} {db db' : Db K} {agent : AgentIdentity}
    {now : Timestamp} {choice : Nat} {memories : List MemoryItem} {ids : List UUID}
    (hreq : remember o agent now choice memories db = .ok (db', ids)) (call : AuditCall) :
    DeletionsRecorded o db call db' := by
  have hnew : ∃ new, db'.memory_history = db.memory_history ++ new ∧
      ∀ x ∈ new, x.forgotten = none := by
    apply remember_preserves (P := fun db₁ => ∃ new,
      db₁.memory_history = db.memory_history ++ new ∧ ∀ x ∈ new, x.forgotten = none) hreq
    · rintro db₁ mem expires ⟨new, hhistory, hnone⟩
      refine ⟨new ++ [remember_record o agent mem db₁.next_id], ?_, ?_⟩
      · simp [insert_memory, hhistory]
      · simp only [List.mem_append, List.mem_singleton]
        rintro x (hx | rfl)
        · exact hnone x hx
        · simp [MemoryHistory.forgotten, remember_record]
    · exact fun _ _ hdb₁ => hdb₁
    · exact ⟨[], by simp, by simp⟩
  obtain ⟨new, hhistory, hnone⟩ := hnew
  exact deletions_recorded_append hhistory hnone call

/-- What one call keeps, and what it records. -/
theorem audit_step_good [Field K] [LinearOrder K] [HasSqrt K] {o : Outside K} {cfg : Settings}
    {db db' : Db K} {call : AuditCall} (h : GoodTrail o db)
    (hstep : audit_step o cfg db call = some db') :
    GoodTrail o db' ∧ DeletionsRecorded o db call db' := by
  have hsame : GoodTrail o db ∧ DeletionsRecorded o db call db :=
    ⟨h, deletions_recorded_append (List.append_nil _).symm (by simp) call⟩
  have hafter : ∀ {α : Type} {f : α → Db K} {request : Except Failure α},
      (∀ x, request = .ok x → GoodTrail o (f x) ∧ DeletionsRecorded o db call (f x)) →
        GoodTrail o (after db f request) ∧ DeletionsRecorded o db call (after db f request) := by
    intro α f request hok
    exact after_keeps (P := fun db' => GoodTrail o db' ∧ DeletionsRecorded o db call db') hsame hok
  unfold audit_step at hstep
  by_cases hinterrupted : call.interrupted = true
  · rw [if_pos hinterrupted] at hstep
    cases hstep
    exact hsame
  · rw [if_neg hinterrupted] at hstep
    cases hrequest : call.request with
    | remember agent now choice memories =>
      rw [hrequest] at hstep
      cases hstep
      exact hafter fun x hx =>
        ⟨trail_after_remember h hx, deletions_recorded_remember hx call⟩
    | remember_org agent now body =>
      rw [hrequest] at hstep
      cases hstep
      refine hafter fun x hx => ⟨trail_after_remember_org h hx, ?_⟩
      obtain ⟨-, -, -, hdb'⟩ := remember_org_eq hx
      apply deletions_recorded_append (congrArg Db.memory_history hdb')
      simp [MemoryHistory.forgotten, org_record]
    | forget agent now id =>
      rw [hrequest] at hstep
      cases hstep
      exact hafter fun x hx =>
        ⟨trail_after_forget h hx, deletions_recorded_forget h.owned.keyed hx call⟩
    | reflect agent now answer failed =>
      rw [hrequest] at hstep
      cases hstep
      refine hafter fun x hx => ⟨trail_after_reflect h hx, ?_⟩
      obtain ⟨new, -, hhistory, -⟩ := reflect_new_ids hx
      apply deletions_recorded_append hhistory
      simp [MemoryHistory.forgotten, reflect_record]

theorem Db.Blank.good_trail {o : Outside K} {db : Db K} (h : db.Blank)
    (hhistory : db.memory_history = []) (hagents : (db.qortia_agents.map (·.id)).Nodup) :
    GoodTrail o db := by
  refine ⟨h.owned hagents, ⟨?_, ?_, ?_, ?_⟩, ?_, ?_⟩
  · rw [hhistory]
    exact journal.Accounts.nil.congr fun i => by simp [h.hindsight_memories]
  · rw [hhistory]
    exact journal.Accounts.nil.congr fun i => by simp [h.org_memory]
  · rw [hhistory]
    exact List.Pairwise.nil
  · simp [h.org_memory]
  · simp [hhistory]
  · simp [Db.TitlesUnique, h.org_memory]

/-- Whatever the agents request, the audit trail accounts for the memories, and each deletion is
recorded with the hash of what was deleted. -/
theorem the_audit_trail_accounts_for_every_change [Field K] [LinearOrder K] [HasSqrt K]
    (o : Outside K) (cfg : Settings) {db : Db K} (hblank : db.Blank)
    (hhistory : db.memory_history = []) (hagents : (db.qortia_agents.map (·.id)).Nodup)
    (calls : List AuditCall) :
    runs.Always (audit_step o cfg) (AuditTrail o) db calls ∧
      runs.EveryStep (audit_step o cfg) (DeletionsRecorded o) db calls := by
  have hok : runs.Guarded (audit_step o cfg) (fun _ _ => True) db calls :=
    runs.guarded_of_forall _ (fun _ _ => trivial) db calls
  have hgood := hblank.good_trail (o := o) hhistory hagents
  constructor
  · exact runs.always_of_invariant (fun _ h => GoodTrail.trail h)
      (fun _ _ _ h _ hstep => (audit_step_good h hstep).1) hgood hok
  · exact runs.every_step_of_invariant (fun _ _ _ h _ hstep => (audit_step_good h hstep).2)
      (fun _ _ _ h _ hstep => (audit_step_good h hstep).1) hgood hok

/-- A process that is written twice and then forgotten. -/
def process_forgotten : List AuditCall :=
  [{ request := .remember_org chief 1 deploy_once },
    { request := .remember_org chief 2 deploy_twice },
    { request := .forget chief 3 0 },
    { request := .forget chief 4 0 }]

theorem the_audit_trail_accounts_for_every_change_process :
    runs.Always (audit_step no_models {}) (AuditTrail no_models) chief_db process_forgotten ∧
      runs.EveryStep (audit_step no_models {}) (DeletionsRecorded no_models) chief_db
        process_forgotten :=
  the_audit_trail_accounts_for_every_change no_models {} chief_db_blank (by rfl) (by decide)
    process_forgotten

end qortia
