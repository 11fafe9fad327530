-- Who owns the memories: the ids are keys, and a private memory belongs to an agent of its tenant.
-- What the requests that write memories keep is said once, for the laws of the graph and of the
-- links.
import Qortia.ReflectWrites
import Qortia.Remember

namespace qortia

variable {K : Type}

/-! ## Keys -/

theorem Db.Keyed.of_sublist {db db' : Db K} (h : db.Keyed) (hle : db.next_id ≤ db'.next_id)
    (hh : (db'.hindsight_memories.map (·.id)).Sublist (db.hindsight_memories.map (·.id)))
    (ho : (db'.org_memory.map (·.id)).Sublist (db.org_memory.map (·.id))) : db'.Keyed := by
  have hmem : ∀ r ∈ db'.hindsight_memories, ∃ r₀ ∈ db.hindsight_memories, r₀.id = r.id :=
    fun r hr => List.mem_map.mp (hh.subset (List.mem_map_of_mem hr))
  have hmem' : ∀ q ∈ db'.org_memory, ∃ q₀ ∈ db.org_memory, q₀.id = q.id :=
    fun q hq => List.mem_map.mp (ho.subset (List.mem_map_of_mem hq))
  refine ⟨hh.nodup h.hindsight_nodup, ho.nodup h.org_nodup, fun r hr q hq => ?_, fun r hr => ?_,
    fun q hq => ?_⟩
  · obtain ⟨r₀, hr₀, hrid⟩ := hmem r hr
    obtain ⟨q₀, hq₀, hqid⟩ := hmem' q hq
    rw [← hrid, ← hqid]
    exact h.disjoint r₀ hr₀ q₀ hq₀
  · obtain ⟨r₀, hr₀, hrid⟩ := hmem r hr
    rw [← hrid]
    exact lt_of_lt_of_le (h.hindsight_lt r₀ hr₀) hle
  · obtain ⟨q₀, hq₀, hqid⟩ := hmem' q hq
    rw [← hqid]
    exact lt_of_lt_of_le (h.org_lt q₀ hq₀) hle

theorem nodup_append_fresh {Row : Type} {key : Row → UUID} {t : List Row} {next : UUID}
    (hnodup : (t.map key).Nodup) (hlt : ∀ r ∈ t, key r < next) {r : Row} (hr : key r = next) :
    ((t ++ [r]).map key).Nodup := by
  rw [List.map_append]
  refine List.Nodup.append hnodup (List.nodup_singleton _) fun k hk hk' => ?_
  obtain ⟨q, hq, rfl⟩ := List.mem_map.mp hk
  rw [List.map_singleton, List.mem_singleton, hr] at hk'
  exact Nat.ne_of_lt (hlt q hq) hk'

theorem Db.Keyed.insert_memory {db : Db K} (h : db.Keyed) {r : HindsightMemory K}
    (hr : r.id = db.next_id) (history : List MemoryHistory) :
    (qortia.insert_memory r history db).Keyed := by
  refine ⟨nodup_append_fresh h.hindsight_nodup h.hindsight_lt hr, h.org_nodup,
    fun x hx q hq => ?_, fun x hx => ?_, fun q hq => lt_trans (h.org_lt q hq) (Nat.lt_succ_self _)⟩
  · rcases List.mem_append.mp hx with hx | hx
    · exact h.disjoint x hx q hq
    · rw [List.mem_singleton.mp hx, hr]
      exact Nat.ne_of_gt (h.org_lt q hq)
  · rcases List.mem_append.mp hx with hx | hx
    · exact lt_trans (h.hindsight_lt x hx) (Nat.lt_succ_self _)
    · rw [List.mem_singleton.mp hx, hr]
      exact Nat.lt_succ_self _

theorem Db.Keyed.insert_org {db : Db K} (h : db.Keyed) {q : OrgMemory K}
    (hq : q.id = db.next_id) (history : List MemoryHistory) :
    Db.Keyed { db with
      org_memory := db.org_memory ++ [q], memory_history := history
      next_id := db.next_id + 1 } := by
  refine ⟨h.hindsight_nodup, nodup_append_fresh h.org_nodup h.org_lt hq, fun r hr x hx => ?_,
    fun r hr => lt_trans (h.hindsight_lt r hr) (Nat.lt_succ_self _), fun x hx => ?_⟩
  · rcases List.mem_append.mp hx with hx | hx
    · exact h.disjoint r hr x hx
    · rw [List.mem_singleton.mp hx, hq]
      exact Nat.ne_of_lt (h.hindsight_lt r hr)
  · rcases List.mem_append.mp hx with hx | hx
    · exact lt_trans (h.org_lt x hx) (Nat.lt_succ_self _)
    · rw [List.mem_singleton.mp hx, hq]
      exact Nat.lt_succ_self _

/-! ## Owners -/

/-- The columns of the agents that no request changes. -/
def Db.agent_keys (db : Db K) : List (UUID × UUID) :=
  db.qortia_agents.map fun a => (a.id, a.tenant_id)

theorem assert_agent_active_key {agent_id tenant_id : UUID} {db : Db K}
    (h : assert_agent_active agent_id tenant_id db = .ok ()) :
    (agent_id, tenant_id) ∈ db.agent_keys := by
  unfold assert_agent_active at h
  split at h
  · cases h
  · rename_i a ha
    have hmem := List.mem_of_find?_eq_some ha
    have hkey := List.find?_some ha
    simp only [decide_eq_true_eq] at hkey
    exact List.mem_map.mpr ⟨a, hmem, by rw [hkey.1, hkey.2]⟩

theorem agent_keys_update {db : Db K} {f : Agent → Agent} {p : Agent → Bool}
    (hf : ∀ a, ((f a).id, (f a).tenant_id) = (a.id, a.tenant_id)) :
    (rows.update p f db.qortia_agents).map (fun a => (a.id, a.tenant_id)) = db.agent_keys :=
  rows.map_update hf p _

structure Db.Owned (db : Db K) : Prop where
  keyed : db.Keyed
  agents_nodup : (db.agent_keys.map (·.1)).Nodup
  owned : ∀ r ∈ db.hindsight_memories, (r.agent_id, r.tenant_id) ∈ db.agent_keys

theorem Db.Owned.insert_memory {db : Db K} (h : db.Owned) {r : HindsightMemory K}
    (hid : r.id = db.next_id) (howner : (r.agent_id, r.tenant_id) ∈ db.agent_keys)
    (history : List MemoryHistory) : (qortia.insert_memory r history db).Owned := by
  refine ⟨h.keyed.insert_memory hid history, h.agents_nodup, fun x hx => ?_⟩
  rcases List.mem_append.mp hx with hx | hx
  · exact h.owned x hx
  · rw [List.mem_singleton.mp hx]
    exact howner

/-- The columns of the rows that no request changes. -/
def HindsightMemory.keys (r : HindsightMemory K) : UUID × UUID × UUID :=
  (r.id, r.agent_id, r.tenant_id)

def OrgMemory.keys (q : OrgMemory K) : UUID × UUID := (q.id, q.tenant_id)

/-- Memories go or change in other columns. -/
theorem Db.Owned.of_sublist {db db' : Db K} (h : db.Owned) (hle : db.next_id ≤ db'.next_id)
    (hagents : db'.agent_keys = db.agent_keys)
    (hprivate : (db'.hindsight_memories.map (·.keys)).Sublist (db.hindsight_memories.map (·.keys)))
    (horg : (db'.org_memory.map (·.keys)).Sublist (db.org_memory.map (·.keys))) : db'.Owned := by
  refine ⟨h.keyed.of_sublist hle ?_ ?_, ?_, fun r hr => ?_⟩
  · have hids := hprivate.map (·.1)
    rwa [List.map_map, List.map_map] at hids
  · have hids := horg.map (·.1)
    rwa [List.map_map, List.map_map] at hids
  · rw [hagents]
    exact h.agents_nodup
  · obtain ⟨r₀, hr₀, hkeys⟩ := List.mem_map.mp (hprivate.subset (List.mem_map_of_mem hr))
    have hkey : (r₀.agent_id, r₀.tenant_id) = (r.agent_id, r.tenant_id) := congrArg (·.2) hkeys
    rw [hagents, ← hkey]
    exact h.owned r₀ hr₀

/-! ## The requests that write memories -/

/-- A memory of the tenant has the id. -/
def Db.belongs (db : Db K) (id tenant_id : UUID) : Prop :=
  (∃ r ∈ db.hindsight_memories, r.id = id ∧ r.tenant_id = tenant_id) ∨
    ∃ q ∈ db.org_memory, q.id = id ∧ q.tenant_id = tenant_id

/-- What all of them keep: a memory that is there after the request was there before or is new. -/
structure Db.Kept (db db' : Db K) : Prop where
  owned : db'.Owned
  agent_keys : db'.agent_keys = db.agent_keys
  next_id : db.next_id ≤ db'.next_id
  qortia_entities : db'.qortia_entities = db.qortia_entities
  memory_links : db'.memory_links = db.memory_links
  belongs : ∀ i t, db'.belongs i t → db.belongs i t ∨ db.next_id ≤ i

theorem Db.Kept.refl {db : Db K} (h : db.Owned) : db.Kept db :=
  ⟨h, rfl, le_refl _, rfl, rfl, fun _ _ => Or.inl⟩

theorem Db.Kept.trans {db db' db'' : Db K} (h : db.Kept db') (h' : db'.Kept db'') :
    db.Kept db'' := by
  refine ⟨h'.owned, h'.agent_keys.trans h.agent_keys, h.next_id.trans h'.next_id,
    h'.qortia_entities.trans h.qortia_entities, h'.memory_links.trans h.memory_links,
    fun i t hi => ?_⟩
  rcases h'.belongs i t hi with hi | hi
  · exact h.belongs i t hi
  · exact Or.inr (h.next_id.trans hi)

theorem belongs_of_sublist {db db' : Db K}
    (hprivate : (db'.hindsight_memories.map (·.keys)).Sublist (db.hindsight_memories.map (·.keys)))
    (horg : (db'.org_memory.map (·.keys)).Sublist (db.org_memory.map (·.keys))) {i t : UUID}
    (h : db'.belongs i t) : db.belongs i t := by
  rcases h with ⟨r, hr, rfl, rfl⟩ | ⟨q, hq, rfl, rfl⟩
  · obtain ⟨r₀, hr₀, hkeys⟩ := List.mem_map.mp (hprivate.subset (List.mem_map_of_mem hr))
    exact Or.inl ⟨r₀, hr₀, congrArg (·.1) hkeys, congrArg (·.2.2) hkeys⟩
  · obtain ⟨q₀, hq₀, hkeys⟩ := List.mem_map.mp (horg.subset (List.mem_map_of_mem hq))
    exact Or.inr ⟨q₀, hq₀, congrArg (·.1) hkeys, congrArg (·.2) hkeys⟩

theorem Db.Owned.kept_of_sublist {db db' : Db K} (h : db.Owned) (hle : db.next_id ≤ db'.next_id)
    (hagents : db'.agent_keys = db.agent_keys)
    (hprivate : (db'.hindsight_memories.map (·.keys)).Sublist (db.hindsight_memories.map (·.keys)))
    (horg : (db'.org_memory.map (·.keys)).Sublist (db.org_memory.map (·.keys)))
    (hentities : db'.qortia_entities = db.qortia_entities)
    (hlinks : db'.memory_links = db.memory_links) : db.Kept db' :=
  ⟨h.of_sublist hle hagents hprivate horg, hagents, hle, hentities, hlinks,
    fun _ _ hi => Or.inl (belongs_of_sublist hprivate horg hi)⟩

theorem Db.Owned.kept_insert_memory {db : Db K} (h : db.Owned) {r : HindsightMemory K}
    (hid : r.id = db.next_id) (howner : (r.agent_id, r.tenant_id) ∈ db.agent_keys)
    (history : List MemoryHistory) : db.Kept (qortia.insert_memory r history db) := by
  refine ⟨h.insert_memory hid howner history, rfl, Nat.le_succ _, rfl, rfl, fun i t hi => ?_⟩
  rcases hi with ⟨x, hx, rfl, rfl⟩ | horg
  · rcases List.mem_append.mp hx with hx | hx
    · exact Or.inl (Or.inl ⟨x, hx, rfl, rfl⟩)
    · rw [List.mem_singleton.mp hx, hid]
      exact Or.inr (le_refl _)
  · exact Or.inl (Or.inr horg)

theorem remember_active {db db' : Db K} {o : Outside K} {agent : AgentIdentity}
    {now : Timestamp} {choice : Nat} {memories : List MemoryItem} {ids : List UUID}
    (h : remember o agent now choice memories db = .ok (db', ids)) :
    assert_agent_active agent.agent_id agent.tenant_id db = .ok () := by
  unfold remember at h
  obtain ⟨u, hu, -⟩ := bind_ok h
  exact hu

theorem remember_keeps {db db' : Db K} (h : db.Owned) {o : Outside K} {agent : AgentIdentity}
    {now : Timestamp} {choice : Nat} {memories : List MemoryItem} {ids : List UUID}
    (hreq : remember o agent now choice memories db = .ok (db', ids)) : db.Kept db' := by
  have howner := assert_agent_active_key (remember_active hreq)
  refine remember_preserves hreq (fun db₁ mem expires_at hdb₁ => ?_)
    (fun db₁ n hdb₁ => ?_) (.refl h)
  · rw [← hdb₁.agent_keys] at howner
    exact hdb₁.trans (hdb₁.owned.kept_insert_memory rfl howner _)
  · exact hdb₁.trans (hdb₁.owned.kept_of_sublist (le_refl _)
      (agent_keys_update (by intro a; rfl)) (List.Sublist.refl _) (List.Sublist.refl _) rfl rfl)

theorem remember_org_keeps {db db' : Db K} (h : db.Owned) {o : Outside K}
    {agent : AgentIdentity} {now : Timestamp} {body : RememberOrgRequest} {row_id : UUID}
    (hreq : remember_org o agent now body db = .ok (db', row_id)) : db.Kept db' := by
  obtain ⟨-, history, rfl⟩ := remember_org_ok hreq
  by_cases hany : db.org_memory.any (org_conflict agent body) = true
  · refine h.kept_of_sublist (Nat.le_succ _) rfl (List.Sublist.refl _) ?_ rfl rfl
    simp only [rows.upsert_of_any hany]
    exact rows.sublist_update (g := OrgMemory.keys) (by intro q; rfl) _ _
  · rw [rows.upsert_of_not_any hany]
    refine ⟨⟨h.keyed.insert_org rfl history, h.agents_nodup, h.owned⟩, rfl, Nat.le_succ _, rfl, rfl,
      fun i t hi => ?_⟩
    rcases hi with hprivate | ⟨q, hq, rfl, rfl⟩
    · exact Or.inl (Or.inl hprivate)
    · rcases List.mem_append.mp hq with hq | hq
      · exact Or.inl (Or.inr ⟨q, hq, rfl, rfl⟩)
      · rw [List.mem_singleton.mp hq]
        exact Or.inr (le_refl _)

theorem statement_keeps {w : Writer} (st : WriteStatement K) {db : Db K} {ids : List UUID}
    (h : db.Owned) (howner : (w.agent_id, w.tenant_id) ∈ db.agent_keys) :
    db.Kept (st.exec w (db, ids)).1 := by
  cases st with
  | prune ids' =>
    refine h.kept_of_sublist (le_refl _) rfl ?_ (List.Sublist.refl _) rfl rfl
    exact rows.sublist_update (g := HindsightMemory.keys) (by intro r; rfl) _ _
  | supersede id =>
    refine h.kept_of_sublist (le_refl _) rfl ?_ (List.Sublist.refl _) rfl rfl
    exact rows.sublist_update (g := HindsightMemory.keys) (by intro r; rfl) _ _
  | insert => exact h.kept_insert_memory rfl howner db.memory_history

theorem reflect_keeps [Field K] [LinearOrder K] [HasSqrt K] {db db' : Db K} (h : db.Owned)
    {o : Outside K} {cfg : Settings} {agent : AgentIdentity} {now : Timestamp}
    {answer : Except Failure (List Reflection)} {failed : List Nat} {n : Nat}
    {counter : Option Int}
    (hreq : reflect o cfg agent now answer failed db = .ok (db', n, counter)) : db.Kept db' := by
  have howner := assert_agent_active_key (reflect_active hreq)
  refine reflect_preserves hreq (fun db₁ ids st hdb₁ => ?_) (fun db₁ hdb₁ => ?_)
    (fun db₁ history hdb₁ => ?_) (.refl h)
  · rw [← hdb₁.agent_keys] at howner
    exact hdb₁.trans (statement_keeps st hdb₁.owned howner)
  · exact hdb₁.trans (hdb₁.owned.kept_of_sublist (le_refl _)
      (agent_keys_update (by intro a; rfl)) (List.Sublist.refl _) (List.Sublist.refl _) rfl rfl)
  · exact hdb₁.trans (hdb₁.owned.kept_of_sublist (le_refl _) rfl (List.Sublist.refl _)
      (List.Sublist.refl _) rfl rfl)

theorem purge_keeps {db : Db K} (h : db.Owned) (now : Timestamp) :
    db.Kept (purge_expired_short_term_memories now db) :=
  h.kept_of_sublist (le_refl _) rfl (List.filter_sublist.map _) (List.Sublist.refl _) rfl rfl

/-! ## A forget, and the start -/

theorem forget_owned {db db' : Db K} (h : db.Owned) {o : Outside K} {agent : AgentIdentity}
    {now : Timestamp} {id : UUID} (hreq : forget o agent now id db = .ok db') : db'.Owned := by
  obtain ⟨-, table, content, -, rfl⟩ := forget_eq hreq
  cases table with
  | hindsight_memories =>
    exact h.of_sublist (le_refl _) rfl (List.filter_sublist.map _) (List.Sublist.refl _)
  | org_memory =>
    exact h.of_sublist (le_refl _) rfl (List.Sublist.refl _) (List.filter_sublist.map _)
  | org_knowledge =>
    exact h.of_sublist (le_refl _) rfl (List.Sublist.refl _) (List.Sublist.refl _)

theorem Db.Blank.owned {db : Db K} (h : db.Blank)
    (hagents : (db.qortia_agents.map (·.id)).Nodup) : db.Owned := by
  refine ⟨⟨?_, ?_, ?_, ?_, ?_⟩, ?_, ?_⟩
  · rw [h.hindsight_memories]
    exact List.nodup_nil
  · rw [h.org_memory]
    exact List.nodup_nil
  · rw [h.hindsight_memories]
    simp
  · rw [h.hindsight_memories]
    simp
  · rw [h.org_memory]
    simp
  · unfold Db.agent_keys
    rw [List.map_map]
    exact hagents
  · rw [h.hindsight_memories]
    simp

end qortia
