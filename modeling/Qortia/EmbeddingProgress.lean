-- The batches of one embedding worker. Every claimed row gets its vector or counts an attempt, so
-- no batch leaves the waiting rows as they are.
import Qortia.EmbeddingClaims
import Qortia.Lib.Retries

namespace qortia

open retries (Round)
open work_queue (Job)

variable {K : Type}

/-! ## The batches -/

/-- The rows whose texts a batch sends to the model. -/
def model_calls (env : BatchEnv) (db : Db K) : List (EmbeddedTable × UUID) :=
  ((claim_batch (fun _ _ => false) db).filter fun c =>
    c.text_to_embed ≠ "" && !env.key_failed c.tenant_id).map Claim.key

/-- One batch after another: the database at the end, and the rows that were tried. -/
def embedding_batches [Field K] [LinearOrder K] (o : Outside K) (cfg : Settings) :
    List BatchEnv → Db K → Db K × List (EmbeddedTable × UUID)
  | [], db => (db, [])
  | env :: envs, db =>
    let (db', calls) := embedding_batches o cfg envs
      (process_embedding_batch o cfg env (fun _ _ => false) db).db
    (db', model_calls env db ++ calls)

/-! ## A batch as a round -/

/-- The rows of all tables as jobs. -/
def Db.all_jobs (db : Db K) : List ((EmbeddedTable × UUID) × Job) :=
  embedded_tables.flatMap fun tbl => (db.jobs tbl).map fun r => ((tbl, r.1), r.2)

def batch_round (env : BatchEnv) (db : Db K) : Round (EmbeddedTable × UUID) where
  failed k := env.failed k.1 k.2
  picks := (claim_batch (fun _ _ => false) db).map Claim.key

/-- The texts that wait for a vector are not empty. -/
def Db.TextsWait (db : Db K) : Prop := ∀ c ∈ claimable db, c.text_to_embed ≠ ""

def Db.OneRowPerId (db : Db K) : Prop := ∀ tbl, ((db.jobs tbl).map (·.1)).Nodup

/-- The claim of a private memory carries its agent. -/
def Claim.Whole (c : Claim) : Prop :=
  c.text_to_embed ≠ "" ∧ (c.tbl = .hindsight_memories → c.agent_id.isSome = true)

theorem ChangesJob.jobs_map {k : EmbeddedTable × UUID} {f : Job → Job} {db db' : Db K}
    (h : ChangesJob k f db db') (tbl : EmbeddedTable) :
    db'.jobs tbl = (db.jobs tbl).map fun r => if (tbl, r.1) = k then (r.1, f r.2) else r := by
  rw [h.jobs]
  split
  · rename_i htbl
    subst htbl
    apply List.map_congr_left
    intro r _
    simp [Prod.ext_iff]
  · rename_i htbl
    symm
    apply List.map_id''
    intro r
    exact if_neg fun hk => htbl (congrArg Prod.fst hk)

section
variable [Field K] [LinearOrder K] (o : Outside K) (cfg : Settings) (env : BatchEnv)

/-- What `_embed_single_row` does to the database: an attempt, or a vector and links. -/
theorem embed_single_row_db {c : Claim} (h : c.Whole) (s : EmbeddingBatch K) :
    ∃ similar : List (UUID × K), (embed_single_row o cfg env s c.row).db =
      if env.failed c.tbl c.id then count_attempt c.tbl c.id s.db
      else similar.foldl (fun db similar => upsert_memory_link c.id c.tenant_id similar db)
        (write_embedding c.tbl c.id (o.embedding c.text_to_embed) s.db) := by
  obtain ⟨htext, hagent⟩ := h
  cases c with
  | mk tbl id tenant_id agent_id text_to_embed =>
  simp only at htext hagent ⊢
  unfold embed_single_row Claim.row
  simp only [if_neg htext]
  rw [if_neg fun hshort => nomatch hshort.2]
  cases hfailed : env.failed tbl id with
  | true => exact ⟨[], by simp⟩
  | false =>
    simp only [Bool.false_eq_true, if_false]
    cases tbl with
    | hindsight_memories =>
      obtain ⟨a, rfl⟩ := Option.isSome_iff_exists.mp (hagent rfl)
      exact ⟨_, rfl⟩
    | org_memory => exact ⟨[], rfl⟩
    | org_knowledge => exact ⟨[], rfl⟩
    | qortia_entities => exact ⟨[], rfl⟩

theorem embed_single_row_jobs {c : Claim} (h : c.Whole) (s : EmbeddingBatch K) :
    ChangesJob c.key (retries.tried (env.failed c.tbl c.id)) s.db
      (embed_single_row o cfg env s c.row).db := by
  obtain ⟨similar, hdb⟩ := embed_single_row_db o cfg env h s
  rw [hdb]
  cases hfailed : env.failed c.tbl c.id with
  | true => exact count_changes_job c.tbl c.id s.db
  | false =>
    refine ⟨fun tbl => ?_⟩
    rw [if_neg Bool.false_ne_true, upsert_links_jobs]
    exact (write_changes_job c.tbl c.id (o.embedding c.text_to_embed) s.db).jobs tbl

/-- The rows of a batch, none of them twice, change their jobs and no others. -/
theorem embed_rows_jobs {claims : List Claim} (hwhole : ∀ c ∈ claims, c.Whole)
    (hnodup : (claims.map Claim.key).Nodup) (s : EmbeddingBatch K) (tbl : EmbeddedTable) :
    ((claims.map Claim.row).foldl (embed_single_row o cfg env) s).db.jobs tbl =
      (s.db.jobs tbl).map fun r =>
        if (tbl, r.1) ∈ claims.map Claim.key then (r.1, retries.tried (env.failed tbl r.1) r.2)
        else r := by
  induction claims generalizing s with
  | nil => simp
  | cons c claims ih =>
    obtain ⟨hnew, hnodup⟩ := List.nodup_cons.mp hnodup
    have hfirst := (embed_single_row_jobs o cfg env (hwhole c List.mem_cons_self) s).jobs_map tbl
    have hrest : ∀ x ∈ claims, x.Whole := fun x hx => hwhole x (List.mem_cons_of_mem _ hx)
    rw [List.map_cons, List.foldl_cons, ih hrest hnodup, hfirst, List.map_map]
    apply List.map_congr_left
    intro r _
    simp only [Function.comp, List.map_cons, List.mem_cons]
    by_cases hk : (tbl, r.1) = c.key
    · have hold : (tbl, r.1) ∉ claims.map Claim.key := by
        rw [hk]
        exact hnew
      obtain ⟨htbl, hid⟩ := Prod.mk.inj hk
      rw [if_pos hk]
      simp only
      rw [if_neg hold, if_pos (Or.inl hk), htbl, hid]
    · rw [if_neg hk]
      simp only [hk, false_or]

/-- Without a tenant whose key is missing, the batch is one loop. -/
theorem embed_claims_eq (hkeys : ∀ t, env.key_failed t = false) (claims : List Claim)
    (db : Db K) :
    embed_claims o cfg env claims db =
      ((by_tenant claims).map Claim.row).foldl (embed_single_row o cfg env) { db } := by
  have htenant : ∀ s t, embed_tenant o cfg env (claims.map Claim.row) s t =
      ((claims.filter (·.tenant_id = t)).map Claim.row).foldl (embed_single_row o cfg env) s := by
    intro s t
    unfold embed_tenant
    rw [hkeys t, if_neg Bool.false_ne_true, List.filter_map]
    rfl
  unfold embed_claims by_tenant
  simp only [List.map_map]
  rw [List.map_flatMap, List.foldl_flatMap]
  congr 1
  funext s t
  exact htenant s t

end

/-! ## The claims of a batch -/

variable {db : Db K}

theorem claim_query_subset {locked : UUID → Bool} {tbl : EmbeddedTable} {c : Claim}
    (h : c ∈ claim_query locked db tbl) :
    c ∈ claimable db ∧ (c.tbl = .hindsight_memories → c.agent_id.isSome = true) := by
  unfold claimable
  simp only [List.mem_append]
  cases tbl
  all_goals
    obtain ⟨r, hr, rfl⟩ := List.mem_map.mp h
    obtain ⟨hr, hwhere⟩ := List.mem_filter.mp (mem_first_of_batch hr)
    have hpending := (Bool.and_eq_true_iff.mp hwhere).1
  case hindsight_memories =>
    refine ⟨Or.inl (Or.inl (Or.inl ?_)), fun _ => rfl⟩
    exact List.mem_map_of_mem (List.mem_filter.mpr ⟨hr, hpending⟩)
  case org_memory =>
    refine ⟨Or.inl (Or.inl (Or.inr ?_)), fun h => nomatch h⟩
    exact List.mem_map_of_mem (List.mem_filter.mpr ⟨hr, hpending⟩)
  case org_knowledge =>
    refine ⟨Or.inl (Or.inr ?_), fun h => nomatch h⟩
    exact List.mem_map_of_mem (List.mem_filter.mpr ⟨hr, hpending⟩)
  case qortia_entities =>
    refine ⟨Or.inr ?_, fun h => nomatch h⟩
    exact List.mem_map_of_mem (List.mem_filter.mpr ⟨hr, hpending⟩)

theorem claim_batch_whole (htexts : db.TextsWait) {locked : EmbeddedTable → UUID → Bool} :
    ∀ c ∈ claim_batch locked db, c.Whole := by
  intro c hc
  obtain ⟨tbl, -, hc⟩ := List.mem_flatMap.mp hc
  obtain ⟨hclaim, hagent⟩ := claim_query_subset hc
  exact ⟨htexts c hclaim, hagent⟩

theorem claim_batch_nodup (hkeyed : db.OneRowPerId) (locked : EmbeddedTable → UUID → Bool) :
    ((claim_batch locked db).map Claim.key).Nodup := by
  unfold claim_batch
  rw [List.map_flatMap, List.nodup_flatMap]
  refine ⟨fun tbl _ => claim_query_nodup (hkeyed tbl), ?_⟩
  have htables : embedded_tables.Nodup := by decide
  refine htables.imp fun {tbl tbl'} hne k hk hk' => hne ?_
  obtain ⟨c, hc, rfl⟩ := List.mem_map.mp hk
  obtain ⟨c', hc', hkey⟩ := List.mem_map.mp hk'
  rw [← claim_query_tbl hc, ← claim_query_tbl hc']
  exact (congrArg Prod.fst hkey).symm

theorem first_of_batch_ne_nil {Row : Type} {tenant_id : Row → UUID} {created_at : Row → Timestamp}
    {found : List Row} {r : Row} (h : r ∈ found) :
    first_of_batch tenant_id created_at found ≠ [] := by
  have hmem : r ∈ rows.order_asc tenant_id (rows.order_asc created_at found) :=
    rows.mem_order_asc.mpr (rows.mem_order_asc.mpr h)
  have hlength := List.length_pos_of_mem hmem
  apply List.ne_nil_of_length_pos
  unfold first_of_batch
  rw [List.length_take]
  exact Nat.lt_min.mpr ⟨by decide, hlength⟩

/-- A table with a row that waits gives a claim. -/
theorem claim_query_ne_nil {tbl : EmbeddedTable} {r : UUID × Job} (hr : r ∈ db.jobs tbl)
    (hwaits : retries.waits 3 r.2 = true) : claim_query (fun _ => false) db tbl ≠ [] := by
  cases tbl
  all_goals
    obtain ⟨x, hx, rfl⟩ := List.mem_map.mp hr
    obtain ⟨hdone, hlt⟩ := Bool.and_eq_true_iff.mp hwaits
    unfold claim_query
    intro hnil
    refine first_of_batch_ne_nil (List.mem_filter.mpr ⟨hx, ?_⟩) (List.map_eq_nil_iff.mp hnil)
    have hpending := And.intro hdone (of_decide_eq_true hlt)
    simpa [HindsightMemory.job, OrgMemory.job, OrgKnowledge.job, Entity.job] using hpending

theorem mem_embedded_tables (tbl : EmbeddedTable) : tbl ∈ embedded_tables := by
  cases tbl <;> decide

theorem mem_all_jobs {k : EmbeddedTable × UUID} {j : Job} :
    (k, j) ∈ db.all_jobs ↔ (k.2, j) ∈ db.jobs k.1 := by
  unfold Db.all_jobs
  simp only [List.mem_flatMap, List.mem_map]
  constructor
  · rintro ⟨tbl, -, r, hr, hk⟩
    cases hk
    exact hr
  · intro hr
    exact ⟨k.1, mem_embedded_tables k.1, _, hr, rfl⟩

theorem all_jobs_nodup (h : db.OneRowPerId) : (db.all_jobs.map (·.1)).Nodup := by
  unfold Db.all_jobs
  rw [List.map_flatMap, List.nodup_flatMap]
  constructor
  · intro tbl _
    have hkeys := (h tbl).map (Prod.mk_right_injective tbl)
    rw [List.map_map] at hkeys ⊢
    exact hkeys
  · have htables : embedded_tables.Nodup := by decide
    refine htables.imp fun {tbl tbl'} hne k hk hk' => hne ?_
    simp only [List.map_map, List.mem_map, Function.comp] at hk hk'
    obtain ⟨r, -, rfl⟩ := hk
    obtain ⟨r', -, hkey⟩ := hk'
    exact (congrArg Prod.fst hkey).symm

/-- The job of a row is the one that its key finds. -/
theorem job_of_all_jobs (h : db.OneRowPerId) {k : EmbeddedTable × UUID} {j : Job} :
    (k, j) ∈ db.all_jobs ↔ db.job k = some j := by
  rw [mem_all_jobs]
  exact ⟨fun hj => job_of_mem (h k.1) hj, mem_jobs_of_job⟩

theorem batch_round_fair (h : db.OneRowPerId) (env : BatchEnv) :
    (batch_round env db).Fair 3 db.all_jobs where
  nodup := claim_batch_nodup h _
  waiting k hk := by
    obtain ⟨c, hc, rfl⟩ := List.mem_map.mp hk
    obtain ⟨tbl, -, hc⟩ := List.mem_flatMap.mp hc
    obtain ⟨r, hr, hid, hdone, hlt⟩ := claim_query_job hc
    refine ⟨(c.key, r.2), mem_all_jobs.mpr ?_, rfl, ?_⟩
    · unfold Claim.key
      rw [claim_query_tbl hc, ← hid]
      exact hr
    · unfold retries.waits
      rw [hdone, decide_eq_true hlt]
      rfl
  picks := by
    rintro ⟨⟨k, j⟩, hj, hwaits⟩ hnil
    have hclaims := List.map_eq_nil_iff.mp hnil
    unfold claim_batch at hclaims
    rw [List.flatMap_eq_nil_iff] at hclaims
    exact claim_query_ne_nil (mem_all_jobs.mp hj) hwaits (hclaims k.1 (mem_embedded_tables k.1))

/-! ## A batch -/

section
variable [Field K] [LinearOrder K] (o : Outside K) (cfg : Settings) {env : BatchEnv}

theorem batch_jobs (hkeys : ∀ t, env.key_failed t = false) (h : db.OneRowPerId)
    (htexts : db.TextsWait) (tbl : EmbeddedTable) :
    (process_embedding_batch o cfg env (fun _ _ => false) db).db.jobs tbl =
      (db.jobs tbl).map fun r =>
        if (tbl, r.1) ∈ (batch_round env db).picks then
          (r.1, retries.tried (env.failed tbl r.1) r.2)
        else r := by
  unfold process_embedding_batch
  rw [embed_claims_eq o cfg env hkeys, embed_rows_jobs o cfg env]
  · apply List.map_congr_left
    intro r _
    have hiff : (tbl, r.1) ∈ (by_tenant (claim_batch (fun _ _ => false) db)).map Claim.key ↔
        (tbl, r.1) ∈ (batch_round env db).picks := by
      unfold batch_round
      simp only [List.mem_map, mem_by_tenant]
    simp only [hiff]
  · intro c hc
    exact claim_batch_whole htexts c (mem_by_tenant.mp hc)
  · exact by_tenant_nodup (claim_batch_nodup h _)

/-- What the batch does to the jobs is one round. -/
theorem batch_all_jobs (hkeys : ∀ t, env.key_failed t = false) (h : db.OneRowPerId)
    (htexts : db.TextsWait) :
    (process_embedding_batch o cfg env (fun _ _ => false) db).db.all_jobs =
      (batch_round env db).apply db.all_jobs := by
  unfold Db.all_jobs Round.apply
  rw [List.map_flatMap]
  congr 1
  funext tbl
  rw [batch_jobs o cfg hkeys h htexts, List.map_map, List.map_map]
  apply List.map_congr_left
  intro r _
  simp only [Function.comp, Round.job]
  split
  · rfl
  · rfl

theorem batch_ids (hkeys : ∀ t, env.key_failed t = false) (h : db.OneRowPerId)
    (htexts : db.TextsWait) :
    (process_embedding_batch o cfg env (fun _ _ => false) db).db.OneRowPerId := by
  intro tbl
  have hids : ((db.jobs tbl).map fun r => if (tbl, r.1) ∈ (batch_round env db).picks then
      (r.1, retries.tried (env.failed tbl r.1) r.2) else r).map (·.1) =
      (db.jobs tbl).map (·.1) := by
    rw [List.map_map]
    apply List.map_congr_left
    intro r _
    simp only [Function.comp]
    split
    · rfl
    · rfl
  rw [batch_jobs o cfg hkeys h htexts, hids]
  exact h tbl

/-! ## The texts that wait -/

omit [Field K] [LinearOrder K] in
theorem filter_map_update_subset {Row Col : Type} {waits p : Row → Bool} {f : Row → Row}
    {g : Row → Col} (h : ∀ r, waits (f r) = true → waits r = true ∧ g (f r) = g r)
    (t : List Row) : ((rows.update p f t).filter waits).map g ⊆ (t.filter waits).map g := by
  intro x hx
  obtain ⟨y, hy, rfl⟩ := List.mem_map.mp hx
  obtain ⟨hy, hwaits⟩ := List.mem_filter.mp hy
  obtain ⟨r, hr, ⟨-, rfl⟩ | ⟨-, rfl⟩⟩ := rows.mem_update.mp hy
  · obtain ⟨hold, hsame⟩ := h r hwaits
    rw [hsame]
    exact List.mem_map_of_mem (List.mem_filter.mpr ⟨hr, hold⟩)
  · exact List.mem_map_of_mem (List.mem_filter.mpr ⟨hr, hwaits⟩)

/-- The rows of one table that wait. -/
def Db.open_rows (db : Db K) : EmbeddedTable → List Claim
  | .hindsight_memories =>
    (db.hindsight_memories.filter fun r => r.embedding.isNone && r.embedding_attempts < 3).map
      fun r => ⟨.hindsight_memories, r.id, r.tenant_id, some r.agent_id, r.content⟩
  | .org_memory =>
    (db.org_memory.filter fun r => r.embedding.isNone && r.embedding_attempts < 3).map
      fun r => ⟨.org_memory, r.id, r.tenant_id, none, r.content⟩
  | .org_knowledge =>
    (db.org_knowledge.filter fun r => r.embedding.isNone && r.embedding_attempts < 3).map
      fun r => ⟨.org_knowledge, r.id, r.tenant_id, none, r.index_summary⟩
  | .qortia_entities =>
    (db.qortia_entities.filter fun e => e.embedding.isNone && e.embedding_attempts < 3).map
      fun e => ⟨.qortia_entities, e.id, e.tenant_id, none, e.entity_text⟩

omit [Field K] [LinearOrder K] in
theorem mem_claimable {c : Claim} : c ∈ claimable db ↔ ∃ tbl, c ∈ db.open_rows tbl := by
  unfold claimable
  simp only [List.mem_append]
  constructor
  · rintro (((hc | hc) | hc) | hc)
    · exact ⟨.hindsight_memories, hc⟩
    · exact ⟨.org_memory, hc⟩
    · exact ⟨.org_knowledge, hc⟩
    · exact ⟨.qortia_entities, hc⟩
  · rintro ⟨tbl, hc⟩
    cases tbl with
    | hindsight_memories => exact Or.inl (Or.inl (Or.inl hc))
    | org_memory => exact Or.inl (Or.inl (Or.inr hc))
    | org_knowledge => exact Or.inl (Or.inr hc)
    | qortia_entities => exact Or.inr hc

omit [Field K] [LinearOrder K] in
theorem claimable_write (tbl : EmbeddedTable) (id : UUID) (v : List K) (db : Db K) :
    claimable (write_embedding tbl id v db) ⊆ claimable db := by
  intro c hc
  obtain ⟨tbl', hc⟩ := mem_claimable.mp hc
  refine mem_claimable.mpr ⟨tbl', ?_⟩
  cases tbl <;> cases tbl'
  case hindsight_memories.hindsight_memories | org_memory.org_memory |
      org_knowledge.org_knowledge | qortia_entities.qortia_entities =>
    exact filter_map_update_subset (by simp) _ hc
  all_goals exact hc

omit [Field K] [LinearOrder K] in
theorem claimable_count (tbl : EmbeddedTable) (id : UUID) (db : Db K) :
    claimable (count_attempt tbl id db) ⊆ claimable db := by
  intro c hc
  obtain ⟨tbl', hc⟩ := mem_claimable.mp hc
  refine mem_claimable.mpr ⟨tbl', ?_⟩
  cases tbl <;> cases tbl'
  case hindsight_memories.hindsight_memories | org_memory.org_memory |
      org_knowledge.org_knowledge | qortia_entities.qortia_entities =>
    refine filter_map_update_subset (fun r hr => ?_) _ hc
    simp only [Bool.and_eq_true, decide_eq_true_eq] at hr ⊢
    exact ⟨⟨hr.1, by omega⟩, trivial⟩
  all_goals exact hc

omit [Field K] [LinearOrder K] in
theorem claimable_links (memory_id tenant_id : UUID) (similar : List (UUID × K)) (db : Db K) :
    claimable (similar.foldl (fun db similar => upsert_memory_link memory_id tenant_id similar db)
      db) = claimable db := by
  induction similar generalizing db with
  | nil => rfl
  | cons x similar ih => exact ih _

theorem claimable_rows {claims : List Claim} (hwhole : ∀ c ∈ claims, c.Whole)
    (s : EmbeddingBatch K) :
    claimable ((claims.map Claim.row).foldl (embed_single_row o cfg env) s).db ⊆
      claimable s.db := by
  induction claims generalizing s with
  | nil => exact fun _ hc => hc
  | cons c claims ih =>
    refine List.Subset.trans (ih (fun x hx => hwhole x (List.mem_cons_of_mem _ hx)) _) ?_
    obtain ⟨similar, hdb⟩ := embed_single_row_db o cfg env (hwhole c List.mem_cons_self) s
    rw [hdb]
    split
    · exact claimable_count _ _ _
    · rw [claimable_links]
      exact claimable_write _ _ _ _

/-- A batch makes no row wait. -/
theorem batch_texts (hkeys : ∀ t, env.key_failed t = false) (htexts : db.TextsWait) :
    (process_embedding_batch o cfg env (fun _ _ => false) db).db.TextsWait := by
  intro c hc
  unfold process_embedding_batch at hc
  rw [embed_claims_eq o cfg env hkeys] at hc
  refine htexts c (claimable_rows o cfg (fun x hx => ?_) _ hc)
  exact claim_batch_whole htexts x (mem_by_tenant.mp hx)

omit [Field K] [LinearOrder K] in
/-- The batch sends the text of every claimed row to the model. -/
theorem model_calls_eq (hkeys : ∀ t, env.key_failed t = false) (htexts : db.TextsWait) :
    model_calls env db = (batch_round env db).picks := by
  unfold model_calls batch_round
  rw [List.filter_eq_self.mpr]
  intro c hc
  simp [hkeys, (claim_batch_whole htexts c hc).1]

/-! ## A run of batches -/

/-- The batches of a run as rounds. -/
def batch_rounds : List BatchEnv → Db K → List (Round (EmbeddedTable × UUID))
  | [], _ => []
  | env :: envs, db =>
    batch_round env db ::
      batch_rounds envs (process_embedding_batch o cfg env (fun _ _ => false) db).db

theorem batch_rounds_length (envs : List BatchEnv) (db : Db K) :
    (batch_rounds o cfg envs db).length = envs.length := by
  induction envs generalizing db with
  | nil => rfl
  | cons env envs ih => exact congrArg (· + 1) (ih _)

theorem batch_rounds_failed {envs : List BatchEnv} {k : EmbeddedTable × UUID}
    (hok : ∀ env ∈ envs, env.failed k.1 k.2 = false) (db : Db K) :
    ∀ r ∈ batch_rounds o cfg envs db, r.failed k = false := by
  induction envs generalizing db with
  | nil =>
    intro r hr
    cases hr
  | cons env envs ih =>
    intro r hr
    rcases List.mem_cons.mp hr with rfl | hr
    · exact hok env List.mem_cons_self
    · exact ih (fun e he => hok e (List.mem_cons_of_mem _ he)) _ r hr

theorem embedding_batches_rounds {envs : List BatchEnv}
    (hkeys : ∀ env ∈ envs, ∀ t, env.key_failed t = false) (h : db.OneRowPerId)
    (htexts : db.TextsWait) :
    retries.FairRun 3 (batch_rounds o cfg envs db) db.all_jobs ∧
      (embedding_batches o cfg envs db).1.all_jobs =
        retries.after (batch_rounds o cfg envs db) db.all_jobs ∧
      (embedding_batches o cfg envs db).2 =
        (batch_rounds o cfg envs db).flatMap (·.picks) ∧
      (embedding_batches o cfg envs db).1.OneRowPerId := by
  induction envs generalizing db with
  | nil => exact ⟨trivial, rfl, rfl, h⟩
  | cons env envs ih =>
    have hkey := hkeys env List.mem_cons_self
    have hjobs := batch_all_jobs o cfg hkey h htexts
    obtain ⟨hfair, hafter, hcalls, hids⟩ := ih
      (fun e he => hkeys e (List.mem_cons_of_mem _ he)) (batch_ids o cfg hkey h htexts)
      (batch_texts o cfg hkey htexts)
    rw [hjobs] at hfair hafter
    refine ⟨⟨batch_round_fair h env, hfair⟩, hafter, ?_, hids⟩
    have hcons : (embedding_batches o cfg (env :: envs) db).2 = model_calls env db ++
        (embedding_batches o cfg envs
          (process_embedding_batch o cfg env (fun _ _ => false) db).db).2 := rfl
    rw [hcons, hcalls, model_calls_eq hkey htexts]
    rfl

end

/-! ## The law -/

/-- The attempts that the waiting rows have left. -/
def Db.attempts_left (db : Db K) : Nat :=
  ((db.all_jobs.filter fun x => !x.2.done && x.2.attempts < 3).map fun x => 3 - x.2.attempts).sum

theorem attempts_left_eq (db : Db K) : db.attempts_left = retries.total 3 db.all_jobs := by
  unfold Db.attempts_left retries.total
  induction db.all_jobs with
  | nil => rfl
  | cons x jobs ih =>
    rw [List.map_cons, List.sum_cons, ← ih, List.filter_cons]
    unfold retries.left retries.waits
    split
    · rw [List.map_cons, List.sum_cons]
    · rw [Nat.zero_add]

/-- A row that waits is a job that waits. -/
theorem claimable_job {c : Claim} (hc : c ∈ claimable db) :
    ∃ j, (c.key, j) ∈ db.all_jobs ∧ retries.waits 3 j = true := by
  obtain ⟨tbl, hc⟩ := mem_claimable.mp hc
  cases tbl
  all_goals
    obtain ⟨r, hr, rfl⟩ := List.mem_map.mp hc
    obtain ⟨hr, hwaits⟩ := List.mem_filter.mp hr
    refine ⟨⟨r.embedding.isSome, r.embedding_attempts⟩, ?_, by simpa [retries.waits] using hwaits⟩
    exact mem_all_jobs.mpr (List.mem_map.mpr ⟨r, hr, rfl⟩)

/-- The row has a vector now, or one attempt more. -/
def Progressed (db db' : Db K) (c : Claim) : Prop :=
  ∃ j j', db.job c.key = some j ∧ db'.job c.key = some j' ∧
    ((j'.done = true ∧ j'.attempts = j.attempts) ∨
      (j'.done = false ∧ j'.attempts = j.attempts + 1))

theorem batch_progress [Field K] [LinearOrder K] (o : Outside K) (cfg : Settings) {env : BatchEnv}
    (hkeys : ∀ t, env.key_failed t = false) (h : db.OneRowPerId) (htexts : db.TextsWait) :
    ∀ c ∈ claim_batch (fun _ _ => false) db,
      Progressed db (process_embedding_batch o cfg env (fun _ _ => false) db).db c := by
  intro c hc
  obtain ⟨tbl, -, hquery⟩ := List.mem_flatMap.mp hc
  obtain ⟨r, hr, hid, hdone, -⟩ := claim_query_job hquery
  have htbl := claim_query_tbl hquery
  subst htbl
  have hpick : (c.tbl, r.1) ∈ (batch_round env db).picks := by
    rw [hid]
    exact List.mem_map_of_mem hc
  have hafter : (r.1, retries.tried (env.failed c.tbl r.1) r.2) ∈
      (process_embedding_batch o cfg env (fun _ _ => false) db).db.jobs c.tbl := by
    rw [batch_jobs o cfg hkeys h htexts]
    exact List.mem_map.mpr ⟨r, hr, if_pos hpick⟩
  have hold := job_of_mem (h c.tbl) hr
  have hnew := job_of_mem (batch_ids o cfg hkeys h htexts c.tbl) hafter
  simp only [hid] at hold hnew
  refine ⟨_, _, hold, hnew, ?_⟩
  cases env.failed c.tbl c.id with
  | true => exact Or.inr ⟨hdone, rfl⟩
  | false => exact Or.inl ⟨rfl, rfl⟩

theorem batch_attempts_left [Field K] [LinearOrder K] (o : Outside K) (cfg : Settings)
    {env : BatchEnv} (hkeys : ∀ t, env.key_failed t = false) (h : db.OneRowPerId)
    (htexts : db.TextsWait) (hwaits : claimable db ≠ []) :
    (process_embedding_batch o cfg env (fun _ _ => false) db).db.attempts_left <
      db.attempts_left := by
  obtain ⟨c, hc⟩ := List.exists_mem_of_ne_nil _ hwaits
  obtain ⟨j, hj, hwaits⟩ := claimable_job hc
  rw [attempts_left_eq, attempts_left_eq, batch_all_jobs o cfg hkeys h htexts]
  exact (batch_round_fair h env).total_lt (all_jobs_nodup h) ⟨_, hj, hwaits⟩

/-- One worker, and waiting rows with texts. Each claimed row gets its vector or counts one attempt,
so the attempts that are left get fewer while a row waits. No row is tried more than three times.
After as many batches as there were attempts left no row waits, and each one whose calls do not
fail has its vector, whatever happens to the others. -/
theorem every_claimed_row_makes_progress [Field K] [LinearOrder K] (o : Outside K)
    (cfg : Settings) (db : Db K) (h : db.OneRowPerId) (htexts : db.TextsWait) :
    (∀ env : BatchEnv, (∀ t, env.key_failed t = false) →
      (∀ c ∈ claim_batch (fun _ _ => false) db,
        Progressed db (process_embedding_batch o cfg env (fun _ _ => false) db).db c) ∧
      (claimable db ≠ [] →
        (process_embedding_batch o cfg env (fun _ _ => false) db).db.attempts_left <
          db.attempts_left) ∧
      (process_embedding_batch o cfg env (fun _ _ => false) db).db.OneRowPerId ∧
      (process_embedding_batch o cfg env (fun _ _ => false) db).db.TextsWait) ∧
    ∀ envs : List BatchEnv, (∀ env ∈ envs, ∀ t, env.key_failed t = false) →
      (∀ k, (embedding_batches o cfg envs db).2.count k ≤ 3) ∧
      (db.attempts_left ≤ envs.length →
        claimable (embedding_batches o cfg envs db).1 = [] ∧
        ∀ c ∈ claimable db, (∀ env ∈ envs, env.failed c.tbl c.id = false) →
          ∃ j, (embedding_batches o cfg envs db).1.job c.key = some j ∧ j.done = true) := by
  refine ⟨fun env hkeys => ⟨batch_progress o cfg hkeys h htexts,
    batch_attempts_left o cfg hkeys h htexts, batch_ids o cfg hkeys h htexts,
    batch_texts o cfg hkeys htexts⟩, fun envs hkeys => ?_⟩
  obtain ⟨hfair, hafter, hcalls, hids⟩ := embedding_batches_rounds o cfg hkeys h htexts
  have hnodup := all_jobs_nodup h
  constructor
  · intro k
    rw [hcalls]
    exact retries.count_le hfair hnodup k
  · intro hlong
    rw [attempts_left_eq, ← batch_rounds_length o cfg envs db] at hlong
    constructor
    · apply List.eq_nil_iff_forall_not_mem.mpr
      intro c hc
      obtain ⟨j, hj, hwaits⟩ := claimable_job hc
      rw [hafter] at hj
      rw [retries.drained hfair hnodup hlong _ hj] at hwaits
      cases hwaits
    · intro c hc hok
      obtain ⟨j, hj, hwaits⟩ := claimable_job hc
      obtain ⟨⟨k, j'⟩, hj', hk, hdone⟩ := retries.done_of_never_fails hfair hnodup hlong hj hwaits
        (batch_rounds_failed o cfg (k := c.key) hok db)
      simp only at hk hdone
      subst hk
      rw [← hafter] at hj'
      exact ⟨j', (job_of_all_jobs hids).mp hj', hdone⟩

def waiting_lesson (id : UUID) (attempts : Nat) : HindsightMemory ℚ :=
  { id, tenant_id := 7, agent_id := 1, type := .lesson, content := "pin the image"
    embedding_attempts := attempts, valid_from := 0, created_at := 0 }

/-- Two lessons, one of which has one attempt left. -/
def waiting_lessons : Db ℚ where
  hindsight_memories := [waiting_lesson 1 0, waiting_lesson 2 2]

/-- The first lesson fails in every batch. -/
def first_lesson_fails : BatchEnv where
  now := 0
  failed tbl id := tbl = .hindsight_memories && id = 1

theorem every_claimed_row_makes_progress_lessons :
    (∀ c ∈ claim_batch (fun _ _ => false) waiting_lessons, Progressed waiting_lessons
      (process_embedding_batch no_models {} first_lesson_fails (fun _ _ => false)
        waiting_lessons).db c) ∧
      claimable (embedding_batches no_models {} (List.replicate 4 first_lesson_fails)
        waiting_lessons).1 = [] := by
  obtain ⟨hbatch, hruns⟩ := every_claimed_row_makes_progress no_models {} waiting_lessons
    (fun tbl => by cases tbl <;> decide) (by unfold Db.TextsWait; decide)
  refine ⟨(hbatch first_lesson_fails fun _ => rfl).1, ((hruns _ ?_).2 (by decide)).1⟩
  intro env henv t
  rw [List.eq_of_mem_replicate henv]
  rfl

end qortia
