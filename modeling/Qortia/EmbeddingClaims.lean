-- The embedding workers next to each other. A worker claims its rows in one transaction, commits
-- it, and embeds them afterwards, so the row locks of `FOR UPDATE SKIP LOCKED` are gone when the
-- work begins. The laws are about who has which row in hand.
import Qortia.EmbeddingBatch
import Qortia.Lib.WorkQueue

namespace qortia

open work_queue (Job Hand Queue Exclusive Good)

variable {K : Type}

/-! ## The workers -/

/-- Where a worker is: between two batches, in the claim transaction with the tables that it has
still to ask, in the loops over the claimed rows with the tenant whose key it has, or in
`_embed_single_row`, before the vector is written and after it. -/
inductive BatchWorker where
  | idle
  | claiming (tables : List EmbeddedTable) (claims : List Claim)
  | embedding (tenant_id : Option UUID) (claims : List Claim)
  | trying (claim : Claim) (claims : List Claim)
  | written (claim : Claim) (claims : List Claim)
  deriving DecidableEq

/-- The rows that the worker has locked. The locks end with the claim transaction. -/
def BatchWorker.locks : BatchWorker → List Claim
  | .claiming _ claims => claims
  | .idle | .embedding .. | .trying .. | .written .. => []

structure Claiming (K : Type) where
  db : Db K
  workers : List BatchWorker
  tried : List (EmbeddedTable × UUID) := []
  deriving DecidableEq

/-- `rows_by_tenant`, flattened: the tenants in the order of their first rows. -/
def by_tenant (claims : List Claim) : List Claim :=
  (claims.map (·.tenant_id)).eraseDups.flatMap fun t => claims.filter (·.tenant_id = t)

/-- The steps of the worker `i`. `held` are rows that other transactions than the claims of the
workers have locked, and `linked` says how many links a memory gets before the database fails. -/
inductive ClaimingAction where
  | begin (i : Nat)
  | select (i : Nat) (held : List UUID)
  | commit (i : Nat)
  | fetch_key (i : Nat) (failed : Bool)
  | next (i : Nat)
  | write (i : Nat)
  | finish (i : Nat) (now : Timestamp)
  | fail (i : Nat) (now : Timestamp) (linked : Nat)
  | rest (i : Nat)

/-- The locked rows of a table. -/
def Claiming.locked (s : Claiming K) (held : List UUID) (tbl : EmbeddedTable) (id : UUID) : Bool :=
  id ∈ held || s.workers.any fun w => w.locks.any fun c => c.tbl = tbl && c.id = id

def Claiming.move (s : Claiming K) (i : Nat) (w : BatchWorker) : Claiming K :=
  { s with workers := s.workers.set i w }

section
variable [Field K] [LinearOrder K]

/-- What `_embed_single_row` does after the UPDATE of the vector. -/
def link_row (o : Outside K) (cfg : Settings) (now : Timestamp) (linked : Nat) (c : Claim)
    (db : Db K) : Db K :=
  match c.tbl, c.agent_id with
  | .hindsight_memories, some agent_id =>
    (EmbeddingBatch.link_and_dedup o cfg { now, linked := fun _ => linked } c.row agent_id
      (o.embedding c.text_to_embed) { db }).db
  | _, _ => db

def claiming_step (o : Outside K) (cfg : Settings) (s : Claiming K) :
    ClaimingAction → Option (Claiming K)
  | .begin i =>
    match s.workers[i]? with
    | some .idle => some (s.move i (.claiming embedded_tables []))
    | _ => none
  | .select i held =>
    match s.workers[i]? with
    | some (.claiming (tbl :: tables) claims) =>
      some (s.move i (.claiming tables (claims ++ claim_query (s.locked held tbl) s.db tbl)))
    | _ => none
  | .commit i =>
    match s.workers[i]? with
    | some (.claiming [] claims) => some (s.move i (.embedding none (by_tenant claims)))
    | _ => none
  | .fetch_key i failed =>
    match s.workers[i]? with
    | some (.embedding tenant_id (c :: claims)) =>
      if tenant_id = some c.tenant_id then none
      else if failed then
        some (s.move i
          (.embedding tenant_id ((c :: claims).filter fun c' => c'.tenant_id ≠ c.tenant_id)))
      else some (s.move i (.embedding (some c.tenant_id) (c :: claims)))
    | _ => none
  | .next i =>
    match s.workers[i]? with
    | some (.embedding tenant_id (c :: claims)) =>
      if tenant_id ≠ some c.tenant_id then none
      else if c.text_to_embed = "" then some (s.move i (.embedding tenant_id claims))
      else some { s.move i (.trying c claims) with tried := s.tried ++ [(c.tbl, c.id)] }
    | _ => none
  | .write i =>
    match s.workers[i]? with
    | some (.trying c claims) =>
      some { s.move i (.written c claims) with
        db := write_embedding c.tbl c.id (o.embedding c.text_to_embed) s.db }
    | _ => none
  | .finish i now =>
    match s.workers[i]? with
    | some (.written c claims) =>
      some { s.move i (.embedding (some c.tenant_id) claims) with
        db := link_row o cfg now LINK_TOP_N c s.db }
    | _ => none
  | .fail i now linked =>
    match s.workers[i]? with
    | some (.trying c claims) =>
      some { s.move i (.embedding (some c.tenant_id) claims) with
        db := count_attempt c.tbl c.id s.db }
    | some (.written c claims) =>
      some { s.move i (.embedding (some c.tenant_id) claims) with
        db := count_attempt c.tbl c.id (link_row o cfg now linked c s.db) }
    | _ => none
  | .rest i =>
    match s.workers[i]? with
    | some (.embedding _ []) => some (s.move i .idle)
    | _ => none

end

/-! ## The rows as jobs -/

def HindsightMemory.job (r : HindsightMemory K) : UUID × Job :=
  (r.id, ⟨r.embedding.isSome, r.embedding_attempts⟩)

def OrgMemory.job (r : OrgMemory K) : UUID × Job :=
  (r.id, ⟨r.embedding.isSome, r.embedding_attempts⟩)

def OrgKnowledge.job (r : OrgKnowledge K) : UUID × Job :=
  (r.id, ⟨r.embedding.isSome, r.embedding_attempts⟩)

def Entity.job (e : Entity K) : UUID × Job := (e.id, ⟨e.embedding.isSome, e.embedding_attempts⟩)

def Db.jobs (db : Db K) : EmbeddedTable → List (UUID × Job)
  | .hindsight_memories => db.hindsight_memories.map HindsightMemory.job
  | .org_memory => db.org_memory.map OrgMemory.job
  | .org_knowledge => db.org_knowledge.map OrgKnowledge.job
  | .qortia_entities => db.qortia_entities.map Entity.job

def Db.job (db : Db K) (k : EmbeddedTable × UUID) : Option Job :=
  ((db.jobs k.1).find? fun r => r.1 = k.2).map (·.2)

def Claim.key (c : Claim) : EmbeddedTable × UUID := (c.tbl, c.id)

/-- What a worker has in hand: the rows that it has claimed and is not done with. -/
def BatchWorker.hand : BatchWorker → Hand (EmbeddedTable × UUID)
  | .idle => {}
  | .claiming _ claims | .embedding _ claims => { todo := claims.map Claim.key }
  | .trying c claims => { current := some c.key, todo := claims.map Claim.key }
  | .written c claims => { current := some c.key, written := true, todo := claims.map Claim.key }

def Claiming.hand (s : Claiming K) (i : Nat) : Hand (EmbeddedTable × UUID) :=
  (s.workers[i]?.map BatchWorker.hand).getD {}

def Claiming.queue (s : Claiming K) : Queue Nat (EmbeddedTable × UUID) where
  job := s.db.job
  hand := s.hand
  tried := fun k => s.tried.count k

/-- No row is in the hands of two workers, no row is tried more than three times, and no row
counts more than three attempts. -/
structure ClaimsHold (s : Claiming K) : Prop where
  exclusive : ∀ i j, i ≠ j → ∀ k ∈ (s.hand i).keys, k ∉ (s.hand j).keys
  tries : ∀ k, s.tried.count k ≤ 3
  attempts : ∀ tbl, ∀ r ∈ s.db.jobs tbl, r.2.attempts ≤ 3

/-- The claim query finds no row that another worker has claimed in a committed transaction and is
not done with. -/
def ClaimsNothingTaken (s : Claiming K) : ClaimingAction → Prop
  | .select i held =>
    match s.workers[i]? with
    | some (.claiming (tbl :: _) _) =>
      ∀ c ∈ claim_query (s.locked held tbl) s.db tbl, ∀ j, j ≠ i → c.key ∉ (s.hand j).keys
    | _ => True
  | .begin _ | .commit _ | .fetch_key .. | .next _ | .write _ | .finish .. | .fail .. | .rest _ =>
    True

/-! ## The statements on the jobs -/

/-- The database with one job changed. -/
structure ChangesJob (k : EmbeddedTable × UUID) (f : Job → Job) (db db' : Db K) : Prop where
  jobs : ∀ tbl, db'.jobs tbl =
    if tbl = k.1 then rows.update (fun r => r.1 = k.2) (fun r => (r.1, f r.2)) (db.jobs tbl)
    else db.jobs tbl

theorem write_changes_job (tbl : EmbeddedTable) (id : UUID) (v : List K) (db : Db K) :
    ChangesJob (tbl, id) (fun j => { j with done := true }) db (write_embedding tbl id v db) := by
  refine ⟨fun tbl' => ?_⟩
  cases tbl <;> cases tbl'
  case hindsight_memories.hindsight_memories | org_memory.org_memory |
      org_knowledge.org_knowledge | qortia_entities.qortia_entities =>
    rw [if_pos rfl]
    apply rows.map_update_comm
    · intro _
      rfl
    · intro _
      rfl
  all_goals rfl

theorem count_changes_job (tbl : EmbeddedTable) (id : UUID) (db : Db K) :
    ChangesJob (tbl, id) (fun j => { j with attempts := j.attempts + 1 }) db
      (count_attempt tbl id db) := by
  refine ⟨fun tbl' => ?_⟩
  cases tbl <;> cases tbl'
  case hindsight_memories.hindsight_memories | org_memory.org_memory |
      org_knowledge.org_knowledge | qortia_entities.qortia_entities =>
    rw [if_pos rfl]
    apply rows.map_update_comm
    · intro _
      rfl
    · intro _
      rfl
  all_goals rfl

section
variable {k : EmbeddedTable × UUID} {f : Job → Job} {db db' : Db K}

theorem ChangesJob.job (h : ChangesJob k f db db') :
    db'.job = Function.update db.job k ((db.job k).map f) := by
  have hid : ∀ r : UUID × Job, (fun r : UUID × Job => r.1) (r.1, f r.2) = r.1 := fun _ => rfl
  funext k'
  unfold Db.job
  rw [h.jobs]
  by_cases htbl : k'.1 = k.1
  · rw [if_pos htbl, rows.find?_update_key hid, Option.map_map]
    by_cases hk : k' = k
    · subst hk
      rw [Function.update_self, Option.map_map]
      simp [Function.comp_def]
    · have hid : k'.2 ≠ k.2 := fun hid => hk (Prod.ext htbl hid)
      rw [Function.update_of_ne hk]
      simp [hid, Function.comp_def]
  · have hk : k' ≠ k := by
      rintro rfl
      exact htbl rfl
    rw [if_neg htbl, Function.update_of_ne hk]

theorem ChangesJob.ids (h : ChangesJob k f db db') (tbl : EmbeddedTable) :
    (db'.jobs tbl).map (·.1) = (db.jobs tbl).map (·.1) := by
  rw [h.jobs]
  split
  · apply rows.map_update
    intro _
    rfl
  · rfl

end

theorem mem_jobs_of_job {db : Db K} {k : EmbeddedTable × UUID} {j : Job} (h : db.job k = some j) :
    (k.2, j) ∈ db.jobs k.1 := by
  obtain ⟨r, hr, rfl⟩ := Option.map_eq_some_iff.mp h
  have hid := List.find?_some hr
  simp only [decide_eq_true_eq] at hid
  rw [← hid]
  exact List.mem_of_find?_eq_some hr

/-- The job of a row, where no two rows have one id. -/
theorem job_of_mem {db : Db K} {tbl : EmbeddedTable} (hkeyed : ((db.jobs tbl).map (·.1)).Nodup)
    {r : UUID × Job} (hr : r ∈ db.jobs tbl) : db.job (tbl, r.1) = some r.2 := by
  unfold Db.job
  cases hfind : (db.jobs tbl).find? fun r' => r'.1 = r.1 with
  | none =>
    have hne := List.find?_eq_none.mp hfind r hr
    simp at hne
  | some r' =>
    have hid := List.find?_some hfind
    simp only [decide_eq_true_eq] at hid
    rw [List.inj_on_of_nodup_map hkeyed (List.mem_of_find?_eq_some hfind) hr hid]
    rfl

/-! ## The claim query -/

section
variable {Row : Type} {tenant_id : Row → UUID} {created_at : Row → Timestamp} {found : List Row}

theorem mem_first_of_batch {r : Row} (h : r ∈ first_of_batch tenant_id created_at found) :
    r ∈ found := by
  unfold first_of_batch at h
  have h := (rows.order_asc_perm _ _).mem_iff.mp (List.mem_of_mem_take h)
  exact (rows.order_asc_perm _ _).mem_iff.mp h

theorem first_of_batch_nodup {Col : Type} {col : Row → Col} (h : (found.map col).Nodup) :
    ((first_of_batch tenant_id created_at found).map col).Nodup := by
  have hperm := (rows.order_asc_perm tenant_id (rows.order_asc created_at found)).trans
    (rows.order_asc_perm created_at found)
  have hsorted := (hperm.map col).nodup_iff.mpr h
  exact hsorted.sublist ((List.take_sublist _ _).map col)

end

theorem claim_query_tbl {locked : UUID → Bool} {db : Db K} {tbl : EmbeddedTable} {c : Claim}
    (h : c ∈ claim_query locked db tbl) : c.tbl = tbl := by
  cases tbl <;>
  · obtain ⟨r, -, rfl⟩ := List.mem_map.mp h
    rfl

/-- What the query finds has no vector and has attempts left. -/
theorem claim_query_job {locked : UUID → Bool} {db : Db K} {tbl : EmbeddedTable} {c : Claim}
    (h : c ∈ claim_query locked db tbl) :
    ∃ r ∈ db.jobs tbl, r.1 = c.id ∧ r.2.done = false ∧ r.2.attempts < 3 := by
  cases tbl <;>
  · obtain ⟨r, hr, rfl⟩ := List.mem_map.mp h
    obtain ⟨hr, hwhere⟩ := List.mem_filter.mp (mem_first_of_batch hr)
    simp only [Bool.and_eq_true, decide_eq_true_eq, Option.isNone_iff_eq_none] at hwhere
    refine ⟨_, List.mem_map_of_mem hr, rfl, ?_, hwhere.1.2⟩
    simp [HindsightMemory.job, OrgMemory.job, OrgKnowledge.job, Entity.job, hwhere.1.1]

theorem keys_nodup {Row : Type} {t : List Row} {id : Row → UUID} {tbl : EmbeddedTable}
    {p : Row → Bool} (h : (t.map id).Nodup) :
    ((t.filter p).map fun r => (tbl, id r)).Nodup := by
  have hkeys : ((t.map id).map (Prod.mk tbl)).Nodup := h.map (Prod.mk_right_injective tbl)
  rw [List.map_map] at hkeys
  exact hkeys.sublist (List.filter_sublist.map _)

theorem claim_query_nodup {locked : UUID → Bool} {db : Db K} {tbl : EmbeddedTable}
    (hkeyed : ((db.jobs tbl).map (·.1)).Nodup) :
    ((claim_query locked db tbl).map Claim.key).Nodup := by
  cases tbl <;>
  · unfold Db.jobs at hkeyed
    unfold claim_query
    rw [List.map_map] at hkeyed ⊢
    exact first_of_batch_nodup (keys_nodup hkeyed)

/-! ## The hands -/

theorem nodup_eraseDups {α : Type} [DecidableEq α] (l : List α) : l.eraseDups.Nodup := by
  induction h : l.length using Nat.strong_induction_on generalizing l with
  | _ n ih =>
    cases l with
    | nil => simp
    | cons a l =>
      rw [List.eraseDups_cons, List.nodup_cons]
      constructor
      · rw [List.mem_eraseDups]
        simp
      · refine ih _ ?_ _ rfl
        have hle := List.length_filter_le (fun b => !b == a) l
        rw [← h, List.length_cons]
        omega

theorem mem_by_tenant {claims : List Claim} {c : Claim} : c ∈ by_tenant claims ↔ c ∈ claims := by
  unfold by_tenant
  simp only [List.mem_flatMap, List.mem_eraseDups, List.mem_map, List.mem_filter,
    decide_eq_true_eq]
  constructor
  · rintro ⟨t, -, hc, -⟩
    exact hc
  · intro hc
    exact ⟨c.tenant_id, ⟨c, hc, rfl⟩, hc, rfl⟩

/-- The rows of a batch stay apart when they are grouped. -/
theorem by_tenant_nodup {claims : List Claim} (h : (claims.map Claim.key).Nodup) :
    ((by_tenant claims).map Claim.key).Nodup := by
  have hinj : ∀ c ∈ claims, ∀ c' ∈ claims, c.key = c'.key → c = c' :=
    fun c hc c' hc' => List.inj_on_of_nodup_map h hc hc'
  have hnodup : (by_tenant claims).Nodup := by
    unfold by_tenant
    rw [List.nodup_flatMap]
    refine ⟨fun t _ => h.of_map.filter _, ?_⟩
    refine (nodup_eraseDups _).imp ?_
    intro t t' hne c hc hc'
    simp only [List.mem_filter, decide_eq_true_eq] at hc hc'
    exact hne (hc.2.symm.trans hc'.2)
  refine hnodup.map_on fun c hc c' hc' => ?_
  exact hinj c (mem_by_tenant.mp hc) c' (mem_by_tenant.mp hc')

theorem hand_move {s : Claiming K} {i : Nat} {w : BatchWorker} (hi : s.workers[i]? = some w)
    (w' : BatchWorker) (db : Db K) (tried : List (EmbeddedTable × UUID)) :
    Claiming.hand { db, workers := s.workers.set i w', tried } =
      Function.update s.hand i w'.hand := by
  obtain ⟨hlt, -⟩ := List.getElem?_eq_some_iff.mp hi
  funext j
  unfold Claiming.hand
  by_cases hj : j = i
  · subst hj
    rw [Function.update_self]
    simp [hlt]
  · rw [Function.update_of_ne hj]
    simp [Ne.symm hj]

theorem hand_of_worker {s : Claiming K} {i : Nat} {w : BatchWorker}
    (hi : s.workers[i]? = some w) : s.hand i = w.hand := by
  unfold Claiming.hand
  rw [hi]
  rfl

/-! ## What the steps keep -/

/-- No claimed row is of a table that the worker has still to ask. -/
def BatchWorker.AsksOnce : BatchWorker → Prop
  | .claiming tables claims => tables.Nodup ∧ ∀ c ∈ claims, c.tbl ∉ tables
  | .idle | .embedding .. | .trying .. | .written .. => True

/-- The ids of a table are distinct, each worker asks a table once, and the rows are the jobs of a
good queue. -/
structure ClaimsGood (s : Claiming K) : Prop where
  keyed : ∀ tbl, ((s.db.jobs tbl).map (·.1)).Nodup
  tables : ∀ w ∈ s.workers, w.AsksOnce
  good : Good 3 s.queue

theorem asks_once_set {workers : List BatchWorker} (w' : BatchWorker)
    (h : ∀ w ∈ workers, w.AsksOnce) (hw' : w'.AsksOnce) (i : Nat) :
    ∀ w ∈ workers.set i w', w.AsksOnce := by
  intro w hw
  rcases List.mem_or_eq_of_mem_set hw with hw | rfl
  · exact h w hw
  · exact hw'

section
variable {s : Claiming K} {i : Nat} {w w' : BatchWorker} {claims : List Claim}

theorem ClaimsGood.nodup (hs : ClaimsGood s) (hi : s.workers[i]? = some w) :
    w.hand.keys.Nodup := by
  have h := hs.good.nodup i
  change (s.hand i).keys.Nodup at h
  rwa [hand_of_worker hi] at h

/-- A worker that tries no row holds other open rows. -/
theorem ClaimsGood.hold (hs : ClaimsGood s) (hi : s.workers[i]? = some w)
    (hcurrent : w.hand.current = none) (hw' : w'.hand = { todo := claims.map Claim.key })
    (hnodup : (claims.map Claim.key).Nodup)
    (hopen : ∀ k ∈ claims.map Claim.key, s.queue.Open 3 k) (htables : w'.AsksOnce) :
    ClaimsGood (s.move i w') := by
  refine ⟨hs.keyed, asks_once_set w' hs.tables htables i, ?_⟩
  have hhand : s.queue.hand i = w.hand := hand_of_worker hi
  have hmove := hand_move hi w' s.db s.tried
  rw [hw'] at hmove
  refine hs.good.hold ?_ hnodup hopen hmove rfl rfl
  rw [hhand]
  exact hcurrent

/-- A worker lets go of rows between two tries, or only goes on. -/
theorem ClaimsGood.let_go (hs : ClaimsGood s) (hq : Exclusive s.queue)
    (hi : s.workers[i]? = some w) (hcurrent : w.hand.current = none)
    (hw' : w'.hand = { todo := claims.map Claim.key }) (hnodup : (claims.map Claim.key).Nodup)
    (hsub : ∀ k ∈ claims.map Claim.key, k ∈ w.hand.todo) (htables : w'.AsksOnce) :
    ClaimsGood (s.move i w') ∧ Exclusive (s.move i w').queue := by
  have hhand : s.queue.hand i = w.hand := hand_of_worker hi
  constructor
  · refine hs.hold hi hcurrent hw' hnodup (fun k hk => ?_) htables
    apply hs.good.todo i
    rw [hhand]
    exact hsub k hk
  · refine hq.let_go (hand_move hi w' s.db s.tried) fun k hk => ?_
    rw [hhand]
    rw [hw'] at hk
    exact work_queue.mem_keys.mpr (Or.inr (hsub k hk))

theorem ClaimsGood.exclusive (hs : ClaimsGood s) : ClaimsHold s ↔ Exclusive s.queue := by
  refine ⟨fun h => h.exclusive, fun h => ⟨h, hs.good.tries, fun tbl r hr => ?_⟩⟩
  exact hs.good.attempts _ _ (job_of_mem (hs.keyed tbl) hr)

theorem claim_open (hs : ClaimsGood s) {held : List UUID} {tbl : EmbeddedTable} {c : Claim}
    (hc : c ∈ claim_query (s.locked held tbl) s.db tbl) : s.queue.Open 3 c.key := by
  obtain ⟨r, hr, hid, hdone, hlt⟩ := claim_query_job hc
  refine ⟨r.2, ?_, hdone, hlt⟩
  have hjob := job_of_mem (hs.keyed tbl) hr
  rw [hid, ← claim_query_tbl hc] at hjob
  exact hjob

/-- The query of one more table. -/
theorem ClaimsGood.select (hs : ClaimsGood s) (hq : Exclusive s.queue) {tbl : EmbeddedTable}
    {tables : List EmbeddedTable} (hi : s.workers[i]? = some (.claiming (tbl :: tables) claims))
    (held : List UUID) :
    ClaimsGood (s.move i
      (.claiming tables (claims ++ claim_query (s.locked held tbl) s.db tbl))) ∧
      (Exclusive (s.move i
        (.claiming tables (claims ++ claim_query (s.locked held tbl) s.db tbl))).queue ↔
        ∀ c ∈ claim_query (s.locked held tbl) s.db tbl, ∀ j, j ≠ i → c.key ∉ (s.hand j).keys) := by
  obtain ⟨htables, hclaims⟩ := hs.tables _ (List.mem_of_getElem? hi)
  have hhand : s.queue.hand i = { todo := claims.map Claim.key } := hand_of_worker hi
  have hfound : ((claim_query (s.locked held tbl) s.db tbl).map Claim.key).Nodup :=
    claim_query_nodup (hs.keyed tbl)
  constructor
  · refine hs.hold hi rfl rfl ?_ ?_ ?_
    · rw [List.map_append, List.nodup_append]
      refine ⟨hs.nodup hi, hfound, ?_⟩
      rintro k hk k' hk' rfl
      obtain ⟨c, hc, rfl⟩ := List.mem_map.mp hk
      obtain ⟨c', hc', hkey⟩ := List.mem_map.mp hk'
      have htbl := congrArg Prod.fst hkey
      apply hclaims c hc
      rw [← show c'.tbl = c.tbl from htbl, claim_query_tbl hc']
      exact List.mem_cons_self
    · intro k hk
      rw [List.map_append, List.mem_append] at hk
      rcases hk with hk | hk
      · apply hs.good.todo i
        rw [hhand]
        exact hk
      · obtain ⟨c, hc, rfl⟩ := List.mem_map.mp hk
        exact claim_open hs hc
    · refine ⟨htables.of_cons, fun c hc => ?_⟩
      rcases List.mem_append.mp hc with hc | hc
      · exact fun h => hclaims c hc (List.mem_cons_of_mem _ h)
      · rw [claim_query_tbl hc]
        exact (List.nodup_cons.mp htables).1
  · have hkeys : ∀ k, k ∈ (BatchWorker.claiming tables
        (claims ++ claim_query (s.locked held tbl) s.db tbl)).hand.keys ↔
          k ∈ (s.queue.hand i).keys ∨
            k ∈ (claim_query (s.locked held tbl) s.db tbl).map Claim.key := by
      intro k
      rw [hhand]
      simp [BatchWorker.hand, Hand.keys]
    rw [hq.take_iff (hand_move hi _ s.db s.tried) hkeys, List.forall_mem_map]
    rfl

/-- A worker starts to try a row. -/
theorem ClaimsGood.start (hs : ClaimsGood s) (hq : Exclusive s.queue) {tenant_id : Option UUID}
    {c : Claim} (hi : s.workers[i]? = some (.embedding tenant_id (c :: claims))) :
    ClaimsGood { s.move i (.trying c claims) with tried := s.tried ++ [c.key] } ∧
      Exclusive
        (Claiming.queue { s.move i (.trying c claims) with tried := s.tried ++ [c.key] }) := by
  have hhand : s.queue.hand i = { todo := c.key :: claims.map Claim.key } := hand_of_worker hi
  have hmove := hand_move hi (.trying c claims) s.db (s.tried ++ [c.key])
  constructor
  · refine ⟨hs.keyed, asks_once_set (.trying c claims) hs.tables trivial i, ?_⟩
    have hcurrent : (s.queue.hand i).current = none := by rw [hhand]
    have htodo : (s.queue.hand i).todo = c.key :: claims.map Claim.key := by rw [hhand]
    refine hs.good.start hq hcurrent htodo hmove rfl ?_
    · funext k
      change (s.tried ++ [c.key]).count k = _
      rw [List.count_append, List.count_singleton]
      by_cases hk : k = c.key
      · subst hk
        rw [Function.update_self]
        simp [Claiming.queue]
      · rw [Function.update_of_ne hk]
        simp [Ne.symm hk, Claiming.queue]
  · refine hq.let_go hmove fun k hk => ?_
    rw [hhand]
    exact hk

/-- A worker writes the vector of the row that it tries. -/
theorem ClaimsGood.write (hs : ClaimsGood s) (hq : Exclusive s.queue) {c : Claim}
    (hi : s.workers[i]? = some (.trying c claims)) {db : Db K}
    (hdb : ChangesJob c.key (fun j => { j with done := true }) s.db db) :
    ClaimsGood { s.move i (.written c claims) with db := db } ∧
      Exclusive (Claiming.queue { s.move i (.written c claims) with db := db }) := by
  have hhand : s.queue.hand i = { current := some c.key, todo := claims.map Claim.key } :=
    hand_of_worker hi
  have hmove := hand_move hi (.written c claims) db s.tried
  constructor
  · refine ⟨fun tbl => ?_, asks_once_set (.written c claims) hs.tables trivial i, ?_⟩
    · change ((db.jobs tbl).map (·.1)).Nodup
      rw [hdb.ids]
      exact hs.keyed tbl
    · have hcurrent : (s.queue.hand i).current = some c.key := by rw [hhand]
      refine hs.good.write hq hcurrent ?_ hdb.job rfl
      rw [hhand]
      exact hmove
  · refine hq.let_go hmove fun k hk => ?_
    rw [hhand]
    exact hk

/-- A try fails. -/
theorem ClaimsGood.fail (hs : ClaimsGood s) (hq : Exclusive s.queue) {c : Claim}
    (hi : s.workers[i]? = some w) (hw : w.hand.current = some c.key)
    (htodo : w.hand.todo = claims.map Claim.key) {db : Db K}
    (hdb : ChangesJob c.key (fun j => { j with attempts := j.attempts + 1 }) s.db db) :
    ClaimsGood { s.move i (.embedding (some c.tenant_id) claims) with db := db } ∧
      Exclusive
        (Claiming.queue { s.move i (.embedding (some c.tenant_id) claims) with db := db }) := by
  have hhand : s.queue.hand i = w.hand := hand_of_worker hi
  have hmove := hand_move hi (.embedding (some c.tenant_id) claims) db s.tried
  constructor
  · refine ⟨fun tbl => ?_,
      asks_once_set (.embedding (some c.tenant_id) claims) hs.tables trivial i, ?_⟩
    · change ((db.jobs tbl).map (·.1)).Nodup
      rw [hdb.ids]
      exact hs.keyed tbl
    · have hcurrent : (s.queue.hand i).current = some c.key := by rw [hhand, hw]
      refine hs.good.fail hq hcurrent ?_ hdb.job rfl
      rw [hhand, htodo]
      exact hmove
  · refine hq.let_go hmove fun k hk => ?_
    rw [hhand]
    apply work_queue.mem_keys.mpr
    rw [htodo]
    exact Or.inr hk

/-- A worker is done with a row whose vector is written. -/
theorem ClaimsGood.finish (hs : ClaimsGood s) (hq : Exclusive s.queue) {c : Claim}
    (hi : s.workers[i]? = some (.written c claims)) {db : Db K} (hdb : db.jobs = s.db.jobs) :
    ClaimsGood { s.move i (.embedding (some c.tenant_id) claims) with db := db } ∧
      Exclusive
        (Claiming.queue { s.move i (.embedding (some c.tenant_id) claims) with db := db }) := by
  have hhand : s.queue.hand i =
      { current := some c.key, written := true, todo := claims.map Claim.key } := hand_of_worker hi
  have hmove := hand_move hi (.embedding (some c.tenant_id) claims) db s.tried
  constructor
  · refine ⟨fun tbl => ?_,
      asks_once_set (.embedding (some c.tenant_id) claims) hs.tables trivial i, ?_⟩
    · change ((db.jobs tbl).map (·.1)).Nodup
      rw [hdb]
      exact hs.keyed tbl
    · have hcurrent : (s.queue.hand i).current = some c.key := by rw [hhand]
      have hwritten : (s.queue.hand i).written = true := by rw [hhand]
      refine hs.good.finish hcurrent hwritten ?_ ?_ rfl
      · rw [hhand]
        exact hmove
      · unfold Claiming.queue Db.job
        rw [← hdb]
  · refine hq.let_go hmove fun k hk => ?_
    rw [hhand]
    exact work_queue.mem_keys.mpr (Or.inr hk)

end

section
variable [Field K] [LinearOrder K] (o : Outside K) (cfg : Settings)

omit [Field K] [LinearOrder K] in
theorem upsert_links_jobs (memory_id tenant_id : UUID) (similar : List (UUID × K)) (db : Db K) :
    (similar.foldl (fun db similar => upsert_memory_link memory_id tenant_id similar db) db).jobs =
      db.jobs := by
  induction similar generalizing db with
  | nil => rfl
  | cons x similar ih =>
    rw [List.foldl_cons, ih]
    rfl

theorem link_row_jobs (now : Timestamp) (linked : Nat) (c : Claim) (db : Db K) :
    (link_row o cfg now linked c db).jobs = db.jobs := by
  unfold link_row
  split
  · exact upsert_links_jobs _ _ _ _
  · rfl

/-- What every step keeps: the queue is good, and the hands stay exclusive exactly when the step
claims nothing that is taken. -/
theorem claiming_step_keeps {s s' : Claiming K} {a : ClaimingAction} (hs : ClaimsGood s)
    (hq : Exclusive s.queue) (h : claiming_step o cfg s a = some s') :
    ClaimsGood s' ∧ (Exclusive s'.queue ↔ ClaimsNothingTaken s a) := by
  have hfree {s' : Claiming K} (h : ClaimsGood s' ∧ Exclusive s'.queue) :
      ClaimsGood s' ∧ (Exclusive s'.queue ↔ True) :=
    ⟨h.1, iff_of_true h.2 trivial⟩
  cases a with
  | begin i =>
    simp only [claiming_step] at h
    split at h
    · rename_i hi
      cases h
      have hnone : (BatchWorker.claiming embedded_tables []).hand =
          { todo := ([] : List Claim).map Claim.key } := rfl
      refine hfree (hs.let_go hq hi rfl hnone List.nodup_nil ?_ ?_)
      · intro k hk
        cases hk
      · exact ⟨by decide, fun c hc => by cases hc⟩
    · cases h
  | select i held =>
    simp only [claiming_step] at h
    split at h
    · rename_i tbl tables claims hi
      cases h
      unfold ClaimsNothingTaken
      simp only [hi]
      exact hs.select hq hi held
    · cases h
  | commit i =>
    simp only [claiming_step] at h
    split at h
    · rename_i claims hi
      cases h
      refine hfree (hs.let_go hq hi rfl rfl (by_tenant_nodup (hs.nodup hi)) ?_ trivial)
      intro k hk
      obtain ⟨c, hc, rfl⟩ := List.mem_map.mp hk
      exact List.mem_map_of_mem (mem_by_tenant.mp hc)
    · cases h
  | fetch_key i failed =>
    simp only [claiming_step] at h
    split at h
    · rename_i tenant_id c claims hi
      have hnodup : ((c :: claims).map Claim.key).Nodup := hs.nodup hi
      split at h
      · cases h
      · split at h
        · cases h
          have hsub := List.filter_sublist (p := fun c' => c'.tenant_id ≠ c.tenant_id)
            (l := c :: claims)
          refine hfree (hs.let_go hq hi rfl rfl (hnodup.sublist (hsub.map _)) ?_ trivial)
          intro k hk
          exact (hsub.map Claim.key).subset hk
        · cases h
          exact hfree (hs.let_go hq hi rfl rfl hnodup (fun k hk => hk) trivial)
    · cases h
  | next i =>
    simp only [claiming_step] at h
    split at h
    · rename_i tenant_id c claims hi
      have hnodup : ((c :: claims).map Claim.key).Nodup := hs.nodup hi
      split at h
      · cases h
      · split at h
        · cases h
          refine hfree (hs.let_go hq hi rfl rfl hnodup.of_cons ?_ trivial)
          intro k hk
          exact List.mem_cons_of_mem _ hk
        · cases h
          exact hfree (hs.start hq hi)
    · cases h
  | write i =>
    simp only [claiming_step] at h
    split at h
    · rename_i c claims hi
      cases h
      exact hfree (hs.write hq hi (write_changes_job _ _ _ _))
    · cases h
  | finish i now =>
    simp only [claiming_step] at h
    split at h
    · rename_i c claims hi
      cases h
      exact hfree (hs.finish hq hi (link_row_jobs o cfg now LINK_TOP_N c s.db))
    · cases h
  | fail i now linked =>
    simp only [claiming_step] at h
    split at h
    · rename_i c claims hi
      cases h
      exact hfree (hs.fail hq hi rfl rfl (count_changes_job _ _ _))
    · rename_i c claims hi
      cases h
      refine hfree (hs.fail hq hi rfl rfl ⟨fun tbl => ?_⟩)
      rw [(count_changes_job c.tbl c.id (link_row o cfg now linked c s.db)).jobs, link_row_jobs]
      rfl
    · cases h
  | rest i =>
    simp only [claiming_step] at h
    split at h
    · rename_i tenant_id hi
      cases h
      have hnone : BatchWorker.idle.hand = { todo := ([] : List Claim).map Claim.key } := rfl
      refine hfree (hs.let_go hq hi rfl hnone List.nodup_nil ?_ trivial)
      intro k hk
      cases hk
    · cases h

theorem nothing_taken_of_disabled {s : Claiming K} {a : ClaimingAction}
    (h : claiming_step o cfg s a = none) : ClaimsNothingTaken s a := by
  cases a with
  | select i held =>
    simp only [claiming_step] at h
    unfold ClaimsNothingTaken
    simp only
    split
    · rename_i hi
      rw [hi] at h
      cases h
    · trivial
  | _ => trivial

end

/-! ## Any number of workers -/

theorem idle_hand (db : Db K) (n i : Nat) :
    Claiming.hand { db, workers := List.replicate n .idle } i = {} := by
  unfold Claiming.hand
  rw [List.getElem?_replicate]
  split
  · rfl
  · rfl

theorem idle_good {db : Db K} (hkeyed : ∀ tbl, ((db.jobs tbl).map (·.1)).Nodup)
    (hattempts : ∀ tbl, ∀ r ∈ db.jobs tbl, r.2.attempts ≤ 3) (n : Nat) :
    ClaimsGood { db, workers := List.replicate n .idle } := by
  refine ⟨hkeyed, fun w hw => ?_, ?_⟩
  · rw [List.eq_of_mem_replicate hw]
    trivial
  · refine Good.idle (idle_hand db n) (fun k => rfl) fun k j hj => ?_
    exact hattempts _ _ (mem_jobs_of_job hj)

/-- For any number of workers and any order of their steps: no row is in two hands, none is tried
more than three times and none counts more than three attempts, exactly when no claim query finds
a row that another worker took in a committed claim and is not done with. -/
theorem embedding_claims_exclusive_iff [Field K] [LinearOrder K] (o : Outside K) (cfg : Settings)
    {db : Db K} (hkeyed : ∀ tbl, ((db.jobs tbl).map (·.1)).Nodup)
    (hattempts : ∀ tbl, ∀ r ∈ db.jobs tbl, r.2.attempts ≤ 3) (n : Nat)
    (actions : List ClaimingAction) :
    runs.Always (claiming_step o cfg) ClaimsHold { db, workers := List.replicate n .idle }
        actions ↔
      runs.Guarded (claiming_step o cfg) ClaimsNothingTaken
        { db, workers := List.replicate n .idle } actions := by
  have hs := idle_good hkeyed hattempts n
  have hP := hs.exclusive.mpr (Exclusive.idle (idle_hand db n))
  refine runs.always_iff_guarded (fun s a h => nothing_taken_of_disabled o cfg h) ?_ ?_ hs hP
  · intro s a s' hs hP h
    obtain ⟨hs', hiff⟩ := claiming_step_keeps o cfg hs (hs.exclusive.mp hP) h
    rw [hs'.exclusive, hiff]
  · intro s a s' hs hP _ h
    exact (claiming_step_keeps o cfg hs (hs.exclusive.mp hP) h).1

/-- The worker `i` claims, before any worker embeds. -/
def claims_batch (i : Nat) : List ClaimingAction :=
  [.begin i, .select i [], .select i [], .select i [], .select i [], .commit i]

/-- The worker `i` fails on the one row that it has. -/
def fails_on_it (i : Nat) : List ClaimingAction :=
  [.fetch_key i false, .next i, .fail i 0 0, .rest i]

/-- One worker fails twice on a decision, then two workers claim it. -/
def two_workers_claim_it : List ClaimingAction :=
  claims_batch 0 ++ fails_on_it 0 ++ claims_batch 0 ++ fails_on_it 0 ++
    claims_batch 0 ++ claims_batch 1 ++ fails_on_it 0 ++ fails_on_it 1

/-- Two workers that take turns. -/
theorem embedding_claims_exclusive_iff_in_turn :
    runs.Always (claiming_step no_models {}) ClaimsHold
        { db := unembedded .decision, workers := List.replicate 2 .idle }
        (claims_batch 0 ++ fails_on_it 0 ++ claims_batch 1 ++ fails_on_it 1) ↔
      runs.Guarded (claiming_step no_models {}) ClaimsNothingTaken
        { db := unembedded .decision, workers := List.replicate 2 .idle }
        (claims_batch 0 ++ fails_on_it 0 ++ claims_batch 1 ++ fails_on_it 1) :=
  embedding_claims_exclusive_iff no_models {} (fun tbl => by cases tbl <;> decide)
    (fun tbl => by cases tbl <;> decide) 2 _

theorem tried_four_times_holds_not (s : Claiming ℚ)
    (h : decide (s.tried.count (.hindsight_memories, 0) = 4) = true) : ¬ ClaimsHold s := by
  intro hP
  have htries := hP.tries (.hindsight_memories, 0)
  rw [of_decide_eq_true h] at htries
  omega

/-- The decision is tried four times, and the last two tries overlap. -/
theorem two_workers_try_one_row :
    ¬ runs.Always (claiming_step no_models {}) ClaimsHold
      { db := unembedded .decision, workers := List.replicate 2 .idle } two_workers_claim_it :=
  runs.not_always_of_check tried_four_times_holds_not (by decide +kernel)

end qortia
