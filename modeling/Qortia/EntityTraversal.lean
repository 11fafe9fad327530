-- The laws of `_bfs_entity_traversal`: which entities it visits in which hop, whatever rows the
-- LIMIT without an order keeps, and the boosts of their memories.
import Mathlib.Algebra.Order.Field.Basic
import Mathlib.Data.Rat.Cast.Order
import Mathlib.Tactic.NormNum
import Mathlib.Tactic.Positivity
import Qortia.Lib.Limit
import Qortia.Lib.Maxima
import Qortia.Recall

namespace qortia

variable {K : Type} [Field K] [LinearOrder K]

/-! ## The levels of the graph -/

/-- The rows of the join of one hop, before the LIMIT: one for each visited entity that shares a
memory with a new one. -/
def hop_rows (o : Outside K) (query_embedding : List K) (visited : List UUID) (tenant_id : UUID)
    (db : Db K) : List (Entity K × K) :=
  (db.qortia_entities.filter fun e1 => e1.id ∈ visited && e1.tenant_id = tenant_id).flatMap
    fun e1 => db.qortia_entities.filterMap fun e2 => e2.embedding.bind fun v =>
      let similarity := o.similarity v query_embedding
      if (e2.linked_memory_ids.any fun i => i ∈ e1.linked_memory_ids) && e2.id ∉ visited &&
          e2.tenant_id = tenant_id && ((3 / 10 : ℚ) : K) ≤ similarity then
        some (e2, similarity)
      else none

/-- The seeds, and the entities that are reached from them within `d` hops. -/
def reached (o : Outside K) (query_embedding : List K) (seed_ids : List UUID) (tenant_id : UUID)
    (db : Db K) : Nat → List UUID
  | 0 => seed_ids
  | d + 1 => reached o query_embedding seed_ids tenant_id db d ++
      (hop_rows o query_embedding (reached o query_embedding seed_ids tenant_id db d) tenant_id
        db).map (·.1.id)

/-- The rows of the hop after `d` hops. Their entities are those at the distance `d + 1`. -/
def level (o : Outside K) (query_embedding : List K) (seed_ids : List UUID) (tenant_id : UUID)
    (db : Db K) (d : Nat) : List (Entity K × K) :=
  hop_rows o query_embedding (reached o query_embedding seed_ids tenant_id db d) tenant_id db

/-- `hop_boost` of an entity. -/
def hop_boost (row : Entity K × K) (current_decay : K) : K :=
  row.2 * (1 / 2 : ℚ) / (1 + (1 / 1000 : ℚ) *
    ((((row.1.linked_memory_ids.length : Int) - 1 : Int) : K) *
      (((row.1.linked_memory_ids.length : Int) - 1 : Int) : K))) * current_decay

/-- What the entities up to the distance `d` give a memory. -/
def boosts_within (o : Outside K) (query_embedding : List K) (seed_ids : List UUID)
    (tenant_id : UUID) (db : Db K) (decay : K) (d : Nat) (mid : UUID) : Set K :=
  { b | ∃ k < d, ∃ row ∈ level o query_embedding seed_ids tenant_id db k,
    mid ∈ row.1.linked_memory_ids ∧ b = hop_boost row (decay ^ (k + 1)) }

/-! ## The rows of a hop -/

theorem next_entities_eq (o : Outside K) (unordered : ∀ {α : Type}, List α → List α)
    (query_embedding : List K) (visited : List UUID) (tenant_id : UUID) (db : Db K) :
    next_entities o unordered query_embedding visited tenant_id db =
      (unordered (hop_rows o query_embedding visited tenant_id db)).take 10 := rfl

section
variable {o : Outside K} {query_embedding : List K} {seed_ids visited : List UUID}
  {tenant_id : UUID} {db : Db K} {row : Entity K × K}

/-- A hop finds the new entities of the tenant that share a memory with a visited one and are
similar to the query. -/
theorem mem_hop_rows : row ∈ hop_rows o query_embedding visited tenant_id db ↔
    row.1 ∈ db.qortia_entities ∧ row.1.id ∉ visited ∧ row.1.tenant_id = tenant_id ∧
      row.1.embedding.map (o.similarity · query_embedding) = some row.2 ∧
      ((3 / 10 : ℚ) : K) ≤ row.2 ∧
      ∃ e1 ∈ db.qortia_entities, e1.id ∈ visited ∧ e1.tenant_id = tenant_id ∧
        ∃ i ∈ row.1.linked_memory_ids, i ∈ e1.linked_memory_ids := by
  unfold hop_rows
  constructor
  · intro hrow
    obtain ⟨e1, he1, hrow⟩ := List.mem_flatMap.mp hrow
    obtain ⟨e2, he2, hpick⟩ := List.mem_filterMap.mp hrow
    obtain ⟨v, hv, hpick⟩ := Option.bind_eq_some_iff.mp hpick
    obtain ⟨hjoin, hpick⟩ := Option.ite_none_right_eq_some.mp hpick
    cases hpick
    obtain ⟨he1, hfirst⟩ := List.mem_filter.mp he1
    simp only [Bool.and_eq_true, List.any_eq_true, decide_eq_true_eq] at hjoin hfirst
    obtain ⟨⟨⟨hshared, hnew⟩, htenant⟩, hsim⟩ := hjoin
    refine ⟨he2, hnew, htenant, ?_, hsim, e1, he1, hfirst.1, hfirst.2, hshared⟩
    rw [hv]
    rfl
  · rintro ⟨he2, hnew, htenant, hsim, hlarge, e1, he1, hvisited, htenant1, hshared⟩
    obtain ⟨v, hv, hsim⟩ := Option.map_eq_some_iff.mp hsim
    refine List.mem_flatMap.mpr ⟨e1, List.mem_filter.mpr ⟨he1, ?_⟩, ?_⟩
    · rw [decide_eq_true hvisited, decide_eq_true htenant1]
      rfl
    · refine List.mem_filterMap.mpr ⟨row.1, he2, Option.bind_eq_some_iff.mpr ⟨v, hv, ?_⟩⟩
      refine Option.ite_none_right_eq_some.mpr ⟨?_, ?_⟩
      · simp only [Bool.and_eq_true, List.any_eq_true, decide_eq_true_eq]
        exact ⟨⟨⟨hshared, hnew⟩, htenant⟩, by rw [hsim]; exact hlarge⟩
      · rw [hsim]

theorem hop_rows_congr {visited' : List UUID} (h : ∀ i, i ∈ visited ↔ i ∈ visited') :
    hop_rows o query_embedding visited tenant_id db =
      hop_rows o query_embedding visited' tenant_id db := by
  unfold hop_rows
  simp only [h]

/-- Rows of one entity are equal. -/
theorem hop_rows_id {row' : Entity K × K} (hids : (db.qortia_entities.map (·.id)).Nodup)
    (hrow : row ∈ hop_rows o query_embedding visited tenant_id db)
    (hrow' : row' ∈ hop_rows o query_embedding visited tenant_id db)
    (hid : row.1.id = row'.1.id) : row = row' := by
  obtain ⟨he, -, -, hsim, -⟩ := mem_hop_rows.mp hrow
  obtain ⟨he', -, -, hsim', -⟩ := mem_hop_rows.mp hrow'
  have hsame : row.1 = row'.1 := List.inj_on_of_nodup_map hids he he' hid
  rw [hsame, hsim'] at hsim
  exact Prod.ext hsame (Option.some.inj hsim).symm

theorem hop_boost_nonneg [IsStrictOrderedRing K] {current_decay : K} (hdecay : 0 ≤ current_decay)
    (hrow : row ∈ hop_rows o query_embedding visited tenant_id db) :
    0 ≤ hop_boost row current_decay := by
  obtain ⟨-, -, -, -, hsim, -⟩ := mem_hop_rows.mp hrow
  have hleast : (0 : K) ≤ ((3 / 10 : ℚ) : K) := Rat.cast_nonneg.mpr (by norm_num)
  have hhalf : (0 : K) ≤ ((1 / 2 : ℚ) : K) := Rat.cast_nonneg.mpr (by norm_num)
  have hsmall : (0 : K) ≤ ((1 / 1000 : ℚ) : K) := Rat.cast_nonneg.mpr (by norm_num)
  have hsim : 0 ≤ row.2 := hleast.trans hsim
  have hsquare := mul_self_nonneg (((row.1.linked_memory_ids.length : Int) - 1 : Int) : K)
  have hdenominator := add_nonneg zero_le_one (mul_nonneg hsmall hsquare)
  exact mul_nonneg (div_nonneg (mul_nonneg hsim hhalf) hdenominator) hdecay

/-! ## One hop -/

theorem raise_boost_eq {hop_boost : K} (h : 0 ≤ hop_boost) (boosts : List (UUID × K)) (mid : UUID) :
    raise_boost hop_boost boosts mid = maxima.raise mid hop_boost boosts := by
  unfold raise_boost maxima.raise
  rw [max_eq_right h]

theorem visit_entity_eq (t : Traversal K) (row : Entity K × K) :
    visit_entity t row =
      if row.1.id ∈ t.visited then t
      else { t with
        visited := t.visited ++ [row.1.id], frontier := t.frontier ++ [row.1.id]
        boosts := row.1.linked_memory_ids.foldl (raise_boost (hop_boost row t.current_decay))
          t.boosts } := rfl

theorem raise_boosts {boost : K} (h : 0 ≤ boost) {boosts : List (UUID × K)} {given : UUID → Set K}
    (hgiven : maxima.Holds boosts given) (mids : List UUID) :
    maxima.Holds (mids.foldl (raise_boost boost) boosts)
      fun mid => if mid ∈ mids then insert boost (given mid) else given mid := by
  have hraise : raise_boost boost = fun boosts mid => maxima.raise mid boost boosts := by
    funext boosts mid
    exact raise_boost_eq h boosts mid
  rw [hraise]
  exact hgiven.raise_all boost mids

/-- What the turns over the rows of a hop do. -/
structure Turns (rows : List (Entity K × K)) (t t' : Traversal K) : Prop where
  visited : ∀ i, i ∈ t'.visited ↔ i ∈ t.visited ∨ ∃ row ∈ rows, row.1.id = i
  frontier : t'.frontier = [] → t.frontier = [] ∧ ∀ row ∈ rows, row.1.id ∈ t.visited
  current_decay : t'.current_decay = t.current_decay
  boosts : ∀ given, maxima.Holds t.boosts given → maxima.Holds t'.boosts fun mid =>
    { b | b ∈ given mid ∨ ∃ row ∈ rows, row.1.id ∉ t.visited ∧ mid ∈ row.1.linked_memory_ids ∧
      b = hop_boost row t.current_decay }

theorem Turns.of_mem {found found' : List (Entity K × K)} {t t' : Traversal K}
    (h : Turns found t t') (hmem : ∀ row, row ∈ found ↔ row ∈ found') : Turns found' t t' where
  visited i := by
    rw [h.visited i]
    simp only [hmem]
  frontier hnil := by
    obtain ⟨hfrontier, hall⟩ := h.frontier hnil
    exact ⟨hfrontier, fun row hrow => hall row ((hmem row).mpr hrow)⟩
  current_decay := h.current_decay
  boosts given hgiven := (h.boosts given hgiven).congr fun mid b => by
    simp only [Set.mem_ofPred_eq, hmem]

theorem visit_entities {found : List (Entity K × K)} (t : Traversal K)
    (hsame : ∀ row ∈ found, ∀ row' ∈ found, row.1.id = row'.1.id → row = row')
    (hboost : ∀ row ∈ found, 0 ≤ hop_boost row t.current_decay) :
    Turns found t (found.foldl visit_entity t) := by
  induction found generalizing t with
  | nil => exact ⟨by simp, fun h => ⟨h, by simp⟩, rfl, fun given h => by simpa using h⟩
  | cons row found ih =>
    have hsame' : ∀ r ∈ found, ∀ r' ∈ found, r.1.id = r'.1.id → r = r' := fun r hr r' hr' =>
      hsame r (List.mem_cons_of_mem _ hr) r' (List.mem_cons_of_mem _ hr')
    rw [List.foldl_cons, visit_entity_eq]
    by_cases hold : row.1.id ∈ t.visited
    · rw [if_pos hold]
      have hrest := ih t hsame' fun r hr => hboost r (List.mem_cons_of_mem _ hr)
      refine ⟨fun i => ?_, fun hnil => ?_, hrest.current_decay, fun given hgiven => ?_⟩
      · rw [hrest.visited i, List.exists_mem_cons_iff]
        constructor
        · rintro (hi | hi)
          · exact Or.inl hi
          · exact Or.inr (Or.inr hi)
        · rintro (hi | rfl | hi)
          · exact Or.inl hi
          · exact Or.inl hold
          · exact Or.inr hi
      · obtain ⟨hfrontier, hall⟩ := hrest.frontier hnil
        exact ⟨hfrontier, List.forall_mem_cons.mpr ⟨hold, hall⟩⟩
      · refine (hrest.boosts given hgiven).congr fun mid b => or_congr_right ?_
        rw [List.exists_mem_cons_iff]
        exact ⟨fun h => h.resolve_left fun hrow => hrow.1 hold, Or.inr⟩
    · rw [if_neg hold]
      have hrest := ih { t with
        visited := t.visited ++ [row.1.id], frontier := t.frontier ++ [row.1.id]
        boosts := row.1.linked_memory_ids.foldl (raise_boost (hop_boost row t.current_decay))
          t.boosts } hsame' fun r hr => hboost r (List.mem_cons_of_mem _ hr)
      refine ⟨fun i => ?_, fun hnil => ?_, hrest.current_decay, fun given hgiven => ?_⟩
      · rw [hrest.visited i, List.mem_append, List.mem_singleton, List.exists_mem_cons_iff,
          or_assoc, eq_comm (a := i)]
      · have hfrontier := (hrest.frontier hnil).1
        simp at hfrontier
      · have hrow := raise_boosts (hboost row List.mem_cons_self) hgiven row.1.linked_memory_ids
        refine (hrest.boosts _ hrow).congr fun mid b => ?_
        simp only [Set.mem_ofPred_eq, List.exists_mem_cons_iff, List.mem_append, List.mem_singleton,
          not_or]
        constructor
        · rintro (hb | ⟨-, hmid, rfl⟩ | ⟨r, hr, hnew, hmid, rfl⟩)
          · left
            split
            · exact Set.mem_insert_of_mem _ hb
            · exact hb
          · rw [if_pos hmid]
            exact Or.inl (Set.mem_insert _ _)
          · by_cases hid : r.1.id = row.1.id
            · -- A second row of the entity gives its memories nothing new.
              have hr := hsame r (List.mem_cons_of_mem _ hr) row List.mem_cons_self hid
              subst hr
              rw [if_pos hmid]
              exact Or.inl (Set.mem_insert _ _)
            · exact Or.inr ⟨r, hr, ⟨hnew, hid⟩, hmid, rfl⟩
        · rintro (hb | ⟨r, hr, ⟨hnew, -⟩, hmid, rfl⟩)
          · split at hb
            · rename_i hmid
              rcases Set.mem_insert_iff.mp hb with rfl | hb
              · exact Or.inr (Or.inl ⟨hold, hmid, rfl⟩)
              · exact Or.inl hb
            · exact Or.inl hb
          · exact Or.inr (Or.inr ⟨r, hr, hnew, hmid, rfl⟩)

/-! ## The hops -/

/-- One turn of the loop over the hops. -/
def hop (o : Outside K) (unordered : ∀ {α : Type}, List α → List α) (query_embedding : List K)
    (tenant_id : UUID) (decay : K) (db : Db K) (t : Traversal K) : Traversal K :=
  let t' := (next_entities o unordered query_embedding t.visited tenant_id db).foldl
    visit_entity { t with frontier := [] }
  { t' with current_decay := t'.current_decay * decay }

/-- The last hop of some. -/
theorem bfs_hops_succ (o : Outside K) (unordered : ∀ {α : Type}, List α → List α)
    (query_embedding : List K) (tenant_id : UUID) (decay : K) (db : Db K) (d : Nat)
    (t : Traversal K) :
    bfs_hops o unordered query_embedding tenant_id decay db (d + 1) t =
      if (bfs_hops o unordered query_embedding tenant_id decay db d t).frontier = [] then
        bfs_hops o unordered query_embedding tenant_id decay db d t
      else hop o unordered query_embedding tenant_id decay db
        (bfs_hops o unordered query_embedding tenant_id decay db d t) := by
  induction d generalizing t with
  | zero => rfl
  | succ d ih =>
    have hunfold : ∀ n, bfs_hops o unordered query_embedding tenant_id decay db (n + 1) t =
        if t.frontier = [] then t
        else bfs_hops o unordered query_embedding tenant_id decay db n
          (hop o unordered query_embedding tenant_id decay db t) := fun n => rfl
    rw [hunfold (d + 1), hunfold d]
    by_cases hfrontier : t.frontier = []
    · rw [if_pos hfrontier, if_pos hfrontier, if_pos hfrontier]
    · rw [if_neg hfrontier, if_neg hfrontier, ih]

/-- The traversal after `d` hops that found all they could. -/
structure Complete (o : Outside K) (query_embedding : List K) (seed_ids : List UUID)
    (tenant_id : UUID) (decay : K) (db : Db K) (d : Nat) (t : Traversal K) : Prop where
  visited : ∀ i, i ∈ t.visited ↔ i ∈ reached o query_embedding seed_ids tenant_id db d
  boosts : maxima.Holds t.boosts (boosts_within o query_embedding seed_ids tenant_id db decay d)
  frontier : t.frontier = [] → level o query_embedding seed_ids tenant_id db d = []
  current_decay : t.frontier ≠ [] → t.current_decay = decay ^ (d + 1)

/-- No entity of the level has ten rows of other entities beside it. -/
def Uncrowded (o : Outside K) (query_embedding : List K) (seed_ids : List UUID) (tenant_id : UUID)
    (db : Db K) (d : Nat) : Prop :=
  ∀ row ∈ level o query_embedding seed_ids tenant_id db d,
    ((level o query_embedding seed_ids tenant_id db d).filter fun r => r.1.id ≠ row.1.id).length <
      10

/-- The traversal before the first hop. -/
def traversal_start (seed_ids : List UUID) (decay : K) : Traversal K :=
  { visited := seed_ids.dedup, frontier := seed_ids, current_decay := decay }

variable {decay : K} {d : Nat} {t : Traversal K}
  {unordered : ∀ {α : Type}, List α → List α}

theorem complete_start :
    Complete o query_embedding seed_ids tenant_id decay db 0 (traversal_start seed_ids decay) where
  visited _ := List.mem_dedup
  boosts := maxima.Holds.empty.congr fun mid b => by simp [boosts_within]
  frontier h := by
    have hseeds : seed_ids = [] := h
    simp [level, hop_rows, reached, hseeds]
  current_decay _ := by simp [traversal_start]

/-- A hop that finds nothing is the last one. -/
theorem Complete.stop (h : Complete o query_embedding seed_ids tenant_id decay db d t)
    (hfrontier : t.frontier = []) :
    Complete o query_embedding seed_ids tenant_id decay db (d + 1) t := by
  have hnone := h.frontier hfrontier
  have hreached : reached o query_embedding seed_ids tenant_id db (d + 1) =
      reached o query_embedding seed_ids tenant_id db d := by
    unfold level at hnone
    rw [reached, hnone, List.map_nil, List.append_nil]
  refine ⟨fun i => ?_, h.boosts.congr fun mid b => ?_, fun _ => ?_, fun hne => absurd hfrontier hne⟩
  · rw [hreached]
    exact h.visited i
  · constructor
    · rintro ⟨k, hk, row, hrow, hrest⟩
      rcases Nat.lt_succ_iff_lt_or_eq.mp hk with hk | rfl
      · exact ⟨k, hk, row, hrow, hrest⟩
      · rw [hnone] at hrow
        cases hrow
    · rintro ⟨k, hk, hrest⟩
      exact ⟨k, Nat.lt_succ_of_lt hk, hrest⟩
  · unfold level at hnone ⊢
    rw [hreached]
    exact hnone

theorem hop_turns [IsStrictOrderedRing K] (hids : (db.qortia_entities.map (·.id)).Nodup)
    (hperm : ∀ {α : Type} (l : List α), (unordered l).Perm l) (hdecay : 0 ≤ decay)
    (h : Complete o query_embedding seed_ids tenant_id decay db d t) (hfrontier : t.frontier ≠ []) :
    Turns ((unordered (level o query_embedding seed_ids tenant_id db d)).take 10)
      { t with frontier := [] }
      ((next_entities o unordered query_embedding t.visited tenant_id db).foldl visit_entity
        { t with frontier := [] }) := by
  have hmem : ∀ row ∈ (unordered (level o query_embedding seed_ids tenant_id db d)).take 10,
      row ∈ level o query_embedding seed_ids tenant_id db d := fun row hrow =>
    (hperm _).mem_iff.mp (List.mem_of_mem_take hrow)
  rw [next_entities_eq, hop_rows_congr h.visited]
  refine visit_entities _ (fun row hrow row' hrow' hid => ?_) fun row hrow => ?_
  · exact hop_rows_id hids (hmem row hrow) (hmem row' hrow') hid
  · refine hop_boost_nonneg ?_ (hmem row hrow)
    rw [h.current_decay hfrontier]
    exact pow_nonneg hdecay _

/-- An uncrowded level is visited in one hop. -/
theorem Complete.hop [IsStrictOrderedRing K] (hids : (db.qortia_entities.map (·.id)).Nodup)
    (hperm : ∀ {α : Type} (l : List α), (unordered l).Perm l) (hdecay : 0 ≤ decay)
    (h : Complete o query_embedding seed_ids tenant_id decay db d t) (hfrontier : t.frontier ≠ [])
    (huncrowded : Uncrowded o query_embedding seed_ids tenant_id db d) :
    Complete o query_embedding seed_ids tenant_id decay db (d + 1)
      (hop o unordered query_embedding tenant_id decay db t) := by
  have hturns := hop_turns hids hperm hdecay h hfrontier
  have hfound : ∀ row, row ∈ (unordered (level o query_embedding seed_ids tenant_id db d)).take 10 ↔
      row ∈ level o query_embedding seed_ids tenant_id db d := by
    intro row
    constructor
    · exact fun hrow => (hperm _).mem_iff.mp (List.mem_of_mem_take hrow)
    · intro hrow
      refine limit.mem_take (hperm _) (huncrowded row hrow) hrow fun r hr hid => ?_
      exact hop_rows_id hids hr hrow (by simpa using hid)
  have hnew : ∀ row ∈ level o query_embedding seed_ids tenant_id db d, row.1.id ∉ t.visited := by
    intro row hrow
    rw [h.visited]
    exact (mem_hop_rows.mp hrow).2.1
  have hturns := hturns.of_mem hfound
  refine ⟨fun i => ?_, ?_, fun hnil => ?_, fun _ => ?_⟩
  · rw [reached, List.mem_append, List.mem_map]
    refine (hturns.visited i).trans (or_congr (h.visited i) Iff.rfl)
  · refine (hturns.boosts _ h.boosts).congr fun mid b => ?_
    simp only [boosts_within, Set.mem_ofPred_eq]
    constructor
    · rintro ⟨k, hk, row, hrow, hmid, rfl⟩
      rcases Nat.lt_succ_iff_lt_or_eq.mp hk with hk | rfl
      · exact Or.inl ⟨k, hk, row, hrow, hmid, rfl⟩
      · exact Or.inr ⟨row, hrow, hnew row hrow, hmid, by rw [h.current_decay hfrontier]⟩
    · rintro (⟨k, hk, hrest⟩ | ⟨row, hrow, -, hmid, rfl⟩)
      · exact ⟨k, Nat.lt_succ_of_lt hk, hrest⟩
      · exact ⟨d, Nat.lt_succ_self d, row, hrow, hmid, by rw [h.current_decay hfrontier]⟩
  · -- The hop found nothing, and the next one would ask the same.
    have hnone : level o query_embedding seed_ids tenant_id db d = [] :=
      List.eq_nil_iff_forall_not_mem.mpr fun row hrow =>
        hnew row hrow ((hturns.frontier hnil).2 row hrow)
    unfold level at hnone ⊢
    rw [reached, hnone, List.map_nil, List.append_nil]
    exact hnone
  · have hkept := hturns.current_decay
    change _ * decay = _
    rw [hkept, h.current_decay hfrontier, pow_succ decay (d + 1)]

theorem complete_hops [IsStrictOrderedRing K] (hids : (db.qortia_entities.map (·.id)).Nodup)
    (hperm : ∀ {α : Type} (l : List α), (unordered l).Perm l) (hdecay : 0 ≤ decay)
    (huncrowded : ∀ k < d, Uncrowded o query_embedding seed_ids tenant_id db k) :
    Complete o query_embedding seed_ids tenant_id decay db d
      (bfs_hops o unordered query_embedding tenant_id decay db d
        (traversal_start seed_ids decay)) := by
  induction d with
  | zero => exact complete_start
  | succ d ih =>
    have hd := ih fun k hk => huncrowded k (Nat.lt_succ_of_lt hk)
    rw [bfs_hops_succ]
    split
    · rename_i hfrontier
      exact hd.stop hfrontier
    · rename_i hfrontier
      exact hd.hop hids hperm hdecay hfrontier (huncrowded d (Nat.lt_succ_self d))

/-- In some order of the rows, the first crowded level loses an entity. -/
theorem crowded_hop [IsStrictOrderedRing K] (hids : (db.qortia_entities.map (·.id)).Nodup)
    (hdecay : 0 ≤ decay) (huncrowded : ∀ k < d, Uncrowded o query_embedding seed_ids tenant_id db k)
    (hcrowded : ¬ Uncrowded o query_embedding seed_ids tenant_id db d) :
    ∃ unordered : ∀ {α : Type}, List α → List α, (∀ {α : Type} (l : List α), (unordered l).Perm l) ∧
      ∃ i ∈ reached o query_embedding seed_ids tenant_id db (d + 1),
        i ∉ (bfs_hops o unordered query_embedding tenant_id decay db (d + 1)
          (traversal_start seed_ids decay)).visited := by
  unfold Uncrowded at hcrowded
  push Not at hcrowded
  obtain ⟨row, hrow, hmany⟩ := hcrowded
  obtain ⟨unordered, hperm, hothers⟩ := limit.exists_order hmany
  have hd : Complete o query_embedding seed_ids tenant_id decay db d
      (bfs_hops o unordered query_embedding tenant_id decay db d
        (traversal_start seed_ids decay)) := complete_hops hids hperm hdecay huncrowded
  have hfrontier : (bfs_hops o unordered query_embedding tenant_id decay db d
      (traversal_start seed_ids decay)).frontier ≠ [] := by
    intro hnil
    rw [hd.frontier hnil] at hrow
    cases hrow
  refine ⟨unordered, hperm, row.1.id, ?_, ?_⟩
  · rw [reached]
    exact List.mem_append_right _ (List.mem_map_of_mem hrow)
  · rw [bfs_hops_succ, if_neg hfrontier]
    intro hvisited
    rcases ((hop_turns hids hperm hdecay hd hfrontier).visited row.1.id).mp hvisited with
      hold | ⟨r, hr, hid⟩
    · exact (mem_hop_rows.mp hrow).2.1 ((hd.visited _).mp hold)
    · exact of_decide_eq_true (hothers r hr) hid

end

/-! ## The law -/

/-- The traversal visits every entity within two hops in the hop of its distance, and boosts their
memories, each by the largest boost of its entities. -/
structure TraversesFully (o : Outside K) (unordered : ∀ {α : Type}, List α → List α)
    (query_embedding : List K) (seed_ids : List UUID) (tenant_id : UUID) (db : Db K) : Prop where
  visited : ∀ d ≤ 2, ∀ i,
    i ∈ (bfs_hops o unordered query_embedding tenant_id ((1 / 2 : ℚ) : K) db d
      (traversal_start seed_ids ((1 / 2 : ℚ) : K))).visited ↔
      i ∈ reached o query_embedding seed_ids tenant_id db d
  boosts : ∀ mid b,
    (mid, b) ∈ bfs_entity_traversal o unordered query_embedding seed_ids tenant_id db ↔
      IsGreatest (boosts_within o query_embedding seed_ids tenant_id db ((1 / 2 : ℚ) : K) 2 mid) b

theorem bfs_entity_traversal_eq (o : Outside K) (unordered : ∀ {α : Type}, List α → List α)
    (query_embedding : List K) (seed_ids : List UUID) (tenant_id : UUID) (db : Db K) :
    bfs_entity_traversal o unordered query_embedding seed_ids tenant_id db =
      (bfs_hops o unordered query_embedding tenant_id ((1 / 2 : ℚ) : K) db 2
        (traversal_start seed_ids ((1 / 2 : ℚ) : K))).boosts := by
  unfold bfs_entity_traversal
  split
  · rename_i hseeds
    subst hseeds
    rfl
  · rfl

/-- Whatever rows the LIMIT keeps, the traversal is full if and only if no entity at the distance
one or two has ten rows of other entities beside it in the join of its hop. -/
theorem traversal_full_iff [IsStrictOrderedRing K] (o : Outside K) (query_embedding : List K)
    (seed_ids : List UUID) (tenant_id : UUID) (db : Db K)
    (hids : (db.qortia_entities.map (·.id)).Nodup) :
    (∀ unordered : ∀ {α : Type}, List α → List α,
      (∀ {α : Type} (l : List α), (unordered l).Perm l) →
        TraversesFully o unordered query_embedding seed_ids tenant_id db) ↔
    ∀ d < 2, Uncrowded o query_embedding seed_ids tenant_id db d := by
  have hdecay : (0 : K) ≤ ((1 / 2 : ℚ) : K) := Rat.cast_nonneg.mpr (by norm_num)
  constructor
  · intro h d hd
    induction d using Nat.strong_induction_on with
    | _ d ih =>
      by_contra hcrowded
      obtain ⟨unordered, hperm, i, hreached, hmissed⟩ := crowded_hop hids hdecay
        (fun k hk => ih k hk (hk.trans hd)) hcrowded
      exact hmissed (((h unordered hperm).visited (d + 1) hd i).mpr hreached)
  · intro h unordered hperm
    refine ⟨fun d hd => ?_, fun mid b => ?_⟩
    · exact (complete_hops hids hperm hdecay fun k hk => h k (Nat.lt_of_lt_of_le hk hd)).visited
    · rw [bfs_entity_traversal_eq]
      exact (complete_hops hids hperm hdecay h).boosts.mem_iff mid b

def linking_entity (id : UUID) (embedding : Option (List ℚ)) (linked_memory_ids : List UUID) :
    Entity ℚ :=
  { id, tenant_id := 7, agent_id := some 1, entity_text := "service " ++ toString id
    entity_type := "ORG", embedding, linked_memory_ids, created_at := 0, updated_at := 0 }

/-- A vector of the model. -/
def entity_vector : List ℚ := List.replicate 1024 1

/-- Every vector is similar to the query. -/
def all_similar : Outside ℚ := { no_models with similarity := fun _ _ => 1 }

/-- Two seeds share a memory with one entity. -/
def two_seeds : Db ℚ where
  qortia_entities := [linking_entity 1 none [100], linking_entity 2 none [100],
    linking_entity 3 (some entity_vector) [100]]

theorem traversal_full_iff_two_seeds :
    (∀ unordered : ∀ {α : Type}, List α → List α,
      (∀ {α : Type} (l : List α), (unordered l).Perm l) →
        TraversesFully all_similar unordered entity_vector [1, 2] 7 two_seeds) ↔
    ∀ d < 2, Uncrowded all_similar entity_vector [1, 2] 7 two_seeds d :=
  traversal_full_iff all_similar entity_vector [1, 2] 7 two_seeds (by decide)

/-- Ten seeds share a memory with one entity, and the last of them one with another entity. -/
def ten_seeds : Db ℚ where
  qortia_entities := (List.range' 1 9).map (fun i => linking_entity i none [100]) ++
    [linking_entity 10 none [100, 101], linking_entity 11 (some entity_vector) [100],
      linking_entity 12 (some entity_vector) [101]]

/-- Two entities are within reach, and the rows of one of them take all places of the first hop. -/
theorem the_rows_of_one_entity_crowd_out_another :
    ((reached all_similar entity_vector (List.range' 1 10) 7 ten_seeds 2).filter
        (· ∉ List.range' 1 10)).dedup.length ≤ 10 ∧
      ¬ ∀ unordered : ∀ {α : Type}, List α → List α,
        (∀ {α : Type} (l : List α), (unordered l).Perm l) →
          TraversesFully all_similar unordered entity_vector (List.range' 1 10) 7 ten_seeds := by
  refine ⟨by decide +kernel, fun h => ?_⟩
  have hfull := h id fun l => List.Perm.refl l
  have hreached : 12 ∈ reached all_similar entity_vector (List.range' 1 10) 7 ten_seeds 1 := by
    decide +kernel
  have hmissed : 12 ∉ (bfs_hops all_similar id entity_vector 7 ((1 / 2 : ℚ) : ℚ) ten_seeds 1
      (traversal_start (List.range' 1 10) ((1 / 2 : ℚ) : ℚ))).visited := by
    decide +kernel
  exact hmissed ((hfull.visited 1 (by decide) 12).mpr hreached)

end qortia
