-- The laws of `_expand_with_links`: what a recall appends to its results for the links of the
-- first of them, statement by statement, and which links keep others out.
import Qortia.Lib.Quota
import Qortia.Lib.Transaction
import Qortia.RecallResults

namespace qortia

open transaction

variable {K : Type}

/-! ## The walk over the links -/

/-- What the walk over new links has collected. -/
structure Collected (limit : Nat) (links : List (MemoryLink K))
    (s : List (UUID × List UUID) × List UUID) : Prop where
  sources : (s.1.map (·.1)).Nodup
  seen : ∀ l ∈ links, ∃ b ∈ s.1, b.1 = l.source_id
  buckets : ∀ b ∈ s.1, b.2 = (quota.taken (·.source_id) limit links b.1).map (·.target_id)
  distinct : s.2.Nodup
  new_ids : ∀ t, t ∈ s.2 ↔ ∃ b ∈ s.1, t ∈ b.2

/-- `per_source.setdefault(source, [])`. -/
def open_bucket (source : UUID) (per_source : List (UUID × List UUID)) :
    List (UUID × List UUID) :=
  if per_source.any fun b => b.1 = source then per_source else per_source ++ [(source, [])]

theorem open_bucket_opens (source : UUID) (per_source : List (UUID × List UUID)) :
    ∃ b ∈ open_bucket source per_source, b.1 = source := by
  unfold open_bucket
  split
  · rename_i hany
    obtain ⟨b, hb, hsource⟩ := List.any_eq_true.mp hany
    exact ⟨b, hb, of_decide_eq_true hsource⟩
  · exact ⟨_, List.mem_append_right _ List.mem_cons_self, rfl⟩

theorem mem_open_bucket {source : UUID} {per_source : List (UUID × List UUID)}
    {b : UUID × List UUID} (h : b ∈ open_bucket source per_source) :
    b ∈ per_source ∨ (b = (source, []) ∧ ∀ b' ∈ per_source, b'.1 ≠ source) := by
  unfold open_bucket at h
  split at h
  · exact Or.inl h
  · rename_i hnone
    rcases List.mem_append.mp h with h | h
    · exact Or.inl h
    · refine Or.inr ⟨List.mem_singleton.mp h, fun b' hb' hsource => hnone ?_⟩
      exact List.any_eq_true.mpr ⟨b', hb', decide_eq_true hsource⟩

theorem subset_open_bucket {source : UUID} {per_source : List (UUID × List UUID)}
    {b : UUID × List UUID} (h : b ∈ per_source) : b ∈ open_bucket source per_source := by
  unfold open_bucket
  split
  · exact h
  · exact List.mem_append_left _ h

theorem Collected.open_bucket {limit : Nat} {links : List (MemoryLink K)}
    {s : List (UUID × List UUID) × List UUID} (h : Collected limit links s) (source : UUID) :
    Collected limit links (qortia.open_bucket source s.1, s.2) where
  sources := by
    unfold qortia.open_bucket
    split
    · exact h.sources
    · rename_i hnone
      rw [List.map_append, List.nodup_append]
      refine ⟨h.sources, List.nodup_singleton _, ?_⟩
      rintro k hk k' hk' rfl
      obtain ⟨b, hb, rfl⟩ := List.mem_map.mp hk
      exact hnone (List.any_eq_true.mpr ⟨b, hb, decide_eq_true (List.mem_singleton.mp hk')⟩)
  seen l hl := by
    obtain ⟨b, hb, hsource⟩ := h.seen l hl
    exact ⟨b, subset_open_bucket hb, hsource⟩
  buckets b hb := by
    rcases mem_open_bucket hb with hb | ⟨rfl, hnone⟩
    · exact h.buckets b hb
    · rw [quota.taken_absent]
      · rfl
      · intro l hl hsource
        obtain ⟨b, hb, hkey⟩ := h.seen l hl
        exact hnone b hb (hkey.trans hsource)
  distinct := h.distinct
  new_ids t := by
    rw [h.new_ids t]
    constructor
    · rintro ⟨b, hb, ht⟩
      exact ⟨b, subset_open_bucket hb, ht⟩
    · rintro ⟨b, hb, ht⟩
      rcases mem_open_bucket hb with hb | ⟨rfl, -⟩
      · exact ⟨b, hb, ht⟩
      · cases ht

/-- The bucket of the source. -/
theorem Collected.find_bucket {limit : Nat} {links : List (MemoryLink K)}
    {s : List (UUID × List UUID) × List UUID} (h : Collected limit links s) {source : UUID}
    (hopen : ∃ b ∈ s.1, b.1 = source) :
    ((s.1.find? fun b => b.1 = source).map (·.2)).getD [] =
      (quota.taken (·.source_id) limit links source).map (·.target_id) := by
  cases hfind : s.1.find? fun b => b.1 = source with
  | none =>
    obtain ⟨b, hb, hsource⟩ := hopen
    exact absurd (decide_eq_true hsource) (List.find?_eq_none.mp hfind b hb)
  | some b =>
    have hsource : b.1 = source := by simpa using List.find?_some hfind
    have hb := h.buckets b (List.mem_of_find?_eq_some hfind)
    rw [hsource] at hb
    exact hb

theorem Collected.full {limit : Nat} {links : List (MemoryLink K)} {l : MemoryLink K}
    {s : List (UUID × List UUID) × List UUID} (h : Collected limit links s)
    (hopen : ∃ b ∈ s.1, b.1 = l.source_id)
    (hfull : limit ≤ (quota.taken (·.source_id) limit links l.source_id).length) :
    Collected limit (links ++ [l]) s where
  sources := h.sources
  seen l' hl' := by
    rcases List.mem_append.mp hl' with hl' | hl'
    · exact h.seen l' hl'
    · rw [List.mem_singleton.mp hl']
      exact hopen
  buckets b hb := by
    rw [quota.taken_concat_full hfull]
    exact h.buckets b hb
  distinct := h.distinct
  new_ids := h.new_ids

/-- `bucket.append(target)`. -/
def push_bucket (source target : UUID) (per_source : List (UUID × List UUID)) :
    List (UUID × List UUID) :=
  rows.update (fun b => b.1 = source) (fun b => (b.1, b.2 ++ [target])) per_source

theorem push_bucket_sources (source target : UUID) (per_source : List (UUID × List UUID)) :
    (push_bucket source target per_source).map (·.1) = per_source.map (·.1) := by
  apply rows.map_update
  intro b
  rfl

theorem mem_push_bucket {source target : UUID} {per_source : List (UUID × List UUID)}
    {b : UUID × List UUID} (h : b ∈ push_bucket source target per_source) :
    ∃ b' ∈ per_source, (b'.1 = source ∧ b = (source, b'.2 ++ [target])) ∨
      (b'.1 ≠ source ∧ b = b') := by
  obtain ⟨b', hb', ⟨hsource, rfl⟩ | ⟨hsource, rfl⟩⟩ := rows.mem_update.mp h
  · have hsource := of_decide_eq_true hsource
    exact ⟨b', hb', Or.inl ⟨hsource, by rw [hsource]⟩⟩
  · exact ⟨b, hb', Or.inr ⟨of_decide_eq_false hsource, rfl⟩⟩

/-- What is in the buckets after the push. -/
theorem exists_push_bucket {source target t : UUID} {per_source : List (UUID × List UUID)}
    (hopen : ∃ b ∈ per_source, b.1 = source) :
    (∃ b ∈ push_bucket source target per_source, t ∈ b.2) ↔
      (∃ b ∈ per_source, t ∈ b.2) ∨ t = target := by
  constructor
  · rintro ⟨b, hb, ht⟩
    obtain ⟨b', hb', ⟨-, rfl⟩ | ⟨-, rfl⟩⟩ := mem_push_bucket hb
    · rcases List.mem_append.mp ht with ht | ht
      · exact Or.inl ⟨b', hb', ht⟩
      · exact Or.inr (List.mem_singleton.mp ht)
    · exact Or.inl ⟨b, hb', ht⟩
  · rintro (⟨b, hb, ht⟩ | rfl)
    · by_cases hsource : b.1 = source
      · exact ⟨_, rows.mem_update.mpr ⟨b, hb, Or.inl ⟨decide_eq_true hsource, rfl⟩⟩,
          List.mem_append_left _ ht⟩
      · exact ⟨b, rows.mem_update.mpr ⟨b, hb, Or.inr ⟨decide_eq_false hsource, rfl⟩⟩, ht⟩
    · obtain ⟨b, hb, hsource⟩ := hopen
      exact ⟨_, rows.mem_update.mpr ⟨b, hb, Or.inl ⟨decide_eq_true hsource, rfl⟩⟩,
        List.mem_append_right _ List.mem_cons_self⟩

/-- The link gets into the bucket of its source. -/
theorem Collected.push {limit : Nat} {links : List (MemoryLink K)} {l : MemoryLink K}
    {s : List (UUID × List UUID) × List UUID} (h : Collected limit links s)
    (hopen : ∃ b ∈ s.1, b.1 = l.source_id)
    (hroom : (quota.taken (·.source_id) limit links l.source_id).length < limit) :
    Collected limit (links ++ [l])
      (push_bucket l.source_id l.target_id s.1,
        if l.target_id ∈ s.2 then s.2 else s.2 ++ [l.target_id]) where
  sources := by
    rw [push_bucket_sources]
    exact h.sources
  seen l' hl' := by
    have hold : ∃ b ∈ s.1, b.1 = l'.source_id := by
      rcases List.mem_append.mp hl' with hl' | hl'
      · exact h.seen l' hl'
      · rw [List.mem_singleton.mp hl']
        exact hopen
    have hkeys : l'.source_id ∈ (push_bucket l.source_id l.target_id s.1).map (·.1) := by
      rw [push_bucket_sources]
      exact List.mem_map.mpr hold
    exact List.mem_map.mp hkeys
  buckets b hb := by
    obtain ⟨b', hb', ⟨hsource, rfl⟩ | ⟨hsource, rfl⟩⟩ := mem_push_bucket hb
    · rw [h.buckets b' hb', hsource, quota.taken_concat hroom, List.map_append]
      rfl
    · rw [quota.taken_concat_other (Ne.symm hsource)]
      exact h.buckets b hb'
  distinct := by
    split
    · exact h.distinct
    · rename_i hnew
      rw [← List.concat_eq_append]
      exact h.distinct.concat hnew
  new_ids t := by
    have hiff : (t ∈ if l.target_id ∈ s.2 then s.2 else s.2 ++ [l.target_id]) ↔
        t ∈ s.2 ∨ t = l.target_id := by
      split
      · rename_i hold
        exact ⟨Or.inl, fun ht => ht.elim id fun heq => heq ▸ hold⟩
      · rw [List.mem_append, List.mem_singleton]
    rw [hiff, h.new_ids t, exists_push_bucket hopen]

/-- One turn of the walk. A link to an old result is passed over. -/
theorem Collected.step {existing_ids : List UUID} {limit : Nat} {links : List (MemoryLink K)}
    {l : MemoryLink K} {s : List (UUID × List UUID) × List UUID} (h : Collected limit links s)
    (hnew : l.target_id ∉ existing_ids) :
    Collected limit (links ++ [l]) (collect_link existing_ids limit s l) := by
  have hopened := h.open_bucket l.source_id
  have hopen := open_bucket_opens l.source_id s.1
  have hbucket := hopened.find_bucket hopen
  have hstep : collect_link existing_ids limit s l =
      if limit ≤ (quota.taken (·.source_id) limit links l.source_id).length then
        (qortia.open_bucket l.source_id s.1, s.2)
      else
        (push_bucket l.source_id l.target_id (qortia.open_bucket l.source_id s.1),
          if l.target_id ∈ s.2 then s.2 else s.2 ++ [l.target_id]) := by
    unfold collect_link push_bucket
    unfold qortia.open_bucket at hbucket ⊢
    simp only [if_neg hnew, hbucket, List.length_map]
  rw [hstep]
  split
  · rename_i hfull
    exact hopened.full hopen hfull
  · rename_i hroom
    exact hopened.push hopen (not_le.mp hroom)

theorem foldl_collect_link (existing_ids : List UUID) (limit : Nat)
    (links : List (MemoryLink K)) :
    Collected limit (links.filter fun l => l.target_id ∉ existing_ids)
      (links.foldl (collect_link existing_ids limit) ([], [])) := by
  induction links using List.reverseRecOn with
  | nil => exact ⟨List.nodup_nil, by simp, by simp, List.nodup_nil, by simp⟩
  | append_singleton links l ih =>
    rw [List.foldl_append, List.filter_append]
    by_cases hold : l.target_id ∈ existing_ids
    · have hskip : [l].filter (fun l => l.target_id ∉ existing_ids) = [] := by simp [hold]
      have hsame : ∀ s, collect_link existing_ids limit s l = s := fun s => if_pos hold
      rw [hskip, List.append_nil, List.foldl_cons, hsame]
      exact ih
    · have hone : [l].filter (fun l => l.target_id ∉ existing_ids) = [l] := by simp [hold]
      rw [hone]
      exact ih.step hold

variable [Field K] [LinearOrder K]

/-! ## What is appended -/

/-- The links of one result to memories that are not among the results, nearest first, as many as
the expansion follows. -/
def nearest_links (tenant_id : UUID) (existing_ids : List UUID) (s : UUID)
    (links : List (MemoryLink K)) : List (MemoryLink K) :=
  (rows.order_desc (·.similarity) (links.filter fun l =>
    l.source_id = s && l.tenant_id = tenant_id && l.target_id ∉ existing_ids)).take
    EXPAND_LIMIT_PER_RESULT

/-- What the walk has collected for the results. -/
def collected (tenant_id : UUID) (results : List (RecallResult K)) (db : Db K) :
    List (UUID × List UUID) × List UUID :=
  (rows.order_desc (·.similarity) (db.memory_links.filter fun l =>
    l.source_id ∈ (results.take EXPAND_TOP_RESULTS).map (·.id) && l.tenant_id = tenant_id)).foldl
    (collect_link (results.map (·.id)) EXPAND_LIMIT_PER_RESULT) ([], [])

/-- The links that the walk does not pass over. -/
def new_links (tenant_id : UUID) (results : List (RecallResult K)) (db : Db K) :
    List (MemoryLink K) :=
  (rows.order_desc (·.similarity) (db.memory_links.filter fun l =>
    l.source_id ∈ (results.take EXPAND_TOP_RESULTS).map (·.id) && l.tenant_id = tenant_id)).filter
    fun l => l.target_id ∉ results.map (·.id)

variable {now : Timestamp} {tenant_id agent_id : UUID}
  {unordered : ∀ {α : Type}, List α → List α} {results : List (RecallResult K)} {db : Db K}

omit [Field K] in
theorem collected_walk : Collected EXPAND_LIMIT_PER_RESULT (new_links tenant_id results db)
    (collected tenant_id results db) :=
  foldl_collect_link _ _ _

omit [Field K] in
theorem mem_nearest_links {existing_ids : List UUID} {s : UUID} {links : List (MemoryLink K)}
    {l : MemoryLink K}
    (h : l ∈ nearest_links tenant_id existing_ids s links) :
    l ∈ links ∧ l.source_id = s ∧ l.tenant_id = tenant_id ∧ l.target_id ∉ existing_ids := by
  obtain ⟨hl, hwhere⟩ := List.mem_filter.mp (rows.mem_order_desc.mp (List.mem_of_mem_take h))
  simp only [Bool.and_eq_true, decide_eq_true_eq] at hwhere
  exact ⟨hl, hwhere.1.1, hwhere.1.2, hwhere.2⟩

omit [Field K] in
/-- The walk takes the nearest links of every source. -/
theorem taken_eq_nearest_links {s : UUID}
    (hs : s ∈ (results.take EXPAND_TOP_RESULTS).map (·.id)) :
    quota.taken (·.source_id) EXPAND_LIMIT_PER_RESULT (new_links tenant_id results db) s =
      nearest_links tenant_id (results.map (·.id)) s db.memory_links := by
  unfold quota.taken nearest_links new_links
  rw [rows.filter_order_desc, rows.filter_order_desc, List.filter_filter, List.filter_filter]
  congr 2
  apply List.filter_congr
  intro l _
  by_cases hl : l.source_id = s
  · simp only [hl, decide_eq_true hs, decide_true, Bool.true_and, Bool.and_comm]
  · simp [hl]

omit [Field K] in
theorem new_links_source {l : MemoryLink K} (h : l ∈ new_links tenant_id results db) :
    l.source_id ∈ (results.take EXPAND_TOP_RESULTS).map (·.id) := by
  have hrow := (List.mem_filter.mp (rows.mem_order_desc.mp (List.mem_of_mem_filter h))).2
  exact of_decide_eq_true (Bool.and_eq_true_iff.mp hrow).1

omit [Field K] in
theorem collected_bucket {b : UUID × List UUID} (h : b ∈ (collected tenant_id results db).1)
    {t : UUID} (ht : t ∈ b.2) : b.1 ∈ (results.take EXPAND_TOP_RESULTS).map (·.id) ∧
      t ∈ (nearest_links tenant_id (results.map (·.id)) b.1 db.memory_links).map
        (·.target_id) := by
  rw [collected_walk.buckets b h] at ht
  obtain ⟨l, hl, rfl⟩ := List.mem_map.mp ht
  obtain ⟨hrow, hsource⟩ := quota.mem_taken hl
  have hsources := hsource ▸ new_links_source hrow
  refine ⟨hsources, ?_⟩
  rw [taken_eq_nearest_links hsources] at hl
  exact List.mem_map_of_mem hl

omit [Field K] in
theorem mem_collected {t : UUID} : t ∈ (collected tenant_id results db).2 ↔
    ∃ s ∈ (results.take EXPAND_TOP_RESULTS).map (·.id),
      t ∈ (nearest_links tenant_id (results.map (·.id)) s db.memory_links).map (·.target_id) := by
  rw [collected_walk.new_ids]
  constructor
  · rintro ⟨b, hb, ht⟩
    exact ⟨b.1, collected_bucket hb ht⟩
  · rintro ⟨s, hs, ht⟩
    rw [← taken_eq_nearest_links hs] at ht
    obtain ⟨l, hl, rfl⟩ := List.mem_map.mp ht
    obtain ⟨hrow, rfl⟩ := quota.mem_taken hl
    obtain ⟨b, hb, hsource⟩ := collected_walk.seen l hrow
    refine ⟨b, hb, ?_⟩
    rw [collected_walk.buckets b hb, hsource]
    exact List.mem_map_of_mem hl

omit [Field K] in
theorem collected_nil : collected tenant_id ([] : List (RecallResult K)) db = ([], []) := by
  unfold collected
  have hnone : (db.memory_links.filter fun l =>
      l.source_id ∈ (([] : List (RecallResult K)).take EXPAND_TOP_RESULTS).map (·.id) &&
        l.tenant_id = tenant_id) = [] := by simp
  rw [hnone]
  rfl

omit [Field K] in
theorem collected_new {t : UUID} (h : t ∈ (collected tenant_id results db).2) :
    t ∉ results.map (·.id) := by
  obtain ⟨s, -, ht⟩ := mem_collected.mp h
  obtain ⟨l, hl, rfl⟩ := List.mem_map.mp ht
  exact (mem_nearest_links hl).2.2.2

theorem mem_linked_memories_iff (hperm : ∀ {α : Type} (l : List α), (unordered l).Perm l)
    {x : RecallResult K} :
    x ∈ linked_memories now tenant_id agent_id false unordered results db ↔
      ∃ r ∈ db.hindsight_memories, r.id ∈ (collected tenant_id results db).2 ∧
        Linkable now tenant_id agent_id r ∧
        x = linked_result (collected tenant_id results db).1 r := by
  have hwhere : ∀ r : HindsightMemory K, r.id ∈ (collected tenant_id results db).2 ∧
      Linkable now tenant_id agent_id r ↔
      (r.id ∈ (collected tenant_id results db).2 && r.tenant_id = tenant_id &&
        r.agent_id = agent_id && r.tier = .active && r.expires_at.all (now < ·) &&
        r.valid_until.all (now < ·)) = true := by
    intro r
    simp only [Bool.and_eq_true, decide_eq_true_eq]
    constructor
    · rintro ⟨hnew, htenant, hagent, htier, hexpires, hvalid⟩
      exact ⟨⟨⟨⟨⟨hnew, htenant⟩, hagent⟩, htier⟩, hexpires⟩, hvalid⟩
    · rintro ⟨⟨⟨⟨⟨hnew, htenant⟩, hagent⟩, htier⟩, hexpires⟩, hvalid⟩
      exact ⟨hnew, htenant, hagent, htier, hexpires, hvalid⟩
  by_cases hnil : results = []
  · subst hnil
    rw [collected_nil]
    simp [linked_memories, expand_with_links]
  · unfold linked_memories expand_with_links
    rw [if_neg (by simp [hnil])]
    simp only [List.drop_left]
    rw [List.mem_filter, (hperm _).mem_iff, List.mem_map]
    constructor
    · rintro ⟨⟨r, hr, rfl⟩, -⟩
      obtain ⟨hr, hrow⟩ := List.mem_filter.mp hr
      obtain ⟨hnew, hlinkable⟩ := (hwhere r).mpr hrow
      exact ⟨r, hr, hnew, hlinkable, rfl⟩
    · rintro ⟨r, hr, hnew, hlinkable, rfl⟩
      exact ⟨⟨r, List.mem_filter.mpr ⟨hr, (hwhere r).mp ⟨hnew, hlinkable⟩⟩, rfl⟩,
        decide_eq_true (collected_new hnew)⟩

/-- A new memory comes with a source that links to it. -/
theorem linked_via_source {r : HindsightMemory K}
    (h : r.id ∈ (collected tenant_id results db).2) :
    ∃ s ∈ (results.take EXPAND_TOP_RESULTS).map (·.id),
      (linked_result (collected tenant_id results db).1 r).linked_via = some s ∧
        ∃ l ∈ db.memory_links, l.tenant_id = tenant_id ∧ l.source_id = s ∧
          l.target_id = r.id := by
  obtain ⟨b₀, hb₀, hin₀⟩ := (collected_walk.new_ids r.id).mp h
  change ∃ s ∈ _, target_to_source (collected tenant_id results db).1 r.id = some s ∧ _
  unfold target_to_source
  cases hfind : (collected tenant_id results db).1.find? fun b => r.id ∈ b.2 with
  | none => exact absurd (decide_eq_true hin₀) (List.find?_eq_none.mp hfind b₀ hb₀)
  | some b =>
    have hin : r.id ∈ b.2 := by simpa using List.find?_some hfind
    obtain ⟨hsource, hnear⟩ := collected_bucket (List.mem_of_find?_eq_some hfind) hin
    obtain ⟨l, hl, htarget⟩ := List.mem_map.mp hnear
    obtain ⟨hrow, hs, htenant, -⟩ := mem_nearest_links hl
    exact ⟨b.1, hsource, rfl, l, hrow, htenant, hs, htarget⟩

omit [Field K] in
/-- Two links for each of five results. -/
theorem collected_length_le : (collected tenant_id results db).2.length ≤ 10 := by
  have hsources : ((results.take EXPAND_TOP_RESULTS).map (·.id)).length ≤ 5 := by
    rw [List.length_map]
    exact List.length_take_le _ _
  have hsubset : (collected tenant_id results db).2 ⊆
      (((results.take EXPAND_TOP_RESULTS).map (·.id)).flatMap
        (quota.taken (·.source_id) EXPAND_LIMIT_PER_RESULT (new_links tenant_id results db))).map
        (·.target_id) := by
    intro t ht
    obtain ⟨s, hs, hnear⟩ := mem_collected.mp ht
    rw [← taken_eq_nearest_links hs] at hnear
    obtain ⟨l, hl, rfl⟩ := List.mem_map.mp hnear
    exact List.mem_map_of_mem (List.mem_flatMap.mpr ⟨s, hs, hl⟩)
  have hlength := (List.subperm_of_subset collected_walk.distinct hsubset).length_le
  rw [List.length_map] at hlength
  calc (collected tenant_id results db).2.length
      ≤ ((results.take EXPAND_TOP_RESULTS).map (·.id)).length * EXPAND_LIMIT_PER_RESULT :=
        Nat.le_trans hlength (quota.taken_all_length_le _)
    _ ≤ 5 * EXPAND_LIMIT_PER_RESULT := Nat.mul_le_mul_right _ hsources

/-! ## The expansion, statement by statement -/

/-- `tenant_transaction`: the connection with its BEGIN, and the four settings of the session. -/
def open_transaction (raises : Faults Failure) : Script (Db K) Failure Unit := do
  statement raises fun db => ((), db)
  statement raises fun db => ((), db)
  statement raises fun db => ((), db)
  statement raises fun db => ((), db)
  statement raises fun db => ((), db)

/-- The body of the transaction of `_expand_with_links`. -/
def expand_script (raises : Faults Failure) (now : Timestamp) (tenant_id agent_id : UUID)
    (unordered : ∀ {α : Type}, List α → List α) (results : List (RecallResult K)) :
    Script (Db K) Failure (List (RecallResult K)) := do
  open_transaction raises
  let link_rows ← statement raises fun db =>
    (rows.order_desc (·.similarity) (db.memory_links.filter fun l =>
      l.source_id ∈ (results.take EXPAND_TOP_RESULTS).map (·.id) && l.tenant_id = tenant_id), db)
  let (per_source, new_ids) :=
    link_rows.foldl (collect_link (results.map (·.id)) EXPAND_LIMIT_PER_RESULT) ([], [])
  if new_ids = [] then pure []
  else
    let mem_rows ← statement raises fun db =>
      (db.hindsight_memories.filter fun r =>
        r.id ∈ new_ids && r.tenant_id = tenant_id && r.agent_id = agent_id && r.tier = .active &&
          r.expires_at.all (now < ·) && r.valid_until.all (now < ·), db)
    pure ((unordered (mem_rows.map (linked_result per_source))).filter fun r =>
      r.id ∉ results.map (·.id))

/-- `_expand_with_links`, whose statements may raise. -/
def expand_request (raises : Faults Failure) (now : Timestamp) (tenant_id agent_id : UUID)
    (unordered : ∀ {α : Type}, List α → List α) (results : List (RecallResult K)) (db : Db K) :
    List (RecallResult K) :=
  if results = [] then results
  else
    match (atomically raises (expand_script raises now tenant_id agent_id unordered results) db).1
      with
    | .ok linked_results => results ++ linked_results
    | .error _ => results

omit [Field K] [LinearOrder K] in
theorem open_transaction_sends (raises : Faults Failure) :
    Sends raises (open_transaction (K := K) raises) (fun _ => 5) (fun db => ((), db)) := by
  have hone : Sends raises (statement raises fun db : Db K => ((), db)) _ _ := sends_statement _
  exact hone.bind fun _ => hone.bind fun _ => hone.bind fun _ => hone.bind fun _ => hone

theorem linked_memories_eq (hresults : results ≠ []) :
    linked_memories now tenant_id agent_id false unordered results db =
      (unordered ((db.hindsight_memories.filter fun r =>
        r.id ∈ (collected tenant_id results db).2 && r.tenant_id = tenant_id &&
          r.agent_id = agent_id && r.tier = .active && r.expires_at.all (now < ·) &&
          r.valid_until.all (now < ·)).map
        (linked_result (collected tenant_id results db).1))).filter fun r =>
          r.id ∉ results.map (·.id) := by
  unfold linked_memories expand_with_links
  rw [if_neg (by simp [hresults])]
  simp only [List.drop_left]
  rfl

theorem linked_memories_none (hperm : ∀ {α : Type} (l : List α), (unordered l).Perm l)
    (hnone : (collected tenant_id results db).2 = []) :
    linked_memories now tenant_id agent_id false unordered results db = [] := by
  apply List.eq_nil_iff_forall_not_mem.mpr
  intro x hx
  obtain ⟨r, -, hnew, -⟩ := (mem_linked_memories_iff hperm).mp hx
  rw [hnone] at hnew
  cases hnew

/-- The transaction sends the second query only for new ids. -/
theorem expand_script_sends (raises : Faults Failure)
    (hperm : ∀ {α : Type} (l : List α), (unordered l).Perm l) (hresults : results ≠ []) :
    Sends raises (expand_script raises now tenant_id agent_id unordered results)
      (fun db => if (collected tenant_id results db).2 = [] then 6 else 7)
      (fun db => (linked_memories now tenant_id agent_id false unordered results db, db)) := by
  unfold expand_script
  refine ((open_transaction_sends raises).bind fun _ => (sends_statement _).bind fun link_rows =>
    (sends_pure _).ite ((sends_statement _).bind fun mem_rows => sends_pure _)).congr ?_ ?_
  · intro db
    change 5 + (1 + if (collected tenant_id results db).2 = [] then 0 else 1 + 0) = _
    split
    · rfl
    · rfl
  · intro db
    change (if (collected tenant_id results db).2 = [] then _ else _) = _
    split
    · rename_i hnone
      rw [linked_memories_none hperm hnone]
    · rw [linked_memories_eq hresults]
      rfl

theorem expand_request_returns {raises : Faults Failure}
    (hperm : ∀ {α : Type} (l : List α), (unordered l).Perm l) (hnone : ∀ n < 8, raises n = none) :
    expand_request raises now tenant_id agent_id unordered results db =
      results ++ linked_memories now tenant_id agent_id false unordered results db := by
  unfold expand_request
  by_cases hnil : results = []
  · subst hnil
    simp [linked_memories, expand_with_links]
  · rw [if_neg hnil, (expand_script_sends raises hperm hnil).commits]
    intro n hn
    apply hnone
    split at hn
    · omega
    · omega

/-- The statements are numbered from 0 to 6, and 7 is the COMMIT. -/
theorem expand_request_raised {raises : Faults Failure}
    (hperm : ∀ {α : Type} (l : List α), (unordered l).Perm l) (hraises : ∃ n < 8, raises n ≠ none) :
    expand_request raises now tenant_id agent_id unordered results db = results := by
  unfold expand_request
  by_cases hnil : results = []
  · rw [if_pos hnil]
  · have hsends : Sends raises (expand_script raises now tenant_id agent_id unordered results)
        _ _ := expand_script_sends raises hperm hnil
    rw [if_neg hnil]
    by_cases hsent : ∃ n ≤ (if (collected tenant_id results db).2 = [] then 6 else 7),
        raises n ≠ none
    · obtain ⟨e, he⟩ := hsends.rolls_back hsent
      rw [he]
    · have hnone : ∀ n ≤ (if (collected tenant_id results db).2 = [] then 6 else 7),
          raises n = none := fun n hn => Classical.not_not.mp fun hne => hsent ⟨n, hn, hne⟩
      rw [hsends.commits hnone]
      obtain ⟨n, hn, hne⟩ := hraises
      split at hnone
      · rename_i hids
        simp only [linked_memories_none hperm hids, List.append_nil]
      · exact absurd (hnone n (by omega)) hne

/-! ## The laws -/

/-- The new memory `t`, to which the result `s` has a link, and which a recall may still show. -/
def LinksLive (now : Timestamp) (tenant_id agent_id : UUID) (existing_ids : List UUID)
    (db : Db K) (s t : UUID) : Prop :=
  (∃ l ∈ db.memory_links, l.tenant_id = tenant_id ∧ l.source_id = s ∧ l.target_id = t) ∧
    t ∉ existing_ids ∧
    ∃ r ∈ db.hindsight_memories, r.id = t ∧ Linkable now tenant_id agent_id r

/-- The expansion appends at most ten results to its input. They have distinct new ids, and each is
of a live memory of the agent, to which the result that it names has a link. When a statement
raises, nothing is appended. -/
theorem the_expansion_extends (raises : Faults Failure) (now : Timestamp)
    (tenant_id agent_id : UUID) (unordered : ∀ {α : Type}, List α → List α)
    (results : List (RecallResult K)) (db : Db K)
    (hperm : ∀ {α : Type} (l : List α), (unordered l).Perm l)
    (hids : (db.hindsight_memories.map (·.id)).Nodup) :
    ∃ extras, expand_request raises now tenant_id agent_id unordered results db =
        results ++ extras ∧
      extras.length ≤ 10 ∧ (extras.map (·.id)).Nodup ∧
      (∀ x ∈ extras, ∃ s ∈ (results.take EXPAND_TOP_RESULTS).map (·.id), x.linked_via = some s ∧
        LinksLive now tenant_id agent_id (results.map (·.id)) db s x.id) ∧
      ((∃ n < 8, raises n ≠ none) → extras = []) := by
  by_cases hraises : ∃ n < 8, raises n ≠ none
  · exact ⟨[], by simp [expand_request_raised hperm hraises], by simp, by simp, by simp,
      fun _ => rfl⟩
  · have hnone : ∀ n < 8, raises n = none := fun n hn =>
      Classical.not_not.mp fun hne => hraises ⟨n, hn, hne⟩
    have hnodup : ((linked_memories now tenant_id agent_id false unordered results db).map
        (·.id)).Nodup := linked_memories_ids hperm hids
    have hsubset : (linked_memories now tenant_id agent_id false unordered results db).map (·.id) ⊆
        (collected tenant_id results db).2 := by
      intro t ht
      obtain ⟨x, hx, rfl⟩ := List.mem_map.mp ht
      obtain ⟨r, -, hnew, -, rfl⟩ := (mem_linked_memories_iff hperm).mp hx
      exact hnew
    refine ⟨_, expand_request_returns hperm hnone, ?_, hnodup, ?_, fun h => absurd h hraises⟩
    · have hlength := (List.subperm_of_subset hnodup hsubset).length_le
      rw [List.length_map] at hlength
      exact Nat.le_trans hlength collected_length_le
    · intro x hx
      obtain ⟨r, hr, hnew, hlinkable, rfl⟩ := (mem_linked_memories_iff hperm).mp hx
      obtain ⟨s, hs, hvia, hlink⟩ := linked_via_source hnew
      exact ⟨s, hs, hvia, hlink, collected_new hnew, r, hr, rfl, hlinkable⟩

def linked_lesson (id : UUID) (tier : Tier) : HindsightMemory ℚ :=
  { id, tenant_id := 7, agent_id := 1, type := .lesson, content := "rotate the keys", tier
    valid_from := 0, created_at := 0 }

def lesson_result (id : UUID) : RecallResult ℚ :=
  { id, type := .memory .lesson, scope := .private_, content := "rotate the keys", created_at := 0
    score := 1 }

/-- Two lessons with links to a third one. -/
def linked_lessons : Db ℚ where
  hindsight_memories := [linked_lesson 1 .active, linked_lesson 2 .active, linked_lesson 3 .active]
  memory_links := [⟨7, 1, 3, 9 / 10⟩, ⟨7, 2, 3, 8 / 10⟩]

/-- The COMMIT raises in the second run. -/
theorem the_expansion_extends_lessons :
    (∃ extras, expand_request (fun _ => none) 0 7 1 id [lesson_result 1, lesson_result 2]
          linked_lessons = [lesson_result 1, lesson_result 2] ++ extras ∧
        extras.length ≤ 10 ∧ (extras.map (·.id)).Nodup ∧
        (∀ x ∈ extras, ∃ s ∈ [1, 2], x.linked_via = some s ∧
          LinksLive 0 7 1 [1, 2] linked_lessons s x.id) ∧
        ((∃ n < 8, (fun _ => none : Faults Failure) n ≠ none) → extras = [])) ∧
      ∃ extras, expand_request (fun n => if n = 7 then some .PostgresError else none) 0 7 1 id
          [lesson_result 1, lesson_result 2] linked_lessons =
            [lesson_result 1, lesson_result 2] ++ extras ∧ extras = [] := by
  refine ⟨the_expansion_extends (fun _ => none) 0 7 1 id [lesson_result 1, lesson_result 2]
    linked_lessons (fun l => List.Perm.refl l) (by decide), ?_⟩
  obtain ⟨extras, hrun, -, -, -, hraised⟩ := the_expansion_extends
    (fun n => if n = 7 then some .PostgresError else none) 0 7 1 id
    [lesson_result 1, lesson_result 2] linked_lessons (fun l => List.Perm.refl l) (by decide)
  exact ⟨extras, hrun, hraised ⟨7, by decide, by decide⟩⟩

/-- Every one of the first results that has a new live linked memory gets one of these, if and only
if one is among the nearest new links of the first results, dead links included. -/
theorem live_links_are_followed_iff (now : Timestamp) (tenant_id agent_id : UUID)
    (unordered : ∀ {α : Type}, List α → List α) (results : List (RecallResult K)) (db : Db K)
    (hperm : ∀ {α : Type} (l : List α), (unordered l).Perm l) :
    (∀ s ∈ (results.take EXPAND_TOP_RESULTS).map (·.id),
      (∃ t, LinksLive now tenant_id agent_id (results.map (·.id)) db s t) →
        ∃ x ∈ linked_memories now tenant_id agent_id false unordered results db,
          LinksLive now tenant_id agent_id (results.map (·.id)) db s x.id) ↔
      ∀ s ∈ (results.take EXPAND_TOP_RESULTS).map (·.id),
        (∃ t, LinksLive now tenant_id agent_id (results.map (·.id)) db s t) →
          ∃ t, LinksLive now tenant_id agent_id (results.map (·.id)) db s t ∧
            ∃ s' ∈ (results.take EXPAND_TOP_RESULTS).map (·.id),
              t ∈ (nearest_links tenant_id (results.map (·.id)) s' db.memory_links).map
                (·.target_id) := by
  refine forall_congr' fun s => forall_congr' fun _ => forall_congr' fun _ => ?_
  constructor
  · rintro ⟨x, hx, hlive⟩
    obtain ⟨r, -, hnew, -, rfl⟩ := (mem_linked_memories_iff hperm).mp hx
    exact ⟨r.id, hlive, mem_collected.mp hnew⟩
  · rintro ⟨t, hlive, hnear⟩
    obtain ⟨r, hr, hid, hlinkable⟩ := hlive.2.2
    subst hid
    exact ⟨_, (mem_linked_memories_iff hperm).mpr
      ⟨r, hr, mem_collected.mpr hnear, hlinkable, rfl⟩, hlive⟩

theorem live_links_are_followed_iff_lessons :
    (∀ s ∈ [1, 2], (∃ t, LinksLive 0 7 1 [1, 2] linked_lessons s t) →
      ∃ x ∈ linked_memories 0 7 1 false id [lesson_result 1, lesson_result 2] linked_lessons,
        LinksLive 0 7 1 [1, 2] linked_lessons s x.id) ↔
      ∀ s ∈ [1, 2], (∃ t, LinksLive 0 7 1 [1, 2] linked_lessons s t) →
        ∃ t, LinksLive 0 7 1 [1, 2] linked_lessons s t ∧ ∃ s' ∈ [1, 2],
          t ∈ (nearest_links 7 [1, 2] s' linked_lessons.memory_links).map (·.target_id) :=
  live_links_are_followed_iff 0 7 1 id [lesson_result 1, lesson_result 2] linked_lessons
    fun l => List.Perm.refl l

/-- The lesson with two archived neighbours that are nearer than the live one. -/
def crowded_lesson : Db ℚ where
  hindsight_memories := [linked_lesson 1 .active, linked_lesson 2 .archive,
    linked_lesson 3 .archive, linked_lesson 4 .active]
  memory_links := [⟨7, 1, 2, 9 / 10⟩, ⟨7, 1, 3, 17 / 20⟩, ⟨7, 1, 4, 8 / 10⟩]

theorem archived_links_crowd_out :
    ¬ ∀ s ∈ ([lesson_result 1].take EXPAND_TOP_RESULTS).map (·.id),
      (∃ t, LinksLive 0 7 1 ([lesson_result 1].map (·.id)) crowded_lesson s t) →
        ∃ x ∈ linked_memories 0 7 1 false id [lesson_result 1] crowded_lesson,
          LinksLive 0 7 1 ([lesson_result 1].map (·.id)) crowded_lesson s x.id := by
  intro h
  have hlive : LinksLive 0 7 1 ([lesson_result 1].map (·.id)) crowded_lesson 1 4 :=
    ⟨⟨⟨7, 1, 4, 8 / 10⟩, by simp [crowded_lesson], rfl, rfl, rfl⟩, by decide,
      linked_lesson 4 .active, by simp [crowded_lesson], rfl, rfl, rfl, rfl, rfl, rfl⟩
  have hnone : linked_memories 0 7 1 false id [lesson_result 1] crowded_lesson = [] := by
    decide +kernel
  obtain ⟨x, hx, -⟩ := h 1 (by decide) ⟨4, hlive⟩
  rw [hnone] at hx
  cases hx

end qortia
