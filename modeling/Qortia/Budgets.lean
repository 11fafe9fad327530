-- The two character budgets: `_apply_char_budget` of a recall and `_budget_memories` of a context.
-- Both keep ranked entries from the first on, as far as they fit, and the first one in any case.
import Qortia.Context
import Qortia.Lib.Budget
import Qortia.RecallRoutes

namespace qortia

variable {K : Type}

/-! ## One policy -/

theorem char_budget_loop_fitting {b used : Int} {kept results : List (RecallResult K)}
    (hkept : kept ≠ []) (hcontents : ∀ r ∈ results, r.content ≠ "") :
    char_budget_loop b kept used results =
      kept ++ budget.fitting (·.content.length) b used results := by
  induction results generalizing kept used with
  | nil => simp [char_budget_loop, budget.fitting]
  | cons r results ih =>
    have hempty : kept.isEmpty = false := by simpa using hkept
    have hrest : ∀ r' ∈ results, r'.content ≠ "" :=
      fun r' hr => hcontents r' (List.mem_cons_of_mem r hr)
    unfold char_budget_loop
    simp only [hempty, Bool.false_eq_true, not_false_eq_true, true_and]
    by_cases hover : b < used + (r.content.length : Int)
    · rw [if_pos hover]
      simp [budget.fitting, not_le.mpr hover]
    · rw [if_neg hover]
      simp only [budget.fitting, if_pos (not_lt.mp hover)]
      by_cases hfull : b ≤ used + (r.content.length : Int)
      · rw [if_pos hfull]
        -- The budget is used up, and every content that is left costs something.
        cases results with
        | nil => simp [budget.fitting]
        | cons r' results =>
          have hpos : 0 < r'.content.length :=
            Nat.pos_of_ne_zero fun h => hrest r' List.mem_cons_self (String.length_eq_zero_iff.mp h)
          simp only [budget.fitting]
          rw [if_neg (by omega)]
      · rw [if_neg hfull, ih (by simp) hrest, List.append_assoc]
        rfl

theorem apply_char_budget_budgeted {b : Int} {results : List (RecallResult K)}
    (hcontents : ∀ r ∈ results, r.content ≠ "") :
    apply_char_budget results b = budget.budgeted (·.content.length) b results := by
  cases results with
  | nil => rfl
  | cons r results =>
    have hrest : ∀ r' ∈ results, r'.content ≠ "" :=
      fun r' hr => hcontents r' (List.mem_cons_of_mem r hr)
    rw [budget.budgeted_cons]
    unfold apply_char_budget char_budget_loop
    simp only [List.isEmpty_nil, not_true, false_and, if_false, Int.zero_add, List.nil_append]
    by_cases hfull : b ≤ (r.content.length : Int)
    · rw [if_pos hfull]
      cases results with
      | nil => rfl
      | cons r' results =>
        have hpos : 0 < r'.content.length :=
          Nat.pos_of_ne_zero fun h => hrest r' List.mem_cons_self (String.length_eq_zero_iff.mp h)
        simp only [budget.fitting]
        rw [if_neg (by omega)]
    · rw [if_neg hfull, char_budget_loop_fitting (by simp) hrest]
      rfl

theorem budget_loop_fitting {b used : Int} (hused : 0 < used) (pool : List Tagged) :
    budget_loop b pool used = budget.fitting (·.entry.content.length) b used pool := by
  induction pool generalizing used with
  | nil => rfl
  | cons t pool ih =>
    simp only [budget_loop, budget.fitting, gt_iff_lt, hused, and_true]
    by_cases hover : b < used + (t.entry.content.length : Int)
    · rw [if_pos hover, if_neg (not_le.mpr hover)]
    · rw [if_neg hover, if_pos (not_lt.mp hover), ih (by omega)]

theorem budget_loop_budgeted {b : Int} {pool : List Tagged}
    (hcontents : ∀ t ∈ pool, t.entry.content ≠ "") :
    budget_loop b pool 0 = budget.budgeted (·.entry.content.length) b pool := by
  cases pool with
  | nil => rfl
  | cons t pool =>
    have hpos : 0 < t.entry.content.length :=
      Nat.pos_of_ne_zero fun h => hcontents t List.mem_cons_self (String.length_eq_zero_iff.mp h)
    rw [budget.budgeted_cons]
    simp only [budget_loop, gt_iff_lt, lt_self_iff_false, and_false, if_false, Int.zero_add]
    rw [budget_loop_fitting (by omega)]

/-- Over entries with contents, `_apply_char_budget` keeps the longest part that fits, and the
selection loop of `_budget_memories` keeps as many of a pool with these contents. -/
theorem the_budgets_agree {results : List (RecallResult K)} (b : Int)
    (hcontents : ∀ r ∈ results, r.content ≠ "") :
    budget.LongestWithin (·.content.length) b results (apply_char_budget results b) ∧
      ∀ pool : List Tagged, pool.map (·.entry.content) = results.map (·.content) →
        budget_loop b pool 0 = pool.take (apply_char_budget results b).length := by
  rw [apply_char_budget_budgeted hcontents]
  refine ⟨budget.budgeted_longest results, fun pool hpool => ?_⟩
  have hentries : ∀ t ∈ pool, t.entry.content ≠ "" := by
    intro t ht
    have hmem : t.entry.content ∈ results.map (·.content) := hpool ▸ List.mem_map_of_mem ht
    obtain ⟨r, hr, heq⟩ := List.mem_map.mp hmem
    exact heq ▸ hcontents r hr
  have hlength : (budget.budgeted (·.entry.content.length) b pool).length =
      (budget.budgeted (·.content.length) b results).length := by
    have hcosts := congrArg (budget.budgeted String.length b) hpool
    rw [budget.budgeted_map, budget.budgeted_map] at hcosts
    simpa using congrArg List.length hcosts
  rw [budget_loop_budgeted hentries, ← hlength]
  exact List.prefix_iff_eq_take.mp (budget.budgeted_prefix pool)

def note_result (id : UUID) (content : String) : RecallResult ℚ :=
  { id, type := .memory .lesson, scope := .private_, content, created_at := 0, score := 0 }

/-- The second note fills the budget. -/
theorem the_budgets_agree_three_notes :
    budget.LongestWithin (·.content.length) 9
        [note_result 1 "retry", note_result 2 "once", note_result 3 "then stop"]
        (apply_char_budget
          [note_result 1 "retry", note_result 2 "once", note_result 3 "then stop"] 9) ∧
      ∀ pool : List Tagged, pool.map (·.entry.content) = ["retry", "once", "then stop"] →
        budget_loop 9 pool 0 = pool.take 2 :=
  the_budgets_agree 9 (by decide)

/-! ## The most important entries -/

def ContextMemories.bucket (c : ContextMemories) : Bucket → List MemoryEntry
  | .mental_models => c.mental_models
  | .decisions => c.decisions
  | .lessons => c.lessons

/-- The entries of all buckets, in the order of the buckets. -/
def ContextMemories.all (c : ContextMemories) : List MemoryEntry :=
  c.mental_models ++ c.decisions ++ c.lessons

def MemoryEntry.weight (e : MemoryEntry) : ℚ := e.importance.getD 0

def Bucket.rank : Bucket → Nat
  | .mental_models => 0
  | .decisions => 1
  | .lessons => 2

/-- What the selection sees of an entry: its place, its length and its importance. -/
structure Slot where
  bucket : Bucket
  index : Nat
  cost : Nat
  weight : ℚ
  deriving DecidableEq

/-- The place comes before the other one in the order of the buckets. -/
def Slot.before (x y : Slot) : Prop :=
  x.bucket.rank < y.bucket.rank ∨ (x.bucket = y.bucket ∧ x.index < y.index)

/-- The place comes before the other one in the order of importance. -/
def Slot.leads (x y : Slot) : Prop := y.weight < x.weight ∨ (x.weight = y.weight ∧ x.before y)

/-- The lengths and the importances of a bucket. -/
abbrev Profile := List (Nat × ℚ)

def profile (entries : List MemoryEntry) : Profile :=
  entries.map fun e => (e.content.length, e.weight)

def slots (k : Bucket) (p : Profile) : List Slot :=
  p.zipIdx.map fun x => ⟨k, x.2, x.1.1, x.1.2⟩

def all_slots (p : Bucket → Profile) : List Slot :=
  slots .mental_models (p .mental_models) ++ slots .decisions (p .decisions) ++
    slots .lessons (p .lessons)

/-- The slots that fit, the most important ones first. -/
def kept_slots (p : Bucket → Profile) (b : Int) : List Slot :=
  budget.budgeted Slot.cost b (rows.order_desc Slot.weight (all_slots p))

/-- The places that are kept in a bucket. They depend on the lengths and the importances alone. -/
def kept_places (p : Bucket → Profile) (b : Int) (k : Bucket) : List Nat :=
  ((slots k (p k)).filter (· ∈ kept_slots p b)).map (·.index)

/-- The kept places of three buckets are the most important ones within the budget. -/
structure KeepsImportant (c : ContextMemories) (b : Int) (keep : Bucket → List Nat)
    (shown : ContextMemories) : Prop where
  sublist : ∀ k, (keep k).Pairwise (· < ·) ∧
    shown.bucket k = ranking.at_places (c.bucket k) (keep k)
  important : ∀ k i e k' j d, i ∈ keep k → (c.bucket k)[i]? = some e →
    j ∉ keep k' → (c.bucket k')[j]? = some d → d.weight ≤ e.weight
  within : budget.total (·.content.length) shown.all ≤ b ∨ shown.all.length = 1
  some_kept : c.all ≠ [] → shown.all ≠ []
  full : ∀ k j d, j ∉ keep k → (c.bucket k)[j]? = some d →
    (∀ k' j' d', j' ∉ keep k' → (c.bucket k')[j']? = some d' →
      ¬ Slot.leads ⟨k', j', d'.content.length, d'.weight⟩ ⟨k, j, d.content.length, d.weight⟩) →
    b < budget.total (·.content.length) shown.all + d.content.length

def Tagged.slot (t : Tagged) : Slot := ⟨t.bucket, t.index, t.entry.content.length, t.entry.weight⟩

theorem mem_tag {k : Bucket} {entries : List MemoryEntry} {t : Tagged} :
    t ∈ tag k entries ↔ t.bucket = k ∧ entries[t.index]? = some t.entry := by
  unfold tag
  rw [List.mem_map]
  constructor
  · rintro ⟨⟨e, i⟩, he, rfl⟩
    exact ⟨rfl, List.mem_zipIdx_iff_getElem?.mp he⟩
  · rintro ⟨rfl, he⟩
    exact ⟨(t.entry, t.index), List.mem_zipIdx_iff_getElem?.mpr he, rfl⟩

theorem tag_slots (k : Bucket) (entries : List MemoryEntry) :
    (tag k entries).map Tagged.slot = slots k (profile entries) := by
  unfold tag slots profile
  rw [List.zipIdx_map, List.map_map, List.map_map]
  rfl

theorem tag_ordered (k : Bucket) (entries : List MemoryEntry) :
    (tag k entries).Pairwise fun t u => t.index < u.index := by
  unfold tag
  rw [List.pairwise_map, List.pairwise_iff_getElem]
  intro i j hi hj hij
  simpa using hij

section
variable (c : ContextMemories)

/-- The entries of all buckets with their places. -/
def ContextMemories.pool : List Tagged :=
  tag .mental_models c.mental_models ++ tag .decisions c.decisions ++ tag .lessons c.lessons

def ContextMemories.profile (k : Bucket) : Profile := qortia.profile (c.bucket k)

/-- The pool in the order of importance. -/
def ContextMemories.ranked : List Tagged := rows.order_desc (fun t => t.entry.weight) c.pool

variable {c}

theorem mem_pool {t : Tagged} :
    t ∈ c.pool ↔ (c.bucket t.bucket)[t.index]? = some t.entry := by
  unfold ContextMemories.pool
  rw [List.mem_append, List.mem_append, mem_tag, mem_tag, mem_tag]
  cases hk : t.bucket <;> simp [ContextMemories.bucket]

theorem pool_slots : c.pool.map Tagged.slot = all_slots c.profile := by
  unfold ContextMemories.pool all_slots
  rw [List.map_append, List.map_append, tag_slots, tag_slots, tag_slots]
  rfl

theorem pool_entries : c.pool.map (·.entry) = c.all := by
  have htag : ∀ k entries, (tag k entries).map (·.entry) = entries := by
    intro k entries
    unfold tag
    rw [List.map_map]
    exact List.zipIdx_map_fst 0 entries
  unfold ContextMemories.pool ContextMemories.all
  rw [List.map_append, List.map_append, htag, htag, htag]

theorem pool_ordered : c.pool.Pairwise fun t u => t.slot.before u.slot := by
  have htag : ∀ k entries, (tag k entries).Pairwise fun t u => t.slot.before u.slot := by
    intro k entries
    refine (tag_ordered k entries).imp_of_mem fun {t u} ht hu hlt => Or.inr ⟨?_, hlt⟩
    exact (mem_tag.mp ht).1.trans (mem_tag.mp hu).1.symm
  have hacross : ∀ {k k' : Bucket} {entries entries' : List MemoryEntry}, k.rank < k'.rank →
      ∀ t ∈ tag k entries, ∀ u ∈ tag k' entries', t.slot.before u.slot := by
    intro k k' entries entries' hrank t ht u hu
    left
    unfold Tagged.slot
    rw [(mem_tag.mp ht).1, (mem_tag.mp hu).1]
    exact hrank
  unfold ContextMemories.pool
  rw [List.pairwise_append, List.pairwise_append]
  refine ⟨⟨htag _ _, htag _ _, hacross (by decide)⟩, htag _ _, ?_⟩
  intro t ht u hu
  rcases List.mem_append.mp ht with ht | ht
  · exact hacross (by decide) t ht u hu
  · exact hacross (by decide) t ht u hu

theorem pool_nodup : c.pool.Nodup := by
  refine pool_ordered.imp fun {t u} hbefore heq => ?_
  subst heq
  rcases hbefore with h | h
  · exact lt_irrefl _ h
  · exact lt_irrefl _ h.2

/-- Two entries of one place are one. -/
theorem eq_of_slot {t u : Tagged} (ht : t ∈ c.pool) (hu : u ∈ c.pool) (h : t.slot = u.slot) :
    t = u := by
  rw [mem_pool] at ht hu
  obtain ⟨e, k, i⟩ := t
  obtain ⟨e', k', i'⟩ := u
  simp only [Tagged.slot, Slot.mk.injEq] at h
  obtain ⟨rfl, rfl, -, -⟩ := h
  simp only at ht hu
  rw [ht] at hu
  rw [Option.some.inj hu]

/-- The entries that the selection keeps. -/
def ContextMemories.survivors (c : ContextMemories) (b : Int) : List Tagged :=
  budget.budgeted (·.entry.content.length) b c.ranked

theorem ranked_split (b : Int) :
    c.survivors b = c.ranked ∨ ∃ next rest, c.ranked = c.survivors b ++ next :: rest ∧
      b < budget.total (·.entry.content.length) (c.survivors b) + next.entry.content.length :=
  budget.budgeted_next c.ranked

theorem survivors_slots (b : Int) :
    (c.survivors b).map Tagged.slot = kept_slots c.profile b := by
  unfold ContextMemories.survivors kept_slots ContextMemories.ranked
  rw [← pool_slots, rows.order_desc_map, budget.budgeted_map]
  rfl

theorem mem_survivors_pool {b : Int} {t : Tagged} (h : t ∈ c.survivors b) : t ∈ c.pool :=
  rows.mem_order_desc.mp ((budget.budgeted_prefix _).subset h)

theorem mem_survivors_iff {b : Int} {t : Tagged} (ht : t ∈ c.pool) :
    t ∈ c.survivors b ↔ t.slot ∈ kept_slots c.profile b := by
  rw [← survivors_slots, List.mem_map]
  constructor
  · intro h
    exact ⟨t, h, rfl⟩
  · rintro ⟨u, hu, heq⟩
    exact eq_of_slot (mem_survivors_pool hu) ht heq ▸ hu

theorem survivors_nodup (b : Int) : (c.survivors b).Nodup := by
  have hranked : c.ranked.Nodup := (rows.order_desc_perm _ _).nodup_iff.mpr pool_nodup
  exact hranked.sublist (budget.budgeted_prefix _).sublist

theorem mem_kept_places {b : Int} {k : Bucket} {i : Nat} {e : MemoryEntry}
    (h : (c.bucket k)[i]? = some e) :
    i ∈ kept_places c.profile b k ↔ (⟨e, k, i⟩ : Tagged) ∈ c.survivors b := by
  have hpool : (⟨e, k, i⟩ : Tagged) ∈ c.pool := mem_pool.mpr h
  rw [mem_survivors_iff hpool]
  unfold kept_places
  rw [show c.profile k = profile (c.bucket k) from rfl, ← tag_slots, List.mem_map]
  constructor
  · rintro ⟨x, hx, rfl⟩
    obtain ⟨hx, hkept⟩ := List.mem_filter.mp hx
    obtain ⟨t, ht, rfl⟩ := List.mem_map.mp hx
    obtain ⟨hk, he⟩ := mem_tag.mp ht
    have heq : (⟨e, k, t.slot.index⟩ : Tagged) = t := by
      obtain ⟨e', k', i'⟩ := t
      simp only at hk he
      subst hk
      change (c.bucket k')[i']? = some e at h
      rw [he] at h
      rw [Option.some.inj h]
      rfl
    rw [heq]
    exact of_decide_eq_true hkept
  · intro hkept
    refine ⟨Tagged.slot ⟨e, k, i⟩, List.mem_filter.mpr ⟨?_, decide_eq_true hkept⟩, rfl⟩
    exact List.mem_map_of_mem (mem_tag.mpr ⟨rfl, h⟩)

/-- The places of the survivors, in the order of the bucket. -/
theorem restore_order_eq (b : Int) (k : Bucket) :
    restore_order (tag k (c.bucket k)) (c.survivors b) =
      ranking.at_places (c.bucket k) (kept_places c.profile b k) := by
  have hfilter : (tag k (c.bucket k)).filter (· ∈ c.survivors b) =
      (tag k (c.bucket k)).filter fun t => t.slot ∈ kept_slots c.profile b := by
    refine List.filter_congr fun t ht => decide_eq_decide.mpr (mem_survivors_iff ?_)
    obtain ⟨hk, he⟩ := mem_tag.mp ht
    rw [mem_pool, hk]
    exact he
  unfold restore_order kept_places ranking.at_places
  rw [hfilter, show c.profile k = profile (c.bucket k) from rfl, ← tag_slots, List.filter_map,
    List.map_map, List.filterMap_map]
  have hentry : ∀ t ∈ (tag k (c.bucket k)).filter fun t => t.slot ∈ kept_slots c.profile b,
      (c.bucket k)[t.index]? = some t.entry :=
    fun t ht => (mem_tag.mp (List.mem_of_mem_filter ht)).2
  rw [← List.filterMap_eq_map]
  exact (List.filterMap_congr hentry).symm

theorem kept_places_ordered (b : Int) (k : Bucket) :
    (kept_places c.profile b k).Pairwise (· < ·) := by
  unfold kept_places
  rw [show c.profile k = profile (c.bucket k) from rfl, ← tag_slots, List.pairwise_map]
  apply List.Pairwise.filter
  rw [List.pairwise_map]
  exact tag_ordered k (c.bucket k)

/-- What is shown are the survivors. -/
theorem shown_perm (b : Int) :
    (restore_order c.pool (c.survivors b)).Perm ((c.survivors b).map (·.entry)) := by
  unfold restore_order
  refine List.Perm.map _ ?_
  rw [List.perm_ext_iff_of_nodup (pool_nodup.filter _) (survivors_nodup b)]
  intro t
  rw [List.mem_filter, decide_eq_true_eq]
  constructor
  · exact And.right
  · intro h
    exact ⟨mem_survivors_pool h, h⟩

theorem budget_memories_eq {b : Int} (hb : 0 < b) (hcontents : ∀ e ∈ c.all, e.content ≠ "") :
    budget_memories c.mental_models c.decisions c.lessons (some b) =
      { mental_models := restore_order (tag .mental_models c.mental_models) (c.survivors b)
        decisions := restore_order (tag .decisions c.decisions) (c.survivors b)
        lessons := restore_order (tag .lessons c.lessons) (c.survivors b) } := by
  have hloop : budget_loop b c.ranked 0 = c.survivors b := by
    apply budget_loop_budgeted
    intro t ht
    apply hcontents t.entry
    rw [← pool_entries]
    exact List.mem_map_of_mem (rows.mem_order_desc.mp ht)
  unfold budget_memories
  simp only [if_neg (not_le.mpr hb)]
  rw [← hloop]
  rfl

end

/-- `_budget_memories` keeps the most important entries of three buckets. Which places survive is
decided by lengths and importances, so that equal entries have no part in it. -/
theorem the_context_keeps_the_important {c : ContextMemories} {b : Int} (hb : 0 < b)
    (hcontents : ∀ e ∈ c.all, e.content ≠ "") :
    KeepsImportant c b (kept_places c.profile b)
      (budget_memories c.mental_models c.decisions c.lessons (some b)) := by
  have heq := budget_memories_eq hb hcontents
  have hall : (budget_memories c.mental_models c.decisions c.lessons (some b)).all =
      restore_order c.pool (c.survivors b) := by
    rw [heq]
    unfold ContextMemories.all ContextMemories.pool restore_order
    rw [List.filter_append, List.filter_append, List.map_append, List.map_append]
  have hperm := hall ▸ shown_perm (c := c) b
  have htotal : budget.total (·.content.length)
      (budget_memories c.mental_models c.decisions c.lessons (some b)).all =
        budget.total (·.entry.content.length) (c.survivors b) := by
    rw [budget.total_perm _ hperm]
    unfold budget.total
    rw [List.map_map]
    rfl
  -- The pool in order: the survivors, and what comes after them.
  obtain ⟨dropped, hdropped⟩ : c.survivors b <+: c.ranked := budget.budgeted_prefix c.ranked
  have hrest : ∀ k j d, j ∉ kept_places c.profile b k → (c.bucket k)[j]? = some d →
      (⟨d, k, j⟩ : Tagged) ∈ dropped := by
    intro k j d hj hd
    have hmem : (⟨d, k, j⟩ : Tagged) ∈ c.ranked := rows.mem_order_desc.mpr (mem_pool.mpr hd)
    rw [← hdropped] at hmem
    exact (List.mem_append.mp hmem).resolve_left fun h => hj ((mem_kept_places hd).mpr h)
  refine ⟨fun k => ⟨kept_places_ordered b k, ?_⟩, ?_, ?_, ?_, ?_⟩
  · rw [heq, ← restore_order_eq]
    cases k <;> rfl
  · intro k i e k' j d hi he hj hd
    have hsorted := rows.order_desc_sorted (fun t : Tagged => t.entry.weight) c.pool
    change c.ranked.Pairwise _ at hsorted
    rw [← hdropped, List.pairwise_append] at hsorted
    exact hsorted.2.2 _ ((mem_kept_places he).mp hi) _ (hrest k' j d hj hd)
  · rw [htotal, hperm.length_eq, List.length_map]
    exact budget.budgeted_le hb.le c.ranked
  · intro hne hnil
    have hranked : c.ranked ≠ [] := by
      intro h
      apply hne
      rw [← pool_entries, (h ▸ rows.order_desc_perm _ c.pool : [].Perm c.pool).symm.eq_nil]
      rfl
    have hkept : c.survivors b ≠ [] := budget.budgeted_ne_nil hranked
    rw [hnil] at hperm
    exact hkept (List.map_eq_nil_iff.mp hperm.symm.eq_nil)
  · intro k j d hj hd hfirst
    rw [htotal]
    have hmem := hrest k j d hj hd
    rcases ranked_split (c := c) b with hfull | ⟨next, rest, hnext, hover⟩
    · rw [hfull] at hdropped
      rw [List.append_right_eq_self.mp hdropped] at hmem
      cases hmem
    · have hsame : dropped = next :: rest := List.append_cancel_left (hdropped.trans hnext)
      rw [hsame] at hmem
      rcases List.mem_cons.mp hmem with rfl | hlater
      · exact hover
      · -- The next one of the order leads every other one that is dropped.
        have hstable := rows.order_desc_stable (fun t : Tagged => t.entry.weight) pool_nodup
          (pool_ordered (c := c))
        change c.ranked.Pairwise _ at hstable
        rw [hnext, List.pairwise_append, List.pairwise_cons] at hstable
        have hleads := hstable.2.1.1 _ hlater
        have hpool : next ∈ c.pool := by
          have hin : next ∈ c.ranked := by
            rw [hnext]
            simp
          exact rows.mem_order_desc.mp hin
        have hnot : next.index ∉ kept_places c.profile b next.bucket := by
          rw [mem_kept_places (mem_pool.mp hpool)]
          intro hkept
          have hnodup : c.ranked.Nodup := (rows.order_desc_perm _ _).nodup_iff.mpr pool_nodup
          rw [hnext, List.nodup_append] at hnodup
          exact hnodup.2.2 next hkept next List.mem_cons_self rfl
        exact absurd hleads (hfirst _ _ _ hnot (mem_pool.mp hpool))

/-- A decision with the text and the importance of a mental model, and a lesson. -/
def equal_notes : ContextMemories where
  mental_models := [⟨none, "the lexer fails", some (9 / 10)⟩]
  decisions := [⟨none, "the lexer fails", some (9 / 10)⟩, ⟨none, "retry", none⟩]
  lessons := [⟨none, "retry once", some (95 / 100)⟩]

/-- The mental model survives, and the decision that equals it does not. -/
theorem the_context_keeps_the_important_of_equals :
    KeepsImportant equal_notes 30 (kept_places equal_notes.profile 30)
        (budget_memories equal_notes.mental_models equal_notes.decisions equal_notes.lessons
          (some 30)) ∧
      budget_memories equal_notes.mental_models equal_notes.decisions equal_notes.lessons
          (some 30) =
        { mental_models := equal_notes.mental_models, decisions := []
          lessons := equal_notes.lessons } :=
  ⟨the_context_keeps_the_important (by decide) (by decide), by decide +kernel⟩

end qortia
