-- A ranked list that is shown in another order, and only as far as there is room. What is shown
-- is read as the list of the places that it has in the ranking.
import Mathlib.Data.List.Nodup
import Mathlib.Data.List.Range
import Mathlib.Data.Option.Basic
import Qortia.Lib.Rows

namespace ranking

variable {α Key : Type}

/-- The elements at the places, in the order of the places. -/
def at_places (l : List α) (places : List Nat) : List α := places.filterMap (l[·]?)

theorem mem_at_places {l : List α} {places : List Nat} {x : α} :
    x ∈ at_places l places ↔ ∃ i ∈ places, l[i]? = some x :=
  List.mem_filterMap

theorem at_places_append (l : List α) (p q : List Nat) :
    at_places l (p ++ q) = at_places l p ++ at_places l q :=
  List.filterMap_append

theorem at_places_cons {l : List α} {i : Nat} (h : i < l.length) (places : List Nat) :
    at_places l (i :: places) = l[i] :: at_places l places :=
  List.filterMap_cons_some (List.getElem?_eq_getElem h)

theorem length_at_places {l : List α} {places : List Nat} (h : ∀ i ∈ places, i < l.length) :
    (at_places l places).length = places.length := by
  induction places with
  | nil => rfl
  | cons i places ih =>
    rw [at_places_cons (h i List.mem_cons_self), List.length_cons, List.length_cons,
      ih fun j hj => h j (List.mem_cons_of_mem i hj)]

theorem getElem?_at_places {l : List α} {places : List Nat} (h : ∀ i ∈ places, i < l.length)
    (n : Nat) : (at_places l places)[n]? = places[n]?.bind (l[·]?) := by
  induction places generalizing n with
  | nil => rfl
  | cons i places ih =>
    rw [at_places_cons (h i List.mem_cons_self)]
    cases n with
    | zero => simp [h i List.mem_cons_self]
    | succ n =>
      rw [List.getElem?_cons_succ, List.getElem?_cons_succ]
      exact ih (fun j hj => h j (List.mem_cons_of_mem i hj)) n

theorem eraseIdx_at_places {l : List α} {places : List Nat} (h : ∀ i ∈ places, i < l.length)
    (n : Nat) : (at_places l places).eraseIdx n = at_places l (places.eraseIdx n) := by
  induction places generalizing n with
  | nil => rfl
  | cons i places ih =>
    rw [at_places_cons (h i List.mem_cons_self)]
    cases n with
    | zero => rfl
    | succ n =>
      rw [List.eraseIdx_cons_succ, List.eraseIdx_cons_succ,
        at_places_cons (h i List.mem_cons_self), ih fun j hj => h j (List.mem_cons_of_mem i hj)]

/-! ## The picked ones first -/

/-- The picked places, and then the places whose key no picked element has. -/
def picked_first [DecidableEq Key] (key : α → Key) (l : List α) (picks : List Nat) : List Nat :=
  picks ++ (List.range l.length).filter fun i =>
    l[i]?.all fun x => key x ∉ (at_places l picks).map key

theorem at_places_range (l : List α) : at_places l (List.range l.length) = l := by
  induction l with
  | nil => rfl
  | cons x l ih =>
    rw [List.length_cons, List.range_succ_eq_map]
    unfold at_places at ih ⊢
    rw [List.filterMap_cons, List.filterMap_map]
    exact congrArg (x :: ·) ih

/-- A filter on the elements is a filter on the places. -/
theorem at_places_filter (l : List α) (p : α → Bool) (places : List Nat) :
    at_places l (places.filter fun i => l[i]?.all p) = (at_places l places).filter p := by
  unfold at_places
  rw [List.filterMap_filter, List.filter_filterMap]
  apply List.filterMap_congr
  intro i _
  cases h : l[i]? with
  | none => simp
  | some x =>
    by_cases hp : p x = true
    · simp [Option.filter, hp]
    · simp [Option.filter, hp]

theorem at_picked_first [DecidableEq Key] (key : α → Key) (l : List α) (picks : List Nat) :
    at_places l (picked_first key l picks) =
      at_places l picks ++ l.filter fun x => key x ∉ (at_places l picks).map key := by
  unfold picked_first
  rw [at_places_append, at_places_filter l fun x => key x ∉ (at_places l picks).map key,
    at_places_range]

theorem lt_of_mem_picked_first [DecidableEq Key] {key : α → Key} {l : List α} {picks : List Nat}
    (h : ∀ i ∈ picks, i < l.length) {i : Nat} (hi : i ∈ picked_first key l picks) :
    i < l.length := by
  rcases List.mem_append.mp hi with hi | hi
  · exact h i hi
  · exact List.mem_range.mp (List.mem_of_mem_filter hi)

/-- Nothing is left out. -/
theorem key_mem_picked_first [DecidableEq Key] {key : α → Key} {l : List α} {picks : List Nat}
    {x : α} (hx : x ∈ l) :
    key x ∈ (at_places l (picked_first key l picks)).map key := by
  rw [at_picked_first, List.map_append, List.mem_append]
  by_cases h : key x ∈ (at_places l picks).map key
  · exact Or.inl h
  · apply Or.inr
    apply List.mem_map_of_mem
    rw [List.mem_filter]
    exact ⟨hx, decide_eq_true h⟩

/-- Only a place that is picked twice comes twice. -/
theorem nodup_take_picked_first [DecidableEq Key] {key : α → Key} {l : List α} {picks : List Nat}
    (h : ∀ i ∈ picks, i < l.length) (n : Nat) :
    ((picked_first key l picks).take n).Nodup ↔ (picks.take n).Nodup := by
  unfold picked_first
  rw [List.take_append, List.nodup_append']
  constructor
  · intro hnodup
    exact hnodup.1
  · intro hnodup
    refine ⟨hnodup, ?_, ?_⟩
    · exact ((List.nodup_range).filter _).sublist (List.take_sublist _ _)
    · intro i hi hrest
      have hpick := List.mem_of_mem_take hi
      have hkey := (List.mem_filter.mp (List.mem_of_mem_take hrest)).2
      have hlt := h i hpick
      have hx : l[i]? = some l[i] := List.getElem?_eq_getElem hlt
      rw [hx, Option.all_some, decide_eq_true_eq] at hkey
      apply hkey
      apply List.mem_map_of_mem
      exact mem_at_places.mpr ⟨i, hpick, hx⟩

/-! ## As far as there is room -/

/-- How many costs fit into the budget, the first one in any case. It ends with the cost that
fills the budget. -/
def filled (budget : Int) : (used : Int) → List Nat → Nat
  | _, [] => 0
  | used, cost :: costs =>
    if budget < used + cost then 0
    else if budget ≤ used + cost then 1
    else filled budget (used + cost) costs + 1

/-- How many are shown. -/
def shown (budget : Int) (costs : List Nat) : Nat := max 1 (filled budget 0 costs)

theorem shown_pos (budget : Int) (costs : List Nat) : 0 < shown budget costs := by
  unfold shown
  omega

theorem take_at_places (l : List α) {places : List Nat} (h : ∀ i ∈ places, i < l.length) (n : Nat) :
    (at_places l places).take n = at_places l (places.take n) := by
  unfold at_places
  induction places generalizing n with
  | nil => simp
  | cons i places ih =>
    have hlt := h i List.mem_cons_self
    have hi : l[i]? = some l[i] := List.getElem?_eq_getElem hlt
    cases n with
    | zero => simp
    | succ n =>
      rw [List.filterMap_cons_some hi, List.take_succ_cons, List.take_succ_cons,
        List.filterMap_cons_some hi, ih fun j hj => h j (List.mem_cons_of_mem i hj)]

/-! ## Distinct keys -/

theorem map_at_places (key : α → Key) {l : List α} {places : List Nat}
    (h : ∀ i ∈ places, i < l.length) :
    ((at_places l places).map key).map some = places.map fun i => l[i]?.map key := by
  unfold at_places
  induction places with
  | nil => rfl
  | cons i places ih =>
    have hlt := h i List.mem_cons_self
    have hi : l[i]? = some l[i] := List.getElem?_eq_getElem hlt
    rw [List.filterMap_cons_some hi, List.map_cons, List.map_cons, List.map_cons, hi,
      ih fun j hj => h j (List.mem_cons_of_mem i hj)]
    rfl

/-- Where only the first element may come again. -/
theorem same_in_cons_iff {k : Key} {l : List Key} (hnodup : l.Nodup) {i j : Nat} (hij : i < j)
    (hj : j ≤ l.length) : (k :: l)[i]? = (k :: l)[j]? ↔ i = 0 ∧ l[j - 1]? = some k := by
  cases j with
  | zero => omega
  | succ j =>
    rw [List.getElem?_cons_succ, Nat.add_sub_cancel]
    cases i with
    | zero =>
      rw [List.getElem?_cons_zero]
      simp [eq_comm]
    | succ i =>
      rw [List.getElem?_cons_succ, List.getElem?_inj (by omega) hnodup]
      simp
      omega

/-- The keys that are shown are distinct if no place is shown twice and no two places that are
shown have one key. -/
theorem distinct_keys_iff {key : α → Key} {l : List α} {places : List Nat}
    (h : ∀ i ∈ places, i < l.length) :
    ((at_places l places).map key).Nodup ↔
      places.Nodup ∧
        ∀ i ∈ places, ∀ j ∈ places, l[i]?.map key = l[j]?.map key → i = j := by
  rw [← List.nodup_map_iff (Option.some_injective Key), map_at_places key h]
  constructor
  · intro hnodup
    exact ⟨hnodup.of_map, fun i hi j hj heq => List.inj_on_of_nodup_map hnodup hi hj heq⟩
  · rintro ⟨hnodup, hinj⟩
    exact hnodup.map_on hinj

/-- Of elements with distinct keys, each one comes once if and only if no place is picked twice. -/
theorem picked_first_perm_iff [DecidableEq Key] {key : α → Key} {l : List α} {picks : List Nat}
    (hkeys : (l.map key).Nodup) (h : ∀ i ∈ picks, i < l.length) :
    (at_places l (picked_first key l picks)).Perm l ↔ picks.Nodup := by
  have hlt : ∀ i ∈ picked_first key l picks, i < l.length := fun i => lt_of_mem_picked_first h
  constructor
  · intro hperm
    have hnodup := (hperm.map key).nodup_iff.mpr hkeys
    have hplaces := ((distinct_keys_iff hlt).mp hnodup).1
    exact hplaces.sublist (List.sublist_append_left _ _)
  · intro hpicks
    have hplaces : (picked_first key l picks).Nodup := by
      rw [← List.take_length (l := picked_first key l picks), nodup_take_picked_first h]
      exact hpicks.sublist (List.take_sublist _ _)
    have hinj : ∀ i ∈ picked_first key l picks, ∀ j ∈ picked_first key l picks,
        l[i]?.map key = l[j]?.map key → i = j := by
      intro i hi j hj heq
      rw [← List.getElem?_map, ← List.getElem?_map] at heq
      exact (List.getElem?_inj (by simpa using hlt i hi) hkeys).mp heq
    have hnodup := (distinct_keys_iff hlt).mpr ⟨hplaces, hinj⟩
    apply (List.perm_ext_iff_of_nodup hnodup.of_map hkeys.of_map).mpr
    intro x
    constructor
    · intro hx
      obtain ⟨i, -, hi⟩ := mem_at_places.mp hx
      exact List.mem_of_getElem? hi
    · intro hx
      have hkey : key x ∈ (at_places l (picked_first key l picks)).map key :=
        key_mem_picked_first hx
      obtain ⟨y, hy, heq⟩ := List.mem_map.mp hkey
      obtain ⟨i, -, hi⟩ := mem_at_places.mp hy
      rwa [← List.inj_on_of_nodup_map hkeys (List.mem_of_getElem? hi) hx heq]

/-! ## The first one stays on top -/

/-- The first place comes first, and nowhere else. -/
def FirstOnce (places : List Nat) : Prop := places.head? = some 0 ∧ 0 ∉ places.tail

/-- The property holds of the first element, and of no other. -/
def OnTop (P : α → Prop) : List α → Prop
  | [] => True
  | x :: l => P x ∧ ∀ y ∈ l, ¬ P y

instance OnTop.decidable (P : α → Prop) [DecidablePred P] : ∀ l, Decidable (OnTop P l)
  | [] => isTrue trivial
  | x :: l => inferInstanceAs (Decidable (P x ∧ ∀ y ∈ l, ¬ P y))

theorem range_first_once {n k : Nat} (hn : 0 < n) (hk : 0 < k) :
    FirstOnce ((List.range n).take k) := by
  obtain ⟨n, rfl⟩ := Nat.exists_eq_succ_of_ne_zero hn.ne'
  obtain ⟨k, rfl⟩ := Nat.exists_eq_succ_of_ne_zero hk.ne'
  rw [List.range_succ_eq_map, List.take_succ_cons]
  refine ⟨rfl, fun hmem => ?_⟩
  obtain ⟨i, -, hi⟩ := List.mem_map.mp (List.mem_of_mem_take hmem)
  exact Nat.succ_ne_zero i hi

theorem picked_first_nil [DecidableEq Key] (key : α → Key) (l : List α) :
    picked_first key l [] = List.range l.length := by
  unfold picked_first
  rw [List.nil_append, List.filter_eq_self]
  intro i hi
  rw [List.getElem?_eq_getElem (List.mem_range.mp hi)]
  simp [at_places]

/-- The first place stays first if it is picked first, and it comes once if it is not picked again
among those that are shown. -/
theorem picked_first_once_iff [DecidableEq Key] {key : α → Key} {l : List α} {pick : Nat}
    {picks : List Nat} {k : Nat} (h : ∀ i ∈ pick :: picks, i < l.length) (hk : 0 < k) :
    FirstOnce ((picked_first key l (pick :: picks)).take k) ↔
      pick = 0 ∧ 0 ∉ picks.take (k - 1) := by
  obtain ⟨k, rfl⟩ := Nat.exists_eq_succ_of_ne_zero hk.ne'
  unfold FirstOnce picked_first
  rw [List.cons_append, List.take_succ_cons, List.head?_cons, List.tail_cons, Option.some.injEq,
    Nat.succ_eq_add_one, Nat.add_sub_cancel]
  apply and_congr_right
  rintro rfl
  -- The rest leaves out the key of the first element.
  have hlt := h 0 List.mem_cons_self
  have hkey : key l[0] ∈ (at_places l (0 :: picks)).map key :=
    List.mem_map_of_mem (mem_at_places.mpr ⟨0, List.mem_cons_self, List.getElem?_eq_getElem hlt⟩)
  rw [List.take_append, List.mem_append, not_or]
  refine and_iff_left ?_
  intro hmem
  have hall := (List.mem_filter.mp (List.mem_of_mem_take hmem)).2
  rw [List.getElem?_eq_getElem hlt, Option.all_some, decide_eq_true_eq] at hall
  exact hall hkey

/-- What holds of the first element only is on top of what is shown exactly when the first place
is. -/
theorem on_top_at_places_iff {P : α → Prop} {l : List α} {places : List Nat}
    (hP : ∀ i x, l[i]? = some x → (P x ↔ i = 0)) (h : ∀ i ∈ places, i < l.length)
    (hne : places ≠ []) : OnTop P (at_places l places) ↔ FirstOnce places := by
  cases places with
  | nil => exact absurd rfl hne
  | cons i places =>
    have hlt := h i List.mem_cons_self
    have hat := hP i l[i] (List.getElem?_eq_getElem hlt)
    have htop : OnTop P (l[i] :: at_places l places) ↔
        P l[i] ∧ ∀ y ∈ at_places l places, ¬ P y := Iff.rfl
    rw [at_places_cons hlt, htop, FirstOnce, List.head?_cons, List.tail_cons, Option.some.injEq,
      hat]
    apply and_congr_right
    intro _
    constructor
    · intro hrest hmem
      have hzero := List.getElem?_eq_getElem (h 0 (List.mem_cons_of_mem i hmem))
      exact hrest _ (mem_at_places.mpr ⟨0, hmem, hzero⟩) ((hP 0 _ hzero).mpr rfl)
    · intro hzero y hy hPy
      obtain ⟨j, hj, hjy⟩ := mem_at_places.mp hy
      rw [(hP j y hjy).mp hPy] at hj
      exact hzero hj

/-! ## Ranked by a score -/

section
variable {S : Type}

variable [DecidableEq Key]

/-- The keys of a list, each one once, by score and then by their first appearance. -/
structure RankedBy [LinearOrder S] (score : Key → S) (keys out : List Key) : Prop where
  nodup : out.Nodup
  mem_iff : ∀ x, x ∈ out ↔ x ∈ keys
  ordered : out.Pairwise fun x y =>
    score y < score x ∨ (score x = score y ∧ keys.idxOf x < keys.idxOf y)

/-- The stable sort of the keys in the order of their first appearance. -/
theorem ranked_by_order_desc [LinearOrder S] {score : Key → S} {keys firsts : List Key}
    (hnodup : firsts.Nodup) (hmem : ∀ x, x ∈ firsts ↔ x ∈ keys)
    (hfirst : firsts.Pairwise fun x y => keys.idxOf x < keys.idxOf y) :
    RankedBy score keys (rows.order_desc score firsts) := by
  have hout : (rows.order_desc score firsts).Nodup :=
    (rows.order_desc_perm score firsts).nodup_iff.mpr hnodup
  exact ⟨hout, fun x => by rw [rows.mem_order_desc, hmem],
    rows.order_desc_stable score hnodup hfirst⟩

/-- Two scores rank the keys alike if and only if they agree on every two of them. -/
theorem RankedBy.iff_agree [LinearOrder S] {score score' : Key → S} {keys out : List Key}
    (h : RankedBy score keys out) :
    RankedBy score' keys out ↔
      ∀ x ∈ keys, ∀ y ∈ keys, keys.idxOf x < keys.idxOf y →
        (score y ≤ score x ↔ score' y ≤ score' x) := by
  have hpair : ∀ x ∈ keys, ∀ y ∈ keys, keys.idxOf x < keys.idxOf y →
      [x, y].Sublist out ∨ [y, x].Sublist out := by
    intro x hx y hy hlt
    apply rows.pair_sublist_total ((h.mem_iff x).mpr hx) ((h.mem_iff y).mpr hy)
    rintro rfl
    exact lt_irrefl _ hlt
  constructor
  · intro h' x hx y hy hlt
    rcases hpair x hx y hy hlt with hxy | hyx
    · have hs := List.pairwise_iff_forall_sublist.mp h.ordered hxy
      have hs' := List.pairwise_iff_forall_sublist.mp h'.ordered hxy
      apply iff_of_true
      · rcases hs with hs | hs
        · exact hs.le
        · exact hs.1.ge
      · rcases hs' with hs' | hs'
        · exact hs'.le
        · exact hs'.1.ge
    · have hs := List.pairwise_iff_forall_sublist.mp h.ordered hyx
      have hs' := List.pairwise_iff_forall_sublist.mp h'.ordered hyx
      apply iff_of_false
      · rcases hs with hs | hs
        · exact not_le.mpr hs
        · omega
      · rcases hs' with hs' | hs'
        · exact not_le.mpr hs'
        · omega
  · intro hagree
    refine ⟨h.nodup, h.mem_iff, ?_⟩
    rw [List.pairwise_iff_forall_sublist]
    intro x y hxy
    have hx : x ∈ keys := (h.mem_iff x).mp (hxy.subset (by simp))
    have hy : y ∈ keys := (h.mem_iff y).mp (hxy.subset (by simp))
    have hs := List.pairwise_iff_forall_sublist.mp h.ordered hxy
    by_cases hlt : keys.idxOf x < keys.idxOf y
    · have hle : score y ≤ score x := by
        rcases hs with hs | hs
        · exact hs.le
        · exact hs.1.ge
      rcases lt_or_eq_of_le ((hagree x hx y hy hlt).mp hle) with hlt' | heq
      · exact Or.inl hlt'
      · exact Or.inr ⟨heq.symm, hlt⟩
    · left
      have hne : keys.idxOf y ≠ keys.idxOf x := by
        intro heq
        have hyx : y = x := (List.idxOf_inj hy).mp heq
        rw [hyx] at hxy
        exact List.pairwise_iff_forall_sublist.mp h.nodup hxy rfl
      have hgt : keys.idxOf y < keys.idxOf x := by omega
      have hscore : score y < score x := by
        rcases hs with hs | hs
        · exact hs
        · exact absurd hs.2 hlt
      exact not_le.mp (mt (hagree y hy x hx hgt).mpr (not_le.mpr hscore))

theorem RankedBy.congr [LinearOrder S] {score score' : Key → S} {keys out : List Key}
    (h : RankedBy score keys out) (hscore : ∀ x ∈ keys, score x = score' x) :
    RankedBy score' keys out := by
  rw [h.iff_agree]
  intro x hx y hy _
  rw [hscore x hx, hscore y hy]

end

end ranking
