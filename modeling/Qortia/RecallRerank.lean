-- `_llm_rerank` of `qortia.recall_rerank`. The results come back in the order of the model, each
-- of them once, unless the model names a number twice.
import Qortia.RecallRoutes

namespace qortia

open json (Json)

/-! ## The numbers that an answer names -/

/-- The number that an entry of the array is. A bool counts as one. -/
def named : Json → Option Int
  | .number (.int i) => some i
  | .bool b => some (if b then 1 else 0)
  | _ => none

/-- The entry can be compared with the bounds, and is an index if it lies between them. -/
def usable (n : Nat) : Json → Bool
  | .number (.int _) | .number .nan | .number (.infinity _) | .bool _ => true
  | .number (.float q) => ¬ (1 ≤ q ∧ q ≤ n)
  | .null | .string _ | .array _ | .object _ => false

/-- The answer is an array of usable entries and names one of the numbers up to `n` twice. -/
def repeats_a_number (n : Nat) : Json → Bool
  | .array xs =>
    xs.all (usable n) &&
      (List.range n).any fun i => 2 ≤ xs.countP fun x => named x = some ((i : Int) + 1)
  | _ => false

/-- The place that a usable entry picks. -/
def place (n : Nat) (x : Json) : Option Nat :=
  (named x).bind fun i => if 1 ≤ i ∧ i ≤ n then some (i - 1).toNat else none

theorem place_eq_some {n i : Nat} (hi : i < n) (x : Json) :
    place n x = some i ↔ named x = some ((i : Int) + 1) := by
  unfold place
  cases named x with
  | none => simp
  | some j =>
    simp only [Option.bind_some, Option.some.injEq]
    by_cases hj : 1 ≤ j ∧ j ≤ n
    · rw [if_pos hj, Option.some.injEq]
      omega
    · rw [if_neg hj]
      simp only [reduceCtorEq, false_iff]
      omega

theorem place_lt {n i : Nat} {x : Json} (h : place n x = some i) : i < n := by
  unfold place at h
  obtain ⟨j, -, hj⟩ := Option.bind_eq_some_iff.mp h
  split at hj
  · cases hj
    omega
  · cases hj

theorem picked_place_eq (n : Nat) (x : Json) :
    picked_place n x = if usable n x then .ok (place n x) else .error .TypeError := by
  cases x with
  | null => rfl
  | string s => rfl
  | array xs => rfl
  | object kvs => rfl
  | bool b => cases b <;> simp [picked_place, usable, place, named]
  | number m =>
    cases m with
    | nan => rfl
    | infinity negative => rfl
    | int i => rfl
    | float q =>
      by_cases hq : 1 ≤ q ∧ q ≤ n
      · simp [picked_place, usable, hq]
      · simp [picked_place, usable, hq, place, named]

theorem mapM_picked_place (n : Nat) (xs : List Json) :
    xs.mapM (picked_place n) =
      if xs.all (usable n) then .ok (xs.map (place n)) else .error .TypeError := by
  induction xs with
  | nil => rfl
  | cons x xs ih =>
    rw [List.mapM_cons, ih, picked_place_eq, List.all_cons]
    by_cases hx : usable n x = true
    · by_cases hxs : xs.all (usable n) = true
      · simp [hx, hxs, bind, Except.bind, pure, Except.pure]
      · simp [hx, hxs, bind, Except.bind]
    · simp [hx, bind, Except.bind]

/-- No place comes twice in the answer. -/
theorem places_nodup_iff (n : Nat) (xs : List Json) :
    (xs.filterMap (place n)).Nodup ↔
      ∀ i < n, xs.countP (fun x => named x = some ((i : Int) + 1)) ≤ 1 := by
  have hcount : ∀ i < n, (xs.filterMap (place n)).count i =
      xs.countP fun x => named x = some ((i : Int) + 1) := by
    intro i hi
    rw [List.count, List.countP_filterMap]
    apply List.countP_congr
    intro x _
    rw [decide_eq_true_iff, ← place_eq_some hi]
    cases place n x with
    | none => simp
    | some j => simp
  rw [List.nodup_iff_count_le_one]
  constructor
  · intro h i hi
    rw [← hcount i hi]
    exact h i
  · intro h i
    by_cases hi : i < n
    · rw [hcount i hi]
      exact h i hi
    · have hnot : i ∉ xs.filterMap (place n) := by
        intro hmem
        obtain ⟨x, -, hx⟩ := List.mem_filterMap.mp hmem
        exact hi (place_lt hx)
      rw [List.count_eq_zero_of_not_mem hnot]
      omega

theorem picked_places_nodup_iff {n : Nat} {order : Json} {places : List Nat}
    (h : picked_places n order = .ok places) :
    places.Nodup ↔ repeats_a_number n order = false := by
  cases order with
  | null => cases h
  | bool b => cases h
  | number m => cases h
  | string s =>
    simp only [picked_places] at h
    split at h
    · cases h
      simp [repeats_a_number]
    · cases h
  | object kvs =>
    simp only [picked_places] at h
    split at h
    · cases h
      simp [repeats_a_number]
    · cases h
  | array xs =>
    simp only [picked_places, mapM_picked_place] at h
    by_cases hxs : xs.all (usable n) = true
    · rw [if_pos hxs] at h
      have hplaces : places = xs.filterMap (place n) := by
        simp only [Except.map, Except.ok.injEq] at h
        rw [← h, List.reduceOption, List.filterMap_map]
        rfl
      have honce (k : Nat) : k ≤ 1 ↔ k < 2 := Nat.lt_succ_iff.symm
      rw [hplaces, places_nodup_iff]
      simp only [honce]
      simp [repeats_a_number, hxs]
    · rw [if_neg hxs] at h
      cases h

/-- An answer that is of no use names no number twice. -/
theorem no_repeat_of_error {n : Nat} {order : Json} {e : Failure}
    (h : picked_places n order = .error e) : repeats_a_number n order = false := by
  cases order with
  | array xs =>
    simp only [picked_places, mapM_picked_place] at h
    by_cases hxs : xs.all (usable n) = true
    · rw [if_pos hxs] at h
      cases h
    · simp [repeats_a_number, hxs]
  | null => rfl
  | bool b => rfl
  | number m => rfl
  | string s => rfl
  | object kvs => rfl

/-! ## The reranking -/

variable {K : Type}

/-- The results come back in some order, each of them once, if and only if there is no model or
its answer names no number twice. -/
theorem reranking_permutes_iff (cfg : Settings) (answer : Option Json)
    (results : List (RecallResult K)) (hids : (results.map (·.id)).Nodup) :
    (llm_rerank cfg answer results).Perm results ↔
      cfg.rerank_model = "" ∨
        ∀ order, answer = some order → repeats_a_number results.length order = false := by
  have hsame : (ranking.at_places results (List.range results.length)).Perm results := by
    rw [ranking.at_places_range]
  rw [llm_rerank_eq]
  unfold reranked_places
  by_cases hmodel : cfg.rerank_model = ""
  · simp [hmodel, hsame]
  · rw [if_neg hmodel]
    cases answer with
    | none => simp [hsame]
    | some order =>
      simp only [hmodel, Option.map_some, Option.some.injEq, forall_eq', false_or]
      cases horder : picked_places results.length order with
      | error e => simp [hsame, no_repeat_of_error horder]
      | ok places =>
        rw [ranking.picked_first_perm_iff hids (picked_places_lt horder)]
        exact picked_places_nodup_iff horder

def two_results : List (RecallResult ℚ) :=
  [{ id := 1, type := .memory .episodic, scope := .private_, content := "the lexer stops"
     created_at := 0, score := 1 },
   { id := 2, type := .memory .lesson, scope := .private_, content := "restart the lexer"
     created_at := 0, score := 1 }]

/-- A model that turns the two results around. -/
theorem reranking_permutes_two_results :
    (llm_rerank { rerank_model := "judge" } (some (.array [.number (.int 2), .number (.int 1)]))
      two_results).Perm two_results :=
  (reranking_permutes_iff _ _ _ (by decide)).mpr
    (Or.inr fun order horder => by cases horder; decide)

/-- A model that names the first result twice gets it twice. -/
theorem a_result_comes_twice :
    (two_results.map (·.id)).Nodup ∧
      ¬ (llm_rerank { rerank_model := "judge" }
        (some (.array [.number (.int 1), .number (.int 1)])) two_results).Perm two_results := by
  decide

end qortia
