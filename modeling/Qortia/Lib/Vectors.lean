-- Vectors as lists of numbers. Of two lists of different lengths, the product reads as far as the
-- shorter one reaches.
import Mathlib.Algebra.BigOperators.Fin
import Mathlib.Algebra.Order.BigOperators.Group.List
import Mathlib.Algebra.Order.BigOperators.Ring.Finset
import Mathlib.Tactic.Linarith

namespace vectors

variable {K : Type} [Field K]

/-- The scalar product. -/
def dot (a b : List K) : K := (List.zipWith (· * ·) a b).sum

theorem dot_comm (a b : List K) : dot a b = dot b a := by
  unfold dot
  rw [List.zipWith_comm]
  simp only [mul_comm]

theorem dot_self (a : List K) : dot a a = (a.map fun x => x * x).sum := by
  unfold dot
  rw [List.zipWith_self]

@[simp] theorem dot_cons (x y : K) (a b : List K) : dot (x :: a) (y :: b) = x * y + dot a b := by
  simp [dot]

/-- A factor of one of the vectors is a factor of the product. -/
theorem dot_scale (c : K) (a b : List K) : dot (a.map (c * ·)) b = c * dot a b := by
  induction a generalizing b with
  | nil => simp [dot]
  | cons x a ih =>
    cases b with
    | nil => simp [dot]
    | cons y b =>
      rw [List.map_cons, dot_cons, dot_cons, ih]
      ring

variable [LinearOrder K] [IsStrictOrderedRing K]

theorem dot_self_nonneg (a : List K) : 0 ≤ dot a a := by
  rw [dot_self]
  apply List.sum_nonneg
  intro x hx
  obtain ⟨y, -, rfl⟩ := List.mem_map.mp hx
  exact mul_self_nonneg y

theorem dot_self_eq_zero {a : List K} : dot a a = 0 ↔ ∀ x ∈ a, x = 0 := by
  induction a with
  | nil => simp [dot]
  | cons x a ih =>
    rw [dot_cons, add_eq_zero_iff_of_nonneg (mul_self_nonneg x) (dot_self_nonneg a), ih]
    simp

/-- The part of a vector that another one reaches is no longer than the vector. -/
theorem sum_squares_zip_le (a b : List K) : ((a.zip b).map fun p => p.1 ^ 2).sum ≤ dot a a := by
  induction a generalizing b with
  | nil => simp [dot]
  | cons x a ih =>
    cases b with
    | nil => simpa using dot_self_nonneg (x :: a)
    | cons y b =>
      simp only [List.zip_cons_cons, List.map_cons, List.sum_cons, dot_cons, pow_two]
      have hrest := ih b
      simp only [pow_two] at hrest
      linarith

/-- The inequality of Cauchy and Schwarz. -/
theorem dot_sq_le (a b : List K) : dot a b ^ 2 ≤ dot a a * dot b b := by
  have hdot : dot a b = ((a.zip b).map fun p => p.1 * p.2).sum := by
    unfold dot
    rw [List.map_zip_eq_zipWith]
    rfl
  have hswap : ((a.zip b).map fun p => p.2 ^ 2).sum ≤ dot b b := by
    rw [← List.zip_swap b a, List.map_map]
    exact sum_squares_zip_le b a
  calc dot a b ^ 2
      ≤ ((a.zip b).map fun p => p.1 ^ 2).sum * ((a.zip b).map fun p => p.2 ^ 2).sum := by
        rw [hdot, ← Fin.sum_univ_fun_getElem, ← Fin.sum_univ_fun_getElem,
          ← Fin.sum_univ_fun_getElem]
        exact Finset.sum_mul_sq_le_sq_mul_sq _ _ _
    _ ≤ dot a a * dot b b := by
        apply mul_le_mul (sum_squares_zip_le a b) hswap _ (dot_self_nonneg a)
        apply List.sum_nonneg
        intro x hx
        obtain ⟨p, -, rfl⟩ := List.mem_map.mp hx
        exact sq_nonneg p.2

end vectors
