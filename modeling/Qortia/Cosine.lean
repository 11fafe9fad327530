-- The cosine of two embeddings in exact arithmetic, where `x ** 0.5` is the square root: it lies
-- between -1 and 1, and its sign is the sign of the scalar product.
import Mathlib.Analysis.Real.Sqrt
import Qortia.Lib.Vectors
import Qortia.Outside

namespace qortia

open vectors (dot)

noncomputable instance : HasSqrt ℝ := ⟨Real.sqrt⟩

/-- `x ** 0.5` is exact. -/
class LawfulSqrt (K : Type) [Field K] [LinearOrder K] [HasSqrt K] : Prop where
  sqrt_nonneg (x : K) : 0 ≤ x → 0 ≤ HasSqrt.sqrt x
  mul_self_sqrt (x : K) : 0 ≤ x → HasSqrt.sqrt x * HasSqrt.sqrt x = x

instance : LawfulSqrt ℝ where
  sqrt_nonneg x _ := Real.sqrt_nonneg x
  mul_self_sqrt _ := Real.mul_self_sqrt

variable {K : Type} [Field K] [LinearOrder K] [HasSqrt K]

/-- The length of a vector. -/
def magnitude (a : List K) : K := HasSqrt.sqrt (dot a a)

theorem cosine_eq (a b : List K) :
    cosine a b =
      if magnitude a = 0 ∨ magnitude b = 0 then 0 else dot a b / (magnitude a * magnitude b) := by
  unfold cosine magnitude
  rw [vectors.dot_self, vectors.dot_self]
  rfl

theorem cosine_comm (a b : List K) : cosine a b = cosine b a := by
  rw [cosine_eq, cosine_eq, vectors.dot_comm, mul_comm (magnitude a)]
  simp only [or_comm]

variable [IsStrictOrderedRing K] [LawfulSqrt K]

theorem magnitude_nonneg (a : List K) : 0 ≤ magnitude a :=
  LawfulSqrt.sqrt_nonneg _ (vectors.dot_self_nonneg a)

theorem magnitude_mul_self (a : List K) : magnitude a * magnitude a = dot a a :=
  LawfulSqrt.mul_self_sqrt _ (vectors.dot_self_nonneg a)

theorem magnitude_eq_zero {a : List K} : magnitude a = 0 ↔ ∀ x ∈ a, x = 0 := by
  rw [← vectors.dot_self_eq_zero, ← magnitude_mul_self, mul_self_eq_zero]

theorem abs_dot_le (a b : List K) : |dot a b| ≤ magnitude a * magnitude b := by
  apply abs_le_of_sq_le_sq
  · calc dot a b ^ 2
        ≤ dot a a * dot b b := vectors.dot_sq_le a b
      _ = (magnitude a * magnitude b) ^ 2 := by
        rw [← magnitude_mul_self, ← magnitude_mul_self]
        ring
  · exact mul_nonneg (magnitude_nonneg a) (magnitude_nonneg b)

theorem abs_cosine_le_one (a b : List K) : |cosine a b| ≤ 1 := by
  rw [cosine_eq]
  split
  · rw [abs_zero]
    exact zero_le_one
  · rename_i hmag
    rw [not_or] at hmag
    have hpos : 0 < magnitude a * magnitude b :=
      mul_pos ((magnitude_nonneg a).lt_of_ne' hmag.1) ((magnitude_nonneg b).lt_of_ne' hmag.2)
    rw [abs_div, abs_of_pos hpos, div_le_one hpos]
    exact abs_dot_le a b

theorem cosine_le_one (a b : List K) : cosine a b ≤ 1 := (abs_le.mp (abs_cosine_le_one a b)).2

theorem neg_one_le_cosine (a b : List K) : -1 ≤ cosine a b :=
  (abs_le.mp (abs_cosine_le_one a b)).1

/-- Vectors at an obtuse angle, and only those, have a negative cosine. -/
theorem cosine_nonneg_iff (a b : List K) : 0 ≤ cosine a b ↔ 0 ≤ dot a b := by
  rw [cosine_eq]
  split
  · rename_i hmag
    have hzero : dot a b = 0 := by
      have hle := abs_dot_le a b
      rw [mul_eq_zero.mpr hmag] at hle
      exact abs_nonpos_iff.mp hle
    rw [hzero]
  · rename_i hmag
    rw [not_or] at hmag
    have hpos : 0 < magnitude a * magnitude b :=
      mul_pos ((magnitude_nonneg a).lt_of_ne' hmag.1) ((magnitude_nonneg b).lt_of_ne' hmag.2)
    constructor
    · intro h
      by_contra hneg
      exact absurd (div_neg_of_neg_of_pos (not_le.mp hneg) hpos) (not_lt.mpr h)
    · intro h
      exact div_nonneg h hpos.le

/-- A vector is similar to itself unless it is zero. -/
theorem cosine_self (a : List K) : cosine a a = if magnitude a = 0 then 0 else 1 := by
  rw [cosine_eq]
  simp only [or_self]
  split
  · rfl
  · rename_i hmag
    rw [← magnitude_mul_self]
    exact div_self (mul_ne_zero hmag hmag)

/-- A positive factor makes a vector longer and leaves its direction. -/
theorem magnitude_scale {c : K} (hc : 0 < c) (a : List K) :
    magnitude (a.map (c * ·)) = c * magnitude a := by
  have hscaled := mul_nonneg hc.le (magnitude_nonneg a)
  refine (mul_self_inj_of_nonneg (magnitude_nonneg _) hscaled).mp ?_
  calc magnitude (a.map (c * ·)) * magnitude (a.map (c * ·))
      = c * (c * dot a a) := by
        rw [magnitude_mul_self, vectors.dot_scale, vectors.dot_comm, vectors.dot_scale]
    _ = c * magnitude a * (c * magnitude a) := by
        rw [← magnitude_mul_self]
        ring

theorem cosine_scale {c : K} (hc : 0 < c) (a b : List K) :
    cosine (a.map (c * ·)) b = cosine a b := by
  rw [cosine_eq, cosine_eq, magnitude_scale hc, vectors.dot_scale, mul_assoc,
    mul_div_mul_left _ _ hc.ne']
  simp only [mul_eq_zero, hc.ne', false_or]

/-! ## Where the operations are defined -/

/-- `x ** 0.5`, a real number unless `x` is negative. -/
def checked_sqrt (x : K) : Option K := if x < 0 then none else some (HasSqrt.sqrt x)

/-- `x / y`, which raises when `y` is zero. -/
def checked_div (x y : K) : Option K := if y = 0 then none else some (x / y)

/-- `_cosine`, `none` where one of its operations is not defined. -/
def checked_cosine (a b : List K) : Option K := do
  let dot := (List.zipWith (· * ·) a b).sum
  let mag_a ← checked_sqrt (a.map fun x => x * x).sum
  let mag_b ← checked_sqrt (b.map fun x => x * x).sum
  if mag_a = 0 ∨ mag_b = 0 then return 0
  checked_div dot (mag_a * mag_b)

omit [LawfulSqrt K] in
theorem checked_sqrt_eq (a : List K) :
    checked_sqrt (a.map fun x => x * x).sum = some (magnitude a) := by
  unfold checked_sqrt magnitude
  rw [← vectors.dot_self, if_neg (not_lt.mpr (vectors.dot_self_nonneg a))]

omit [LawfulSqrt K] in
/-- No operation fails. -/
theorem checked_cosine_eq (a b : List K) : checked_cosine a b = some (cosine a b) := by
  unfold checked_cosine
  rw [checked_sqrt_eq, checked_sqrt_eq, cosine_eq]
  simp only [Option.bind_eq_bind, Option.bind_some]
  split
  · rfl
  · rename_i hmag
    rw [not_or] at hmag
    unfold checked_div
    rw [if_neg (mul_ne_zero hmag.1 hmag.2)]
    rfl

/-- The cosine is always defined and within its bounds, it does not depend on the order of the
vectors or on positive factors, and a vector that is not zero is most similar to itself. -/
theorem cosine_is_a_bounded_similarity (a b : List K) :
    checked_cosine a b = some (cosine a b) ∧
      (-1 ≤ cosine a b ∧ cosine a b ≤ 1) ∧
      cosine a b = cosine b a ∧
      (∀ c, 0 < c → cosine (a.map (c * ·)) b = cosine a b ∧
        cosine a (b.map (c * ·)) = cosine a b) ∧
      ((∃ x ∈ a, x ≠ 0) → cosine a a = 1) := by
  refine ⟨checked_cosine_eq a b, ⟨neg_one_le_cosine a b, cosine_le_one a b⟩, cosine_comm a b,
    fun c hc => ⟨cosine_scale hc a b, ?_⟩, ?_⟩
  · rw [cosine_comm, cosine_scale hc, cosine_comm]
  · rintro ⟨x, hx, hne⟩
    have hmag : magnitude a ≠ 0 := fun hzero => hne (magnitude_eq_zero.mp hzero x hx)
    rw [cosine_self, if_neg hmag]

/-- Two vectors of different lengths. -/
theorem similarity_of_real_vectors :
    checked_cosine [(1 : ℝ), 2] [3] = some (cosine [1, 2] [3]) ∧
      cosine (List.map ((2 : ℝ) * ·) [1, 2]) [3] = cosine [1, 2] [3] ∧
      cosine [(1 : ℝ), 2] [1, 2] = 1 := by
  have h := cosine_is_a_bounded_similarity [(1 : ℝ), 2] [3]
  exact ⟨h.1, (h.2.2.2.1 2 zero_lt_two).1,
    h.2.2.2.2 ⟨1, List.mem_cons_self, one_ne_zero⟩⟩

/-- Models over the real numbers. -/
noncomputable def real_models : Outside ℝ where
  sha256 := id
  lower := id
  detect _ := none
  fromisoformat _ := none
  en_core_web_sm := none
  xx_ent_wiki_sm := none
  embedding _ := [1]
  chat_completion _ := none
  ts_match _ _ := false
  ts_rank_cd _ _ _ := 0
  similarity _ _ := 1
  fetch_vector v := .floats v
  json_dumps _ := ""
  log1p _ := 0

end qortia
