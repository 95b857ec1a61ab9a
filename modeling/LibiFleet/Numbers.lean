import Mathlib.Algebra.Order.Floor.Ring
import Mathlib.Data.Int.Log
import Mathlib.Data.Rat.Floor
import Mathlib.Data.Rat.Sqrt
import Mathlib.Algebra.Order.Archimedean.Real.Basic
import Mathlib.Analysis.Real.Sqrt
import Mathlib.Data.Prod.Lex

/-!
# The numbers behind `double`

The model computes with exact numbers. Every definition is written over an
ordered field with the two library functions the code calls, so it can be read
over the reals and run over the rationals.
-/

namespace LibiFleet

/-- An ordered field in the role of `double`. `hypot` is exact wherever the
exact value is in the field, and never negative. -/
class Double (R : Type) extends Field R, LinearOrder R, IsStrictOrderedRing R, FloorRing R where
  hypot : R → R → R
  hypot_nonneg : ∀ x y, 0 ≤ hypot x y
  hypot_exact : ∀ x y h, 0 ≤ h → h * h = x * x + y * y → hypot x y = h

export Double (hypot hypot_nonneg hypot_exact)

-- The literals of the model, read in `R` through one instance each.
instance atLeastTwo_two : Nat.AtLeastTwo 2 := ⟨le_refl 2⟩

instance atLeastTwo_ten : Nat.AtLeastTwo 10 := ⟨by decide⟩

instance atLeastTwo_hundred : Nat.AtLeastTwo 100 := ⟨by decide⟩

instance : Double ℚ where
  hypot x y := Rat.sqrt (x * x + y * y)
  hypot_nonneg _ _ := Rat.sqrt_nonneg _
  hypot_exact x y h hh heq := by rw [← heq, Rat.sqrt_eq, abs_of_nonneg hh]

noncomputable instance : Double ℝ where
  hypot x y := √(x * x + y * y)
  hypot_nonneg _ _ := Real.sqrt_nonneg _
  hypot_exact x y h hh heq := by rw [← heq, Real.sqrt_mul_self hh]

variable {R : Type} [Double R]

/-- `hypot` is exact everywhere, as it is over the reals. -/
class Euclidean (R : Type) [Double R] : Prop where
  hypot_mul_self : ∀ x y : R, hypot x y * hypot x y = x * x + y * y

instance : Euclidean ℝ where
  hypot_mul_self x y := Real.mul_self_sqrt (add_nonneg (mul_self_nonneg x) (mul_self_nonneg y))

/-- Two distances compare as their squares do. -/
theorem hypot_lt_iff [Euclidean R] {x y x' y' : R} :
    hypot x y < hypot x' y' ↔ x * x + y * y < x' * x' + y' * y' := by
  rw [← Euclidean.hypot_mul_self x y, ← Euclidean.hypot_mul_self x' y']
  exact (mul_self_lt_mul_self_iff (hypot_nonneg x y) (hypot_nonneg x' y'))

theorem hypot_zero : hypot (0 : R) 0 = 0 := hypot_exact 0 0 0 (le_refl 0) (by simp)

theorem hypot_add_le [Euclidean R] (x y x' y' : R) :
    hypot (x + x') (y + y') ≤ hypot x y + hypot x' y' := by
  have h := Euclidean.hypot_mul_self x y
  have h' := Euclidean.hypot_mul_self x' y'
  have h0 := hypot_nonneg x y
  have h0' := hypot_nonneg x' y'
  -- the inner product is at most the product of the lengths
  have hinner : x * x' + y * y' ≤ hypot x y * hypot x' y' := by
    by_contra hlt
    rw [not_le] at hlt
    have hsquare := mul_self_lt_mul_self (mul_nonneg h0 h0') hlt
    rw [mul_mul_mul_comm, h, h'] at hsquare
    nlinarith [mul_self_nonneg (x * y' - x' * y)]
  rw [mul_self_le_mul_self_iff (hypot_nonneg _ _) (add_nonneg h0 h0'),
    Euclidean.hypot_mul_self]
  nlinarith

/-- `std::lround`: to the nearest integer, halves away from zero. -/
def lround (x : R) : Int :=
  if 0 ≤ x then ⌊x + 1 / 2⌋ else ⌈x - 1 / 2⌉

theorem lround_nonneg {x : R} (h : 0 ≤ x) : 0 ≤ lround x := by
  rw [lround, if_pos h]
  exact Int.floor_nonneg.mpr (add_nonneg h one_half_pos.le)

theorem lround_le {x : R} {n : Int} (h : 0 ≤ x) (hn : x ≤ n) : lround x ≤ n := by
  rw [lround, if_pos h, ← Int.lt_add_one_iff, Int.floor_lt, Int.cast_add, Int.cast_one]
  exact add_lt_add_of_le_of_lt hn one_half_lt_one

/-- The nearest integer, and the even one of two that are equally near. -/
def roundHalfEven (x : R) : Int :=
  if x - ⌊x⌋ < 1 / 2 then ⌊x⌋
  else if 1 / 2 < x - ⌊x⌋ then ⌊x⌋ + 1
  else if ⌊x⌋ % 2 = 0 then ⌊x⌋
  else ⌊x⌋ + 1

theorem roundHalfEven_eq {x : R} {n : Int} (hlow : n ≤ x) (hhigh : x < n + 1 / 2) :
    roundHalfEven x = n := by
  have hfloor : ⌊x⌋ = n :=
    Int.floor_eq_iff.mpr ⟨hlow, hhigh.trans ((add_lt_add_iff_left _).mpr one_half_lt_one)⟩
  rw [roundHalfEven, hfloor, if_pos (sub_lt_iff_lt_add'.mpr hhigh)]

/-- The nearest `float32`. Numbers that are too large for one do not occur. -/
def single (x : R) : R :=
  let ulp : R := 2 ^ max (Int.log 2 |x| - 23) (-149)
  roundHalfEven (x / ulp) * ulp

/-- `d < bound`, where `none` is the initial `numeric_limits<double>::max()`. -/
def below (d : R) : Option R → Bool
  | none => true
  | some bound => decide (d < bound)

theorem below_some {d bound : R} : below d (some bound) = true ↔ d < bound := by
  simp [below]

/-- Two parts in one number compare by the first, then by the second, if that stays below the
step. -/
theorem packed_lt_iff {step a a' b b' : Int} (hb : 0 ≤ b) (hlt : b < step) (hb' : 0 ≤ b')
    (hlt' : b' < step) : a * step + b < a' * step + b' ↔ toLex (a, b) < toLex (a', b') := by
  have apart {a a' b b' : Int} (ha : a < a') (hlt : b < step) (hb' : 0 ≤ b') :
      a * step + b < a' * step + b' := by
    calc
      a * step + b < a * step + step := by omega
      _ = (a + 1) * step := by rw [Int.add_mul, Int.one_mul]
      _ ≤ a' * step := Int.mul_le_mul_of_nonneg_right ha (by omega)
      _ ≤ a' * step + b' := by omega
  rw [Prod.Lex.toLex_lt_toLex]
  rcases lt_trichotomy a a' with ha | rfl | ha
  · exact iff_of_true (apart ha hlt hb') (.inl ha)
  · simp
  · have hgt := apart ha hlt' hb
    constructor
    · intro h
      omega
    · rintro (h | ⟨h, -⟩)
      · omega
      · omega

end LibiFleet
