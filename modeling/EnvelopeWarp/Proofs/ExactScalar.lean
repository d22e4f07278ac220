import Mathlib
import EnvelopeWarp.Scalar.Basic

/-! Real numbers as scalars. Nothing is rounded and every value is finite, but the tolerance of the
program is kept: the distance from one to the next double stays what it is. -/

namespace EnvelopeWarp

noncomputable instance : Scalar ℝ where
  ofNat n := n
  ofDecimal value := (if value.negative then -1 else 1) * value.digits * (10 : ℝ) ^ value.exponent
  lt a b := decide (a < b)
  eq a b := decide (a = b)
  finite _ := true
  abs := abs
  sqrt := Real.sqrt
  hypot x y := Real.sqrt (x ^ 2 + y ^ 2)
  sin := Real.sin
  cos := Real.cos
  tan := Real.tan
  atan2 y x := Complex.arg ⟨x, y⟩
  ceil x := ⌈x⌉₊
  pi := Real.pi
  epsilon := (2 : ℝ) ^ (-52 : ℤ)

namespace Scalar
variable (a b : ℝ)

@[simp] theorem lt_iff : Scalar.lt a b = true ↔ a < b := by simp [Scalar.lt]

@[simp] theorem eq_iff : Scalar.eq a b = true ↔ a = b := by simp [Scalar.eq]

@[simp] theorem lt_eq_false_iff : Scalar.lt a b = false ↔ b ≤ a := by simp [Scalar.lt]

@[simp] theorem eq_eq_false_iff : Scalar.eq a b = false ↔ a ≠ b := by simp [Scalar.eq]

@[simp] theorem le_iff : Scalar.le a b = true ↔ a ≤ b := by simp [Scalar.le, le_iff_lt_or_eq]

@[simp] theorem finite_eq : Scalar.finite a = true := rfl

@[simp] theorem abs_eq : Scalar.abs a = |a| := rfl

@[simp] theorem sqrt_eq : Scalar.sqrt a = Real.sqrt a := rfl

@[simp] theorem sin_eq : Scalar.sin a = Real.sin a := rfl

@[simp] theorem cos_eq : Scalar.cos a = Real.cos a := rfl

@[simp] theorem tan_eq : Scalar.tan a = Real.tan a := rfl

@[simp] theorem ceil_eq : Scalar.ceil a = ⌈a⌉₊ := rfl

@[simp] theorem pi_eq : (Scalar.pi : ℝ) = Real.pi := rfl

@[simp] theorem hypot_eq : Scalar.hypot a b = Real.sqrt (a ^ 2 + b ^ 2) := rfl

@[simp] theorem epsilon_eq : (Scalar.epsilon : ℝ) = 2 ^ (-52 : ℤ) := rfl

theorem epsilon_pos : (0 : ℝ) < Scalar.epsilon := by
  rw [epsilon_eq]
  positivity

theorem epsilon_nonneg : (0 : ℝ) ≤ Scalar.epsilon :=
  epsilon_pos.le

@[simp] theorem ofNat_eq (n : Nat) : (Scalar.ofNat n : ℝ) = n := rfl

theorem ofDecimal_whole (n : Nat) : (Scalar.ofDecimal ⟨false, n, 0⟩ : ℝ) = n := by simp [Scalar.ofDecimal]

@[simp] theorem zero_eq : (Scalar.zero : ℝ) = 0 := by simp [Scalar.zero]

@[simp] theorem one_eq : (Scalar.one : ℝ) = 1 := by simp [Scalar.one]

@[simp] theorem two_eq : (Scalar.two : ℝ) = 2 := by simp [Scalar.two]

@[simp] theorem three_eq : (Scalar.three : ℝ) = 3 := by simp [Scalar.three]

@[simp] theorem four_eq : (Scalar.four : ℝ) = 4 := by simp [Scalar.four]

@[simp] theorem min_eq : Scalar.min a b = Min.min a b := by
  by_cases less : b < a
  · simp [Scalar.min, less, less.le]
  · simp [Scalar.min, less, not_lt.mp less]

@[simp] theorem max_eq : Scalar.max a b = Max.max a b := by
  by_cases less : a < b
  · simp [Scalar.max, less, less.le]
  · simp [Scalar.max, less, not_lt.mp less]

end Scalar
end EnvelopeWarp
