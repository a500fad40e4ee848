import Mathlib.Algebra.Order.Floor.Ring
import Mathlib.Data.Rat.Floor
import Brace.Value.Arithmetic

/-!
# Value — the division of whole numbers

The machine divides rounding towards zero. Where that rounds up the quotient is lowered by one and the
divisor is added to the remainder; neither leaves the 64 bits.

* `floor_of_remainder`: a quotient whose remainder is smaller than the divisor and has its sign is the
  quotient rounded down.
* `remains_floorRem`, `floorDiv_mul_add_floorRem`, `toInt_floorDiv`: remainder, identity and quotient.
* `division_rounds_down`: the law of the two operators.
-/

namespace Brace.Value

/-- Dividing towards zero rounds up. -/
def RoundsUp (a b : Int64) : Prop := a % b ≠ 0 ∧ decide (a % b < 0) ≠ decide (b < 0)

instance (a b : Int64) : Decidable (RoundsUp a b) := inferInstanceAs (Decidable (_ ∧ _))

/-- What rounding down may leave over: nothing, or less than the divisor with its sign. -/
def Remains (r b : Int64) : Prop := r = 0 ∨ ((r < 0 ↔ b < 0) ∧ r.toInt.natAbs < b.toInt.natAbs)

/-- The only quotient that does not fit. -/
def Exceeds (a b : Int64) : Prop := a = Int64.minValue ∧ b = -1

theorem floorDiv_of_roundsUp {a b : Int64} (h : RoundsUp a b) : floorDiv a b = a / b - 1 := if_pos h

theorem floorDiv_of_not_roundsUp {a b : Int64} (h : ¬ RoundsUp a b) : floorDiv a b = a / b := if_neg h

theorem floorRem_of_roundsUp {a b : Int64} (h : RoundsUp a b) : floorRem a b = a % b + b := if_pos h

theorem floorRem_of_not_roundsUp {a b : Int64} (h : ¬ RoundsUp a b) : floorRem a b = a % b := if_neg h

/-! ### Signed words as whole numbers -/

theorem toInt_ne_zero {b : Int64} (h : b ≠ 0) : b.toInt ≠ 0 :=
  fun zero => h (Int64.toInt_inj.mp (by simpa using zero))

/-- A signed word is negative where its number is. -/
theorem toInt_neg_iff {a : Int64} : a < 0 ↔ a.toInt < 0 := by
  simpa using Int64.lt_iff_toInt_lt (x := a) (y := 0)

/-- A remainder is smaller than the divisor. -/
theorem natAbs_tmod_lt {a b : Int} (h : b ≠ 0) : (a.tmod b).natAbs < b.natAbs := by
  rw [Int.natAbs_tmod]
  exact Nat.mod_lt _ (Int.natAbs_pos.mpr h)

/-- When the quotient is rounded up, in whole numbers. -/
theorem roundsUp_iff {a b : Int64} :
    RoundsUp a b ↔ a.toInt.tmod b.toInt ≠ 0 ∧ ¬ (a.toInt.tmod b.toInt < 0 ↔ b.toInt < 0) := by
  have zero : a % b = 0 ↔ a.toInt.tmod b.toInt = 0 := by
    rw [← Int64.toInt_inj, Int64.toInt_mod, Int64.toInt_zero]
  rw [RoundsUp, ne_eq, ne_eq, zero, decide_eq_decide, toInt_neg_iff, toInt_neg_iff, Int64.toInt_mod]

/-- The machine's quotient as a whole number, wrapped around where it does not fit. -/
theorem div_eq_ofInt (a b : Int64) : a / b = Int64.ofInt (a.toInt.tdiv b.toInt) := by
  rw [← Int64.toInt_inj, Int64.toInt_div, Int64.toInt_ofInt]

/-! ### The quotient rounded down -/

/-- The quotient rounded down is told by what it leaves over. -/
theorem floor_of_remainder {a b q r : Int} (nonzero : b ≠ 0) (whole : b * q + r = a)
    (left : r = 0 ∨ ((r < 0 ↔ b < 0) ∧ r.natAbs < b.natAbs)) : ⌊(a : ℚ) / b⌋ = q := by
  have exact : (a : ℚ) / b = q + (r : ℚ) / b := by
    rw [← whole]
    push_cast
    field_simp
  rw [exact, Int.floor_intCast_add, Int.floor_eq_iff.mpr, add_zero]
  rcases lt_or_gt_of_ne nonzero with negative | positive
  · have bounds : b < r ∧ r ≤ 0 := by omega
    have below : (b : ℚ) < 0 := by exact_mod_cast negative
    exact ⟨by simpa using div_nonneg_of_nonpos (by exact_mod_cast bounds.2) below.le,
      by rw [Int.cast_zero, zero_add, div_lt_one_of_neg below]; exact_mod_cast bounds.1⟩
  · have bounds : 0 ≤ r ∧ r < b := by omega
    have above : (0 : ℚ) < b := by exact_mod_cast positive
    exact ⟨by simpa using div_nonneg (by exact_mod_cast bounds.1) above.le,
      by rw [Int.cast_zero, zero_add, div_lt_one above]; exact_mod_cast bounds.2⟩

/-! ### Lowering the quotient and raising the remainder -/

/-- The divisor has the other sign than the remainder and is larger, so their sum fits. -/
theorem toInt_raised {a b : Int64} (h : RoundsUp a b) (nonzero : b ≠ 0) :
    (a % b + b).toInt = (a % b).toInt + b.toInt := by
  have signs := (roundsUp_iff.mp h).2
  have small := natAbs_tmod_lt (a := a.toInt) (toInt_ne_zero nonzero)
  rw [Int64.toInt_add, Int64.toInt_mod]
  have low := b.le_toInt
  have high := b.toInt_lt
  exact Int.bmod_eq_of_le (by omega) (by omega)

/-- A quotient that leaves nothing over is not lowered. -/
theorem not_exceeds_of_roundsUp {a b : Int64} (h : RoundsUp a b) : ¬ Exceeds a b := by
  rintro ⟨rfl, rfl⟩
  exact absurd h (by decide)

/-- The quotient of two words is that of their numbers, unless it does not fit. -/
theorem toInt_div_of_fits {a b : Int64} (fits : ¬ Exceeds a b) :
    (a / b).toInt = a.toInt.tdiv b.toInt := by
  by_cases least : a = Int64.minValue
  · exact Int64.toInt_div_of_ne_right a b fun minus => fits ⟨least, minus⟩
  · exact Int64.toInt_div_of_ne_left a b least

/-- A divisor that leaves something over is at least two, so the quotient is far from the least number. -/
theorem toInt_lowered {a b : Int64} (h : RoundsUp a b) (nonzero : b ≠ 0) :
    (a / b - 1).toInt = (a / b).toInt - 1 := by
  have two : 2 ≤ b.toInt.natAbs := by
    have leaves := (roundsUp_iff.mp h).1
    have small := natAbs_tmod_lt (a := a.toInt) (toInt_ne_zero nonzero)
    omega
  have half : (a.toInt.tdiv b.toInt).natAbs ≤ a.toInt.natAbs / 2 := by
    rw [Int.natAbs_tdiv]
    exact Nat.div_le_div_left two Nat.two_pos
  have low := a.le_toInt
  have high := a.toInt_lt
  rw [Int64.toInt_sub, toInt_div_of_fits (not_exceeds_of_roundsUp h), Int64.toInt_one]
  exact Int.bmod_eq_of_le (by omega) (by omega)

/-! ### The law of division -/

theorem remains_floorRem (a : Int64) {b : Int64} (nonzero : b ≠ 0) : Remains (floorRem a b) b := by
  have small := natAbs_tmod_lt (a := a.toInt) (toInt_ne_zero nonzero)
  by_cases h : RoundsUp a b
  · have signs := roundsUp_iff.mp h
    rw [floorRem_of_roundsUp h, Remains, toInt_neg_iff, toInt_neg_iff, toInt_raised h nonzero,
      Int64.toInt_mod]
    omega
  · have same := roundsUp_iff.not.mp h
    rw [floorRem_of_not_roundsUp h, Remains, ← Int64.toInt_inj, toInt_neg_iff, toInt_neg_iff,
      Int64.toInt_mod, Int64.toInt_zero]
    tauto

/-- Quotient and remainder belong together, wrapping around included. -/
theorem floorDiv_mul_add_floorRem (a b : Int64) : floorDiv a b * b + floorRem a b = a := by
  have whole : a / b * b + a % b = a := by
    conv_rhs => rw [← Int64.ofInt_toInt a, ← Int.tdiv_mul_add_tmod a.toInt b.toInt]
    rw [Int64.ofInt_add, Int64.ofInt_mul, Int64.ofInt_toInt, ← div_eq_ofInt, ← Int64.toInt_mod,
      Int64.ofInt_toInt]
  by_cases h : RoundsUp a b
  · rw [floorDiv_of_roundsUp h, floorRem_of_roundsUp h]
    grind
  · rw [floorDiv_of_not_roundsUp h, floorRem_of_not_roundsUp h, whole]

/-- Where the quotient fits, the two belong together without wrapping around. -/
theorem toInt_floorDiv_mul_add {a b : Int64} (nonzero : b ≠ 0) (fits : ¬ Exceeds a b) :
    b.toInt * (floorDiv a b).toInt + (floorRem a b).toInt = a.toInt := by
  have whole := Int.mul_tdiv_add_tmod a.toInt b.toInt
  by_cases h : RoundsUp a b
  · rw [floorDiv_of_roundsUp h, floorRem_of_roundsUp h, toInt_lowered h nonzero,
      toInt_raised h nonzero, toInt_div_of_fits fits, Int64.toInt_mod]
    linarith
  · rw [floorDiv_of_not_roundsUp h, floorRem_of_not_roundsUp h, toInt_div_of_fits fits,
      Int64.toInt_mod, whole]

/-- Where the quotient fits, it is the exact quotient rounded down. -/
theorem toInt_floorDiv {a b : Int64} (nonzero : b ≠ 0) (fits : ¬ Exceeds a b) :
    (floorDiv a b).toInt = ⌊(a.toInt : ℚ) / b.toInt⌋ := by
  have left := remains_floorRem a nonzero
  rw [Remains, ← Int64.toInt_inj, toInt_neg_iff, toInt_neg_iff, Int64.toInt_zero] at left
  exact (floor_of_remainder (toInt_ne_zero nonzero) (toInt_floorDiv_mul_add nonzero fits) left).symm

/-- The quotient of the least number by minus one. -/
theorem floor_of_exceeds {a b : Int64} (h : Exceeds a b) : ⌊(a.toInt : ℚ) / b.toInt⌋ = 2 ^ 63 := by
  obtain ⟨rfl, rfl⟩ := h
  exact floor_of_remainder (by decide) (by decide) (.inl rfl)

theorem floorDiv_of_exceeds {a b : Int64} (h : Exceeds a b) : floorDiv a b = Int64.minValue := by
  obtain ⟨rfl, rfl⟩ := h
  decide

/-- The quotient is the floor of the rational quotient, taken as a signed word. -/
theorem floorDiv_eq_floor {a b : Int64} (nonzero : b ≠ 0) :
    floorDiv a b = Int64.ofInt ⌊(a.toInt : ℚ) / b.toInt⌋ := by
  by_cases h : Exceeds a b
  · rw [floor_of_exceeds h, floorDiv_of_exceeds h]
    decide
  · rw [← toInt_floorDiv nonzero h, Int64.ofInt_toInt]

/-- The quotient is another number than the floor just where the floor does not fit. -/
theorem toInt_floorDiv_ne_iff {a b : Int64} (nonzero : b ≠ 0) :
    (floorDiv a b).toInt ≠ ⌊(a.toInt : ℚ) / b.toInt⌋ ↔ Exceeds a b := by
  constructor
  · intro differs
    by_contra h
    exact differs (toInt_floorDiv nonzero h)
  · intro h
    rw [floor_of_exceeds h, floorDiv_of_exceeds h]
    decide

/-- Whole numbers are divided rounding down: the quotient is the exact one rounded down, wrapped around
only for the least number by minus one; the remainder is nothing or has the divisor's sign and is
smaller than it; what is added to it and taken off the quotient on the way does not wrap around; and the
two belong together. Only zero does not divide. -/
theorem division_rounds_down (a b : Int64) :
    (b = 0 → binary .div (.int a) (.int b) = .error .divisionByZero ∧
      binary .rem (.int a) (.int b) = .error .divisionByZero) ∧
    (b ≠ 0 → ∃ q r p : Int64,
      binary .div (.int a) (.int b) = .ok (.int q) ∧
      binary .rem (.int a) (.int b) = .ok (.int r) ∧
      q = Int64.ofInt ⌊(a.toInt : ℚ) / b.toInt⌋ ∧
      (q.toInt ≠ ⌊(a.toInt : ℚ) / b.toInt⌋ ↔ Exceeds a b) ∧
      Remains r b ∧
      (RoundsUp a b → (a % b + b).toInt = (a % b).toInt + b.toInt ∧
        (a / b - 1).toInt = (a / b).toInt - 1) ∧
      binary .mul (.int q) (.int b) = .ok (.int p) ∧
      binary .add (.int p) (.int r) = .ok (.int a)) := by
  constructor
  · rintro rfl
    exact ⟨rfl, rfl⟩
  · intro nonzero
    refine ⟨floorDiv a b, floorRem a b, floorDiv a b * b, ?_, ?_, floorDiv_eq_floor nonzero,
      toInt_floorDiv_ne_iff nonzero, remains_floorRem a nonzero,
      fun h => ⟨toInt_raised h nonzero, toInt_lowered h nonzero⟩, rfl, ?_⟩
    · simp [binary, arithmetic, intArithmetic, nonzero, Except.map]
    · simp [binary, arithmetic, intArithmetic, nonzero, Except.map]
    · simp [binary, arithmetic, intArithmetic, Except.map, floorDiv_mul_add_floorRem]

/-- Of minus seven halves: rounded down to minus four, with one left over. -/
theorem division_rounds_down_halves : ∃ q r p : Int64,
    binary .div (.int (-7)) (.int 2) = .ok (.int q) ∧ binary .rem (.int (-7)) (.int 2) = .ok (.int r) ∧
      q = -4 ∧ Remains r 2 ∧ binary .mul (.int q) (.int 2) = .ok (.int p) ∧
      binary .add (.int p) (.int r) = .ok (.int (-7)) := by
  obtain ⟨q, r, p, quotient, remainder, -, -, left, -, product, sum⟩ :=
    (division_rounds_down (-7) 2).2 (by decide)
  exact ⟨q, r, p, quotient, remainder, by cases quotient; decide, left, product, sum⟩

end Brace.Value
