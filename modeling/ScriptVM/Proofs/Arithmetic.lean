import Mathlib.Data.Rat.Floor
import ScriptVM.Value

/-!
Arithmetic on whole numbers is exact or refused.

The machine's quotients are made from quotients that round toward zero, and its remainders from
theirs. Here both are compared with the numbers they stand for: the floor of a rational quotient, and
what that floor leaves. A result that a word can hold is given, with one exception, and one that no
word can hold is refused. The exception is the remainder of the least word by minus one: it is zero,
and it is refused together with the quotient, which is too large. Apart from that both are defined
together and agree as quotient and remainder do, and no operation they are made of overflows.
-/
namespace ScriptVM

/-- The result of an operation on whole numbers, of whatever size. -/
def Arith.exact (a b : Int) : Arith → Int
  | add => a + b
  | sub => a - b
  | mul => a * b
  | div => ⌊(a / b : ℚ)⌋
  | rem => a - b * ⌊(a / b : ℚ)⌋

namespace Value

variable {a b : Int64} {n : Int}

/-- A word can hold the number. -/
def Fits (n : Int) : Prop :=
  Int64.minValue.toInt ≤ n ∧ n ≤ Int64.maxValue.toInt

instance : Decidable (Fits n) := inferInstanceAs (Decidable (_ ∧ _))

/-- The word for a number that it can hold. -/
def word (n : Int) (fits : Fits n) : Int64 :=
  .ofIntLE n fits.1 fits.2

theorem toInt_word (fits : Fits n) : (word n fits).toInt = n :=
  Int64.toInt_ofIntLE

theorem fits_iff : Fits n ↔ -2 ^ 63 ≤ n ∧ n < 2 ^ 63 := by
  unfold Fits
  rw [Int64.toInt_minValue, Int64.toInt_maxValue]
  omega

theorem fits_toInt (a : Int64) : Fits a.toInt :=
  fits_iff.mpr ⟨a.le_toInt, a.toInt_lt⟩

theorem fit?_eq (n : Int) : fit? n = if fits : Fits n then some (word n fits) else none := by
  by_cases fits : Fits n
  · rw [dif_pos fits]
    exact if_pos fits
  · rw [dif_neg fits]
    exact if_neg fits

theorem fit?_toInt (a : Int64) : fit? a.toInt = some a := by
  rw [fit?_eq, dif_pos (fits_toInt a)]
  exact congrArg some (Int64.toInt_inj.mp (toInt_word _))

/-- Rounding down is one less than rounding toward zero where the signs differ and something
remains. -/
theorem fdiv_eq_tdiv_sub (a : Int) {b : Int} (nonzero : b ≠ 0) :
    a.fdiv b = a.tdiv b - if a.tmod b ≠ 0 ∧ decide (a < 0) ≠ decide (b < 0) then 1 else 0 := by
  have remains : b ∣ a ↔ a.tmod b = 0 := Int.dvd_iff_tmod_eq_zero
  rw [Int.fdiv_eq_tdiv]
  congr 1
  by_cases divides : b ∣ a
  · simp [divides, remains.mp divides]
  have rest : a.tmod b ≠ 0 := fun zero => divides (remains.mpr zero)
  rcases Int.lt_or_gt_of_ne nonzero with negative | positive
  · by_cases below : a < 0
    · simp [divides, rest, negative, below, Int.sign_eq_neg_one_of_neg, Int.not_le.mpr]
    · simp [divides, rest, negative, below, Int.not_lt.mp below, Int.not_le.mpr]
  · by_cases below : a < 0
    · simp [divides, rest, below, positive.le, Int.not_lt.mpr, Int.not_le.mpr,
        Int.sign_eq_one_of_pos positive]
    · simp [divides, rest, below, positive.le, Int.not_lt.mpr, Int.not_lt.mp below]

theorem tmod_neg_iff {a b : Int} (rest : a.tmod b ≠ 0) : a.tmod b < 0 ↔ a < 0 := by
  constructor
  · intro negative
    by_contra positive
    have := Int.tmod_nonneg b (Int.not_lt.mp positive)
    omega
  · intro negative
    have := Int.tmod_nonneg b (Int.neg_nonneg.mpr negative.le)
    rw [Int.neg_tmod] at this
    omega

/-- What rounding down leaves: the divisor is added to what rounding toward zero leaves where that
has the other sign. -/
theorem fmod_eq_tmod_add (a : Int) {b : Int} (nonzero : b ≠ 0) :
    a.fmod b = a.tmod b +
      if a.tmod b ≠ 0 ∧ decide (a.tmod b < 0) ≠ decide (b < 0) then b else 0 := by
  have truncated := Int.mul_tdiv_add_tmod a b
  have floored := Int.mul_fdiv_add_fmod a b
  rw [fdiv_eq_tdiv_sub a nonzero, Int.mul_sub] at floored
  by_cases rest : a.tmod b = 0
  · simp only [rest, ne_eq, not_true_eq_false, false_and, if_false, Int.mul_zero] at floored ⊢
    omega
  simp only [tmod_neg_iff rest]
  split at floored <;> simp_all <;> omega

theorem floor_eq_fdiv (a b : Int) : ⌊(a / b : ℚ)⌋ = a.fdiv b := by
  have natural (a : Int) (b : Nat) : ⌊(a / (b : Int) : ℚ)⌋ = a.fdiv b := by
    rw [Int.fdiv_eq_ediv_of_nonneg a (Int.natCast_nonneg b), ← Rat.floor_intCast_div_natCast]
    norm_cast
  rcases Int.le_total 0 b with positive | negative
  · obtain ⟨b, rfl⟩ := Int.eq_ofNat_of_zero_le positive
    exact natural a b
  · obtain ⟨b', same⟩ := Int.eq_ofNat_of_zero_le (Int.neg_nonneg.mpr negative)
    obtain rfl : b = -b' := by omega
    have turned := natural (-a) b'
    rw [← Int.neg_fdiv_neg, Int.neg_neg, ← turned]
    congr 1
    push_cast
    rw [neg_div, div_neg]

theorem divisible_iff : divisible a b = true ↔ b ≠ 0 ∧ ¬ (a = Int64.minValue ∧ b = -1) := by
  unfold divisible
  rw [Bool.and_eq_true, bne_iff_ne, Bool.not_eq_true', ← Bool.not_eq_true, Bool.and_eq_true,
    beq_iff_eq, beq_iff_eq]

theorem toInt_eq_zero : a.toInt = 0 ↔ a = 0 := by
  rw [← Int64.toInt_inj, Int64.toInt_zero]

theorem toInt_div (whole : ¬ (a = Int64.minValue ∧ b = -1)) :
    (a / b).toInt = a.toInt.tdiv b.toInt := by
  by_cases least : a = Int64.minValue
  · exact Int64.toInt_div_of_ne_right a b fun minus => whole ⟨least, minus⟩
  · exact Int64.toInt_div_of_ne_left a b least

/-- The only quotient that no word can hold. -/
theorem not_fits_least : ¬ Fits (Int64.minValue.toInt.fdiv (-1 : Int64).toInt) := by
  decide

/-- The quotient is the floor, if a word can hold it. -/
theorem floorDiv?_eq (nonzero : b ≠ 0) : floorDiv? a b = fit? (a.toInt.fdiv b.toInt) := by
  by_cases least : a = Int64.minValue ∧ b = -1
  · obtain ⟨rfl, rfl⟩ := least
    rw [fit?_eq, dif_neg not_fits_least]
    rfl
  · unfold floorDiv?
    rw [if_pos (divisible_iff.mpr ⟨nonzero, least⟩),
      fdiv_eq_tdiv_sub _ (toInt_eq_zero.not.mpr nonzero), ← toInt_div least, ← Int64.toInt_mod]
    simp only [Int64.lt_iff_toInt_lt, Int64.toInt_zero, ne_eq, toInt_eq_zero]
    split
    · rfl
    · rw [Int.sub_zero, fit?_toInt]

/-- What rounding down leaves is smaller than the divisor and has no other sign. -/
theorem fmod_of_neg (a : Int) {b : Int} (negative : b < 0) : b < a.fmod b ∧ a.fmod b ≤ 0 := by
  have positive : 0 < -b := Int.neg_pos.mpr negative
  have lower := Int.fmod_nonneg_of_pos (-a) positive
  have upper := Int.fmod_lt_of_pos (-a) positive
  rw [Int.neg_fmod_neg] at lower upper
  omega

theorem fits_fmod (a b : Int64) (nonzero : b ≠ 0) : Fits (a.toInt.fmod b.toInt) := by
  have lower := b.le_toInt
  have upper := b.toInt_lt
  rw [fits_iff]
  rcases Int.lt_or_gt_of_ne (toInt_eq_zero.not.mpr nonzero) with negative | positive
  · have := fmod_of_neg a.toInt negative
    omega
  · have := Int.fmod_nonneg_of_pos a.toInt positive
    have := Int.fmod_lt_of_pos a.toInt positive
    omega

/-- The remainder is what the floor leaves, if there is a quotient. -/
theorem floorMod?_eq (nonzero : b ≠ 0) :
    floorMod? a b =
      if a = Int64.minValue ∧ b = -1 then none else fit? (a.toInt.fmod b.toInt) := by
  unfold floorMod?
  by_cases least : a = Int64.minValue ∧ b = -1
  · obtain ⟨rfl, rfl⟩ := least
    rfl
  · rw [if_neg least, if_pos (divisible_iff.mpr ⟨nonzero, least⟩)]
    have fits := fits_fmod a b nonzero
    rw [fit?_eq, dif_pos fits]
    congr 1
    rw [← Int64.toInt_inj, toInt_word]
    have corrected := fmod_eq_tmod_add a.toInt (toInt_eq_zero.not.mpr nonzero)
    rw [← Int64.toInt_mod] at corrected
    simp only [Int64.lt_iff_toInt_lt, Int64.toInt_zero, ne_eq, toInt_eq_zero] at corrected ⊢
    split
    next differ =>
      rw [if_pos differ] at corrected
      rw [fits_iff] at fits
      rw [Int64.toInt_add, ← corrected, Int.bmod_eq_of_le fits.1 fits.2]
    next agree =>
      rw [if_neg agree, Int.add_zero] at corrected
      exact corrected.symm

/-- The quotient rounded toward zero, where there is one and a word can hold it. -/
def tdiv? (a b : Int64) : Option Int64 :=
  if b = 0 then none else fit? (a.toInt.tdiv b.toInt)

/-- What that quotient leaves. It is taken together with the quotient, so it is missing where the
quotient is. -/
def tmod? (a b : Int64) : Option Int64 :=
  (tdiv? a b).bind fun _ => fit? (a.toInt.tmod b.toInt)

/-- A quotient rounded down and the remainder that it leaves. -/
structure FloorPair (a b quotient remainder : Int) : Prop where
  recompose : quotient * b + remainder = a
  smaller : |remainder| < |b|
  sign : remainder = 0 ∨ remainder.sign = b.sign

theorem floorPair_fdiv_fmod (a : Int) {b : Int} (nonzero : b ≠ 0) :
    FloorPair a b (a.fdiv b) (a.fmod b) := by
  have recompose : a.fdiv b * b + a.fmod b = a := by
    rw [Int.mul_comm]
    exact Int.mul_fdiv_add_fmod a b
  rcases Int.lt_or_gt_of_ne nonzero with negative | positive
  · obtain ⟨lower, upper⟩ := fmod_of_neg a negative
    refine ⟨recompose, by rw [abs_of_nonpos upper, abs_of_neg negative]; omega, ?_⟩
    rcases Int.lt_or_eq_of_le upper with below | zero
    · exact .inr ((Int.sign_eq_neg_one_of_neg below).trans (Int.sign_eq_neg_one_of_neg negative).symm)
    · exact .inl zero
  · have lower := Int.fmod_nonneg_of_pos a positive
    have upper := Int.fmod_lt_of_pos a positive
    refine ⟨recompose, by rwa [abs_of_nonneg lower, abs_of_pos positive], ?_⟩
    rcases Int.lt_or_eq_of_le lower with above | zero
    · exact .inr ((Int.sign_eq_one_of_pos above).trans (Int.sign_eq_one_of_pos positive).symm)
    · exact .inl zero.symm

/-- A quotient that leaves something is half of a word at most. -/
theorem fits_tdiv_sub (rest : a % b ≠ 0) : Fits (a.toInt.tdiv b.toInt - 1) := by
  have remains : ¬ b.toInt ∣ a.toInt := by
    rw [Int.dvd_iff_tmod_eq_zero, ← Int64.toInt_mod]
    exact toInt_eq_zero.not.mpr rest
  have large : b.toInt.natAbs = 0 ∨ 2 ≤ b.toInt.natAbs := by
    by_contra other
    exact remains (Int.natAbs_dvd.mp (by simp [show b.toInt.natAbs = 1 by omega]))
  have half : (a.toInt.tdiv b.toInt).natAbs ≤ a.toInt.natAbs / 2 := by
    have divided : (a.toInt.tdiv b.toInt).natAbs = a.toInt.natAbs / b.toInt.natAbs :=
      Int.natAbs_tdiv ..
    rw [divided]
    rcases large with zero | large
    · rw [zero, Nat.div_zero]
      exact Nat.zero_le _
    · exact Nat.div_le_div_left large (by decide)
  have lower := a.le_toInt
  have upper := a.toInt_lt
  rw [fits_iff]
  omega

/-- Where the remainder has not the sign of the divisor, their sum is between them. -/
theorem fits_tmod_add (a b : Int64) (differ : decide (a % b < 0) ≠ decide (b < 0)) :
    Fits ((a % b).toInt + b.toInt) := by
  have lower := b.le_toInt
  have upper := b.toInt_lt
  have lower' := (a % b).le_toInt
  have upper' := (a % b).toInt_lt
  simp only [ne_eq, decide_eq_decide, Int64.lt_iff_toInt_lt, Int64.toInt_zero] at differ
  rw [fits_iff]
  omega

theorem tdiv?_eq (whole : ¬ (b = 0 ∨ a = Int64.minValue ∧ b = -1)) : tdiv? a b = some (a / b) := by
  obtain ⟨nonzero, notLeast⟩ := not_or.mp whole
  rw [tdiv?, if_neg nonzero, ← toInt_div notLeast, fit?_toInt]

theorem tmod?_eq (whole : ¬ (b = 0 ∨ a = Int64.minValue ∧ b = -1)) : tmod? a b = some (a % b) := by
  rw [tmod?, tdiv?_eq whole, Option.bind_some, ← Int64.toInt_mod, fit?_toInt]

theorem fits_fdiv (whole : ¬ (b = 0 ∨ a = Int64.minValue ∧ b = -1)) :
    Fits (a.toInt.fdiv b.toInt) := by
  obtain ⟨nonzero, notLeast⟩ := not_or.mp whole
  rw [fdiv_eq_tdiv_sub _ (toInt_eq_zero.not.mpr nonzero)]
  split
  next corrected =>
    refine fits_tdiv_sub fun zero => corrected.1 ?_
    rw [← Int64.toInt_mod, zero, Int64.toInt_zero]
  next =>
    rw [Int.sub_zero, ← toInt_div notLeast]
    exact fits_toInt _

/-- The two functions on words are a division that rounds down. They refuse the same divisions, by zero
and that of the least word by minus one. Elsewhere quotient and remainder are a pair, and every
operation on the way to them has its exact result: both divisions that round toward zero, one less
than the quotient where something remains, and the sum of remainder and divisor where their signs
differ. -/
theorem floor_division_pair (a b : Int64) :
    (floorDiv? a b = none ↔ b = 0 ∨ a = Int64.minValue ∧ b = -1) ∧
    (floorMod? a b = none ↔ b = 0 ∨ a = Int64.minValue ∧ b = -1) ∧
    (¬ (b = 0 ∨ a = Int64.minValue ∧ b = -1) →
      (∃ q r, floorDiv? a b = some q ∧ floorMod? a b = some r ∧
        FloorPair a.toInt b.toInt q.toInt r.toInt) ∧
      tdiv? a b = some (a / b) ∧ tmod? a b = some (a % b) ∧
      (a % b ≠ 0 → fit? ((a / b).toInt - 1) = some (a / b - 1)) ∧
      (decide (a % b < 0) ≠ decide (b < 0) →
        fit? ((a % b).toInt + b.toInt) = some (a % b + b))) := by
  have pair (whole : ¬ (b = 0 ∨ a = Int64.minValue ∧ b = -1)) :
      ∃ q r, floorDiv? a b = some q ∧ floorMod? a b = some r ∧
        FloorPair a.toInt b.toInt q.toInt r.toInt := by
    obtain ⟨nonzero, notLeast⟩ := not_or.mp whole
    refine ⟨word _ (fits_fdiv whole), word _ (fits_fmod a b nonzero), ?_, ?_, ?_⟩
    · rw [floorDiv?_eq nonzero, fit?_eq, dif_pos (fits_fdiv whole)]
    · rw [floorMod?_eq nonzero, if_neg notLeast, fit?_eq, dif_pos (fits_fmod a b nonzero)]
    · rw [toInt_word, toInt_word]
      exact floorPair_fdiv_fmod _ (toInt_eq_zero.not.mpr nonzero)
  refine ⟨⟨fun none => ?_, ?_⟩, ⟨fun none => ?_, ?_⟩, fun whole => ?_⟩
  · by_contra whole
    obtain ⟨q, _, found, _⟩ := pair whole
    cases found.symm.trans none
  · rintro (rfl | ⟨rfl, rfl⟩) <;> rfl
  · by_contra whole
    obtain ⟨_, r, _, found, _⟩ := pair whole
    cases found.symm.trans none
  · rintro (rfl | ⟨rfl, rfl⟩) <;> rfl
  · refine ⟨pair whole, tdiv?_eq whole, tmod?_eq whole, fun rest => ?_, fun differ => ?_⟩
    · have fits := fits_tdiv_sub rest
      rw [← toInt_div (not_or.mp whole).2] at fits
      rw [show fit? _ = _ from if_pos fits, Int64.ofInt_sub, Int64.ofInt_toInt]
      rfl
    · rw [show fit? _ = _ from if_pos (fits_tmod_add a b differ), Int64.ofInt_add,
        Int64.ofInt_toInt, Int64.ofInt_toInt]

/-- At the end of the range, where both functions correct what rounds toward zero. -/
theorem floor_division_pair_of_least :
    ¬ ((3 : Int64) = 0 ∨ Int64.minValue = Int64.minValue ∧ (3 : Int64) = -1) ∧
      floorDiv? Int64.minValue 3 = some (-3074457345618258603) ∧
      floorMod? Int64.minValue 3 = some 1 ∧
      FloorPair Int64.minValue.toInt 3 (-3074457345618258603) 1 := by
  have whole : ¬ ((3 : Int64) = 0 ∨ Int64.minValue = Int64.minValue ∧ (3 : Int64) = -1) := by decide
  obtain ⟨⟨q, r, isQuotient, isRest, pair⟩, _⟩ := (floor_division_pair Int64.minValue 3).2.2 whole
  have quotient : floorDiv? Int64.minValue 3 = some (-3074457345618258603) := by decide
  have rest : floorMod? Int64.minValue 3 = some 1 := by decide
  cases isQuotient.symm.trans quotient
  cases isRest.symm.trans rest
  exact ⟨whole, quotient, rest, pair⟩

end Value

namespace Arith

variable {a b : Int64}

/-- Operations without a quotient give the exact result, if a word can hold it. -/
theorem onInts?_eq (op : Arith) (exists_quotient : ¬ (op.divides = true ∧ b = 0)) :
    op.onInts? a b =
      if op = .rem ∧ a = Int64.minValue ∧ b = -1 then none
      else Value.fit? (op.exact a.toInt b.toInt) := by
  have nonzero : op.divides = true → b ≠ 0 := fun divides zero => exists_quotient ⟨divides, zero⟩
  cases op with
  | add | sub | mul => rfl
  | div =>
    simp only [onInts?, exact, Value.floor_eq_fdiv, reduceCtorEq, false_and, if_false]
    exact Value.floorDiv?_eq (nonzero rfl)
  | rem =>
    simp only [onInts?, exact, Value.floor_eq_fdiv, true_and, ← Int.fmod_def]
    exact Value.floorMod?_eq (nonzero rfl)

/-- Arithmetic on whole numbers is exact or refused. Without a divisor that is a quotient by zero.
Otherwise the result is the exact one where a word can hold that, and an overflow where none can or
where it is the remainder of a quotient that none can. -/
theorem apply_exact (op : Arith) (a b : Int64) :
    op.apply (.int a) (.int b) =
      if op.divides = true ∧ b = 0 then .error .divisionByZero
      else if fits : Value.Fits (op.exact a.toInt b.toInt) ∧
          ¬ (op = .rem ∧ a = Int64.minValue ∧ b = -1) then
        .ok (.int (Value.word (op.exact a.toInt b.toInt) fits.1))
      else .error (.overflow op) := by
  by_cases zero : op.divides = true ∧ b = 0
  · have refused : (op.divides && b == 0) = true := by simp [zero]
    rw [if_pos zero]
    exact if_pos refused
  have allowed : ¬ (op.divides && b == 0) = true := by simpa using zero
  rw [if_neg zero]
  show (if (op.divides && b == 0) = true then _ else _ : Except ValueError Value) = _
  rw [if_neg allowed, onInts?_eq op zero]
  by_cases least : op = .rem ∧ a = Int64.minValue ∧ b = -1
  · rw [if_pos least, dif_neg fun fits => fits.2 least]
  · rw [if_neg least, Value.fit?_eq]
    by_cases fits : Value.Fits (op.exact a.toInt b.toInt)
    · rw [dif_pos fits, dif_pos ⟨fits, least⟩]
    · rw [dif_neg fits, dif_neg fun both => fits both.1]

/-- The remainder of the least word by minus one is zero, and it is refused. -/
theorem rem_refused_of_least :
    rem.exact Int64.minValue.toInt (-1 : Int64).toInt = 0 ∧ Value.Fits 0 ∧
      (-1 : Int64) ≠ 0 ∧
      rem.apply (.int Int64.minValue) (.int (-1)) = .error (.overflow .rem) := by
  refine ⟨?_, by decide, by decide, rfl⟩
  rw [exact, Value.floor_eq_fdiv, ← Int.fmod_def]
  decide

end Arith

end ScriptVM
