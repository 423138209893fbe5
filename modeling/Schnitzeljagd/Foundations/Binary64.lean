import Mathlib.Data.Int.Log
import Mathlib.Data.Rat.Floor

/-!
# Numbers in double precision

A double is a whole number of at most 53 binary digits times a power of two, and the power
is not below the one of the smallest positive double. An exact number is rounded to the
nearest double; of two that are equally near, the one with an even last digit is taken.
There is no largest double here: the numbers that this development rounds are compared with
the length of an array, and where a double overflows, both are larger than any length.

A language that works with integers as long as it can keeps a whole number as it is and
rounds every other result. Its arrays cut an index off towards zero. The last section
follows one less than a positive number on the way to such an index. From one on nothing
is lost, because one less than a double with a fraction is a double again. Below one the
result is rounded, and up to half of the last place next to one it is rounded to minus one.
-/

namespace Foundations.Binary64

/-! ## Rounding to whole numbers -/

/-- The nearest whole number, and of two that are equally near the even one. Half way
between two numbers the lower one is kept if it is even, and otherwise raised by one. -/
def nearest (number : Rat) : Int :=
  if number - ⌊number⌋ < 1 / 2 then ⌊number⌋
  else if 1 / 2 < number - ⌊number⌋ then ⌊number⌋ + 1
  else ⌊number⌋ + ⌊number⌋ % 2

/-- Whichever way the number is rounded, the result is its floor or one more than that. -/
theorem nearest_floor (number : Rat) :
    ⌊number⌋ ≤ nearest number ∧ nearest number ≤ ⌊number⌋ + 1 := by
  rw [nearest]
  split_ifs <;> omega

/-- A whole number has no fraction that could be rounded, and is its own nearest number. -/
theorem nearest_intCast (whole : Int) : nearest whole = whole := by
  rw [nearest, Int.floor_intCast, sub_self, if_pos (by norm_num)]

/-- Rounding does not take a number below a whole number that it was not below before. -/
theorem le_nearest (number : Rat) (whole : Int) (below : whole ≤ number) :
    whole ≤ nearest number :=
  (Int.le_floor.mpr below).trans (nearest_floor number).1

/-- Rounding does not take a number above a whole number that it was not above before. A
number that is whole itself has to be told apart: for all others the whole number is at
least the ceiling. -/
theorem nearest_le (number : Rat) (whole : Int) (above : number ≤ whole) :
    nearest number ≤ whole := by
  by_cases exact : number = ⌊number⌋
  · rw [exact, nearest_intCast]
    exact Int.floor_le_iff.mpr (lt_of_le_of_lt above (by linarith))
  · have beyond : (⌊number⌋ : Rat) < whole :=
      lt_of_lt_of_le (lt_of_le_of_ne (Int.floor_le number) (Ne.symm exact)) above
    have next : ⌊number⌋ + 1 ≤ whole := Int.add_one_le_iff.mpr (by exact_mod_cast beyond)
    exact (nearest_floor number).2.trans next

/-- Up to one half above an even number, and the half included, that number is nearest. -/
theorem nearest_of_even (number : Rat) (whole : Int) (even : whole % 2 = 0)
    (above : whole ≤ number) (below : number ≤ whole + 1 / 2) : nearest number = whole := by
  have floor : ⌊number⌋ = whole := Int.floor_eq_iff.mpr ⟨above, by linarith⟩
  rw [nearest, floor]
  split_ifs with _ more
  · rfl
  · linarith
  · rw [even, add_zero]

/-- More than one half above a whole number, some later number is nearest. -/
theorem lt_nearest (number : Rat) (whole : Int) (beyond : whole + 1 / 2 < number) :
    whole < nearest number := by
  have started : whole ≤ ⌊number⌋ := Int.le_floor.mpr (by linarith)
  rcases started.lt_or_eq with later | same
  · exact later.trans_le (nearest_floor number).1
  · rw [nearest, ← same, if_neg (by linarith), if_pos (by linarith)]
    omega

/-! ## Doubles -/

/-- A number of at most 53 binary digits times a power of two that a double can have. The
numbers below the normal ones are among them: their power is the smallest. -/
def Double (number : Rat) : Prop :=
  ∃ digits place : Int, number = digits * 2 ^ place ∧ |digits| < 2 ^ 53 ∧ -1074 ≤ place

/-- The power of two of the last digit that a double near a number has. It follows the
first digit at a distance of 52 places, but stops at the place of the smallest double. -/
def lastPlace (number : Rat) : Int := max (Int.log 2 |number| - 52) (-1074)

/-- The nearest double: the number is measured in units of its last place, rounded to a
whole number of them, and scaled back. -/
def binary64 (number : Rat) : Rat :=
  nearest (number / 2 ^ lastPlace number) * 2 ^ lastPlace number

example : binary64 (1 / 10) = 3602879701896397 / 36028797018963968 := by decide +kernel

/-- Powers of two are positive, those below one included. -/
theorem two_zpow_pos (place : Int) : (0 : Rat) < 2 ^ place := zpow_pos (by norm_num) place

/-- At a place that is not before the point, one is a whole number of units. -/
theorem units_one (place : Int) (behind : place ≤ 0) :
    ((2 ^ (-place).toNat : Int) : Rat) * 2 ^ place = 1 := by
  have opposite : ((-place).toNat : Int) = -place := by omega
  rw [Int.cast_pow, Int.cast_ofNat, ← zpow_natCast, opposite, ← zpow_add₀ (by norm_num),
    neg_add_cancel, zpow_zero]

/-- Measured in units of its last place, a number is below `2 ^ 53`. -/
theorem abs_lt_lastPlace (number : Rat) : |number| < 2 ^ 53 * 2 ^ lastPlace number := by
  have top : |number| < 2 ^ (Int.log 2 |number| + 1) :=
    Int.lt_zpow_succ_log_self (by norm_num) _
  have room : Int.log 2 |number| + 1 ≤ 53 + lastPlace number := by
    rw [lastPlace]
    omega
  calc |number| < 2 ^ (Int.log 2 |number| + 1) := top
    _ ≤ 2 ^ (53 + lastPlace number) := zpow_le_zpow_right₀ (by norm_num) room
    _ = 2 ^ 53 * 2 ^ lastPlace number := zpow_add₀ (by norm_num) 53 (lastPlace number)

/-- The last place of a number that can be written with 53 digits is not above the place
that it is written at: its first digit would otherwise stand in front of all of them. -/
theorem lastPlace_le (number : Rat) (place : Int) (nonzero : number ≠ 0)
    (bound : |number| < 2 ^ (53 + place)) (least : -1074 ≤ place) : lastPlace number ≤ place := by
  have first : (2 : Rat) ^ Int.log 2 |number| ≤ |number| :=
    Int.zpow_log_le_self (by norm_num) (abs_pos.mpr nonzero)
  have below : Int.log 2 |number| < 53 + place :=
    (zpow_lt_zpow_iff_right₀ (by norm_num)).mp (first.trans_lt bound)
  rw [lastPlace]
  omega

/-- What rounding gives is a double. The whole number of units has at most 53 digits, and
where it is rounded up to `2 ^ 53` it is half as many units of the next place. -/
theorem binary64_double (number : Rat) : Double (binary64 number) := by
  have unit := two_zpow_pos (lastPlace number)
  have least : -1074 ≤ lastPlace number := le_max_right _ _
  have small := abs_lt_lastPlace number
  rw [abs_lt] at small
  have upper : nearest (number / 2 ^ lastPlace number) ≤ 2 ^ 53 := by
    apply nearest_le
    rw [div_le_iff₀ unit]
    exact_mod_cast small.2.le
  have lower : -2 ^ 53 ≤ nearest (number / 2 ^ lastPlace number) := by
    apply le_nearest
    rw [le_div_iff₀ unit]
    push_cast
    linarith [small.1]
  have next : (2 : Rat) ^ (lastPlace number + 1) = 2 ^ lastPlace number * 2 :=
    zpow_add_one₀ (by norm_num) _
  rw [binary64]
  generalize nearest (number / 2 ^ lastPlace number) = units at upper lower
  by_cases fits : |units| < 2 ^ 53
  · exact ⟨units, lastPlace number, rfl, fits, least⟩
  · rcases le_abs.mp (not_lt.mp fits) with top | bottom
    · obtain rfl : units = 2 ^ 53 := le_antisymm upper top
      refine ⟨2 ^ 52, lastPlace number + 1, ?_, by norm_num, by omega⟩
      rw [next]
      push_cast
      ring
    · obtain rfl : units = -2 ^ 53 := by omega
      refine ⟨-2 ^ 52, lastPlace number + 1, ?_, by norm_num, by omega⟩
      rw [next]
      push_cast
      ring

/-- A double is not changed by rounding: it is a whole number of units of its last place. -/
theorem binary64_of_double {number : Rat} (double : Double number) : binary64 number = number := by
  obtain ⟨digits, place, written, fits, least⟩ := double
  by_cases zero : number = 0
  · rw [zero]
    decide +kernel
  have bound : |number| < 2 ^ (53 + place) := by
    rw [written, abs_mul, abs_of_pos (two_zpow_pos place), zpow_add₀ (by norm_num)]
    refine mul_lt_mul_of_pos_right ?_ (two_zpow_pos place)
    exact_mod_cast fits
  have within := lastPlace_le number place zero bound least
  have units : number / 2 ^ lastPlace number =
      ((digits * 2 ^ (place - lastPlace number).toNat : Int) : Rat) := by
    have apart : ((place - lastPlace number).toNat : Int) = place - lastPlace number := by omega
    rw [div_eq_iff (two_zpow_pos _).ne', Int.cast_mul, Int.cast_pow, Int.cast_ofNat,
      ← zpow_natCast, apart, mul_assoc, ← zpow_add₀ (by norm_num), sub_add_cancel]
    exact written
  rw [binary64, units, nearest_intCast, ← units, div_mul_cancel₀ _ (two_zpow_pos _).ne']

/-! ## Integers as long as possible -/

/-- The number that is kept for an exact result: a whole number is an integer and kept as it
is, every other number is rounded to a double. Whole numbers that do not fit into a native
integer are kept as well; they are larger than any length they are compared with. -/
def scalar (number : Rat) : Rat := if number.den = 1 then number else binary64 number

/-- A number that can be the value of a variable: a whole number or a double. -/
def IsScalar (number : Rat) : Prop := number.den = 1 ∨ Double number

/-- The number that is kept is one that can be kept. -/
theorem scalar_isScalar (number : Rat) : IsScalar (scalar number) := by
  rw [scalar]
  split_ifs with whole
  · exact Or.inl whole
  · exact Or.inr (binary64_double number)

/-- Nothing is lost of a result that is whole or a double. -/
theorem IsScalar.kept {number : Rat} (kept : IsScalar number) : scalar number = number := by
  rw [scalar]
  split_ifs with whole
  · rfl
  · exact binary64_of_double (kept.resolve_left whole)

/-- A whole number is kept as it is, however large. -/
theorem scalar_natCast (number : Nat) : scalar number = number :=
  IsScalar.kept (Or.inl rfl)

/-! ## One less -/

/-- From one on, one less than such a number is such a number. A double with a fraction has
its last place behind the point, so that one is a whole number of its units as well, and
taking it away leaves no more digits than before. -/
theorem IsScalar.pred {number : Rat} (kept : IsScalar number) (atLeastOne : 1 ≤ number) :
    IsScalar (number - 1) := by
  rcases kept with whole | ⟨digits, place, written, fits, least⟩
  · left
    have value : (number.num : Rat) = number := (Rat.den_eq_one_iff number).mp whole
    have pred : number - 1 = ((number.num - 1 : Int) : Rat) := by
      rw [Int.cast_sub, value, Int.cast_one]
    rw [pred]
    rfl
  · by_cases fraction : place < 0
    · right
      have one := units_one place fraction.le
      have enough : 2 ^ (-place).toNat ≤ digits := by
        rw [written, ← one] at atLeastOne
        exact_mod_cast le_of_mul_le_mul_right atLeastOne (two_zpow_pos place)
      have positive : (0 : Int) < 2 ^ (-place).toNat := by positivity
      refine ⟨digits - 2 ^ (-place).toNat, place, ?_, ?_, least⟩
      · rw [Int.cast_sub, sub_mul, one, written]
      · rw [abs_lt] at fits ⊢
        constructor <;> linarith [fits.2]
    · left
      have whole : number = ((digits * 2 ^ place.toNat : Int) : Rat) := by
        have same : ((place.toNat : Nat) : Int) = place := by omega
        rw [written, Int.cast_mul, Int.cast_pow, Int.cast_ofNat, ← zpow_natCast, same]
      have pred : number - 1 = ((digits * 2 ^ place.toNat - 1 : Int) : Rat) := by
        rw [whole, Int.cast_sub, Int.cast_one]
      rw [pred]
      rfl

/-- Between minus one and zero there is no whole number, so that one less than a number
below one is rounded to a double. -/
theorem scalar_pred_rounded (number : Rat) (positive : 0 < number) (below : number < 1) :
    scalar (number - 1) = binary64 (number - 1) := by
  rw [scalar, if_neg]
  intro whole
  have same : ((number - 1).num : Rat) = number - 1 := (Rat.den_eq_one_iff _).mp whole
  have negative : ((number - 1).num : Rat) < 0 := by rw [same]; linarith
  have above : (-1 : Rat) < (number - 1).num := by rw [same]; linarith
  have : (number - 1).num < 0 := by exact_mod_cast negative
  have : -1 < (number - 1).num := by exact_mod_cast above
  omega

/-- The first digit of a number between minus one and zero is behind the point. -/
theorem lastPlace_pred_le (number : Rat) (positive : 0 < number) (below : number < 1) :
    lastPlace (number - 1) ≤ -53 := by
  apply lastPlace_le _ _ (by linarith) _ (by norm_num)
  rw [abs_of_neg (by linarith)]
  norm_num
  exact positive

/-- Up to half of the last place below one, taking away one gives minus one: the difference
from it is lost, and half way the even digits of minus one decide. -/
theorem scalar_pred_tiny (number : Rat) (positive : 0 < number) (tiny : number ≤ 1 / 2 ^ 54) :
    scalar (number - 1) = -1 := by
  have below : number < 1 := tiny.trans_lt (by norm_num)
  have place : lastPlace (number - 1) = -53 := by
    apply le_antisymm (lastPlace_pred_le number positive below)
    have half : (2 : Rat) ^ (-1 : Int) ≤ |number - 1| := by
      rw [abs_of_neg (by linarith)]
      norm_num at tiny ⊢
      linarith
    have first : -1 ≤ Int.log 2 |number - 1| :=
      (Int.zpow_le_iff_le_log (by norm_num) (abs_pos.mpr (by linarith))).mp half
    rw [lastPlace]
    omega
  have units : nearest ((number - 1) / 2 ^ (-53 : Int)) = -2 ^ 53 := by
    apply nearest_of_even _ _ (by norm_num)
    · rw [le_div_iff₀ (two_zpow_pos _)]
      norm_num
      exact positive.le
    · rw [div_le_iff₀ (two_zpow_pos _)]
      norm_num at tiny ⊢
      linarith
  rw [scalar_pred_rounded number positive below, binary64, place, units]
  norm_num

/-- Above that and below one, taking away one gives a number between minus one and zero
that is not minus one. -/
theorem scalar_pred_small (number : Rat) (more : 1 / 2 ^ 54 < number) (below : number < 1) :
    -1 < scalar (number - 1) ∧ scalar (number - 1) ≤ 0 := by
  have positive : 0 < number := lt_trans (by norm_num) more
  have behind := lastPlace_pred_le number positive below
  rw [scalar_pred_rounded number positive below, binary64]
  generalize lastPlace (number - 1) = place at behind
  have unit := two_zpow_pos place
  have one := units_one place (behind.trans (by norm_num))
  have fine : (2 : Rat) ^ place ≤ 2 ^ (-53 : Int) := zpow_le_zpow_right₀ (by norm_num) behind
  constructor
  · have beyond : -2 ^ (-place).toNat < nearest ((number - 1) / 2 ^ place) := by
      apply lt_nearest
      rw [lt_div_iff₀ unit, add_mul, Int.cast_neg, neg_mul, one]
      norm_num at fine more
      linarith
    have scaled : ((-2 ^ (-place).toNat : Int) : Rat) * 2 ^ place <
        nearest ((number - 1) / 2 ^ place) * 2 ^ place :=
      mul_lt_mul_of_pos_right (by exact_mod_cast beyond) unit
    rwa [Int.cast_neg, neg_mul, one] at scaled
  · have nonpos : nearest ((number - 1) / 2 ^ place) ≤ 0 := by
      apply nearest_le
      rw [div_le_iff₀ unit]
      norm_num
      exact below.le
    exact mul_nonpos_of_nonpos_of_nonneg (by exact_mod_cast nonpos) unit.le

/-! ## Cut off towards zero -/

/-- The whole part of a number, cut off towards zero, as an array does with its index. -/
def truncate (number : Rat) : Int := number.num.tdiv number.den

/-- From zero on, truncation rounds down. -/
theorem truncate_of_nonneg (number : Rat) (nonneg : 0 ≤ number) : truncate number = ⌊number⌋ := by
  rw [truncate, Rat.floor_def', Int.tdiv_eq_ediv_of_nonneg (Rat.num_nonneg.mpr nonneg)]

/-- Every number above minus one that is not positive is cut off to zero. -/
theorem truncate_of_small (number : Rat) (above : -1 < number) (below : number ≤ 0) :
    truncate number = 0 := by
  have nonneg : 0 ≤ -number := by linarith
  have opposite : truncate number = -truncate (-number) := by
    rw [truncate, truncate, Rat.num_neg_eq_neg_num, Rat.den_neg_eq_den, Int.neg_tdiv, neg_neg]
  have floor : ⌊-number⌋ = 0 := Int.floor_eq_zero_iff.mpr ⟨nonneg, by linarith⟩
  rw [opposite, truncate_of_nonneg _ nonneg, floor, neg_zero]

/-- One less than a number that is not tiny, cut off: the place before the floor of the
number, or the first place if the number is below one. -/
theorem truncate_pred (number : Rat) (kept : IsScalar number) (more : 1 / 2 ^ 54 < number) :
    truncate (scalar (number - 1)) = max 1 ⌊number⌋ - 1 := by
  by_cases whole : 1 ≤ number
  · have atLeastOne : 1 ≤ ⌊number⌋ := Int.le_floor.mpr (by exact_mod_cast whole)
    rw [(kept.pred whole).kept, truncate_of_nonneg _ (by linarith), max_eq_right atLeastOne,
      Int.floor_sub_one]
  · have below : number < 1 := not_le.mp whole
    have positive : 0 < number := lt_trans (by norm_num) more
    have floor : ⌊number⌋ = 0 := Int.floor_eq_zero_iff.mpr ⟨positive.le, below⟩
    obtain ⟨above, nonpos⟩ := scalar_pred_small number more below
    rw [truncate_of_small _ above nonpos, floor]
    rfl

/-- A number that is not tiny and not above a whole number hits one of so many places. -/
theorem truncate_pred_bounds (number : Rat) (count : Nat) (kept : IsScalar number)
    (more : 1 / 2 ^ 54 < number) (inside : number ≤ count) :
    0 ≤ truncate (scalar (number - 1)) ∧ truncate (scalar (number - 1)) < count := by
  have floor : ⌊number⌋ ≤ count := by
    have cast : (⌊number⌋ : Rat) ≤ count := (Int.floor_le number).trans inside
    exact_mod_cast cast
  have someCount : 0 < count := by
    have cast : (0 : Rat) < count := (lt_trans (by norm_num) more).trans_le inside
    exact_mod_cast cast
  rw [truncate_pred number kept more]
  omega

end Foundations.Binary64
