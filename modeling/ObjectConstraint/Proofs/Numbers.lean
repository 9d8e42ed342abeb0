import Mathlib.Algebra.Field.Rat
import Mathlib.Algebra.Order.Ring.Rat
import Mathlib.Order.Compare
import Mathlib.Order.WithBot
import Mathlib.Tactic.Linarith
import Mathlib.Tactic.Ring
import ObjectConstraint.Value.Order

/-!
# The order of numbers is exact

Integers, reals and the unlimited number denote elements of the rationals with a greatest element.
Each pair of representations has a comparison of its own; all of them are the order of what is
denoted.

* `Binary64.Finite.cmpInt_eq` — an integer is compared with a real by the whole part and then by
  the rest, and no rounding takes place on the way.
* `Value.cmp_eq_compare_number` — the order of two numbers is the order of what they denote.
-/

namespace ObjectConstraint

/-! ### Comparisons in a linear order -/

theorem compare_map {α β : Type} [LinearOrder α] [LinearOrder β] {f : α → β} (hf : StrictMono f)
    (x y : α) : compare (f x) (f y) = compare x y := by
  rw [← cmp_eq_compare, ← cmp_eq_compare]
  exact hf.cmp_map_eq x y

namespace Binary64

/-! ### The whole part and the rest -/

theorem unitsPerOne_pos : 0 < unitsPerOne := Nat.two_pow_pos _

/-- A magnitude that is a number is its own rounding. -/
theorem roundUnits_eq_self {n : Nat} (h : gap n ∣ n) : roundUnits n 1 = n := by
  have hexact : nearest n (gap n) = n / gap n := by
    have hmod : n % gap n = 0 := Nat.mod_eq_zero_of_dvd h
    simp [nearest, hmod, gap_pos n]
  unfold roundUnits
  rw [Nat.div_one, Nat.one_mul, hexact]
  exact Nat.div_mul_cancel h

/-- What the whole part leaves of a number is a number. -/
theorem fits_rest {n : Nat} (h : Fits n) : Fits (n % unitsPerOne) :=
  ⟨Nat.lt_of_le_of_lt (Nat.mod_le _ _) h.1,
    Nat.dvd_trans (gap_dvd_gap (Nat.mod_le _ _)) (gap_dvd_mod h.2 places)⟩

namespace Finite

variable (x : Finite)

theorem signed_neg : x.neg.signed = -x.signed := by
  cases h : x.negative <;> simp [neg, signed, h]

theorem natAbs_signed : x.signed.natAbs = x.units := by
  cases h : x.negative <;> simp [signed, h]

theorem signed_whole : x.whole.signed = x.signed.tdiv unitsPerOne * unitsPerOne := by
  have hdiv : x.units - x.units % unitsPerOne = x.units / unitsPerOne * unitsPerOne := by
    have := Nat.div_add_mod' x.units unitsPerOne
    omega
  have hwhole : x.whole.units = x.units / unitsPerOne * unitsPerOne := hdiv
  have hnegative : x.whole.negative = x.negative := rfl
  unfold signed
  rw [hwhole, hnegative]
  -- The number of units is too great to be computed with.
  generalize unitsPerOne = one
  cases x.negative with
  | false => simp
  | true => simp [Int.neg_tdiv]

theorem floor_whole : x.whole.floor = x.signed.tdiv unitsPerOne := by
  have hne : (unitsPerOne : Int) ≠ 0 := by exact_mod_cast unitsPerOne_pos.ne'
  rw [floor, signed_whole]
  exact Int.mul_fdiv_cancel _ hne

/-- A sum that is a number needs no rounding; its sign may be any on a zero. -/
theorem rounded?_of_fits {sum : Int} (h : Fits sum.natAbs) (onZero : Bool) :
    ∃ r, rounded? (if sum = 0 then onZero else sum < 0) sum.natAbs 1 = some r ∧ r.signed = sum := by
  have hself : roundUnits sum.natAbs 1 = sum.natAbs := roundUnits_eq_self h.2
  have hlt : roundUnits sum.natAbs 1 < limit := by
    rw [hself]
    exact h.1
  refine ⟨⟨_, _, fits_roundUnits hlt⟩, dif_pos hlt, ?_⟩
  simp only [signed, hself]
  by_cases hzero : sum = 0
  · simp [hzero]
  · by_cases hneg : sum < 0
    · simp only [hzero, hneg, decide_true, ↓reduceIte]
      omega
    · simp only [hzero, hneg, decide_false, Bool.false_eq_true, ↓reduceIte]
      omega

/-- Taking the whole part off a number is exact. -/
theorem sub_whole : ∃ r, x.sub? x.whole = some r ∧ r.signed = x.signed.tmod unitsPerOne := by
  have hsum : x.signed + x.whole.neg.signed = x.signed.tmod unitsPerOne := by
    rw [signed_neg, signed_whole, Int.tmod_def]
    ring
  have hunits : (x.signed.tmod unitsPerOne).natAbs = x.units % unitsPerOne := by
    rw [Int.natAbs_tmod, natAbs_signed, Int.natAbs_natCast]
  have hfits : Fits (x.signed + x.whole.neg.signed).natAbs := by
    rw [hsum, hunits]
    exact fits_rest x.fits
  obtain ⟨r, hr, hsigned⟩ := rounded?_of_fits hfits (x.negative && x.whole.neg.negative)
  exact ⟨r, hr, hsigned.trans hsum⟩

/-- An integer of 64 bits is compared with a real exactly. -/
theorem cmpInt_eq {n : Int} (hlo : Int64.minValue.toInt ≤ n) (hhi : n ≤ Int64.maxValue.toInt) :
    cmpInt n x = compare (n * unitsPerOne) x.signed := by
  obtain ⟨r, hr, hrest⟩ := x.sub_whole
  have hpos : (0 : Int) < unitsPerOne := by exact_mod_cast unitsPerOne_pos
  have hsplit := Int.tdiv_mul_add_tmod x.signed unitsPerOne
  have hlt := Int.tmod_lt_of_pos x.signed hpos
  have hgt := Int.lt_tmod_of_pos x.signed hpos
  simp only [cmpInt, x.floor_whole, hr, Option.map_some, Option.getD_some]
  rw [← hrest] at hsplit hlt hgt
  generalize x.signed.tdiv unitsPerOne = whole at hsplit ⊢
  rw [← hsplit]
  -- Less than a one is left of the number, so the whole part decides unless it is the integer.
  rcases lt_trichotomy n whole with hn | rfl | hn
  · have hlow : n * unitsPerOne < whole * unitsPerOne + r.signed := by nlinarith
    rw [compare_lt_iff_lt.mpr hlow, compare_lt_iff_lt.mpr hn]
    split
    · rfl
    · rw [if_neg (by omega)]
      rfl
  · have hzero : zero.cmp r = compare (n * unitsPerOne) (n * unitsPerOne + r.signed) := by
      have hmono : StrictMono (n * (unitsPerOne : Int) + ·) := fun _ _ h => Int.add_lt_add_left h _
      have hcmp := compare_map hmono 0 r.signed
      rw [Int.add_zero] at hcmp
      exact hcmp.symm
    rw [if_neg (by omega), if_neg (by omega), compare_eq_iff_eq.mpr rfl]
    exact hzero
  · have hhigh : whole * unitsPerOne + r.signed < n * unitsPerOne := by nlinarith
    rw [compare_gt_iff_gt.mpr hhigh, compare_gt_iff_gt.mpr hn, if_neg (by omega)]
    split
    · rfl
    · rfl

/-! ### The rational number denoted -/

/-- The rational number that a number denotes. -/
def toRat : ℚ := x.signed / unitsPerOne

theorem units_lt {m n : Int} (h : m < n) : (m : ℚ) / unitsPerOne < n / unitsPerOne := by
  have hpos : (0 : ℚ) < unitsPerOne := by exact_mod_cast unitsPerOne_pos
  exact div_lt_div_of_pos_right (Int.cast_lt.mpr h) hpos

theorem cmp_eq_compare_toRat (y : Finite) : x.cmp y = compare x.toRat y.toRat :=
  (compare_map (fun _ _ => units_lt) x.signed y.signed).symm

theorem cmpInt_eq_compare_toRat {n : Int} (hlo : Int64.minValue.toInt ≤ n)
    (hhi : n ≤ Int64.maxValue.toInt) :
    cmpInt n x = compare (n : ℚ) x.toRat := by
  have hne : (unitsPerOne : ℚ) ≠ 0 := by exact_mod_cast unitsPerOne_pos.ne'
  rw [x.cmpInt_eq hlo hhi, ← compare_map fun _ _ => units_lt]
  push_cast
  rw [mul_div_cancel_right₀ _ hne]
  rfl

end Finite

end Binary64

namespace Value

/-! ### What numbers denote -/

/-- The number that a value denotes, if it is one; the unlimited number is above all others. -/
def number? : Value → Option (WithTop ℚ)
  | integer n => some (n.toInt : ℚ)
  | unlimited => some ⊤
  | real x => some x.toRat
  | _ => none

theorem compare_coe (x y : ℚ) : compare (x : WithTop ℚ) y = compare x y :=
  compare_map WithTop.coe_strictMono x y

/-- The order of two numbers is the order of what they denote. -/
theorem cmp_eq_compare_number {a b : Value} {x y : WithTop ℚ} (ha : a.number? = some x)
    (hb : b.number? = some y) : cmp a b = compare x y := by
  cases a <;> cases b <;> cases ha <;> cases hb
  case integer.integer m n =>
    rw [compare_coe]
    exact (compare_map Int.cast_strictMono m.toInt n.toInt).symm
  case integer.unlimited n => exact (compare_lt_iff_lt.mpr (WithTop.coe_lt_top _)).symm
  case integer.real n x =>
    rw [compare_coe]
    exact x.cmpInt_eq_compare_toRat n.minValue_le_toInt n.toInt_le
  case unlimited.integer n => exact (compare_gt_iff_gt.mpr (WithTop.coe_lt_top _)).symm
  case unlimited.unlimited => exact (compare_eq_iff_eq.mpr rfl).symm
  case unlimited.real x => exact (compare_gt_iff_gt.mpr (WithTop.coe_lt_top _)).symm
  case real.integer x n =>
    rw [compare_coe, Std.OrientedOrd.eq_swap,
      ← x.cmpInt_eq_compare_toRat n.minValue_le_toInt n.toInt_le]
    rfl
  case real.unlimited x => exact (compare_lt_iff_lt.mpr (WithTop.coe_lt_top _)).symm
  case real.real x y =>
    rw [compare_coe]
    exact x.cmp_eq_compare_toRat y

end Value

end ObjectConstraint
