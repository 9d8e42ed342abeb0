/-!
# Binary64 numbers

A finite binary64 number is a whole number of units of 2⁻¹⁰⁷⁴, the least positive one, with a
sign (also on zero). Every operation takes the exact result and rounds it once: to the nearest
number, a tie to the one with the even last digit.

* `gap`, `Fits` — the distance between neighbours at a magnitude, and which magnitudes are numbers.
* `fits_roundUnits` — a rounded magnitude within range is the magnitude of a number.
* `Finite.ofInt64` — every 64-bit integer has a nearest number: the range cannot be left.
* `Finite.whole` — the whole part of a number is a number; what is left of it is one too.
-/

namespace ObjectConstraint

namespace Binary64

-- Powers are those of the core library, also where one with powers in monoids is imported.
scoped instance (priority := high) natPow : Pow Nat Nat := instPowNat

/-- The number of binary places of a unit. -/
abbrev places : Nat := 1074

/-- The number of units in 1. -/
def unitsPerOne : Nat := 2 ^ places

/-- The least magnitude, in units, that is out of range: 2¹⁰²⁴. -/
def limit : Nat := 2 ^ (places + 1024)

/-- The distance between neighbouring numbers at a magnitude of `n` units: numbers have 53 binary
digits. -/
def gap (n : Nat) : Nat := 2 ^ (n.log2 - 52)

/-- Whether a magnitude of `n` units is a number. -/
def Fits (n : Nat) : Prop := n < limit ∧ gap n ∣ n

instance (n : Nat) : Decidable (Fits n) :=
  inferInstanceAs (Decidable (_ ∧ _))

/-- The whole number nearest to `num / den`, a tie going to the even one. -/
def nearest (num den : Nat) : Nat :=
  let quotient := num / den
  let rest := num % den
  if 2 * rest < den then quotient
  else if den < 2 * rest then quotient + 1
  else if quotient % 2 = 0 then quotient
  else quotient + 1

/-- The magnitude of `num / den` units rounded to the nearest number, were there no limit. -/
def roundUnits (num den : Nat) : Nat :=
  nearest num (den * gap (num / den)) * gap (num / den)

/-! ### Rounding stays among the numbers -/

theorem gap_pos (n : Nat) : 0 < gap n := Nat.two_pow_pos _

theorem nearest_le (num den : Nat) : nearest num den ≤ num / den + 1 := by
  unfold nearest
  grind

theorem lt_gap_mul (n : Nat) : n < 2 ^ (53 : Nat) * gap n := by
  rw [gap, ← Nat.pow_add]
  exact Nat.lt_of_lt_of_le Nat.lt_log2_self (Nat.pow_le_pow_right (by decide) (by omega))

theorem gap_le {n : Nat} (h : n ≠ 0) : gap n ≤ n :=
  Nat.le_trans (Nat.pow_le_pow_right (by decide) (Nat.sub_le _ _)) (Nat.log2_self_le h)

/-- Whole multiples of a power of two with at most 53 binary digits are spaced as numbers are. -/
theorem gap_dvd_of_le {k j : Nat} (h : k ≤ 2 ^ (53 : Nat)) : gap (k * 2 ^ j) ∣ k * 2 ^ j := by
  rcases Nat.eq_zero_or_pos k with rfl | hk
  · simp
  have hne : k * 2 ^ j ≠ 0 := Nat.mul_ne_zero (by omega) (Nat.pos_iff_ne_zero.mp (Nat.two_pow_pos j))
  rcases Nat.lt_or_eq_of_le h with hlt | rfl
  · refine Nat.dvd_trans (Nat.pow_dvd_pow 2 ?_) (Nat.dvd_mul_left (2 ^ j) k)
    have hlog : (k * 2 ^ j).log2 < 53 + j := by
      rw [Nat.log2_lt hne, Nat.pow_add]
      exact Nat.mul_lt_mul_of_pos_right hlt (Nat.two_pow_pos j)
    omega
  · rw [gap, ← Nat.pow_add, Nat.log2_two_pow]
    exact Nat.pow_dvd_pow 2 (by omega)

theorem nearest_roundUnits_le (num den : Nat) :
    nearest num (den * gap (num / den)) ≤ 2 ^ (53 : Nat) := by
  refine Nat.le_trans (nearest_le _ _) (Nat.succ_le_of_lt ?_)
  rw [← Nat.div_div_eq_div_mul]
  exact Nat.div_lt_of_lt_mul (Nat.mul_comm _ _ ▸ lt_gap_mul _)

/-- A rounded magnitude below the limit is the magnitude of a number. -/
theorem fits_roundUnits {num den : Nat} (h : roundUnits num den < limit) :
    Fits (roundUnits num den) :=
  ⟨h, gap_dvd_of_le (nearest_roundUnits_le num den)⟩

theorem roundUnits_le (num den : Nat) : roundUnits num den ≤ 2 * (num / den) + 1 := by
  have hg := gap_pos (num / den)
  have hn := Nat.mul_le_mul_right (gap (num / den))
    (nearest_le num (den * gap (num / den)))
  rw [← Nat.div_div_eq_div_mul, Nat.add_mul, Nat.one_mul] at hn
  have hq := Nat.div_mul_le_self (num / den) (gap (num / den))
  refine Nat.le_trans hn ?_
  rcases Nat.eq_zero_or_pos (num / den) with h0 | hpos
  · have hgap : gap 0 = 1 := rfl
    simp [h0, hgap]
  · have := gap_le (Nat.pos_iff_ne_zero.mp hpos)
    omega

theorem fits_zero : Fits 0 := ⟨Nat.pow_pos (by decide), Nat.dvd_zero _⟩

theorem fits_two_pow {k : Nat} (h : k < places + 1024) : Fits (2 ^ k) :=
  ⟨(Nat.pow_lt_pow_iff_right (by decide)).mpr h,
    by simpa using gap_dvd_of_le (k := 1) (j := k) (by decide)⟩

theorem gap_dvd_gap {n m : Nat} (h : n ≤ m) : gap n ∣ gap m := by
  refine Nat.pow_dvd_pow 2 (Nat.sub_le_sub_right ?_ 52)
  rcases Nat.eq_zero_or_pos n with rfl | hn
  · simp
  · exact (Nat.le_log2 (by omega)).mpr (Nat.le_trans (Nat.log2_self_le (by omega)) h)

/-- What a number leaves when whole multiples of a power of two are taken off is a multiple of its
own gap. -/
theorem gap_dvd_mod {n : Nat} (h : gap n ∣ n) (k : Nat) : gap n ∣ n % 2 ^ k := by
  rcases Nat.le_total (n.log2 - 52) k with hle | hle
  · exact (Nat.dvd_mod_iff (Nat.pow_dvd_pow 2 hle)).mpr h
  · rw [Nat.mod_eq_zero_of_dvd (Nat.dvd_trans (Nat.pow_dvd_pow 2 hle) h)]
    exact Nat.dvd_zero _

theorem fits_sub_mod {n : Nat} (h : Fits n) (k : Nat) : Fits (n - n % 2 ^ k) :=
  ⟨Nat.lt_of_le_of_lt (Nat.sub_le _ _) h.1,
    Nat.dvd_trans (gap_dvd_gap (Nat.sub_le _ _)) (Nat.dvd_sub h.2 (gap_dvd_mod h.2 k))⟩

theorem two_mul_mul_two_pow_lt (k : Nat) {n : Nat} (h : n ≤ 2 ^ (63 : Nat)) :
    2 * (n * 2 ^ k) + 1 < 2 ^ (k + 1024) := by
  have hle : n * 2 ^ k ≤ 2 ^ (63 : Nat) * 2 ^ k := Nat.mul_le_mul_right _ h
  have hlt : 2 ^ (k + 65) ≤ 2 ^ (k + 1024) := Nat.pow_le_pow_right (by decide) (by omega)
  rw [Nat.pow_add] at hlt
  have := Nat.two_pow_pos k
  omega

/-! ### Finite numbers -/

/-- A finite number: `units` units, with a sign. -/
structure Finite where
  negative : Bool
  units : Nat
  fits : Fits units
  deriving DecidableEq

namespace Finite

/-- The number of units with its sign. -/
def signed (x : Finite) : Int :=
  if x.negative then -(x.units : Int) else x.units

/-- The number nearest to `num / den` units with the given sign, if it is in range. -/
def rounded? (negative : Bool) (num den : Nat) : Option Finite :=
  if h : roundUnits num den < limit then
    some ⟨negative, roundUnits num den, fits_roundUnits h⟩
  else none

def zero : Finite := ⟨false, 0, fits_zero⟩

def half : Finite := ⟨false, 2 ^ (places - 1), fits_two_pow (by decide)⟩

def isZero (x : Finite) : Bool := x.units = 0

def neg (x : Finite) : Finite := { x with negative := !x.negative }

def abs (x : Finite) : Finite := { x with negative := false }

/-- The sum, if it is in range. A zero sum is negative only when both summands are. -/
def add? (x y : Finite) : Option Finite :=
  let sum := x.signed + y.signed
  rounded? (if sum = 0 then x.negative && y.negative else sum < 0) sum.natAbs 1

/-- The difference, if it is in range. -/
def sub? (x y : Finite) : Option Finite := x.add? y.neg

/-- The product, if it is in range. -/
def mul? (x y : Finite) : Option Finite :=
  rounded? (x.negative != y.negative) (x.units * y.units) unitsPerOne

/-- The quotient, if the divisor is not zero and the quotient is in range. -/
def div? (x y : Finite) : Option Finite :=
  if y.isZero then none
  else rounded? (x.negative != y.negative) (x.units * unitsPerOne) y.units

/-- The greatest whole number that is not above `x`. -/
def floor (x : Finite) : Int := x.signed.fdiv unitsPerOne

/-- The order of the numbers denoted; both zeros denote zero. -/
def cmp (x y : Finite) : Ordering := compare x.signed y.signed

/-- The whole part, toward zero. -/
def whole (x : Finite) : Finite :=
  ⟨x.negative, x.units - x.units % unitsPerOne, fits_sub_mod x.fits places⟩

/-- The order of a 64-bit integer and a number: by the whole part of the number, and then by what
that leaves of it. The integer itself stays as it is: as a number it could be rounded. -/
def cmpInt (n : Int) (x : Finite) : Ordering :=
  let whole := x.whole
  if Int64.maxValue.toInt < whole.floor then .lt
  else if whole.floor < Int64.minValue.toInt then .gt
  else (compare n whole.floor).then (((x.sub? whole).map zero.cmp).getD .eq)

theorem roundUnits_natAbs_lt {n : Int} (h : n.natAbs ≤ 2 ^ (63 : Nat)) :
    roundUnits (n.natAbs * unitsPerOne) 1 < limit := by
  refine Nat.lt_of_le_of_lt (roundUnits_le _ _) ?_
  rw [Nat.div_one]
  exact two_mul_mul_two_pow_lt places h

/-- The number nearest to a 64-bit integer. -/
def ofInt64 (n : Int64) : Finite :=
  ⟨n.toInt < 0, roundUnits (n.toInt.natAbs * unitsPerOne) 1,
    fits_roundUnits (roundUnits_natAbs_lt (by
      have := n.le_toInt
      have := n.toInt_lt
      omega))⟩

end Finite

end Binary64

/-- A binary64 number: finite, infinite or not a number. -/
inductive Binary64 where
  | finite (x : Binary64.Finite)
  | infinite (negative : Bool)
  | nan
  deriving DecidableEq

namespace Binary64

/-- The finite number, if it is one. -/
def finite? : Binary64 → Option Finite
  | finite x => some x
  | infinite _ | nan => none

/-- Whether two numbers are equal as numbers: the zeros are, and nothing equals `nan`. -/
def equals : Binary64 → Binary64 → Bool
  | finite x, finite y => x.cmp y == .eq
  | infinite s, infinite t => s == t
  | _, _ => false

end Binary64

end ObjectConstraint
