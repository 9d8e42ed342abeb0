import Mathlib.Data.Rat.Floor
import ObjectConstraint.Operation.Apply
import ObjectConstraint.Proofs.Nearest

/-!
# Rounding to integers

The floor of a real is exact. A real is rounded to an integer by the floor of its sum with a half,
and that sum is rounded to a real first. The rounding can carry the sum up to the next integer. This
happens to the greatest real below one half, and to the odd integers at which neighbouring reals are
one apart: the half that is added to one of these makes a tie, and the tie goes to the next even
integer. All other reals go to the nearest integer.

* `Binary64.roundUnits_add_half_div_one`, `Binary64.roundUnits_tie`, `Binary64.roundUnits_add`,
  `Binary64.roundUnits_sub` — the sum with a half, by the distance between neighbouring reals.
* `Binary64.Carried` — the sums that are carried to the next integer.
* `Binary64.Finite.Misrounded` — the reals that they come from.
* `IsNearest` — the integer nearest to a rational number, halves going up.
* `Operation.round_isNearest_iff` — the floor and the rounding of a real.
-/

namespace ObjectConstraint

namespace Binary64

/-! ### One, a half and the gaps -/

/-- The number of units in a half. -/
def unitsPerHalf : Nat := 2 ^ (places - 1)

theorem unitsPerHalf_pos : 0 < unitsPerHalf := Nat.two_pow_pos _

theorem unitsPerOne_eq : unitsPerOne = 2 * unitsPerHalf := by
  have hpositive : 0 < places := by decide
  rw [unitsPerOne, unitsPerHalf, Nat.mul_comm, Nat.two_pow_pred_mul_two hpositive]

/-- The number of units between a half and the greatest number below it. -/
def unitsPerTick : Nat := 2 ^ (places - 54)

theorem unitsPerTick_pos : 0 < unitsPerTick := Nat.two_pow_pos _

theorem unitsPerHalf_eq : unitsPerHalf = 2 ^ (53 : Nat) * unitsPerTick := by
  have hplaces : places - 1 = 53 + (places - 54) := by decide
  rw [unitsPerHalf, hplaces, Nat.pow_add, unitsPerTick]

variable {u k : Nat}

theorem two_pow_mul_unitsPerOne (n : Nat) : 2 ^ n * unitsPerOne = 2 ^ (n + places) :=
  (Nat.pow_add 2 n places).symm

/-- A power of two above a half is an integer. -/
theorem one_dvd_two_pow {n : Nat} (h : unitsPerHalf < 2 ^ n) : unitsPerOne ∣ 2 ^ n := by
  rw [unitsPerHalf] at h
  have hlast := (Nat.pow_lt_pow_iff_right (by decide)).mp h
  rw [unitsPerOne]
  exact Nat.pow_dvd_pow 2 (by omega)

/-- Below 2⁵² the halves are numbers. -/
theorem gap_dvd_half (h : u < 2 ^ (52 : Nat) * unitsPerOne) : gap u ∣ unitsPerHalf := by
  rw [two_pow_mul_unitsPerOne] at h
  refine Nat.pow_dvd_pow 2 ?_
  rcases Nat.eq_zero_or_pos u with rfl | hpos
  · decide
  · have hlog := (Nat.log2_lt hpos.ne').mpr h
    omega

theorem le_log2 {n : Nat} (h : 2 ^ n * unitsPerOne ≤ u) : n + places ≤ u.log2 := by
  rw [two_pow_mul_unitsPerOne] at h
  exact (Nat.le_log2 (Nat.lt_of_lt_of_le (Nat.two_pow_pos _) h).ne').mpr h

/-- From 2⁵² on the numbers are integers. -/
theorem one_dvd_gap (h : 2 ^ (52 : Nat) * unitsPerOne ≤ u) : unitsPerOne ∣ gap u := by
  have hlog := le_log2 h
  rw [unitsPerOne]
  exact Nat.pow_dvd_pow 2 (by omega)

/-- Up to 2⁵³ they are all integers. -/
theorem gap_eq_one (hlo : 2 ^ (52 : Nat) * unitsPerOne ≤ u)
    (hhi : u < 2 ^ (53 : Nat) * unitsPerOne) : gap u = unitsPerOne := by
  have hlower := le_log2 hlo
  have hupper : u.log2 < 53 + places := by
    rw [two_pow_mul_unitsPerOne] at hlo hhi
    exact (Nat.log2_lt (Nat.lt_of_lt_of_le (Nat.two_pow_pos _) hlo).ne').mpr hhi
  have hlog : u.log2 = 52 + places := by omega
  rw [gap, hlog, Nat.add_sub_cancel_left, unitsPerOne]

/-- From 2⁵³ on they are further apart. -/
theorem one_lt_gap (h : 2 ^ (53 : Nat) * unitsPerOne ≤ u) : unitsPerOne < gap u := by
  have hlog := le_log2 h
  rw [unitsPerOne]
  exact Nat.pow_lt_pow_right (by decide) (by omega)

/-! ### Sums with a half -/

theorem log2_eq_of_le_of_lt {n : Nat} (hlo : 2 ^ n ≤ u) (hhi : u < 2 ^ (n + 1)) : u.log2 = n := by
  have hne : u ≠ 0 := (Nat.lt_of_lt_of_le (Nat.two_pow_pos n) hlo).ne'
  have hlower := (Nat.le_log2 hne).mpr hlo
  have hupper := (Nat.log2_lt hne).mpr hhi
  omega

/-- No number lies between a half and the greatest number below it. -/
theorem eq_half_sub_tick (hfit : gap u ∣ u) (hlo : unitsPerHalf - unitsPerTick ≤ u)
    (hhi : u < unitsPerHalf) : u = unitsPerHalf - unitsPerTick := by
  have htick := unitsPerTick_pos
  have hhalf := unitsPerHalf_eq
  have hgap : gap u = unitsPerTick := by
    have hquarter : unitsPerHalf = 2 ^ (places - 2) * 2 := by
      have hplaces : places - 1 = places - 2 + 1 := by decide
      rw [unitsPerHalf, hplaces, Nat.pow_succ]
    have hlog : u.log2 = places - 2 := log2_eq_of_le_of_lt (by omega) (by
      rw [Nat.pow_succ, ← hquarter]
      exact hhi)
    have hplaces : places - 2 - 52 = places - 54 := by decide
    rw [gap, hlog, hplaces, unitsPerTick]
  rw [hgap] at hfit
  obtain ⟨c, hc⟩ := hfit
  rw [Nat.mul_comm] at hc
  have hbelow : c < 2 ^ (53 : Nat) := Nat.lt_of_mul_lt_mul_right (by rwa [hc, hhalf] at hhi)
  have habove : 2 ^ (53 : Nat) ≤ c + 1 := Nat.le_of_mul_le_mul_right (by
    rw [Nat.add_one_mul]
    omega) htick
  have hlast : c = 2 ^ (53 : Nat) - 1 := by omega
  rw [hlast] at hc
  omega

/-- From a half up to one the gap is twice the one before. -/
theorem gap_add_half (hu : u < unitsPerHalf) : gap (u + unitsPerHalf) = 2 * unitsPerTick := by
  have hlog : (u + unitsPerHalf).log2 = places - 1 := by
    refine log2_eq_of_le_of_lt ?_ ?_
    · rw [← unitsPerHalf]
      omega
    · rw [Nat.pow_succ, ← unitsPerHalf]
      omega
  have hplaces : places - 1 - 52 = places - 54 + 1 := by decide
  rw [gap, hlog, hplaces, Nat.pow_succ, Nat.mul_comm, unitsPerTick]

theorem roundUnits_add_half_lt_one (hu : u < unitsPerHalf - unitsPerTick) :
    roundUnits (u + unitsPerHalf) 1 < unitsPerOne := by
  have hle := two_mul_roundUnits_le (u + unitsPerHalf)
  have hone := unitsPerOne_eq
  rw [gap_add_half (by omega)] at hle
  omega

/-- The greatest number below a half makes a tie with one, and one is even. -/
theorem roundUnits_half_sub_tick_add_half :
    roundUnits (unitsPerHalf - unitsPerTick + unitsPerHalf) 1 = unitsPerOne := by
  have htick := unitsPerTick_pos
  have hhalf := unitsPerHalf_eq
  have hone := unitsPerOne_eq
  have hodd : unitsPerHalf - unitsPerTick + unitsPerHalf
      = (2 ^ (53 : Nat) - 1) * (2 * unitsPerTick) + unitsPerTick := by omega
  rw [roundUnits, Nat.div_one, Nat.one_mul, gap_add_half (by omega), hodd, nearest_tie htick,
    if_neg (by decide)]
  omega

/-- What is less than a half above an integer that is a power of two is rounded to the same integer
or to a number above it. -/
theorem roundUnits_div_one_of_log2 {q : Nat} (hne : u ≠ 0) (hq : 2 ^ u.log2 = q * unitsPerOne)
    (hnear : u < q * unitsPerOne + unitsPerHalf) (hgap : gap u ≤ unitsPerOne) :
    roundUnits u 1 / unitsPerOne = u / unitsPerOne := by
  have hone := unitsPerOne_eq
  have hsucc := Nat.add_one_mul q unitsPerOne
  have hpower := Nat.log2_self_le hne
  have hupper := two_mul_roundUnits_le u
  have hlower : 2 ^ u.log2 ≤ roundUnits u 1 :=
    le_roundUnits_of_dvd Nat.one_pos (by rw [Nat.div_one]; exact gap_dvd_two_pow_log2 u)
      (Nat.le_trans (Nat.mul_one _).le hpower)
  rw [hq] at hpower hlower
  rw [Nat.div_eq_of_lt_le hlower (by omega), Nat.div_eq_of_lt_le hpower (by omega)]

/-- From a half up to 2⁵² the sum with a half stays between the integers that it lies between. -/
theorem roundUnits_add_half_div_one (hlo : unitsPerHalf ≤ u)
    (hhi : u < 2 ^ (52 : Nat) * unitsPerOne) (hfit : gap u ∣ u) :
    roundUnits (u + unitsPerHalf) 1 / unitsPerOne = (u + unitsPerHalf) / unitsPerOne := by
  have hone := unitsPerOne_eq
  have hhalf := unitsPerHalf_pos
  by_cases hlog : (u + unitsPerHalf).log2 = u.log2
  · have hgap : gap (u + unitsPerHalf) ∣ u + unitsPerHalf := by
      rw [gap_eq_of_log2_eq hlog]
      exact Nat.dvd_add hfit (gap_dvd_half hhi)
    rw [roundUnits_eq_self hgap]
  · -- The gap grows where the sum passes a power of two, and that is an integer.
    have hne : u + unitsPerHalf ≠ 0 := by omega
    have hle : u.log2 ≤ (u + unitsPerHalf).log2 :=
      (Nat.le_log2 hne).mpr (Nat.le_trans (Nat.log2_self_le (by omega)) (Nat.le_add_right _ _))
    have hbelow : u < 2 ^ (u + unitsPerHalf).log2 := (Nat.log2_lt (by omega)).mp (by omega)
    have hlast : (u + unitsPerHalf).log2 < 53 + places := by
      rw [Nat.log2_lt hne, ← two_pow_mul_unitsPerOne]
      omega
    have hgap : gap (u + unitsPerHalf) ≤ unitsPerOne :=
      Nat.pow_le_pow_right (by decide) (by omega)
    obtain ⟨q, hq⟩ := one_dvd_two_pow (Nat.lt_of_le_of_lt hlo hbelow)
    rw [Nat.mul_comm] at hq
    exact roundUnits_div_one_of_log2 hne hq (by omega) hgap

/-- Up to 2⁵² the difference with a half is exact. -/
theorem gap_dvd_sub_half (hhi : u ≤ 2 ^ (52 : Nat) * unitsPerOne) (hlo : unitsPerHalf ≤ u)
    (hfit : gap u ∣ u) : gap (u - unitsPerHalf) ∣ u - unitsPerHalf := by
  have hhalf := unitsPerHalf_pos
  refine Nat.dvd_sub (Nat.dvd_trans (gap_dvd_gap (Nat.sub_le _ _)) hfit) (gap_dvd_half ?_)
  omega

/-- From 2⁵² up to 2⁵³ an integer and a half make a tie. -/
theorem roundUnits_tie (hlo : 2 ^ (52 : Nat) ≤ k) (hhi : k < 2 ^ (53 : Nat)) :
    roundUnits (k * unitsPerOne + unitsPerHalf) 1
      = (if k % 2 = 0 then k else k + 1) * unitsPerOne := by
  have hone := unitsPerOne_eq
  have hhalf := unitsPerHalf_pos
  have hgap : gap (k * unitsPerOne + unitsPerHalf) = unitsPerOne := by
    have hlower := Nat.mul_le_mul_right unitsPerOne hlo
    have hupper := Nat.mul_le_mul_right unitsPerOne hhi
    rw [Nat.succ_mul] at hupper
    exact gap_eq_one (by omega) (by omega)
  rw [roundUnits, Nat.div_one, Nat.one_mul, hgap, hone, nearest_tie hhalf]

/-- A number with less than half its gap added is rounded back. -/
theorem roundUnits_add {d : Nat} (hfit : gap u ∣ u) (hd : 2 * d < gap u) :
    roundUnits (u + d) 1 = u := by
  rcases Nat.eq_zero_or_pos u with rfl | hpos
  · have hgap : gap 0 = 1 := rfl
    have hzero : d = 0 := by omega
    rw [hzero, Nat.add_zero, roundUnits_zero]
  have hlog : (u + d).log2 = u.log2 := by
    refine log2_eq_of_le_of_lt (Nat.le_trans (Nat.log2_self_le hpos.ne') (Nat.le_add_right _ _)) ?_
    obtain ⟨c, hc⟩ : gap u ∣ 2 ^ (u.log2 + 1) :=
      Nat.dvd_trans (gap_dvd_two_pow_log2 u) (Nat.pow_dvd_pow 2 (Nat.le_succ _))
    obtain ⟨b, hb⟩ := hfit
    have hnext : u < 2 ^ (u.log2 + 1) := Nat.lt_log2_self
    rw [hc] at hnext ⊢
    have hbc : b + 1 ≤ c := Nat.lt_of_mul_lt_mul_left (Nat.lt_of_le_of_lt hb.ge hnext)
    have hstep := Nat.mul_le_mul_left (gap u) hbc
    rw [Nat.mul_add_one, ← hb] at hstep
    omega
  have hgap := gap_eq_of_log2_eq hlog
  obtain ⟨c, hc⟩ := hfit
  rw [Nat.mul_comm] at hc
  have hnearest : nearest (u + d) (gap u) = c := nearest_eq (by omega) (by omega)
  rw [roundUnits, Nat.div_one, Nat.one_mul, hgap, hnearest, ← hc]

/-- A number with less than half the gap there taken off is rounded back. -/
theorem roundUnits_sub {d : Nat} (hfit : gap u ∣ u) (hle : d ≤ u) (hd : 2 * d < gap (u - d)) :
    roundUnits (u - d) 1 = u := by
  obtain ⟨c, hc⟩ := Nat.dvd_trans (gap_dvd_gap (Nat.sub_le u d)) hfit
  rw [Nat.mul_comm] at hc
  have hnearest : nearest (u - d) (gap (u - d)) = c := nearest_eq (by omega) (by omega)
  rw [roundUnits, Nat.div_one, Nat.one_mul, hnearest, ← hc]

/-! ### Which sums are carried -/

theorem mul_one_ediv (j : Int) : j * unitsPerOne / (unitsPerOne : Int) = j :=
  Int.mul_ediv_cancel _ (by exact_mod_cast unitsPerOne_pos.ne')

theorem mul_one_add_half_ediv (j : Int) :
    (j * unitsPerOne + unitsPerHalf) / (unitsPerOne : Int) = j := by
  have hone := unitsPerOne_eq
  have hhalf := unitsPerHalf_pos
  rw [Int.add_comm, Int.add_mul_ediv_right _ _ (by omega),
    Int.ediv_eq_zero_of_lt (by omega) (by omega), Int.zero_add]

theorem roundSigned_add_half (u : Nat) :
    roundSigned (u + unitsPerHalf) = roundUnits (u + unitsPerHalf) 1 := by
  rw [← Int.natCast_add, roundSigned_natCast]

theorem roundSigned_neg_add_half (hle : unitsPerHalf ≤ u) :
    roundSigned (-u + unitsPerHalf) = -(roundUnits (u - unitsPerHalf) 1 : Int) := by
  rw [← roundSigned_natCast, ← roundSigned_neg, Int.natCast_sub hle, Int.neg_sub,
    Int.sub_eq_add_neg, Int.add_comm]

/-- Between 2⁵² and 2⁵³ on the negative side the tie goes down from an even integer only. -/
theorem roundSigned_tie_neg (hlo : 2 ^ (52 : Nat) < k) (hhi : k ≤ 2 ^ (53 : Nat)) :
    roundSigned (-k * unitsPerOne + unitsPerHalf)
      = -(if k % 2 = 0 then (k : Int) else k - 1) * unitsPerOne := by
  have hone := unitsPerOne_eq
  have hhalf := unitsPerHalf_pos
  obtain ⟨m, rfl⟩ : ∃ m, k = m + 1 := Nat.exists_eq_succ_of_ne_zero (by omega)
  have hsucc := Nat.add_one_mul m unitsPerOne
  have hrest : (m + 1) * unitsPerOne - unitsPerHalf = m * unitsPerOne + unitsPerHalf := by omega
  have hround := roundSigned_neg_add_half (u := (m + 1) * unitsPerOne) (by omega)
  rw [hrest, roundUnits_tie (by omega) (by omega), Int.natCast_mul, Int.natCast_mul, ← Int.neg_mul,
    ← Int.neg_mul] at hround
  have hparity : ((if m % 2 = 0 then m else m + 1 : Nat) : Int)
      = if (m + 1) % 2 = 0 then ((m + 1 : Nat) : Int) else (m + 1 : Nat) - 1 := by
    split <;> split <;> omega
  rw [hround, hparity]

/-- The numbers of units that the rounding carries to the next integer once a half is added: that of
the greatest number below a half, and those of the odd integers between 2⁵² and 2⁵³ on either side
of zero. -/
def Carried (n : Int) : Prop :=
  n = unitsPerHalf - unitsPerTick ∨
    ∃ j : Int, Odd j ∧ 2 ^ (52 : Nat) < |j| ∧ |j| < 2 ^ (53 : Nat) ∧ n = j * unitsPerOne

theorem roundSigned_ediv_of_carried {n : Int} (h : Carried n) :
    roundSigned (n + unitsPerHalf) / unitsPerOne = (n + unitsPerHalf) / unitsPerOne + 1 := by
  have hone := unitsPerOne_eq
  have hhalf := unitsPerHalf_eq
  have htick := unitsPerTick_pos
  rcases h with h | ⟨j, hodd, hlo, hhi, rfl⟩
  · have hsum := roundSigned_add_half (unitsPerHalf - unitsPerTick)
    rw [roundUnits_half_sub_tick_add_half, Int.natCast_sub (by omega)] at hsum
    rw [h, hsum, Int.ediv_self (by omega), Int.ediv_eq_zero_of_lt (by omega) (by omega)]
    rfl
  · rw [mul_one_add_half_ediv]
    obtain ⟨k, rfl | rfl⟩ := j.eq_nat_or_neg
    · rw [abs_of_nonneg (by omega)] at hlo hhi
      have hsum := roundSigned_add_half (k * unitsPerOne)
      rw [roundUnits_tie (by omega) (by omega), if_neg (by grind), Int.natCast_mul,
        Int.natCast_mul] at hsum
      rw [hsum, mul_one_ediv]
      rfl
    · rw [abs_neg, abs_of_nonneg (by omega)] at hlo hhi
      rw [roundSigned_tie_neg (by omega) (by omega), if_neg (by grind), mul_one_ediv]
      omega

theorem exists_eq_mul_one (hlo : 2 ^ (52 : Nat) * unitsPerOne ≤ u) (hfit : gap u ∣ u) :
    ∃ k, 2 ^ (52 : Nat) ≤ k ∧ u = k * unitsPerOne := by
  obtain ⟨k, hk⟩ := exists_eq_mul_left_of_dvd (Nat.dvd_trans (one_dvd_gap hlo) hfit)
  refine ⟨k, ?_, hk⟩
  by_contra hlt
  have hbelow := Nat.mul_lt_mul_of_pos_right (Nat.lt_of_not_le hlt) unitsPerOne_pos
  omega

theorem even_of_not_carried {j : Int} (hlo : 2 ^ (52 : Nat) ≤ |j|) (hhi : |j| ≤ 2 ^ (53 : Nat))
    (h : ¬ Carried (j * unitsPerOne)) : j % 2 = 0 := by
  by_contra hodd
  refine h (.inr ⟨j, Int.odd_iff.mpr (by omega), ?_, ?_, rfl⟩) <;>
  · rcases abs_cases j with ⟨habs, _⟩ | ⟨habs, _⟩ <;> omega

/-- All other sums stay between the integers that they lie between. Below 2⁵² a half fits in; from
there on the number is an integer, which the half leaves as it is or makes a tie with. -/
theorem roundSigned_add_half_ediv (hfit : gap u ∣ u) (h : ¬ Carried u) :
    roundSigned (u + unitsPerHalf) / unitsPerOne = (u + unitsPerHalf) / (unitsPerOne : Int) := by
  have hone := unitsPerOne_eq
  have hhalf := unitsPerHalf_eq
  rw [roundSigned_add_half]
  rcases Nat.lt_or_ge u (2 ^ (52 : Nat) * unitsPerOne) with hsmall | hlarge
  · have hdiv :
        roundUnits (u + unitsPerHalf) 1 / unitsPerOne = (u + unitsPerHalf) / unitsPerOne := by
      rcases Nat.lt_or_ge u unitsPerHalf with hbelow | habove
      · have htick : u < unitsPerHalf - unitsPerTick := by
          by_contra hge
          have hlast := eq_half_sub_tick hfit (by omega) hbelow
          exact h (.inl (by omega))
        rw [Nat.div_eq_of_lt (roundUnits_add_half_lt_one htick), Nat.div_eq_of_lt (by omega)]
      · exact roundUnits_add_half_div_one habove hsmall hfit
    exact_mod_cast hdiv
  · obtain ⟨k, hk, hu⟩ := exists_eq_mul_one hlarge hfit
    have hround : roundUnits (u + unitsPerHalf) 1 = u := by
      rcases Nat.lt_or_ge k (2 ^ (53 : Nat)) with hlt | hge
      · rw [hu, Int.natCast_mul] at h
        have heven := even_of_not_carried (by rw [Nat.abs_cast]; omega)
          (by rw [Nat.abs_cast]; omega) h
        rw [hu, roundUnits_tie hk hlt, if_pos (by omega)]
      · have hle := Nat.mul_le_mul_right unitsPerOne hge
        rw [← hu] at hle
        have hgap := one_lt_gap hle
        exact roundUnits_add hfit (by omega)
    rw [hround, hu, Int.natCast_mul, mul_one_ediv, mul_one_add_half_ediv]

/-- The same on the negative side, where the sum is nearer to zero than the number. -/
theorem roundSigned_neg_add_half_ediv (hfit : gap u ∣ u) (h : ¬ Carried (-u)) :
    roundSigned (-u + unitsPerHalf) / unitsPerOne = (-u + unitsPerHalf) / (unitsPerOne : Int) := by
  have hone := unitsPerOne_eq
  have hhalf := unitsPerHalf_pos
  rcases Nat.le_total u unitsPerHalf with hbelow | habove
  · have hround : roundUnits (unitsPerHalf - u) 1 ≤ unitsPerHalf :=
      roundUnits_le_of_le Nat.one_pos (gap_dvd_half (by omega)) (by omega)
    have hsum := roundSigned_natCast (unitsPerHalf - u)
    rw [Int.natCast_sub hbelow, Int.sub_eq_add_neg, Int.add_comm] at hsum
    rw [hsum, Int.ediv_eq_zero_of_lt (by omega) (by omega),
      Int.ediv_eq_zero_of_lt (by omega) (by omega)]
  rcases Nat.lt_or_ge (2 ^ (52 : Nat) * unitsPerOne) u with hlarge | hsmall
  case inr =>
    rw [roundSigned_neg_add_half habove, roundUnits_eq_self (gap_dvd_sub_half hsmall habove hfit),
      Int.natCast_sub habove, Int.neg_sub, Int.sub_eq_add_neg, Int.add_comm]
  case inl =>
    obtain ⟨k, hk, hu⟩ := exists_eq_mul_one hlarge.le hfit
    have hcast : -(u : Int) = -k * unitsPerOne := by rw [hu, Int.natCast_mul, Int.neg_mul]
    have hround : roundSigned (-u + unitsPerHalf) = -u := by
      rcases Nat.lt_or_ge (2 ^ (53 : Nat)) k with hgt | hle
      · have hstep := Nat.mul_le_mul_right unitsPerOne hgt
        rw [← hu, Nat.succ_mul] at hstep
        have hgap := one_lt_gap (u := u - unitsPerHalf) (by omega)
        rw [roundSigned_neg_add_half habove, roundUnits_sub hfit habove (by omega)]
      · have hne : k ≠ 2 ^ (52 : Nat) := by
          rintro rfl
          omega
        rw [hcast] at h
        have heven := even_of_not_carried (by rw [abs_neg, Nat.abs_cast]; omega)
          (by rw [abs_neg, Nat.abs_cast]; omega) h
        rw [hcast, roundSigned_tie_neg (by omega) hle, if_pos (by omega)]
    rw [hround, hcast, mul_one_ediv, mul_one_add_half_ediv]

/-! ### The operation -/

theorem roundUnits_add_half_lt_limit (h : Fits u) : roundUnits (u + unitsPerHalf) 1 < limit := by
  have hone := unitsPerOne_eq
  rcases Nat.lt_or_ge u (2 ^ (53 : Nat) * unitsPerOne) with hsmall | hlarge
  · have hpower : Fits (2 ^ (54 + places)) := fits_two_pow (by decide)
    have hle : u + unitsPerHalf ≤ 2 ^ (54 + places) := by
      rw [← two_pow_mul_unitsPerOne]
      omega
    exact Nat.lt_of_le_of_lt
      (roundUnits_le_of_le Nat.one_pos hpower.2 (Nat.le_trans hle (Nat.mul_one _).ge)) hpower.1
  · have hgap := one_lt_gap hlarge
    rw [roundUnits_add h.2 (by omega)]
    exact h.1

theorem roundUnits_sub_half_lt_limit (h : Fits u) :
    roundUnits (-(u : Int) + unitsPerHalf).natAbs 1 < limit := by
  have hhalf : Fits unitsPerHalf := Finite.half.fits
  rcases Nat.le_total u unitsPerHalf with hbelow | habove
  · exact Nat.lt_of_le_of_lt (roundUnits_le_of_le Nat.one_pos hhalf.2 (by omega)) hhalf.1
  · exact Nat.lt_of_le_of_lt (roundUnits_le_of_le Nat.one_pos h.2 (by omega)) h.1

namespace Finite

variable (x : Finite)

theorem signed_half : half.signed = unitsPerHalf := by
  rw [signed, half, unitsPerHalf]
  exact if_neg Bool.false_ne_true

theorem signed_eq_or : x.signed = x.units ∨ x.signed = -(x.units : Int) := by
  cases hsign : x.negative <;> simp [signed, hsign]

/-- The sum with a half is always in range. -/
theorem add?_half :
    ∃ z, x.add? half = some z ∧ z.signed = roundSigned (x.signed + unitsPerHalf) := by
  rw [← signed_half]
  refine x.add?_eq half ?_
  rw [signed_half]
  rcases x.signed_eq_or with hsigned | hsigned
  · rw [hsigned, ← Int.natCast_add, Int.natAbs_natCast]
    exact roundUnits_add_half_lt_limit x.fits
  · rw [hsigned]
    exact roundUnits_sub_half_lt_limit x.fits

theorem roundSigned_ediv (h : ¬ Carried x.signed) :
    roundSigned (x.signed + unitsPerHalf) / unitsPerOne =
      (x.signed + unitsPerHalf) / unitsPerOne := by
  rcases x.signed_eq_or with hsigned | hsigned
  · rw [hsigned] at h ⊢
    exact roundSigned_add_half_ediv x.fits.2 h
  · rw [hsigned] at h ⊢
    exact roundSigned_neg_add_half_ediv x.fits.2 h

theorem floor_eq (x : Finite) : x.floor = x.signed / unitsPerOne :=
  Int.fdiv_eq_ediv_of_nonneg _ (Int.natCast_nonneg _)

theorem floor_toRat : ⌊x.toRat⌋ = x.signed / unitsPerOne :=
  Rat.floor_intCast_div_natCast _ _

theorem floor_toRat_add_half : ⌊x.toRat + 1 / 2⌋ = (x.signed + unitsPerHalf) / unitsPerOne := by
  have hone : (unitsPerOne : ℚ) = 2 * unitsPerHalf := by exact_mod_cast unitsPerOne_eq
  have hne : (unitsPerHalf : ℚ) ≠ 0 := by exact_mod_cast unitsPerHalf_pos.ne'
  have hsplit (n h : ℚ) (hne : h ≠ 0) : n / (2 * h) + 1 / 2 = (n + h) / (2 * h) := by field_simp
  have hsum : x.toRat + 1 / 2 = ((x.signed + unitsPerHalf : Int) : ℚ) / unitsPerOne := by
    rw [toRat, hone, hsplit _ _ hne, Int.cast_add, Int.cast_natCast]
  rw [hsum, Rat.floor_intCast_div_natCast]

/-- The reals that are not rounded to the nearest integer: the greatest one below a half, and the
odd integers between 2⁵² and 2⁵³ on either side of zero. -/
def Misrounded : Prop :=
  x.toRat = 1 / 2 - 1 / 2 ^ 54 ∨
    ∃ j : Int, Odd j ∧ 2 ^ 52 < |j| ∧ |j| < 2 ^ 53 ∧ x.toRat = j

theorem toRat_eq_iff {q : ℚ} : x.toRat = q ↔ (x.signed : ℚ) = q * unitsPerOne :=
  div_eq_iff (by exact_mod_cast unitsPerOne_pos.ne')

theorem misrounded_iff : x.Misrounded ↔ Carried x.signed := by
  have hone : (unitsPerOne : ℚ) = 2 ^ 54 * unitsPerTick := by
    have h := unitsPerOne_eq
    rw [unitsPerHalf_eq] at h
    rw [h]
    push_cast
    ring
  have hhalf : (unitsPerHalf : ℚ) = 2 ^ 53 * unitsPerTick := by
    rw [unitsPerHalf_eq]
    push_cast
    rfl
  have hlast : (1 / 2 - 1 / 2 ^ 54) * (unitsPerOne : ℚ)
      = ((unitsPerHalf - unitsPerTick : Int) : ℚ) := by
    rw [hone, Int.cast_sub, Int.cast_natCast, Int.cast_natCast, hhalf]
    ring
  have hwhole (j : Int) : (j : ℚ) * unitsPerOne = ((j * unitsPerOne : Int) : ℚ) := by push_cast; rfl
  simp only [Misrounded, Carried, toRat_eq_iff, hlast, hwhole, Int.cast_inj]

theorem Misrounded.abs_lt {x : Finite} (h : x.Misrounded) : |x.toRat| < 2 ^ 53 := by
  rcases h with h | ⟨j, -, -, hj, h⟩
  · rw [h]
    norm_num
  · rw [h]
    exact_mod_cast hj

end Finite

end Binary64

/-! ### The nearest integer -/

/-- The integer nearest to a rational number; half way between two of them, the greater one. -/
def IsNearest (r : ℚ) (n : Int) : Prop :=
  ∀ k : Int, |r - n| ≤ |r - k| ∧ (|r - n| = |r - k| → k ≤ n)

theorem isNearest_floor (r : ℚ) : IsNearest r ⌊r + 1 / 2⌋ := by
  have hlo := Int.floor_le (r + 1 / 2)
  have hhi := Int.lt_floor_add_one (r + 1 / 2)
  intro k
  rcases lt_trichotomy k ⌊r + 1 / 2⌋ with hk | rfl | hk
  · have hstep : (k : ℚ) + 1 ≤ ⌊r + 1 / 2⌋ := by exact_mod_cast hk
    refine ⟨?_, fun _ => hk.le⟩
    rw [abs_of_nonneg (by linarith : 0 ≤ r - k), abs_le]
    constructor <;> linarith
  · exact ⟨le_rfl, fun _ => le_rfl⟩
  · have hstep : (⌊r + 1 / 2⌋ : ℚ) + 1 ≤ k := by exact_mod_cast hk
    have hfar : |r - ⌊r + 1 / 2⌋| < |r - k| := by
      rw [abs_of_nonpos (by linarith : r - k ≤ 0), abs_lt]
      constructor <;> linarith
    exact ⟨hfar.le, fun heq => absurd heq hfar.ne⟩

namespace Value

open Binary64

theorem round_real (x : Finite) :
    round (.real x) = ofInt (roundSigned (x.signed + unitsPerHalf) / unitsPerOne) := by
  obtain ⟨z, hz, hsigned⟩ := x.add?_half
  rw [round, hz, ← hsigned, ← z.floor_eq]
  rfl

theorem round_of_not_misrounded {x : Finite} (h : ¬ x.Misrounded) :
    round (.real x) = ofInt ⌊x.toRat + 1 / 2⌋ := by
  rw [round_real, x.roundSigned_ediv (mt x.misrounded_iff.mpr h), x.floor_toRat_add_half]

theorem round_of_misrounded {x : Finite} (h : x.Misrounded) :
    round (.real x) = ofInt (⌊x.toRat + 1 / 2⌋ + 1) := by
  rw [round_real, roundSigned_ediv_of_carried (x.misrounded_iff.mp h), x.floor_toRat_add_half]

theorem ofInt_add_one_ne {n : Int} (hlo : -2 ^ 63 ≤ n + 1) (hhi : n + 1 < 2 ^ 63) :
    ofInt (n + 1) ≠ ofInt n := by
  have hnext : ofInt (n + 1) = integer (.ofInt (n + 1)) :=
    ofInt_eq_integer_iff.mpr (Int64.toInt_ofInt_of_le hlo hhi).symm
  intro heq
  have hsame := (ofInt_eq_integer_iff.mp hnext).trans
    (ofInt_eq_integer_iff.mp (heq.symm.trans hnext)).symm
  omega

theorem round_ne_of_misrounded {x : Finite} (h : x.Misrounded) :
    round (.real x) ≠ ofInt ⌊x.toRat + 1 / 2⌋ := by
  obtain ⟨hlo, hhi⟩ := abs_lt.mp h.abs_lt
  have hleast : (-2 ^ 53 : Int) ≤ ⌊x.toRat + 1 / 2⌋ := Int.le_floor.mpr (by push_cast; linarith)
  have hgreatest : ⌊x.toRat + 1 / 2⌋ < (2 ^ 53 + 1 : Int) :=
    Int.floor_lt.mpr (by push_cast; linarith)
  rw [round_of_misrounded h]
  exact ofInt_add_one_ne (by omega) (by omega)

end Value

namespace Operation

open Binary64 (Finite)

/-- The floor of a real is the greatest integer that is not above it, and a real is rounded to the
nearest integer, halves going up, unless it is one of those that are carried to the next. What is
beyond 64 bits is undefined. -/
theorem round_isNearest_iff (x : Finite) :
    floor.apply (.real x) [] .integer = .ofInt ⌊x.toRat⌋ ∧
      ∃ n, IsNearest x.toRat n ∧
        (round.apply (.real x) [] .integer = .ofInt n ↔ ¬ x.Misrounded) ∧
        (x.Misrounded → round.apply (.real x) [] .integer = .ofInt (n + 1)) := by
  have hfloor : floor.apply (.real x) [] .integer = .ofInt x.floor := rfl
  have hround : round.apply (.real x) [] .integer = Value.round (.real x) := rfl
  rw [hfloor, hround, x.floor_toRat, x.floor_eq]
  exact ⟨rfl, ⌊x.toRat + 1 / 2⌋, isNearest_floor _,
    ⟨fun heq hbad => Value.round_ne_of_misrounded hbad heq, Value.round_of_not_misrounded⟩,
    Value.round_of_misrounded⟩

/-- The least odd integer above 2⁵² is a real, and it is rounded to the next integer. -/
theorem round_odd_integer :
    (Finite.ofInt64 4503599627370497).toRat = 4503599627370497 ∧
      IsNearest 4503599627370497 4503599627370497 ∧
      round.apply (.real (.ofInt64 4503599627370497)) [] .integer = .integer 4503599627370498 := by
  have hrat : (Finite.ofInt64 4503599627370497).toRat = 4503599627370497 :=
    Finite.toRat_ofInt64 (by decide)
  have hfloor : ⌊(4503599627370497 : ℚ) + 1 / 2⌋ = 4503599627370497 :=
    Int.floor_eq_iff.mpr (by norm_num)
  have hodd : (Finite.ofInt64 4503599627370497).Misrounded :=
    .inr ⟨4503599627370497, by decide, by norm_num, by norm_num, hrat⟩
  have hnearest := isNearest_floor 4503599627370497
  have hround := Value.round_of_misrounded hodd
  rw [hfloor] at hnearest
  rw [hrat, hfloor] at hround
  exact ⟨hrat, hnearest, hround.trans (Value.ofInt_eq_integer_iff.mpr rfl)⟩

end Operation

end ObjectConstraint
