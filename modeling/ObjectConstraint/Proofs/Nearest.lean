import ObjectConstraint.Proofs.Numbers

/-!
# The nearest number

What rounding to the nearest number gives, apart from its being a number.

* `nearest_eq`, `nearest_tie` — the nearest whole number off a tie and on one.
* `roundUnits_le_of_le`, `le_roundUnits_of_dvd` — a number that bounds a magnitude bounds its
  rounding.
* `roundUnits_scale` — the rounding depends on the fraction alone.
* `Finite.add?_eq` — a sum that stays in range is the exact sum rounded.
* `Finite.signed_ofInt64` — an integer as a real is the integer rounded.
-/

namespace ObjectConstraint.Binary64

/-! ### The nearest whole number -/

variable {num den b c k r : Nat}

theorem nearest_le_of_le (hden : 0 < den) (h : num ≤ c * den) : nearest num den ≤ c := by
  have hsplit := Nat.div_add_mod' num den
  have hmod := Nat.mod_lt num hden
  rcases Nat.lt_or_ge (num / den) c with hlt | hge
  · exact Nat.le_trans (nearest_le num den) hlt
  · -- Nothing is left over the quotient, which is `c` itself.
    have hle := Nat.mul_le_mul_right den hge
    have heq : num / den = c :=
      Nat.le_antisymm (Nat.div_le_of_le_mul (Nat.mul_comm c den ▸ h)) hge
    have hrest : num % den = 0 := by omega
    simp [nearest, hrest, hden, heq]

theorem le_nearest_of_le (hden : 0 < den) (h : c * den ≤ num) : c ≤ nearest num den := by
  have hle : c ≤ num / den := (Nat.le_div_iff_mul_le hden).mpr h
  unfold nearest
  grind

/-- A whole number less than a half away is the nearest one. -/
theorem nearest_eq (hlo : 2 * (c * den) < 2 * num + den) (hhi : 2 * num < 2 * (c * den) + den) :
    nearest num den = c := by
  have hden : 0 < den := by omega
  have hsplit := Nat.div_add_mod' num den
  have hmod := Nat.mod_lt num hden
  rcases Nat.lt_or_ge num (c * den) with hlt | hge
  · obtain ⟨q, rfl⟩ : ∃ q, c = q + 1 :=
      Nat.exists_eq_succ_of_ne_zero (by rintro rfl; omega)
    have hsucc := Nat.add_one_mul q den
    have hquotient : num / den = q := Nat.div_eq_of_lt_le (by omega) hlt
    rw [hquotient] at hsplit
    unfold nearest
    grind
  · have hsucc := Nat.add_one_mul c den
    have hquotient : num / den = c := Nat.div_eq_of_lt_le hge (by omega)
    rw [hquotient] at hsplit
    unfold nearest
    grind

/-- Half way between two whole numbers the even one is taken. -/
theorem nearest_tie (hr : 0 < r) :
    nearest (k * (2 * r) + r) (2 * r) = if k % 2 = 0 then k else k + 1 := by
  have hsucc := Nat.add_one_mul k (2 * r)
  have hquotient : (k * (2 * r) + r) / (2 * r) = k := Nat.div_eq_of_lt_le (by omega) (by omega)
  have hrest : (k * (2 * r) + r) % (2 * r) = r := by
    rw [Nat.mul_add_mod', Nat.mod_eq_of_lt (by omega)]
  simp [nearest, hquotient, hrest]

theorem nearest_scale (hc : 0 < c) : nearest (num * c) (den * c) = nearest num den := by
  have hlt (m n : Nat) : m * c < n * c ↔ m < n := Nat.mul_lt_mul_right hc
  simp only [nearest, Nat.mul_div_mul_right _ _ hc, Nat.mul_mod_mul_right, ← Nat.mul_assoc, hlt]

theorem two_mul_nearest_le (hden : 0 < den) : 2 * (nearest num den * den) ≤ 2 * num + den := by
  have hsplit := Nat.div_add_mod' num den
  have hsucc := Nat.add_one_mul (num / den) den
  unfold nearest
  grind

/-! ### Rounded magnitudes -/

theorem gap_dvd_two_pow_log2 (n : Nat) : gap n ∣ 2 ^ n.log2 :=
  Nat.pow_dvd_pow 2 (Nat.sub_le _ _)

theorem gap_eq_of_log2_eq {m n : Nat} (h : m.log2 = n.log2) : gap m = gap n := by
  rw [gap, gap, h]

theorem roundUnits_le_of_le (hden : 0 < den) (hb : gap b ∣ b) (h : num ≤ b * den) :
    roundUnits num den ≤ b := by
  have hquotient : num / den ≤ b := Nat.div_le_of_le_mul (Nat.mul_comm b den ▸ h)
  obtain ⟨c, hc⟩ := Nat.dvd_trans (gap_dvd_gap hquotient) hb
  rw [roundUnits, hc, Nat.mul_comm _ c]
  refine Nat.mul_le_mul_right _ (nearest_le_of_le (Nat.mul_pos hden (gap_pos _)) ?_)
  calc num ≤ b * den := h
    _ = c * (den * gap (num / den)) := by rw [hc]; ring

theorem le_roundUnits_of_dvd (hden : 0 < den) (hb : gap (num / den) ∣ b) (h : b * den ≤ num) :
    b ≤ roundUnits num den := by
  obtain ⟨c, hc⟩ := hb
  rw [roundUnits, hc, Nat.mul_comm _ c]
  refine Nat.mul_le_mul_right _ (le_nearest_of_le (Nat.mul_pos hden (gap_pos _)) ?_)
  calc c * (den * gap (num / den)) = b * den := by rw [hc]; ring
    _ ≤ num := h

/-- A magnitude is rounded up by half the gap at most. -/
theorem two_mul_roundUnits_le (n : Nat) : 2 * roundUnits n 1 ≤ 2 * n + gap n := by
  rw [roundUnits, Nat.div_one, Nat.one_mul]
  exact two_mul_nearest_le (gap_pos n)

/-- The rounding depends on the fraction alone. -/
theorem roundUnits_scale (hc : 0 < c) : roundUnits (num * c) (den * c) = roundUnits num den := by
  rw [roundUnits, roundUnits, Nat.mul_div_mul_right _ _ hc, Nat.mul_right_comm, nearest_scale hc]

theorem roundUnits_zero (den : Nat) : roundUnits 0 den = 0 := by
  simp [roundUnits, nearest]

/-! ### Sums -/

/-- A number of units rounded; the sign stays as it is. -/
def roundSigned (sum : Int) : Int :=
  if sum < 0 then -(roundUnits sum.natAbs 1 : Int) else roundUnits sum.natAbs 1

theorem roundSigned_neg (sum : Int) : roundSigned (-sum) = -roundSigned sum := by
  unfold roundSigned
  rcases Int.lt_trichotomy sum 0 with h | rfl | h
  · rw [if_neg (by omega), if_pos h, Int.natAbs_neg, Int.neg_neg]
  · simp [roundUnits_zero]
  · rw [if_pos (by omega), if_neg (by omega), Int.natAbs_neg]

theorem roundSigned_natCast (n : Nat) : roundSigned n = roundUnits n 1 := by
  rw [roundSigned, if_neg (by omega), Int.natAbs_natCast]

theorem roundSigned_eq_self {sum : Int} (h : gap sum.natAbs ∣ sum.natAbs) :
    roundSigned sum = sum := by
  rw [roundSigned, roundUnits_eq_self h]
  split <;> omega

namespace Finite

theorem rounded?_eq (negative : Bool) (h : roundUnits num den < limit) :
    rounded? negative num den = some ⟨negative, roundUnits num den, fits_roundUnits h⟩ :=
  dif_pos h

theorem signed_of_sign {x : Finite} {sum : Int} (hunits : x.units = roundUnits sum.natAbs 1)
    (hsign : sum ≠ 0 → x.negative = decide (sum < 0)) : x.signed = roundSigned sum := by
  unfold signed roundSigned
  rw [hunits]
  by_cases hzero : sum = 0
  · simp [hzero, roundUnits_zero]
  · simp [hsign hzero]

/-- A sum that stays in range is the exact sum rounded. -/
theorem add?_eq (x y : Finite) (h : roundUnits (x.signed + y.signed).natAbs 1 < limit) :
    ∃ z, x.add? y = some z ∧ z.signed = roundSigned (x.signed + y.signed) := by
  refine ⟨_, rounded?_eq _ h, signed_of_sign rfl fun hne => ?_⟩
  rw [if_neg hne]

/-! ### Integers -/

theorem signed_ofInt64 (n : Int64) : (ofInt64 n).signed = roundSigned (n.toInt * unitsPerOne) := by
  have hpos : (0 : Int) < unitsPerOne := by exact_mod_cast unitsPerOne_pos
  refine signed_of_sign ?_ fun _ => ?_
  · rw [Int.natAbs_mul, Int.natAbs_natCast, ofInt64]
  · have hsign := Int.mul_lt_mul_right (b := n.toInt) (c := 0) hpos
    rw [Int.zero_mul] at hsign
    rw [ofInt64, decide_eq_decide]
    exact hsign.symm

/-- An integer of at most 53 binary digits is a real. -/
theorem toRat_ofInt64 {n : Int64} (h : n.toInt.natAbs ≤ 2 ^ (53 : Nat)) :
    (ofInt64 n).toRat = n.toInt := by
  have hgap : gap (n.toInt * unitsPerOne).natAbs ∣ (n.toInt * unitsPerOne).natAbs := by
    rw [Int.natAbs_mul, Int.natAbs_natCast, unitsPerOne]
    exact gap_dvd_of_le h
  have hne : (unitsPerOne : ℚ) ≠ 0 := by exact_mod_cast unitsPerOne_pos.ne'
  rw [toRat, signed_ofInt64, roundSigned_eq_self hgap, Int.cast_mul, Int.cast_natCast,
    mul_div_cancel_right₀ _ hne]

end Finite

end ObjectConstraint.Binary64
