import ObjectConstraint.Operation.Apply

/-!
# Quotients and remainders

The integer quotient goes toward zero, and the remainder is what the product of quotient and divisor
leaves of the dividend. Of all quotients of 64-bit integers only that of the least one and `-1` is
beyond 64 bits. The product and the sum that put a dividend together again lie between zero and the
dividend, so neither of them is.

* `Value.NoQuotient` — the operands that have neither a quotient nor a remainder.
* `Value.intDiv_integer`, `Value.mod_integer` — the quotient and the remainder of all others.
* `Value.exists_mul_quotient` — the product of quotient and divisor is what the remainder leaves.
* `Operation.intDiv_mod` — dividing, and putting the dividend together again.
-/

namespace ObjectConstraint

namespace Value

/-- Integers stay integers where the type of the result is `Integer`. -/
theorem promote_integer (v : Value) : v.promote .integer = v := by
  cases v <;> rfl

/-- The divisor is zero, or the quotient is one more than the greatest integer. -/
def NoQuotient (a b : Int64) : Prop := b = 0 ∨ a = Int64.minValue ∧ b = -1

instance (a b : Int64) : Decidable (NoQuotient a b) :=
  inferInstanceAs (Decidable (b = 0 ∨ a = Int64.minValue ∧ b = -1))

variable {a b : Int64}

theorem intDiv_of_noQuotient (h : NoQuotient a b) :
    intDiv (integer a) (integer b) = undefined := by
  rcases h with rfl | ⟨rfl, rfl⟩
  · rfl
  · rfl

theorem mod_of_noQuotient (h : NoQuotient a b) : mod (integer a) (integer b) = undefined := by
  rw [mod, intDiv_of_noQuotient h]
  rfl

theorem toInt_quotient (h : ¬ NoQuotient a b) : (a / b).toInt = a.toInt.tdiv b.toInt := by
  by_cases ha : a = Int64.minValue
  · exact Int64.toInt_div_of_ne_right a b fun hb => h (.inr ⟨ha, hb⟩)
  · exact Int64.toInt_div_of_ne_left a b ha

theorem intDiv_integer (h : ¬ NoQuotient a b) :
    intDiv (integer a) (integer b) = integer (a / b) := by
  have hb : b ≠ 0 := fun hb => h (.inl hb)
  rw [intDiv, if_neg hb, ← toInt_quotient h, ofInt_toInt]

theorem mod_integer (h : ¬ NoQuotient a b) : mod (integer a) (integer b) = integer (a % b) := by
  rw [mod, intDiv_integer h, if_neg (by simp [isUndefined]), ← Int64.toInt_mod, ofInt_toInt]

/-- The remainder lies between zero and the dividend. -/
theorem remainder_between (a b : Int) :
    0 ≤ a.tmod b ∧ a.tmod b ≤ a ∨ a ≤ a.tmod b ∧ a.tmod b ≤ 0 := by
  have hle : (a.tmod b).natAbs ≤ a.natAbs := by
    rw [Int.natAbs_tmod]
    exact Nat.mod_le _ _
  rcases Int.le_total 0 a with ha | ha
  · have hnonneg := Int.tmod_nonneg b ha
    omega
  · have hnonneg := Int.tmod_nonneg b (Int.neg_nonneg_of_nonpos ha)
    rw [Int.neg_tmod] at hnonneg
    omega

/-- The product of quotient and divisor is what the remainder leaves of the dividend. It lies
between zero and the dividend too, so it is an integer. -/
theorem exists_mul_quotient (h : ¬ NoQuotient a b) :
    ∃ p : Int64, mul (integer (a / b)) (integer b) = integer p ∧
      p.toInt + (a % b).toInt = a.toInt := by
  have hsum : (a / b).toInt * b.toInt + (a % b).toInt = a.toInt := by
    rw [toInt_quotient h, Int64.toInt_mod, Int.tdiv_mul_add_tmod]
  have hrange : -2 ^ 63 ≤ (a / b).toInt * b.toInt ∧ (a / b).toInt * b.toInt < 2 ^ 63 := by
    have hbetween := remainder_between a.toInt b.toInt
    rw [← Int64.toInt_mod] at hbetween
    have hlo := a.le_toInt
    have hhi := a.toInt_lt
    omega
  have hp := Int64.toInt_ofInt_of_le hrange.1 hrange.2
  exact ⟨.ofInt _, ofInt_eq_integer_iff.mpr hp.symm, by rw [hp, hsum]⟩

/-- The remainder is smaller than the divisor, and it is zero or has the sign of the dividend. -/
theorem remainder_bounds (hb : b ≠ 0) :
    (a % b).toInt.natAbs < b.toInt.natAbs ∧
      (a % b = 0 ∨ (a % b).toInt.sign = a.toInt.sign) := by
  have hpos : 0 < b.toInt.natAbs := Int.natAbs_pos.mpr fun h => hb (Int64.toInt_inj.mp h)
  constructor
  · rw [Int64.toInt_mod, Int.natAbs_tmod]
    exact Nat.mod_lt _ hpos
  · by_cases hdvd : b.toInt ∣ a.toInt
    · left
      rw [← Int64.toInt_inj, Int64.toInt_mod, Int.tmod_eq_zero_of_dvd hdvd]
      rfl
    · right
      rw [Int64.toInt_mod, Int.sign_tmod, if_neg hdvd]

end Value

namespace Operation

/-- The quotient and the remainder of two integers are undefined together, for the divisor zero and
for the least integer divided by `-1`. Otherwise they put the dividend together again: the product
of quotient and divisor is an integer, and its sum with the remainder is the dividend. The remainder
is smaller than the divisor, and it is zero or has the sign of the dividend. -/
theorem intDiv_mod (a b : Int64) :
    (intDiv.apply (.integer a) [.integer b] .integer = .undefined ↔ Value.NoQuotient a b) ∧
      (mod.apply (.integer a) [.integer b] .integer = .undefined ↔ Value.NoQuotient a b) ∧
      (¬ Value.NoQuotient a b → ∃ q p r : Int64,
        intDiv.apply (.integer a) [.integer b] .integer = .integer q ∧
          mod.apply (.integer a) [.integer b] .integer = .integer r ∧
          mul.apply (.integer q) [.integer b] .integer = .integer p ∧
          add.apply (.integer p) [.integer r] .integer = .integer a ∧
          r.toInt.natAbs < b.toInt.natAbs ∧ (r = 0 ∨ r.toInt.sign = a.toInt.sign)) := by
  have hquotient : intDiv.apply (.integer a) [.integer b] .integer =
      Value.intDiv (.integer a) (.integer b) := rfl
  have hremainder : mod.apply (.integer a) [.integer b] .integer =
      Value.mod (.integer a) (.integer b) := rfl
  rw [hquotient, hremainder]
  by_cases h : Value.NoQuotient a b
  · rw [Value.intDiv_of_noQuotient h, Value.mod_of_noQuotient h]
    exact ⟨iff_of_true rfl h, iff_of_true rfl h, fun hnot => absurd h hnot⟩
  · rw [Value.intDiv_integer h, Value.mod_integer h]
    refine ⟨iff_of_false nofun h, iff_of_false nofun h, fun _ => ?_⟩
    obtain ⟨p, hp, hsum⟩ := Value.exists_mul_quotient h
    have hproduct : mul.apply (.integer (a / b)) [.integer b] .integer = .integer p :=
      (Value.promote_integer _).trans hp
    have hback : add.apply (.integer p) [.integer (a % b)] .integer = .integer a :=
      (Value.promote_integer _).trans (Value.ofInt_eq_integer_iff.mpr hsum)
    exact ⟨a / b, p, a % b, rfl, rfl, hproduct, hback,
      Value.remainder_bounds fun hb => h (.inl hb)⟩

/-- The least integer divided by ten: the product is eight above it. -/
theorem intDiv_mod_least :
    ¬ Value.NoQuotient Int64.minValue 10 ∧ ∃ q p r : Int64,
      intDiv.apply (.integer Int64.minValue) [.integer 10] .integer = .integer q ∧
        mod.apply (.integer Int64.minValue) [.integer 10] .integer = .integer r ∧
        mul.apply (.integer q) [.integer 10] .integer = .integer p ∧
        add.apply (.integer p) [.integer r] .integer = .integer Int64.minValue ∧
        r.toInt.natAbs < (10 : Int64).toInt.natAbs ∧
        (r = 0 ∨ r.toInt.sign = Int64.minValue.toInt.sign) := by
  have hdefined : ¬ Value.NoQuotient Int64.minValue 10 := by decide
  exact ⟨hdefined, (intDiv_mod Int64.minValue 10).2.2 hdefined⟩

end Operation

end ObjectConstraint
