import ObjectConstraint.Expr.Build
import ObjectConstraint.Proofs.Nearest
import ObjectConstraint.Proofs.Operands

/-!
# Integers where a real is expected

A call of `+`, `-` or `*` at type `Real` can meet two integers, for where a real is expected an
integer may flow, and it stays one. The call computes among the integers of 64 bits and makes a real
of what it gets, so an overflow has no value. Among the reals it would have one: the sums, the
differences and the products of all integers of 64 bits are in the range of the reals. Without an
overflow the two ways differ only where an operand is rounded when it is made a real.

* `Operation.onIntegers?` — what the three operations are among the integers.
* `Binary64.Finite.add?_ofInt64`, `Binary64.Finite.mul?_ofInt64` — integers as reals, added and
  multiplied.
* `Operation.apply_integers`, `Operation.apply_widened` — the two ways.
* `ObjectModel.eval_integers_at_real` — a call at type `Real` on integers.
-/

namespace ObjectConstraint

namespace Binary64

theorem bne_decide_eq {p q r : Prop} [Decidable p] [Decidable q] [Decidable r]
    (h : r ↔ (p ↔ ¬ q)) : (decide p != decide q) = decide r := by
  by_cases hp : p <;> by_cases hq : q <;> simp [h, hp, hq]

variable {num den : Nat}

/-! ### Bounds -/

theorem gap_dvd_two_pow_mul_one (k : Nat) : gap (2 ^ k * unitsPerOne) ∣ 2 ^ k * unitsPerOne := by
  rw [unitsPerOne, ← Nat.pow_add]
  simpa using gap_dvd_of_le (k := 1) (j := k + places) (by decide)

/-- The reals go far beyond the products of integers of 64 bits. -/
theorem roundUnits_lt_limit (hden : 0 < den) (h : num ≤ 2 ^ (126 : Nat) * unitsPerOne * den) :
    roundUnits num den < limit := by
  refine Nat.lt_of_le_of_lt (roundUnits_le_of_le hden (gap_dvd_two_pow_mul_one 126) h) ?_
  rw [unitsPerOne, ← Nat.pow_add, limit]
  exact Nat.pow_lt_pow_right (by decide) (by decide)

namespace Finite

variable (a b : Int64)

theorem units_ofInt64_le : (ofInt64 a).units ≤ 2 ^ (63 : Nat) * unitsPerOne := by
  have hlo := a.le_toInt
  have hhi := a.toInt_lt
  refine roundUnits_le_of_le Nat.one_pos (gap_dvd_two_pow_mul_one 63) ?_
  rw [Nat.mul_one]
  exact Nat.mul_le_mul_right _ (by omega)

/-- The integer is a real. -/
def IsExact (n : Int64) : Prop := (ofInt64 n).toRat = n.toInt

variable {a b}

theorem IsExact.signed_eq (h : IsExact a) : (ofInt64 a).signed = a.toInt * unitsPerOne := by
  have hne : (unitsPerOne : ℚ) ≠ 0 := by exact_mod_cast unitsPerOne_pos.ne'
  have hunits := (div_eq_iff hne).mp h
  exact_mod_cast hunits

theorem IsExact.units_eq (h : IsExact a) : (ofInt64 a).units = a.toInt.natAbs * unitsPerOne := by
  rw [← natAbs_signed, h.signed_eq, Int.natAbs_mul, Int.natAbs_natCast]

theorem add?_of_units_le {x y : Finite} (hx : x.units ≤ 2 ^ (63 : Nat) * unitsPerOne)
    (hy : y.units ≤ 2 ^ (63 : Nat) * unitsPerOne) :
    ∃ z, x.add? y = some z ∧ z.signed = roundSigned (x.signed + y.signed) := by
  refine x.add?_eq y (roundUnits_lt_limit Nat.one_pos ?_)
  have htriangle := Int.natAbs_add_le x.signed y.signed
  rw [x.natAbs_signed, y.natAbs_signed] at htriangle
  omega

variable (a b)

/-- Two integers as reals have a sum, and it is the integer sum as a real if both of them are
exact. -/
theorem add?_ofInt64 :
    ∃ z, (ofInt64 a).add? (ofInt64 b) = some z ∧
      (IsExact a → IsExact b → z.signed = roundSigned ((a.toInt + b.toInt) * unitsPerOne)) := by
  obtain ⟨z, hz, hsigned⟩ := add?_of_units_le (units_ofInt64_le a) (units_ofInt64_le b)
  refine ⟨z, hz, fun ha hb => ?_⟩
  rw [hsigned, ha.signed_eq, hb.signed_eq, Int.add_mul]

theorem sub?_ofInt64 :
    ∃ z, (ofInt64 a).sub? (ofInt64 b) = some z ∧
      (IsExact a → IsExact b → z.signed = roundSigned ((a.toInt - b.toInt) * unitsPerOne)) := by
  obtain ⟨z, hz, hsigned⟩ :=
    add?_of_units_le (y := (ofInt64 b).neg) (units_ofInt64_le a) (units_ofInt64_le b)
  refine ⟨z, hz, fun ha hb => ?_⟩
  rw [hsigned, signed_neg, ha.signed_eq, hb.signed_eq, Int.sub_mul, Int.sub_eq_add_neg]

theorem mul?_ofInt64 :
    ∃ z, (ofInt64 a).mul? (ofInt64 b) = some z ∧
      (IsExact a → IsExact b → z.signed = roundSigned (a.toInt * b.toInt * unitsPerOne)) := by
  have hproduct := Nat.mul_le_mul (units_ofInt64_le a) (units_ofInt64_le b)
  have hbound : 2 ^ (63 : Nat) * unitsPerOne * (2 ^ (63 : Nat) * unitsPerOne)
      = 2 ^ (126 : Nat) * unitsPerOne * unitsPerOne := by
    generalize unitsPerOne = one
    ring
  rw [hbound] at hproduct
  refine ⟨_, rounded?_eq _ (roundUnits_lt_limit unitsPerOne_pos hproduct), fun ha hb => ?_⟩
  refine signed_of_sign ?_ fun hne => ?_
  · -- the ones of one factor are taken off the fraction
    have hscale : (ofInt64 a).units * (ofInt64 b).units
        = (a.toInt * b.toInt * unitsPerOne).natAbs * unitsPerOne := by
      rw [ha.units_eq, hb.units_eq, Int.natAbs_mul, Int.natAbs_mul, Int.natAbs_natCast]
      generalize unitsPerOne = one
      ring
    have hround : roundUnits ((a.toInt * b.toInt * unitsPerOne).natAbs * unitsPerOne)
        (1 * unitsPerOne) = roundUnits (a.toInt * b.toInt * unitsPerOne).natAbs 1 :=
      roundUnits_scale unitsPerOne_pos
    rw [Nat.one_mul, ← hscale] at hround
    exact hround
  · have hpos : (0 : Int) < unitsPerOne := by exact_mod_cast unitsPerOne_pos
    have hfactors := mul_ne_zero_iff.mp (left_ne_zero_of_mul hne)
    have hsign : a.toInt * b.toInt * unitsPerOne < 0 ↔ (a.toInt < 0 ↔ ¬ b.toInt < 0) := by
      rw [mul_neg_iff, mul_neg_iff]
      omega
    exact bne_decide_eq hsign

end Finite

end Binary64

namespace Value

theorem arithmetic_reals (onInts : Int → Int → Int)
    (onReals : Binary64.Finite → Binary64.Finite → Option Binary64.Finite) (x y : Binary64.Finite) :
    arithmetic onInts onReals (real x) (real y) = ofReal? (onReals x y) := rfl

theorem ofInt_of_toInt_ne {m : Int} (h : ∀ n : Int64, n.toInt ≠ m) : ofInt m = undefined := by
  refine if_neg fun hrange => ?_
  have hlo : -2 ^ 63 ≤ m := hrange.1
  have hhi : m < 2 ^ 63 := Int.lt_of_le_sub_one hrange.2
  exact h _ (Int64.toInt_ofInt_of_le hlo hhi)

end Value

namespace Operation

open Binary64 (Finite roundSigned)
open Binary64.Finite (IsExact)

/-- What an arithmetic operation is among the integers, were there no bounds. -/
def onIntegers? : Operation → Option (Int → Int → Int)
  | add => some (· + ·)
  | sub => some (· - ·)
  | mul => some (· * ·)
  | _ => none

variable {op : Operation} {f : Int → Int → Int}

theorem isConnective_of_onIntegers? (hop : op.onIntegers? = some f) : op.isConnective = false := by
  cases op <;> first | rfl | cases hop

theorem compute_arithmetic (v w : Value) (ty : Ty) :
    add.compute v [w] ty = (v.add w).promote ty ∧ sub.compute v [w] ty = (v.sub w).promote ty ∧
      mul.compute v [w] ty = (v.mul w).promote ty :=
  ⟨rfl, rfl, rfl⟩

/-- On two integers the operation is that of integers of 64 bits, and its result is made a real. -/
theorem apply_integers (hop : op.onIntegers? = some f) (a b : Int64) :
    op.apply (.integer a) [.integer b] .real = (Value.ofInt (f a.toInt b.toInt)).promote .real := by
  cases op <;> cases hop <;> rfl

theorem apply_reals (hop : op.onIntegers? = some f) (x y : Finite) :
    op.apply (.real x) [.real y] .real = op.compute (.real x) [.real y] .real := by
  have hblocked : op.blocked (.real x) [.real y] = false := by cases op <;> cases hop <;> rfl
  rw [apply, hblocked, if_neg Bool.false_ne_true]

/-- On two integers made reals the result is a real. If both of them are exact, it is the integer
result made a real, beyond 64 bits too. -/
theorem apply_widened (hop : op.onIntegers? = some f) (a b : Int64) :
    ∃ x, op.apply (.real (.ofInt64 a)) [.real (.ofInt64 b)] .real = .real x ∧
      (IsExact a → IsExact b →
        x.signed = roundSigned (f a.toInt b.toInt * Binary64.unitsPerOne)) := by
  rw [apply_reals hop]
  obtain ⟨hadd, hsub, hmul⟩ := compute_arithmetic (.real (.ofInt64 a)) (.real (.ofInt64 b)) .real
  cases op <;> cases hop
  case add =>
    obtain ⟨x, hx, hsigned⟩ := Finite.add?_ofInt64 a b
    rw [hadd, Value.add, Value.arithmetic_reals, hx]
    exact ⟨x, rfl, hsigned⟩
  case sub =>
    obtain ⟨x, hx, hsigned⟩ := Finite.sub?_ofInt64 a b
    rw [hsub, Value.sub, Value.arithmetic_reals, hx]
    exact ⟨x, rfl, hsigned⟩
  case mul =>
    obtain ⟨x, hx, hsigned⟩ := Finite.mul?_ofInt64 a b
    rw [hmul, Value.mul, Value.arithmetic_reals, hx]
    exact ⟨x, rfl, hsigned⟩

end Operation

namespace ObjectModel

open Binary64 (Finite)

variable {M : ObjectModel}

/-- At type `Real`, `+`, `-` and `*` on two integers made reals have a real as their value. On the
integers themselves they have the integer result as a real if it is one of 64 bits, and else they
are undefined. If both integers are reals exactly, the two values are the same number unless the
second one is undefined. -/
theorem eval_integers_at_real {op : Operation} {f : Int → Int → Int}
    (hop : op.onIntegers? = some f) (name : String) {left right : Expr} {ctx : Context}
    {a b : Int64} (hleft : M.EvaluatesTo left ctx (.integer a))
    (hright : M.EvaluatesTo right ctx (.integer b)) :
    ∃ x, op.apply (.real (.ofInt64 a)) [.real (.ofInt64 b)] .real = .real x ∧
      ((∃ n : Int64, n.toInt = f a.toInt b.toInt ∧
          M.EvaluatesTo (.call name (.standard op) left [right] .real) ctx (.real (.ofInt64 n)) ∧
          (Finite.IsExact a → Finite.IsExact b → (Finite.ofInt64 n).toRat = x.toRat)) ∨
        (∀ n : Int64, n.toInt ≠ f a.toInt b.toInt) ∧
          M.EvaluatesTo (.call name (.standard op) left [right] .real) ctx .undefined) := by
  obtain ⟨x, hx, hexact⟩ := Operation.apply_widened hop a b
  have heval := hleft.binary (Operation.isConnective_of_onIntegers? hop) name .real hright
  rw [Operation.apply_integers hop] at heval
  refine ⟨x, hx, ?_⟩
  by_cases hrange : ∃ n : Int64, n.toInt = f a.toInt b.toInt
  · obtain ⟨n, hn⟩ := hrange
    rw [← hn, Value.ofInt_toInt] at heval
    refine .inl ⟨n, hn, heval, fun ha hb => ?_⟩
    rw [Finite.toRat, Finite.toRat, hexact ha hb, Finite.signed_ofInt64, hn]
  · have hout : ∀ n : Int64, n.toInt ≠ f a.toInt b.toInt := fun n hn => hrange ⟨n, hn⟩
    rw [Value.ofInt_of_toInt_ne hout] at heval
    exact .inr ⟨hout, heval⟩

/-- A sum that is no real of its own: the first operand is rounded when it is made a real. -/
theorem eval_integers_at_real_inexact :
    let M := Snapshot.empty.toModel
    let left := Expr.const (.integer 9007199254740993)
    let right := Expr.const (.integer 1)
    Operation.add.onIntegers? = some (· + ·) ∧
      M.EvaluatesTo left .empty (.integer 9007199254740993) ∧
      M.EvaluatesTo right .empty (.integer 1) ∧
      M.EvaluatesTo (.call "+" (.standard .add) left [right] .real) .empty
        (.real (.ofInt64 9007199254740994)) := by
  intro M left right
  have hop : Operation.add.onIntegers? = some (· + ·) := rfl
  have hleft : M.EvaluatesTo left .empty (.integer 9007199254740993) := ⟨1, rfl⟩
  have hright : M.EvaluatesTo right .empty (.integer 1) := ⟨1, rfl⟩
  obtain ⟨-, -, ⟨n, hn, heval, -⟩ | ⟨hout, -⟩⟩ :=
    eval_integers_at_real hop "+" hleft hright
  · have hsum : n = 9007199254740994 := Int64.toInt_inj.mp hn
    exact ⟨hop, hleft, hright, hsum ▸ heval⟩
  · exact absurd rfl (hout 9007199254740994)

/-- `(if true then 9223372036854775807 else 0.5 endif) + 1` has type `Real` and is undefined; among
the reals the sum is 2⁶³. -/
theorem eval_integers_at_real_overflow :
    let S := Schema.empty
    ∃ branches node,
      S.ifThenElse (.const (.boolean true)) (.const (.integer Int64.maxValue))
          (.const (.real (.finite .half))) = .ok branches ∧
        S.binary branches "+" (.const (.integer 1)) = .ok node ∧ node.ty = .real ∧
        Snapshot.empty.toModel.EvaluatesTo node .empty .undefined ∧
        Operation.add.apply (.real (.ofInt64 Int64.maxValue)) [.real (.ofInt64 1)] .real =
          .real (Finite.neg (.ofInt64 Int64.minValue)) := by
  have hsum : (Finite.ofInt64 Int64.maxValue).add? (.ofInt64 1) =
      some (Finite.neg (.ofInt64 Int64.minValue)) := by
    decide +kernel
  refine ⟨_, _, rfl, rfl, rfl, ⟨4, rfl⟩, ?_⟩
  rw [Operation.apply_reals rfl, (Operation.compute_arithmetic _ _ _).1, Value.add,
    Value.arithmetic_reals, hsum]
  rfl

end ObjectModel

end ObjectConstraint
