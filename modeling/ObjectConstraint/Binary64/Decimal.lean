import ObjectConstraint.Binary64.Basic

/-!
# Decimals and binary64 numbers

* `Binary64.ofDecimal` — the number nearest to a decimal.
* `Binary64.shortest` — the fewest decimal digits that are nearest to no other number than the
  given one; of several such decimals the one closest to it.
-/

namespace ObjectConstraint.Binary64

/-- The magnitude in units nearest to `digits · 10 ^ exponent`, were there no limit. -/
def unitsOfDecimal (digits : Nat) (exponent : Int) : Nat :=
  roundUnits (digits * 10 ^ exponent.toNat * unitsPerOne) (10 ^ (-exponent).toNat)

/-- The number of decimal digits. -/
def digitCount (n : Nat) : Nat := (Nat.toDigits 10 n).length

/-- The number nearest to `± digits · 10 ^ exponent`; infinite beyond the range. A decimal of at
least 10³¹⁰ is out of range, and one below 10⁻³⁵⁰ is nearest to zero. Where the size of the digits
shows the one or the other, the decimal is not worked out. -/
def ofDecimal (negative : Bool) (digits : Nat) (exponent : Int) : Binary64 :=
  if digits = 0 || exponent + (digits.log2 + 1 : Nat) < -350 then
    finite { Finite.zero with negative }
  else if 310 ≤ exponent then
    infinite negative
  else
    match Finite.rounded? negative (digits * 10 ^ exponent.toNat * unitsPerOne)
        (10 ^ (-exponent).toNat) with
    | some x => finite x
    | none => infinite negative

/-! ### The shortest decimal -/

/-- The place of the decimal point before the leading digit of a magnitude: the least `p` with
`units < 10 ^ p` in units of one. -/
def decimalPoint (units : Nat) : Int :=
  if unitsPerOne ≤ units then digitCount (units / unitsPerOne)
  else 1 - (digitCount (unitsPerOne / units) : Int)

/-- The multiple of `10 ^ exponent` that reads back as the magnitude: of the two multiples around
it the one that does, if both do the closer one, and on a tie the greater one. -/
def readingBack? (units : Nat) (exponent : Int) : Option Nat :=
  let num := units * 10 ^ (-exponent).toNat
  let den := unitsPerOne * 10 ^ exponent.toNat
  let below := num / den
  let above := below + 1
  match unitsOfDecimal below exponent == units, unitsOfDecimal above exponent == units with
  | true, true => some (if 2 * (num % den) < den then below else above)
  | true, false => some below
  | false, true => some above
  | false, false => none

/-- A decimal `digits · 10 ^ exponent` for the magnitude with the fewest digits, from 1 to 17; the
exact decimal should none of those read back. -/
def shortest (units : Nat) : Nat × Int :=
  let point := decimalPoint units
  ((List.range 17).findSome? fun n =>
      let exponent := point - (n + 1 : Nat)
      (readingBack? units exponent).map (·, exponent)).getD
    (units * 5 ^ places, -(places : Int))

end ObjectConstraint.Binary64
