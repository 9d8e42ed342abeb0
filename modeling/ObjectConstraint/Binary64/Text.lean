import ObjectConstraint.Binary64.Decimal

/-!
# Written binary64 numbers

`Binary64.text` writes the shortest decimal that reads back. A magnitude from 10⁻⁴ up to 10¹⁶ is
written with a point and at least one digit on either side of it; any other has one digit before
the point, no point when that is its only digit, and an exponent.

`Binary64.read?` reads an optional sign and then digits with an optional point and an optional
exponent, or one of the words for the infinities and for `nan` in any letter case.
-/

namespace ObjectConstraint.Binary64

/-! ### Writing -/

/-- The digits of a magnitude without zeros at the end, and the place of the point before the
first of them. -/
def writtenDigits (units : Nat) : List Char × Int :=
  let decimal := shortest units
  let digits := Nat.toDigits 10 decimal.1
  ((digits.reverse.dropWhile (· == '0')).reverse, decimal.2 + digits.length)

/-- A magnitude of the given digits, with the point in its place. -/
def positional (digits : List Char) (point : Int) : List Char :=
  if point ≤ 0 then
    '0' :: '.' :: (List.replicate (-point).toNat '0' ++ digits)
  else if point < digits.length then
    digits.take point.toNat ++ '.' :: digits.drop point.toNat
  else
    digits ++ List.replicate (point.toNat - digits.length) '0' ++ ['.', '0']

/-- A magnitude of the given digits, with an exponent. -/
def scientific (digits : List Char) (point : Int) : List Char :=
  let fraction := digits.drop 1
  digits.take 1 ++ (if fraction.isEmpty then [] else '.' :: fraction)
    ++ 'e' :: (toString (point - 1)).toList

/-- The written form of a finite number. -/
def Finite.text (x : Finite) : String :=
  let magnitude :=
    if x.units = 0 then ['0', '.', '0']
    else
      let (digits, point) := writtenDigits x.units
      if -3 ≤ point ∧ point ≤ 16 then positional digits point else scientific digits point
  String.ofList (if x.negative then '-' :: magnitude else magnitude)

/-- The written form of a number. -/
def text : Binary64 → String
  | finite x => x.text
  | infinite true => "-inf"
  | infinite false => "inf"
  | nan => "NaN"

/-! ### Reading -/

/-- The number that decimal digits denote, read from the left. -/
def shortDigitsValue (digits : List Char) : Nat :=
  digits.foldl (fun n c => 10 * n + (c.toNat - '0'.toNat)) 0

/-- The number that decimal digits denote. The halves of a long row are read apart, which keeps the
numbers that are worked with small. -/
def digitsValue (digits : List Char) : Nat :=
  if _h : 32 < digits.length then
    let half := digits.length / 2
    digitsValue (digits.take half) * 10 ^ (digits.length - half) + digitsValue (digits.drop half)
  else shortDigitsValue digits
  termination_by digits.length
  decreasing_by all_goals simp only [List.length_take, List.length_drop]; omega

theorem shortDigitsValue_append (first second : List Char) :
    shortDigitsValue (first ++ second)
      = shortDigitsValue first * 10 ^ second.length + shortDigitsValue second := by
  have from_left : ∀ n : Nat, second.foldl (fun n c => 10 * n + (c.toNat - '0'.toNat)) n
      = n * 10 ^ second.length + shortDigitsValue second := by
    unfold shortDigitsValue
    induction second with
    | nil => simp
    | cons c second ih =>
      intro n
      rw [List.foldl_cons, List.foldl_cons, ih, ih (10 * 0 + _), List.length_cons, Nat.pow_succ]
      grind
  unfold shortDigitsValue
  rw [List.foldl_append]
  exact from_left _

/-- Halving does not change the number. -/
theorem digitsValue_eq (digits : List Char) : digitsValue digits = shortDigitsValue digits := by
  fun_induction digitsValue digits with
  | case1 digits _ half ih_first ih_second =>
    rw [ih_first, ih_second, ← List.length_drop, ← shortDigitsValue_append, List.take_append_drop]
  | case2 => rfl

/-- Splits off a sign; whether it is a minus, and the rest. -/
def splitSign : List Char → Bool × List Char
  | '-' :: rest => (true, rest)
  | '+' :: rest => (false, rest)
  | rest => (false, rest)

/-- A whole number: an optional sign and at least one digit. -/
def readInt? (cs : List Char) : Option Int :=
  let (negative, digits) := splitSign cs
  if digits.isEmpty || !digits.all Char.isDigit then none
  else some (if negative then -(digitsValue digits : Int) else digitsValue digits)

/-- An exponent with one more digit. One that has reached 2¹⁶ stays as it is. -/
def exponentWith (exponent : Nat) (digit : Char) : Nat :=
  if exponent < 2 ^ (16 : Nat) then 10 * exponent + (digit.toNat - '0'.toNat) else exponent

/-- An exponent after its mark, or nothing at all. Digits that follow when it has reached 2¹⁶ change
nothing, so an exponent beyond that is not always read as written. -/
def readExponent? : List Char → Option Int
  | [] => some 0
  | mark :: rest =>
    let (negative, digits) := splitSign rest
    if (mark = 'e' || mark = 'E') && !digits.isEmpty && digits.all Char.isDigit then
      let exponent := digits.foldl exponentWith 0
      some (if negative then -(exponent : Int) else exponent)
    else none

/-- A magnitude in decimal: the digits and the exponent of ten. -/
def readMagnitude? (cs : List Char) : Option (Nat × Int) :=
  let (whole, rest) := cs.span Char.isDigit
  let (fraction, rest) :=
    match rest with
    | '.' :: rest => rest.span Char.isDigit
    | rest => ([], rest)
  if whole.isEmpty && fraction.isEmpty then none
  else (readExponent? rest).map fun exponent =>
    (digitsValue (whole ++ fraction), exponent - fraction.length)

/-- Reads a number. -/
def read? (text : String) : Option Binary64 :=
  let (negative, rest) := splitSign text.toList
  match readMagnitude? rest with
  | some (digits, exponent) => some (ofDecimal negative digits exponent)
  | none =>
    match String.ofList (rest.map Char.toLower) with
    | "inf" | "infinity" => some (infinite negative)
    | "nan" => some nan
    | _ => none

end ObjectConstraint.Binary64
