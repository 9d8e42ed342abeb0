/-!
# Dates

A date with the time of day. A leap second is the second before it with more than 10⁹ nanoseconds.

* `cmp` — the order of time, field by field.
* `text` — the written form, to the second.
-/

namespace ObjectConstraint

/-- A date and a time of day. -/
structure Date where
  year : Int
  month : Nat
  day : Nat
  hour : Nat
  minute : Nat
  second : Nat
  nanosecond : Nat
  deriving DecidableEq, Repr

namespace Date

/-- The fields after the year, from the greatest to the smallest. -/
def withinYear (d : Date) : List Nat :=
  [d.month, d.day, d.hour, d.minute, d.second, d.nanosecond]

/-- The order of time. -/
def cmp (a b : Date) : Ordering :=
  (compare a.year b.year).then (compare a.withinYear b.withinYear)

/-- A number with zeros in front of it up to the given width. -/
def padded (width n : Nat) : String :=
  let digits := toString n
  String.ofList (List.replicate (width - digits.length) '0') ++ digits

/-- A year in four digits; one before 0 or after 9999 has its sign. -/
def yearText (year : Int) : String :=
  if 0 ≤ year ∧ year ≤ 9999 then padded 4 year.toNat
  else (if year < 0 then "-" else "+") ++ padded 4 year.natAbs

/-- The second as a clock shows it: a leap second is one more than the last. -/
def shownSecond (d : Date) : Nat :=
  if 1000000000 ≤ d.nanosecond then d.second + 1 else d.second

/-- The written form of a date, to the second. -/
def text (d : Date) : String :=
  yearText d.year ++ "-" ++ padded 2 d.month ++ "-" ++ padded 2 d.day ++ "T" ++ padded 2 d.hour
    ++ ":" ++ padded 2 d.minute ++ ":" ++ padded 2 d.shownSecond

end Date

end ObjectConstraint
