import ObjectConstraint.Value

/-!
# The order of values

One order of all values: by rank, and within a rank by the values themselves. All numbers share a
rank and are compared exactly, so `1` and `1.0` are equal; the unlimited number is above the
others. Equality of values is equality in this order.

* `Value.cmp` — the order.
* `Value.ascending` — sorting by it.
-/

namespace ObjectConstraint.Value

/-- The place of a value among values of other kinds. -/
def rank : Value → Nat
  | undefined => 0
  | boolean _ => 1
  | integer _ | unlimited | real _ => 2
  | string _ => 3
  | date _ => 4
  | object _ => 5
  | collection .. => 6
  | tuple _ => 7

mutual

/-- The order of two values. -/
def cmp (a b : Value) : Ordering :=
  match a, b with
  | boolean x, boolean y => compare x y
  | integer m, integer n => compare m.toInt n.toInt
  | integer n, real x => Binary64.Finite.cmpInt n.toInt x
  | real x, integer n => (Binary64.Finite.cmpInt n.toInt x).swap
  | real x, real y => x.cmp y
  | unlimited, integer _ | unlimited, real _ => .gt
  | integer _, unlimited | real _, unlimited => .lt
  | string s, string t => compare s t
  | date d, date e => d.cmp e
  | object o, object p => compare o.id p.id
  | collection k _ xs, collection l _ ys => (compare k.rank l.rank).then (cmpList xs ys)
  | tuple ps, tuple qs => cmpParts ps qs
  | _, _ => compare a.rank b.rank
  termination_by structural a

/-- The order of two lists, by the first elements that differ; a beginning comes first. -/
def cmpList (xs ys : List Value) : Ordering :=
  match xs, ys with
  | [], [] => .eq
  | [], _ :: _ => .lt
  | _ :: _, [] => .gt
  | x :: xs, y :: ys => (cmp x y).then (cmpList xs ys)
  termination_by structural xs

/-- The order of the parts of two tuples, names before values. -/
def cmpParts (ps qs : List (String × Value)) : Ordering :=
  match ps, qs with
  | [], [] => .eq
  | [], _ :: _ => .lt
  | _ :: _, [] => .gt
  | (m, x) :: ps, (n, y) :: qs => (compare m n).then ((cmp x y).then (cmpParts ps qs))
  termination_by structural ps

end

/-- Equality of values. -/
instance : BEq Value := ⟨fun a b => cmp a b == .eq⟩

/-- Whether `a` may stand before `b`. -/
def le (a b : Value) : Bool := (cmp a b).isLE

/-- Whether each value may stand before the next one. -/
def isAscending : List Value → Bool
  | x :: y :: rest => le x y && isAscending (y :: rest)
  | _ => true

/-- The values in ascending order; equal ones stay in their order. Values that stand in order need
no sorting. -/
def ascending (xs : List Value) : List Value :=
  if isAscending xs then xs else xs.mergeSort le

end ObjectConstraint.Value
