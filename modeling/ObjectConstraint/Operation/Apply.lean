import ObjectConstraint.Binary64.Text
import ObjectConstraint.Kleene
import ObjectConstraint.Operation
import ObjectConstraint.Text.Blank
import ObjectConstraint.Text.Case
import ObjectConstraint.Value.Collection

/-!
# The standard operations on values

`Operation.apply` gives the value of an operation on evaluated operands. Whatever fails — overflow,
division by zero, an index out of range, text that is no number, operands of the wrong form — has
the undefined value.
-/

namespace ObjectConstraint

open Binary64 (Finite)

namespace Value

/-! ### Numbers -/

/-- An integer becomes a real where the type of the result is `Real`. -/
def promote (v : Value) (ty : Ty) : Value :=
  match v, ty with
  | integer n, .real => real (.ofInt64 n)
  | _, _ => v

/-- Arithmetic: on two integers among the integers, on other numbers among the reals. The unlimited
number takes no part in it. -/
def arithmetic (onInts : Int → Int → Int) (onReals : Finite → Finite → Option Finite)
    (a b : Value) : Value :=
  match a, b with
  | integer m, integer n => ofInt (onInts m.toInt n.toInt)
  | _, _ =>
    match a.real?, b.real? with
    | some x, some y => ofReal? (onReals x y)
    | _, _ => undefined

def add (a b : Value) : Value := arithmetic (· + ·) Finite.add? a b

def sub (a b : Value) : Value := arithmetic (· - ·) Finite.sub? a b

def mul (a b : Value) : Value := arithmetic (· * ·) Finite.mul? a b

/-- The quotient of two numbers as reals; undefined for the divisor zero. -/
def div (a b : Value) : Value :=
  match a.real?, b.real? with
  | some x, some y => ofReal? (x.div? y)
  | _, _ => undefined

def neg : Value → Value
  | integer n => ofInt (-n.toInt)
  | real x => real x.neg
  | _ => undefined

def abs : Value → Value
  | integer n => ofInt n.toInt.natAbs
  | real x => real x.abs
  | unlimited => unlimited
  | _ => undefined

def floor : Value → Value
  | integer n => integer n
  | real x => ofInt x.floor
  | _ => undefined

/-- The floor of the number plus a half, the sum being rounded to a real first. -/
def round : Value → Value
  | integer n => integer n
  | real x => ((x.add? .half).map fun y => ofInt y.floor).getD undefined
  | _ => undefined

/-- The greater of two values; the second if they are equal. -/
def max (a b : Value) : Value := if cmp a b = .gt then a else b

/-- The smaller of two values; the first if they are equal. -/
def min (a b : Value) : Value := if cmp a b = .gt then b else a

/-- The integer quotient toward zero; undefined for the divisor zero. -/
def intDiv (a b : Value) : Value :=
  match a, b with
  | integer m, integer n => if n = 0 then undefined else ofInt (m.toInt.tdiv n.toInt)
  | _, _ => undefined

/-- The remainder of the integer quotient; undefined where the quotient is. -/
def mod (a b : Value) : Value :=
  match a, b with
  | integer m, integer n =>
    if (intDiv a b).isUndefined then undefined else ofInt (m.toInt.tmod n.toInt)
  | _, _ => undefined

/-! ### Text -/

/-- The bounds of a stretch from the `lo`th to the `hi`th of `length` elements: how many stand
before it, and how many it has. -/
def stretch? (lo hi : Value) (length : Nat) : Option (Nat × Nat) :=
  match lo, hi with
  | integer lo, integer hi =>
    let lo := lo.toInt
    let hi := hi.toInt
    if 1 ≤ lo ∧ lo ≤ hi ∧ hi ≤ length then some ((lo - 1).toNat, (hi - lo + 1).toNat) else none
  | _, _ => none

/-- A function of a text, undefined for other values. -/
def onString (f : String → Value) : Value → Value
  | string s => f s
  | _ => undefined

def concat (a b : Value) : Value :=
  match a, b with
  | string s, string t => string (s ++ t)
  | _, _ => undefined

def substring (s : String) (lo hi : Value) : Value :=
  match stretch? lo hi s.length with
  | some (before, count) => string (String.ofList ((s.toList.drop before).take count))
  | none => undefined

/-- The integer that a text denotes, blanks around it aside. -/
def readInteger (s : String) : Value :=
  match Binary64.readInt? (Text.trim s.toList) with
  | some n => ofInt n
  | none => undefined

/-- The real that a text denotes, blanks around it aside. -/
def readReal (s : String) : Value :=
  match Binary64.read? (String.ofList (Text.trim s.toList)) with
  | some r => ofBinary64 r
  | none => undefined

end Value

namespace Collection

/-- A sum that has met no undefined value and no failure so far goes on with one more element. -/
def addTo (total : Option Value) (v : Value) : Option Value :=
  match total with
  | none => none
  | some acc =>
    if v.isUndefined then none
    else
      match acc.add v with
      | .undefined => none
      | next => some next

/-- The sum of the elements from the left, as a number of the type of the result. -/
def sum (c : Collection) (ty : Ty) : Value :=
  match c.elems.foldl addTo (some ((Value.integer 0).promote ty)) with
  | some total => total.promote ty
  | none => .undefined

/-- The first element that no other exceeds in the wanted direction; undefined if some element is,
or for none. -/
def extremum (c : Collection) (wanted : Ordering) : Value :=
  if c.elems.any Value.isUndefined then .undefined
  else
    match c.elems with
    | [] => .undefined
    | v :: vs => vs.foldl (fun best v => if v.cmp best = wanted then v else best) v

/-- The element at a place, counted from one. -/
def elementAt (c : Collection) (place : Value) : Value :=
  match place with
  | .integer i => if 1 ≤ i.toInt then c.elems.getD (i.toInt - 1).toNat .undefined else .undefined
  | _ => .undefined

/-- The first place of a value, counted from one. -/
def indexOf (c : Collection) (v : Value) : Value :=
  match c.elems.findIdx? (· == v) with
  | some i => .ofNat (i + 1)
  | none => .undefined

/-- The elements from one place to another, as a collection of the same kind. -/
def subSequence (c : Collection) (lo hi : Value) : Value :=
  match Value.stretch? lo hi c.elems.length with
  | some (before, count) => .collectionOf c.kind c.elem ((c.elems.drop before).take count)
  | none => .undefined

/-- An operation with another collection, undefined for an argument that is none. -/
def withOther (arg : Value) (f : Collection → Value) : Value :=
  match arg.collection? with
  | some d => f d
  | none => .undefined

end Collection

namespace Operation

/-- The argument at a place, undefined if there is none. -/
def argument (args : List Value) (i : Nat) : Value := args.getD i .undefined

/-- The value of an operation on a collection. The type of the result gives the element type, and
for a union and an intersection the kind. -/
def onCollection (op : Operation) (c : Collection) (args : List Value) (ty : Ty) : Value :=
  let a := argument args 0
  let elem := ty.elem?.getD c.elem
  let kind := ty.kind?.getD c.kind
  match op with
  | size => .ofNat c.elems.length
  | isEmpty => .boolean c.elems.isEmpty
  | notEmpty => .boolean !c.elems.isEmpty
  | includes => .boolean (c.contains a)
  | excludes => .boolean !c.contains a
  | count => .ofNat (c.count a)
  | includesAll => Collection.withOther a fun d => .boolean (c.includesAll d)
  | excludesAll => Collection.withOther a fun d => .boolean (c.excludesAll d)
  | sum => c.sum ty
  | maxElement => c.extremum .gt
  | minElement => c.extremum .lt
  | including | append => c.including a elem
  | prepend => c.prepend a elem
  | excluding => c.excluding a
  | union => Collection.withOther a fun d => c.union d kind elem
  | intersection => Collection.withOther a fun d => c.intersection d kind
  | difference => Collection.withOther a c.difference
  | symmetricDifference => Collection.withOther a c.symmetricDifference
  | flatten => c.flatten
  | asSet => c.convert .set
  | asBag => c.convert .bag
  | asSequence => c.convert .sequence
  | asOrderedSet => c.convert .orderedSet
  | first => c.elems.head?.getD .undefined
  | last => c.elems.getLast?.getD .undefined
  | elementAt => c.elementAt a
  | indexOf => c.indexOf a
  | subSequence => c.subSequence a (argument args 1)
  | _ => .undefined

/-- The value of an operation whose operands its strictness admits. -/
def compute (op : Operation) (receiver : Value) (args : List Value) (ty : Ty) : Value :=
  let a := argument args 0
  match op with
  | and | or | xor | implies => .ofBool? (Kleene.connective op receiver.bool? a.bool?)
  | not => .ofBool? (Kleene.not receiver.bool?)
  | eq => .boolean (receiver == a)
  | ne => .boolean !(receiver == a)
  | isUndefined => .boolean receiver.isUndefined
  | isDefined => .boolean !receiver.isUndefined
  | add => (receiver.add a).promote ty
  | sub => (receiver.sub a).promote ty
  | mul => (receiver.mul a).promote ty
  | div => receiver.div a
  | neg => receiver.neg
  | abs => receiver.abs
  | floor => receiver.floor
  | round => receiver.round
  | max => (receiver.max a).promote ty
  | min => (receiver.min a).promote ty
  | intDiv => receiver.intDiv a
  | mod => receiver.mod a
  | lt => .boolean (receiver.cmp a == .lt)
  | gt => .boolean (receiver.cmp a == .gt)
  | le => .boolean !(receiver.cmp a == .gt)
  | ge => .boolean !(receiver.cmp a == .lt)
  | concat => receiver.concat a
  | length => receiver.onString fun s => .ofNat s.length
  | toUpper => receiver.onString fun s => .string (Text.toUpper s)
  | toLower => receiver.onString fun s => .string (Text.toLower s)
  | substring => receiver.onString fun s => Value.substring s a (argument args 1)
  | toInteger => receiver.onString Value.readInteger
  | toReal => receiver.onString Value.readReal
  | _ =>
    match receiver.collection? with
    | some c => op.onCollection c args ty
    | none => .undefined

/-- Whether undefined operands alone make the result undefined. -/
def blocked (op : Operation) (receiver : Value) (args : List Value) : Bool :=
  match op.strictness with
  | .strict => receiver.isUndefined || args.any Value.isUndefined
  | .receiver => receiver.isUndefined
  | .lenient => false

/-- The value of an operation on evaluated operands; `ty` is the type of the result. -/
def apply (op : Operation) (receiver : Value) (args : List Value) (ty : Ty) : Value :=
  if op.blocked receiver args then .undefined else op.compute receiver args ty

end Operation

end ObjectConstraint
