import ObjectConstraint.Value.Order
import Std.Data.TreeMap.Basic
import Std.Data.TreeSet.Basic

/-!
# Collections

A collection is held in the normal form of its kind, in which equal collections have equal elements
place by place: a set ascending without repetition, a bag ascending, an ordered set in the order of
first occurrence. So the order of values compares sets and bags without regard to order.

* `Value.normalForm`, `Value.collectionOf` — the normal form, and the collection in it.
* `Collection` — the operations on collections.
-/

namespace ObjectConstraint

namespace Value

/-- Drops each element that is equal to the one kept before it. -/
def dropRepeatsAfter (last : Value) : List Value → List Value
  | [] => []
  | x :: xs => if x == last then dropRepeatsAfter last xs else x :: dropRepeatsAfter x xs

/-- Keeps one of each run of equal elements, the first. -/
def dropRepeats : List Value → List Value
  | [] => []
  | x :: xs => x :: dropRepeatsAfter x xs

/-- Values that have been met, found by the order of values. -/
abbrev Known := Std.TreeSet Value cmp

/-- The values of a list that are not known, each at its first occurrence only; and what is known
after them. -/
def firstOccurrences (known : Known) : List Value → List Value × Known
  | [] => ([], known)
  | x :: xs =>
    if known.contains x then firstOccurrences known xs
    else
      let (others, known) := firstOccurrences (known.insert x) xs
      (x :: others, known)

/-- The elements in the normal form of a kind. -/
def normalForm (kind : Kind) (elems : List Value) : List Value :=
  match kind with
  | .set => dropRepeats (ascending elems)
  | .bag | .collection => ascending elems
  | .orderedSet => (firstOccurrences ∅ elems).1
  | .sequence => elems

/-- The collection of the given elements; an abstract one is made as a bag. -/
def collectionOf (kind : Kind) (elem : Ty) (elems : List Value) : Value :=
  collection kind.concrete elem (normalForm kind.concrete elems)

end Value

/-- A collection taken apart: its kind, the element type it was made with, and its elements in
iteration order. -/
structure Collection where
  kind : Kind
  elem : Ty
  elems : List Value

/-- The collection that a value is. -/
def Value.collection? : Value → Option Collection
  | .collection kind elem elems => some ⟨kind, elem, elems⟩
  | _ => none

namespace Collection

/-- Looks for a value among ascending elements, from place `lo` on and before place `hi`: compares
the one in the middle and goes on in the half that can hold the value. -/
def search (elems : Array Value) (v : Value) (lo hi : Nat) : Bool :=
  if _h : lo < hi then
    let middle := (lo + hi) / 2
    match (elems.getD middle .undefined).cmp v with
    | .eq => true
    | .lt => search elems v (middle + 1) hi
    | .gt => search elems v lo middle
  else false
  termination_by hi - lo

/-- The elements of a collection, laid out for looking values up: in order, to be searched by
halves, or in any order, to be gone through. -/
inductive Index where
  | ascending (elems : Array Value)
  | listed (elems : List Value)

/-- Whether a value is among the elements. -/
def Index.has : Index → Value → Bool
  | .ascending elems, v => search elems v 0 elems.size
  | .listed elems, v => elems.contains v

/-- The index of a collection. The elements of sets and bags stand in order. -/
def index (c : Collection) : Index :=
  match c.kind with
  | .set | .bag => .ascending c.elems.toArray
  | .collection | .sequence | .orderedSet => .listed c.elems

/-- Whether a value is an element. -/
def contains (c : Collection) (v : Value) : Bool := c.index.has v

/-- How often a value is an element. -/
def count (c : Collection) (v : Value) : Nat := c.elems.countP (· == v)

/-- The same elements as a collection of another kind. -/
def convert (c : Collection) (kind : Kind) : Value := .collectionOf kind c.elem c.elems

/-- The collection with one more element, at the end. -/
def including (c : Collection) (v : Value) (elem : Ty) : Value :=
  .collectionOf c.kind elem (c.elems ++ [v])

/-- The collection with one more element, at the front. -/
def prepend (c : Collection) (v : Value) (elem : Ty) : Value :=
  .collectionOf c.kind elem (v :: c.elems)

/-- The collection without a value. -/
def excluding (c : Collection) (v : Value) : Value :=
  .collectionOf c.kind c.elem (c.elems.filter fun e => !(e == v))

/-- All elements of both collections. -/
def union (c d : Collection) (kind : Kind) (elem : Ty) : Value :=
  .collectionOf kind elem (c.elems ++ d.elems)

/-- How often each value occurs in a list. -/
def occurrences (elems : List Value) : Std.TreeMap Value Nat Value.cmp :=
  elems.foldl (fun counts v => counts.insert v (counts.getD v 0 + 1)) ∅

/-- The elements that find an equal one among those still available; each takes one of them. -/
def matched (available : Std.TreeMap Value Nat Value.cmp) : List Value → List Value
  | [] => []
  | v :: vs =>
    match available.getD v 0 with
    | 0 => matched available vs
    | n + 1 => v :: matched (available.insert v n) vs

/-- The elements in both collections, as often as in the one that has fewer. -/
def intersection (c d : Collection) (kind : Kind) : Value :=
  .collectionOf kind c.elem (matched (occurrences d.elems) c.elems)

/-- The elements that are not in an index. -/
def outside (index : Index) (elems : List Value) : List Value :=
  elems.filter fun v => !index.has v

/-- The elements that the other collection does not contain. -/
def difference (c d : Collection) : Value :=
  .collectionOf c.kind c.elem (outside d.index c.elems)

/-- The elements that exactly one of the two collections contains. -/
def symmetricDifference (c d : Collection) : Value :=
  .collectionOf c.kind c.elem (outside d.index c.elems ++ outside c.index d.elems)

/-- Whether all elements of the other collection are elements. -/
def includesAll (c d : Collection) : Bool :=
  let index := c.index
  d.elems.all index.has

/-- Whether no element of the other collection is an element. -/
def excludesAll (c d : Collection) : Bool :=
  let index := c.index
  d.elems.all fun v => !index.has v

mutual

/-- The values inside all levels of collection. -/
def leaves : Value → List Value
  | .collection _ _ elems => leavesOfAll elems
  | v => [v]
  termination_by structural v => v

def leavesOfAll : List Value → List Value
  | [] => []
  | v :: vs => leaves v ++ leavesOfAll vs
  termination_by structural vs => vs

end

/-- The collection of the values inside all levels of collection. -/
def flatten (c : Collection) : Value :=
  .collectionOf c.kind c.elem.innermost (leavesOfAll c.elems)

end Collection

end ObjectConstraint
