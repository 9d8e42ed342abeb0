/-!
# Loops over a collection

The operations that evaluate a body once for each element of a source collection.
-/

namespace ObjectConstraint

/-- The iterator operations. -/
inductive LoopKind where
  | forAll
  | «exists»
  | one
  | any
  | select
  | reject
  | collect
  | collectNested
  | iterate
  | isUnique
  | sortedBy
  | closure
  deriving DecidableEq, Repr

namespace LoopKind

/-- The name of the operation. -/
def text : LoopKind → String
  | forAll => "forAll"
  | «exists» => "exists"
  | one => "one"
  | any => "any"
  | select => "select"
  | reject => "reject"
  | collect => "collect"
  | collectNested => "collectNested"
  | iterate => "iterate"
  | isUnique => "isUnique"
  | sortedBy => "sortedBy"
  | closure => "closure"

/-- Loops whose body is a predicate. -/
def hasBooleanBody : LoopKind → Bool
  | forAll | «exists» | one | any | select | reject => true
  | collect | collectNested | iterate | isUnique | sortedBy | closure => false

/-- Loops that take several iterator variables. -/
def takesSeveral : LoopKind → Bool
  | forAll | «exists» => true
  | one | any | select | reject | collect | collectNested | iterate | isUnique | sortedBy
  | closure => false

end LoopKind

end ObjectConstraint
