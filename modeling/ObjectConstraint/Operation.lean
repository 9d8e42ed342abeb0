/-!
# The standard operations

The operations that every model has, and how each takes undefined operands.
-/

namespace ObjectConstraint

/-- A standard operation. -/
inductive Operation where
  -- connectives and negation
  | and
  | or
  | xor
  | implies
  | not
  -- on any value
  | eq
  | ne
  | isUndefined
  | isDefined
  -- on numbers
  | add
  | sub
  | mul
  | div
  | neg
  | abs
  | floor
  | round
  | max
  | min
  | intDiv
  | mod
  -- order of numbers, strings and dates
  | lt
  | gt
  | le
  | ge
  -- on strings
  | concat
  | length
  | toUpper
  | toLower
  | substring
  | toInteger
  | toReal
  -- on collections
  | size
  | isEmpty
  | notEmpty
  | includes
  | excludes
  | count
  | includesAll
  | excludesAll
  | sum
  | maxElement
  | minElement
  | including
  | excluding
  | union
  | intersection
  | difference
  | symmetricDifference
  | flatten
  | asSet
  | asBag
  | asSequence
  | asOrderedSet
  | first
  | last
  | elementAt
  | append
  | prepend
  | indexOf
  | subSequence
  deriving DecidableEq, Repr

/-- How an operation takes undefined operands. -/
inductive Strictness where
  /-- An undefined receiver or argument makes the result undefined. -/
  | strict
  /-- An undefined receiver makes the result undefined; arguments are element values, which may be
  undefined. -/
  | receiver
  /-- The operation looks at undefined operands itself. -/
  | lenient
  deriving DecidableEq, Repr

namespace Operation

def strictness : Operation → Strictness
  | and | or | xor | implies | eq | ne | isUndefined | isDefined => .lenient
  | includes | excludes | count | including | excluding | append | prepend | indexOf => .receiver
  | _ => .strict

/-- The binary connectives, whose right operand may stay unevaluated. -/
def isConnective : Operation → Bool
  | and | or | xor | implies => true
  | _ => false

end Operation

end ObjectConstraint
