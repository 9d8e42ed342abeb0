import ObjectConstraint.Operation

/-!
# Three-valued logic

Truth values with an unknown one, `none`. A connective is known as soon as one operand decides it.

* `Kleene.and_comm`, `Kleene.or_comm`, `Kleene.not_and` — the laws of the connectives.
* `Kleene.decided_left` — what the left operand decides alone is the value of the connective,
  whatever the right operand is.
-/

namespace ObjectConstraint.Kleene

def not : Option Bool → Option Bool := Option.map (!·)

def and : Option Bool → Option Bool → Option Bool
  | some false, _ | _, some false => some false
  | some true, some true => some true
  | _, _ => none

def or : Option Bool → Option Bool → Option Bool
  | some true, _ | _, some true => some true
  | some false, some false => some false
  | _, _ => none

def implies (a b : Option Bool) : Option Bool := or (not a) b

def xor (a b : Option Bool) : Option Bool := and (or a b) (not (and a b))

/-- The value of a connective of which only the left operand is known, if that decides it. -/
def shortCircuit (op : Operation) (left : Option Bool) : Option Bool :=
  match op, left with
  | .and, some false => some false
  | .or, some true => some true
  | .implies, some false => some true
  | _, _ => none

/-- The value of a connective; nothing for an operation that is none. -/
def connective (op : Operation) (a b : Option Bool) : Option Bool :=
  match op with
  | .and => and a b
  | .or => or a b
  | .xor => xor a b
  | .implies => implies a b
  | _ => none

theorem and_comm (a b : Option Bool) : and a b = and b a := by
  rcases a with _ | _ | _ <;> rcases b with _ | _ | _ <;> rfl

theorem or_comm (a b : Option Bool) : or a b = or b a := by
  rcases a with _ | _ | _ <;> rcases b with _ | _ | _ <;> rfl

theorem not_and (a b : Option Bool) : not (and a b) = or (not a) (not b) := by
  rcases a with _ | _ | _ <;> rcases b with _ | _ | _ <;> rfl

/-- What the left operand decides alone is the value, whatever the right operand is. -/
theorem decided_left {op : Operation} {a : Option Bool} {decided : Bool}
    (h : shortCircuit op a = some decided) (b : Option Bool) :
    connective op a b = some decided := by
  rcases a with _ | _ | _ <;> rcases b with _ | _ | _ <;> cases op <;>
    simp_all [shortCircuit, connective, and, or, implies, not]

end ObjectConstraint.Kleene
