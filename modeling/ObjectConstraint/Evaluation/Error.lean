import ObjectConstraint.LoopKind
import ObjectConstraint.Value.Text

/-!
# Evaluation errors

A tree that does not fit itself or its bindings. Failures of meaning, such as a division by zero,
are undefined values and no errors.
-/

namespace ObjectConstraint

/-- How a tree fails to make sense. -/
inductive Malformed where
  /-- A connective with one operand. -/
  | missingOperand (operation : String)
  /-- A property read from a value that cannot have it. -/
  | unreadable (property : String) (value : Value)
  /-- A query operation called on a value that is no object. -/
  | notAnObject (operation : String) (value : Value)
  | wrongArguments (cls operation : String) (expected found : Nat)
  | noAccumulator
  | noIterator (kind : LoopKind)

def Malformed.text : Malformed → String
  | missingOperand operation => operation ++ " without operand"
  | unreadable property value => "cannot read " ++ property ++ " from " ++ value.text
  | notAnObject operation value => operation ++ " called on " ++ value.text
  | wrongArguments cls operation expected found =>
    cls ++ "::" ++ operation ++ " expects " ++ toString expected ++ " arguments, got "
      ++ toString found
  | noAccumulator => "iterate without accumulator"
  | noIterator kind => kind.text ++ " without iterator variable"

/-- An evaluation error. -/
inductive EvalError where
  | unbound (name : String)
  | malformed (detail : Malformed)

def EvalError.message : EvalError → String
  | unbound name => "unbound variable: " ++ name
  | malformed detail => "malformed expression: " ++ detail.text

end ObjectConstraint
