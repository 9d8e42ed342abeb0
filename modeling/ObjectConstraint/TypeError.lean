import ObjectConstraint.LoopKind
import ObjectConstraint.Ty

/-!
# Why a tree is refused

Each cause for which the construction of an expression can fail, and its message.
-/

namespace ObjectConstraint

/-- A place in an expression where a type is expected. -/
inductive Place where
  | argument (param cls operation : String)
  | letValue (name : String)
  | initialValue (accumulator : String)
  | iterateBody
  | closureBody
  | rangeStart
  | rangeEnd
  | element (kind : Kind)
  | ifCondition
  | loopBody (kind : LoopKind)
  deriving DecidableEq, Repr

/-- The place as messages name it. -/
def Place.text : Place → String
  | argument param cls operation => "argument " ++ param ++ " of " ++ cls ++ "::" ++ operation
  | letValue name => "let " ++ name
  | initialValue accumulator => "initial value of " ++ accumulator
  | iterateBody => "iterate body"
  | closureBody => "closure body"
  | rangeStart => "range start"
  | rangeEnd => "range end"
  | element kind => kind.text ++ " literal"
  | ifCondition => "if condition"
  | loopBody kind => kind.text ++ " body"

/-- A type error found while a tree is built. -/
inductive TypeError where
  /-- A type does not conform to the one expected at its place. -/
  | mismatch (expected found : Ty) (place : Place)
  /-- A query operation of the model is called with the wrong number of arguments. -/
  | arity (cls operation : String) (expected found : Nat)
  /-- The receiver's type has no operation of this name for these arguments. -/
  | unknownOperation (receiver : Ty) (name : String) (args : List Ty)
  | undefinedClass (name : String)
  | undefinedProperty (ty : Ty) (name : String)
  | undefinedVariable (name : String)
  | notACollection (ty : Ty)
  | expectedBoolean (found : Ty) (place : Place)
  /-- The keys of a sort have no order. -/
  | notOrderable (found : Ty)
  /-- The loop does not take this number of iterator variables. -/
  | invalidIterators (kind : LoopKind) (found : Nat)
  /-- Neither type of a cast conforms to the other. -/
  | invalidCast (source target : Ty)
  | duplicatePart (name : String)
  deriving DecidableEq, Repr

/-- The message of a type error. -/
def TypeError.message : TypeError → String
  | mismatch expected found place =>
    "type mismatch in " ++ place.text ++ ": expected " ++ expected.text ++ ", found " ++ found.text
  | arity cls operation expected found =>
    "wrong number of arguments to " ++ cls ++ "::" ++ operation ++ ": expected "
      ++ toString expected ++ ", found " ++ toString found
  | unknownOperation receiver name args =>
    "no operation " ++ receiver.text ++ "." ++ name ++ "(" ++ ", ".intercalate (args.map Ty.text)
      ++ ") is defined"
  | undefinedClass name => "undefined class: " ++ name
  | undefinedProperty ty name => "type " ++ ty.text ++ " has no property " ++ name
  | undefinedVariable name => "undefined variable: " ++ name
  | notACollection ty => "expected a collection, found " ++ ty.text
  | expectedBoolean found place => place.text ++ " must be boolean, found " ++ found.text
  | notOrderable found => "values of type " ++ found.text ++ " are not ordered"
  | invalidIterators kind found =>
    kind.text ++ " does not accept " ++ toString found ++ " iterator variable(s)"
  | invalidCast source target => "cannot cast " ++ source.text ++ " to " ++ target.text
  | duplicatePart name => "duplicate tuple part: " ++ name

end ObjectConstraint
