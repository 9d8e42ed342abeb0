import ObjectConstraint.Expr
import ObjectConstraint.Schema
import ObjectConstraint.Value

/-!
# Object models

What an expression may ask about objects, beside the schema of their classes. Missing data is the
undefined value and never an error.
-/

namespace ObjectConstraint

/-- A schema with its objects. -/
structure ObjectModel extends Schema where
  /-- The value of an attribute, undefined while it is not set. -/
  attributeOf : (object : ObjectRef) → (name : String) → Value
  /-- The objects at an association end: an object or undefined for an end with at most one, else a
  set or an ordered set. -/
  linked : (object : ObjectRef) → (role : String) → Value
  /-- The objects of a class and of its subclasses. -/
  instances : (cls : String) → List ObjectRef
  /-- The body of a query operation declared on the class itself. -/
  body : (cls name : String) → Option Expr

/-- The definition of a query operation that an object of a class runs: the body and signature of
the first class, of the class and its ancestors, that has a body for it. -/
def ObjectModel.definition (M : ObjectModel) (cls name : String) : Option (Expr × Signature) :=
  (M.ancestors cls).findSome? fun c => do
    let body ← M.body c name
    let signature ← M.operation c name
    return (body, signature)

end ObjectConstraint
