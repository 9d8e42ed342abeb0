import ObjectConstraint.Hierarchy
import ObjectConstraint.Ty

/-!
# The schema of a model

What an expression may ask about classes before there are objects: which names are classes, their
attributes, association ends and query operations, each declared on the class or inherited.

* `Schema.empty` — the schema of expressions over values alone.
* `Schema.withAliases` — the same schema with further names for some classes.
-/

namespace ObjectConstraint

/-- One end of an association, as seen from the class at the other end. -/
structure AssociationEnd where
  /-- The class at the far end. -/
  target : String
  /-- Whether more than one object may be linked. -/
  many : Bool
  /-- Whether the linked objects are kept in order. -/
  ordered : Bool
  deriving DecidableEq, Repr

namespace AssociationEnd

/-- An end with at most one object. -/
def toOne (target : String) : AssociationEnd := ⟨target, false, false⟩

/-- An end with any number of objects. -/
def toMany (target : String) : AssociationEnd := ⟨target, true, false⟩

/-- An end with any number of objects, in order. -/
def toManyOrdered (target : String) : AssociationEnd := ⟨target, true, true⟩

/-- The type of the end read from one object. -/
def ty (e : AssociationEnd) : Ty :=
  match e.many, e.ordered with
  | false, _ => .object e.target
  | true, false => .collection .set (.object e.target)
  | true, true => .collection .orderedSet (.object e.target)

end AssociationEnd

/-- The signature of a query operation: its parameters in the order of the call, and its result. -/
structure Signature where
  params : List (String × Ty)
  result : Ty
  deriving DecidableEq, Repr

/-- What is known of the classes of a model. Classes are addressed by their canonical names. -/
structure Schema extends Hierarchy where
  /-- The canonical name of a class, from any of its names. -/
  resolveClass : String → Option String
  /-- The type of an attribute declared on the class or inherited. -/
  attributeType : (cls name : String) → Option Ty
  /-- The association end of the class under a role name. -/
  associationEnd : (cls role : String) → Option AssociationEnd
  /-- The signature of a query operation declared on the class or inherited. -/
  operation : (cls name : String) → Option Signature

namespace Schema

/-- The schema without a class. -/
def empty : Schema where
  toHierarchy := .empty
  resolveClass _ := none
  attributeType _ _ := none
  associationEnd _ _ := none
  operation _ _ := none

/-- The schema in which each name in `aliases` stands for the class beside it; of two entries for
one name the first counts. -/
def withAliases (S : Schema) (aliases : List (String × String)) : Schema :=
  { S with resolveClass := fun name => (aliases.lookup name).or (S.resolveClass name) }

end Schema

end ObjectConstraint
