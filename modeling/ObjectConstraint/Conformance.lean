import ObjectConstraint.Schema

/-!
# Conformance and joins

A type conforms to another when each of its values may stand where the other is expected. The
relation depends on the class hierarchy alone.

* `Hierarchy.conforms` — the relation on types.
* `Hierarchy.join` — a common supertype of two types: the greater one if they are related, else
  built from the parts, else `OclAny`.
* `Hierarchy.joinAll` — the join of a list, `OclVoid` for none.
-/

namespace ObjectConstraint.Hierarchy

variable (H : Hierarchy)

mutual

/-- Whether every value of the first type may be used where the second is expected. -/
def conforms (a b : Ty) : Bool :=
  a = b ||
    match a, b with
    | .void, _ | _, .any => true
    | .unlimitedNatural, .integer | .unlimitedNatural, .real | .integer, .real => true
    | .object sub, .object sup => H.conformsTo sub sup
    | .collection k e, .collection l f => (k = l || l = .collection) && conforms e f
    | .tuple ps, .tuple qs => ps.length = qs.length && conformsParts ps qs
    | _, _ => false
  termination_by structural a

/-- Whether every part has a part of the same name in `qs` to whose type it conforms. -/
def conformsParts (ps qs : List (String × Ty)) : Bool :=
  match ps with
  | [] => true
  | (name, t) :: ps =>
    (match qs.lookup name with
      | some u => conforms t u
      | none => false) && conformsParts ps qs
  termination_by structural ps

end

/-- The nearest class at or above `c`, in breadth-first order, to which `d` conforms. -/
def commonSuperclass (c d : String) : Option String :=
  (H.ancestors c).find? (H.conformsTo d)

/-- The kind of a join of two collections: their kind if it is the same, else the abstract one. -/
def joinKind (k l : Kind) : Kind :=
  if k = l then k else .collection

mutual

/-- A common supertype of two types. -/
def join (a b : Ty) : Ty :=
  if H.conforms a b then b
  else if H.conforms b a then a
  else
    match a, b with
    | .object c, .object d => ((H.commonSuperclass c d).map .object).getD .any
    | .collection k e, .collection l f => .collection (joinKind k l) (join e f)
    | .tuple ps, .tuple qs =>
      if ps.map Prod.fst = qs.map Prod.fst then .tuple (joinParts ps qs) else .any
    | _, _ => .any
  termination_by structural a

/-- The joins of the parts of two tuples that have the same names. -/
def joinParts (ps qs : List (String × Ty)) : List (String × Ty) :=
  match ps, qs with
  | (name, t) :: ps, (_, u) :: qs => (name, join t u) :: joinParts ps qs
  | _, _ => []
  termination_by structural ps

end

/-- The join of a list of types, from the left; `OclVoid` for none. -/
def joinAll (types : List Ty) : Ty :=
  types.foldl H.join .void

end ObjectConstraint.Hierarchy
