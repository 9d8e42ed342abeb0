import ObjectConstraint.Parts

/-!
# Types of the constraint language

A type is a primitive, `OclVoid` (the type of the undefined value), `OclAny` (the top), the type
of the objects of a class, a collection of a kind, or a tuple. Tuple types are made by
`Ty.tupleOf`, which holds the parts by name.

* `Ty.same_iff` — the equality test on types is equality.
* `text` — the written form of a type, as it stands in messages and in printed trees.
* `componentInduction` — what passes from the components of a type to the type holds of every type.
-/

namespace ObjectConstraint

/-- The kinds of collection. `collection` is the abstract kind above the other four: types have
it, values never do. -/
inductive Kind where
  | collection
  | set
  | bag
  | sequence
  | orderedSet
  deriving DecidableEq, Repr

namespace Kind

/-- Ordered kinds keep their elements in the order of insertion. -/
def isOrdered : Kind → Bool
  | sequence | orderedSet => true
  | collection | set | bag => false

/-- Unique kinds hold no element twice. -/
def isUnique : Kind → Bool
  | set | orderedSet => true
  | collection | bag | sequence => false

def text : Kind → String
  | collection => "Collection"
  | set => "Set"
  | bag => "Bag"
  | sequence => "Sequence"
  | orderedSet => "OrderedSet"

/-- The kind that values have: an abstract collection is made as a bag. -/
def concrete : Kind → Kind
  | collection => bag
  | kind => kind

/-- The place of a kind when collections of different kinds are compared. -/
def rank : Kind → Nat
  | collection => 0
  | set => 1
  | bag => 2
  | sequence => 3
  | orderedSet => 4

theorem concrete_ne_collection (kind : Kind) : kind.concrete ≠ collection := by
  cases kind <;> decide

theorem concrete_of_ne {kind : Kind} (h : kind ≠ collection) : kind.concrete = kind := by
  cases kind <;> first | rfl | exact absurd rfl h

theorem rank_injective {a b : Kind} (h : a.rank = b.rank) : a = b := by
  cases a <;> cases b <;> simp_all [rank]

end Kind

/-- A type. -/
inductive Ty where
  | boolean
  | integer
  | unlimitedNatural
  | real
  | string
  | date
  /-- The type of the undefined value, below every type. -/
  | void
  /-- The type above every type. -/
  | any
  | object (cls : String)
  | collection (kind : Kind) (elem : Ty)
  /-- A tuple with its parts ascending by name; see `Ty.tupleOf`. -/
  | tuple (parts : List (String × Ty))
  deriving Repr, Inhabited

namespace Ty

/-! ### Equality -/

mutual

/-- Whether two types are the same. -/
def same : Ty → Ty → Bool
  | boolean, boolean | integer, integer | unlimitedNatural, unlimitedNatural | real, real
  | string, string | date, date | void, void | any, any => true
  | object c, object d => c == d
  | collection k e, collection l f => k == l && e.same f
  | tuple ps, tuple qs => sameParts ps qs
  | _, _ => false
  termination_by structural a => a

def sameParts : List (String × Ty) → List (String × Ty) → Bool
  | [], [] => true
  | (n, t) :: ps, (m, u) :: qs => n == m && t.same u && sameParts ps qs
  | _, _ => false
  termination_by structural ps => ps

end

mutual

theorem same_iff : ∀ a b : Ty, a.same b = true ↔ a = b
  | boolean, b | integer, b | unlimitedNatural, b | real, b | string, b | date, b | void, b
  | any, b => by cases b <;> simp [same]
  | object _, b => by cases b <;> simp [same]
  | collection _ e, b => by cases b <;> simp [same, same_iff e]
  | tuple ps, b => by cases b <;> simp [same, sameParts_iff ps]

theorem sameParts_iff : ∀ a b : List (String × Ty), sameParts a b = true ↔ a = b
  | [], b => by cases b <;> simp [sameParts]
  | (_, t) :: ps, b => by
    rcases b with _ | ⟨⟨m, u⟩, qs⟩ <;> simp [sameParts, same_iff t, sameParts_iff ps]

end

instance : DecidableEq Ty := fun a b => decidable_of_iff _ (same_iff a b)

/-! ### Forms of type -/

/-- The tuple type with the given parts; a name given twice keeps its last type. -/
def tupleOf (parts : List (String × Ty)) : Ty :=
  tuple (Parts.ofList parts)

def isNumeric : Ty → Bool
  | integer | unlimitedNatural | real => true
  | _ => false

/-- Types whose values are ordered by `<`. -/
def isOrderable : Ty → Bool
  | integer | unlimitedNatural | real | string | date | void => true
  | _ => false

def kind? : Ty → Option Kind
  | collection kind _ => some kind
  | _ => none

def elem? : Ty → Option Ty
  | collection _ elem => some elem
  | _ => none

def isCollection (t : Ty) : Bool :=
  t.kind?.isSome

/-- The type inside all levels of collection. -/
def innermost : Ty → Ty
  | collection _ elem => elem.innermost
  | t => t

theorem innermost_innermost : ∀ t : Ty, t.innermost.innermost = t.innermost
  | collection _ elem => elem.innermost_innermost
  | boolean | integer | unlimitedNatural | real | string | date | void | any | object _
  | tuple _ => rfl

/-- The element type of a node that makes a collection; `OclAny` when the node's type is no
collection. -/
def elemOrAny (t : Ty) : Ty :=
  t.elem?.getD any

mutual

/-- A type in which the parts of every tuple, at any depth, stand ascending by name. -/
def Canonical : Ty → Prop
  | boolean | integer | unlimitedNatural | real | string | date | void | any | object _ => True
  | collection _ elem => elem.Canonical
  | tuple parts => Parts.Ascending parts ∧ CanonicalParts parts
  termination_by structural t => t

def CanonicalParts : List (String × Ty) → Prop
  | [] => True
  | (_, t) :: parts => t.Canonical ∧ CanonicalParts parts
  termination_by structural parts => parts

end

theorem canonicalParts_iff {parts : List (String × Ty)} :
    CanonicalParts parts ↔ ∀ p ∈ parts, p.2.Canonical := by
  induction parts with
  | nil => simp [CanonicalParts]
  | cons p parts ih => simp [CanonicalParts, ih]

theorem canonical_collection {kind : Kind} {elem : Ty} :
    (collection kind elem).Canonical ↔ elem.Canonical :=
  Iff.rfl

theorem canonical_tuple {parts : List (String × Ty)} :
    (tuple parts).Canonical ↔ Parts.Ascending parts ∧ ∀ p ∈ parts, p.2.Canonical := by
  rw [Canonical, canonicalParts_iff]

/-! ### Components -/

/-- The types directly inside a type. -/
def components : Ty → List Ty
  | collection _ elem => [elem]
  | tuple parts => parts.map Prod.snd
  | _ => []

theorem sizeOf_lt_of_mem_components {t u : Ty} (h : u ∈ t.components) : sizeOf u < sizeOf t := by
  cases t with
  | collection kind elem =>
    obtain rfl := List.mem_singleton.mp h
    rw [collection.sizeOf_spec]
    omega
  | tuple parts =>
    obtain ⟨⟨name, part⟩, hmem, rfl⟩ := List.mem_map.mp h
    have := List.sizeOf_lt_of_mem hmem
    simp at this ⊢
    omega
  | _ => cases h

/-- What passes from the components of a type to the type holds of every type. -/
theorem componentInduction {motive : Ty → Prop}
    (step : ∀ t : Ty, (∀ u ∈ t.components, motive u) → motive t) (t : Ty) : motive t :=
  step t fun u h =>
    have := sizeOf_lt_of_mem_components h
    componentInduction step u
  termination_by sizeOf t

/-! ### Written form -/

mutual

/-- The written form of a type. -/
def text : Ty → String
  | boolean => "Boolean"
  | integer => "Integer"
  | unlimitedNatural => "UnlimitedNatural"
  | real => "Real"
  | string => "String"
  | date => "Date"
  | void => "OclVoid"
  | any => "OclAny"
  | object cls => cls
  | collection kind elem => kind.text ++ "(" ++ elem.text ++ ")"
  | tuple parts => "Tuple(" ++ ", ".intercalate (partTexts parts) ++ ")"
  termination_by structural t => t

def partTexts : List (String × Ty) → List String
  | [] => []
  | (name, t) :: parts => (name ++ " : " ++ t.text) :: partTexts parts
  termination_by structural parts => parts

end

end Ty

end ObjectConstraint
