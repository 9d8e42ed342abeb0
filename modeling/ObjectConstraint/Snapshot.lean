import ObjectConstraint.Conformance
import ObjectConstraint.ObjectModel
import ObjectConstraint.Value.Collection

/-!
# Snapshots

An object model kept in memory: classes with their attributes, association ends and query
operations, objects with the values of their attributes, and links between objects.

* `addClass`, `addAttribute`, … — the steps that make a snapshot.
* `toModel` — the object model of a snapshot. What a class declares is found on the class or on the
  nearest of its ancestors that declares it.
-/

namespace ObjectConstraint

/-- What a class declares; of two entries for one name the newer one, in front, counts. -/
structure ClassDef where
  superclasses : List String
  attributes : List (String × Ty)
  ends : List (String × AssociationEnd)
  operations : List (String × Signature)

/-- A class that declares nothing. -/
def ClassDef.empty : ClassDef := ⟨[], [], [], []⟩

/-- An object with the values of its attributes, newest first. -/
structure ObjectRecord where
  object : ObjectRef
  attributes : List (String × Value)

/-- A link from one object to another through a role. -/
structure Link where
  source : Nat
  role : String
  target : Nat
  deriving DecidableEq, Repr

/-- An object model in memory. -/
structure Snapshot where
  /-- The classes, each under one name. -/
  classes : List (String × ClassDef)
  /-- The objects in the order of creation; the identity of an object is its place. -/
  objects : List ObjectRecord
  /-- The links in the order of creation. -/
  links : List Link
  /-- The bodies of query operations under class and name, newest first. -/
  bodies : List ((String × String) × Expr)

namespace Snapshot

def empty : Snapshot := ⟨[], [], [], []⟩

/-! ### Making a snapshot -/

/-- Changes the definition of a class; a class not yet declared is added. -/
def changeClass (name : String) (change : ClassDef → ClassDef) :
    List (String × ClassDef) → List (String × ClassDef)
  | [] => [(name, change .empty)]
  | (other, d) :: classes =>
    if other = name then (other, change d) :: classes
    else (other, d) :: changeClass name change classes

/-- Declares a class with its superclasses, which replace those it had. -/
def addClass (s : Snapshot) (name : String) (superclasses : List String) : Snapshot :=
  { s with classes := changeClass name (fun d => { d with superclasses }) s.classes }

def addAttribute (s : Snapshot) (cls name : String) (ty : Ty) : Snapshot :=
  { s with
    classes :=
      changeClass cls (fun d => { d with attributes := (name, ty) :: d.attributes }) s.classes }

def addEnd (s : Snapshot) (cls role : String) (e : AssociationEnd) : Snapshot :=
  { s with
    classes := changeClass cls (fun d => { d with ends := (role, e) :: d.ends }) s.classes }

def addOperation (s : Snapshot) (cls name : String) (signature : Signature) : Snapshot :=
  { s with
    classes :=
      changeClass cls (fun d => { d with operations := (name, signature) :: d.operations })
        s.classes }

/-- Gives a query operation of a class its body. -/
def setBody (s : Snapshot) (cls name : String) (body : Expr) : Snapshot :=
  { s with bodies := ((cls, name), body) :: s.bodies }

/-- The object that is created next. -/
def nextObject (s : Snapshot) (cls name : String) : ObjectRef := ⟨s.objects.length, cls, name⟩

/-- Creates an object. -/
def createObject (s : Snapshot) (cls name : String) : Snapshot :=
  { s with objects := s.objects ++ [⟨s.nextObject cls name, []⟩] }

/-- Sets an attribute of an object; nothing happens for an object that was not created. -/
def setAttribute (s : Snapshot) (object : ObjectRef) (name : String) (v : Value) : Snapshot :=
  { s with
    objects := s.objects.modify object.id fun record =>
      { record with attributes := (name, v) :: record.attributes } }

/-- Links two objects through a role. -/
def link (s : Snapshot) (source : ObjectRef) (role : String) (target : ObjectRef) : Snapshot :=
  { s with links := s.links ++ [⟨source.id, role, target.id⟩] }

/-! ### Reading a snapshot -/

def hierarchy (s : Snapshot) : Hierarchy :=
  .ofList (s.classes.map fun entry => (entry.1, entry.2.superclasses))

/-- What the class, or else the nearest ancestor that does, declares. -/
def inherited {α : Type} (s : Snapshot) (cls : String) (get : ClassDef → Option α) : Option α :=
  (s.hierarchy.ancestors cls).findSome? fun c => (s.classes.lookup c).bind get

def schema (s : Snapshot) : Schema where
  toHierarchy := s.hierarchy
  resolveClass name := (s.classes.lookup name).map fun _ => name
  attributeType cls name := s.inherited cls (·.attributes.lookup name)
  associationEnd cls role := s.inherited cls (·.ends.lookup role)
  operation cls name := s.inherited cls (·.operations.lookup name)

def attributeOf (s : Snapshot) (object : ObjectRef) (name : String) : Value :=
  match s.objects[object.id]? with
  | some record => (record.attributes.lookup name).getD .undefined
  | none => .undefined

/-- The objects linked to an object through a role, in the order of the links. -/
def targets (s : Snapshot) (object : ObjectRef) (role : String) : List ObjectRef :=
  s.links.filterMap fun l =>
    if l.source = object.id ∧ l.role = role then s.objects[l.target]?.map (·.object) else none

/-- The objects at an association end of an object. -/
def linked (s : Snapshot) (object : ObjectRef) (role : String) : Value :=
  match s.schema.associationEnd object.cls role with
  | none => .undefined
  | some e =>
    let values := (s.targets object role).map .object
    if e.many then
      .collectionOf (if e.ordered then .orderedSet else .set) (.object e.target) values
    else values.head?.getD .undefined

/-- The objects of a class and of its subclasses, in the order of creation. -/
def instances (s : Snapshot) (cls : String) : List ObjectRef :=
  (s.objects.map (·.object)).filter fun o => s.hierarchy.conformsTo o.cls cls

/-- The object model of a snapshot. -/
def toModel (s : Snapshot) : ObjectModel where
  toSchema := s.schema
  attributeOf := s.attributeOf
  linked := s.linked
  instances := s.instances
  body cls name := s.bodies.lookup (cls, name)

end Snapshot

/-- The object model with further names for some of its classes. -/
def ObjectModel.withAliases (M : ObjectModel) (aliases : List (String × String)) : ObjectModel :=
  { M with toSchema := M.toSchema.withAliases aliases }

end ObjectConstraint
