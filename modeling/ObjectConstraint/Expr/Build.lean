import ObjectConstraint.Expr
import ObjectConstraint.Operation.Typing
import ObjectConstraint.Scope

/-!
# Checked construction of trees

Each constructor checks its operands against the type rules and gives the node its type, so a tree
that is built is a tree that type-checks. A binder takes the construction of its body and runs it
with the bound variables in scope.

* `BuildT` — construction in a scope; the scope outlives a failure.
* `inScope` — runs a construction in a scope of its own, which it closes on success and on failure.
* `Schema.*` — the constructors.
-/

namespace ObjectConstraint

/-- Construction over a monad: it reads and changes the scope, and may end in a type error. -/
abbrev BuildT (m : Type → Type) := ExceptT TypeError (StateT Scope m)

/-- Construction. -/
abbrev Build := BuildT Id

/-- The outcome of a check that needs no scope. -/
abbrev Checked := Except TypeError

namespace Hierarchy

variable (H : Hierarchy)

def expectBoolean (found : Ty) (place : Place) : Checked PUnit :=
  if H.conforms found .boolean then .ok ⟨⟩ else .error (.expectedBoolean found place)

def expect (found expected : Ty) (place : Place) : Checked PUnit :=
  if H.conforms found expected then .ok ⟨⟩ else .error (.mismatch expected found place)

end Hierarchy

/-- The kind and element type of the source of a loop. -/
def sourceParts (ty : Ty) : Checked (Kind × Ty) :=
  match ty with
  | .collection kind elem => .ok (kind, elem)
  | _ => .error (.notACollection ty)

variable {m : Type → Type} [Monad m] {α : Type}

/-! ### Scopes -/

/-- A check as a step of a construction. -/
def check (checked : Checked α) : BuildT m α :=
  ExceptT.mk (pure checked)

/-- Runs a construction with the given variables in a new scope, and closes that scope whether or
not it fails. -/
def inScope (vars : List (String × Ty)) (body : BuildT m α) : BuildT m α :=
  ExceptT.mk fun scope => do
    let (result, inner) ← body.run.run (scope.opened.bindAll vars)
    return (result, inner.closed)

/-- Declares a free variable. -/
def declare (name : String) (ty : Ty) : BuildT m PUnit :=
  modifyThe Scope (·.bind name ty)

/-- A reference to a variable in scope. -/
def variableRef (name : String) : BuildT m Expr := do
  match (← getThe Scope).lookup name with
  | some ty => return .var name ty
  | none => throw (.undefinedVariable name)

/-! ### Constants -/

/-- A constant at its own type. -/
def Expr.const (lit : Literal) : Expr := .literal lit lit.ty

/-- The undefined value at a given type. -/
def Expr.undefinedOf (ty : Ty) : Expr := .literal .undefined ty

namespace Schema

variable (S : Schema)

/-- The object type of a class, from any name of the class. -/
def classType (name : String) : Checked Ty :=
  match S.resolveClass name with
  | some cls => .ok (.object cls)
  | none => .error (.undefinedClass name)

/-! ### Navigation -/

/-- The attribute of the class, or else its association end, under a name. -/
def resolveProperty (cls name : String) : Checked (Property × Ty) :=
  match S.attributeType cls name with
  | some ty => .ok (.attr name, ty)
  | none =>
    match S.associationEnd cls name with
    | some e => .ok (.associationEnd name e.many e.ordered, e.ty)
    | none => .error (.undefinedProperty (.object cls) name)

/-- The type of a property read from every element of a collection: a bag, or a sequence for an
ordered collection, of the property's elements if it is a collection itself. -/
def shorthandType (kind : Kind) (property : Ty) : Ty :=
  .collection (if kind.isOrdered then .sequence else .bag) (property.elem?.getD property)

/-- `source.name`: a property of an object, of every object of a collection, or a tuple part. -/
def navigate (source : Expr) (name : String) : Checked Expr :=
  match source.ty with
  | .object cls => do
    let (property, ty) ← S.resolveProperty cls name
    return .navigate source property false ty
  | .tuple parts =>
    match parts.lookup name with
    | some ty => .ok (.navigate source (.tuplePart name) false ty)
    | none => .error (.undefinedProperty source.ty name)
  | .collection kind (.object cls) => do
    let (property, ty) ← S.resolveProperty cls name
    return .navigate source property true (shorthandType kind ty)
  | ty => .error (.undefinedProperty ty name)

/-! ### Calls -/

/-- Checks that the arguments of a query operation conform to its parameters, in order. -/
def expectArguments (cls operation : String) :
    (params : List (String × Ty)) → (args : List Expr) → Checked PUnit
  | (param, ty) :: params, arg :: args => do
    S.expect arg.ty ty (.argument param cls operation)
    expectArguments cls operation params args
  | _, _ => .ok ⟨⟩

/-- The query operation of the model that a call stands for. -/
def query? (source : Expr) (name : String) : Option (String × Signature) :=
  match source.ty with
  | .object cls => (S.operation cls name).map (cls, ·)
  | _ => none

/-- `source.name(args)`: a query operation of the receiver's class if it has one of this name, else
a standard operation. -/
def call (source : Expr) (name : String) (args : List Expr) : Checked Expr :=
  match S.query? source name with
  | some (cls, signature) =>
    if signature.params.length ≠ args.length then
      .error (.arity cls name signature.params.length args.length)
    else do
      S.expectArguments cls name signature.params args
      return .call name .query source args signature.result
  | none => do
    let (ty, op) ← S.resolve source.ty name (args.map Expr.ty)
    return .call name (.standard op) source args ty

/-- `left op right`. -/
def binary (left : Expr) (op : String) (right : Expr) : Checked Expr :=
  S.call left op [right]

/-- `op operand`. -/
def unary (op : String) (operand : Expr) : Checked Expr :=
  S.call operand op []

/-! ### Control -/

/-- `if condition then onTrue else onFalse endif`. -/
def ifThenElse (condition onTrue onFalse : Expr) : Checked Expr := do
  S.expectBoolean condition.ty .ifCondition
  return .ifThenElse condition onTrue onFalse (S.join onTrue.ty onFalse.ty)

/-- `let name : declared = value in body`; without a declared type the variable has the type of its
value. -/
def letIn (name : String) (declared : Option Ty) (value : Expr) (body : BuildT m Expr) :
    BuildT m Expr := do
  if let some ty := declared then
    check (S.expect value.ty ty (.letValue name))
  let body ← inScope [(name, declared.getD value.ty)] body
  return .letIn name value body body.ty

/-! ### Loops -/

/-- Whether a loop takes this number of iterator variables; `iterate` has a constructor of its
own. -/
def acceptsIterators (kind : LoopKind) (count : Nat) : Bool :=
  kind ≠ .iterate && count ≠ 0 && (count = 1 || kind.takesSeveral)

/-- The type of a loop over a source of the given kind and element type, from the type of its
body. -/
def loopType (kind : LoopKind) (source : Kind) (elem body : Ty) : Checked Ty := do
  if kind.hasBooleanBody then S.expectBoolean body (.loopBody kind)
  match kind with
  | .forAll | .exists | .one | .isUnique => return .boolean
  | .any => return elem
  | .select | .reject => return .collection source elem
  | .collect => return .collection .bag (body.elem?.getD body)
  | .collectNested => return .collection .bag body
  | .sortedBy =>
    unless body.isOrderable do throw (.notOrderable body)
    return .collection (if source.isUnique then .orderedSet else .sequence) elem
  | .closure =>
    S.expect (body.elem?.getD body) elem .closureBody
    return .collection (if source.isOrdered then .orderedSet else .set) elem
  | .iterate => throw (.invalidIterators kind 1)

/-- `source->kind(iterators | body)`, for every loop but `iterate`. -/
def loop (kind : LoopKind) (source : Expr) (iterators : List String) (body : BuildT m Expr) :
    BuildT m Expr := do
  unless acceptsIterators kind iterators.length do
    throw (.invalidIterators kind iterators.length)
  let (sourceKind, elem) ← check (sourceParts source.ty)
  let body ← inScope (iterators.map (·, elem)) body
  let ty ← check (S.loopType kind sourceKind elem body.ty)
  return .loop kind source iterators none body ty

/-- `source->iterate(iterator; accumulator | body)`. -/
def iterate (source : Expr) (iterator : String) (accumulator : Accumulator Expr)
    (body : BuildT m Expr) : BuildT m Expr := do
  let (_, elem) ← check (sourceParts source.ty)
  check (S.expect accumulator.init.ty accumulator.ty (.initialValue accumulator.name))
  let body ← inScope [(iterator, elem), (accumulator.name, accumulator.ty)] body
  check (S.expect body.ty accumulator.ty .iterateBody)
  return .loop .iterate source [iterator] (some accumulator) body accumulator.ty

/-! ### Objects and types -/

/-- `cls.allInstances()`. -/
def allInstances (cls : String) : Checked Expr :=
  match S.resolveClass cls with
  | some canonical => .ok (.allInstances canonical (.collection .set (.object canonical)))
  | none => .error (.undefinedClass cls)

/-- The target of a type test: a class is taken by its canonical name. -/
def testTarget (target : Ty) : Checked Ty :=
  match target with
  | .object cls => S.classType cls
  | _ => .ok target

/-- `source.oclIsKindOf(target)` and its kin. A cast must go up or down. -/
def typeTest (test : TypeTest) (source : Expr) (target : Ty) : Checked Expr := do
  let target ← S.testTarget target
  match test with
  | .isKindOf | .isTypeOf => return .typeTest test source target .boolean
  | .asType =>
    if S.conforms target source.ty || S.conforms source.ty target then
      return .typeTest test source target target
    else throw (.invalidCast source.ty target)

/-! ### Collections and tuples -/

/-- The types of the elements that the parts of a collection literal contribute. -/
def partTypes : List (Part Expr) → Checked (List Ty)
  | [] => .ok []
  | .item e :: parts => do
    return e.ty :: (← partTypes parts)
  | .range first last :: parts => do
    S.expect first.ty .integer .rangeStart
    S.expect last.ty .integer .rangeEnd
    return .integer :: (← partTypes parts)

/-- `kind{parts}`. The element type is the declared one, to which every part must conform, or
else the join of the parts' types. -/
def collection (kind : Kind) (parts : List (Part Expr)) (declared : Option Ty) :
    Checked Expr := do
  let types ← S.partTypes parts
  match declared with
  | some elem =>
    types.forM fun ty => S.expect ty elem (.element kind.concrete)
    return .collection kind.concrete parts (.collection kind.concrete elem)
  | none => return .collection kind.concrete parts (.collection kind.concrete (S.joinAll types))

end Schema

/-- The first name that stands in the list a second time. -/
def firstRepeated (seen : List String) : List String → Option String
  | [] => none
  | name :: names => if name ∈ seen then some name else firstRepeated (name :: seen) names

/-- `Tuple{name = value, ...}`. -/
def Expr.tupleOf (parts : List (String × Expr)) : Checked Expr :=
  match firstRepeated [] (parts.map Prod.fst) with
  | some name => .error (.duplicatePart name)
  | none => .ok (.tuple parts (.tupleOf (parts.map fun part => (part.1, part.2.ty))))

end ObjectConstraint
