import ObjectConstraint.Conformance
import ObjectConstraint.Evaluation.Loop
import ObjectConstraint.ObjectModel
import ObjectConstraint.Operation.Apply

/-!
# Evaluation

The value of a tree in an object model. `evalNode` evaluates one node, given how to evaluate trees;
`eval` ties the knot, with fuel for the depth of the recursion, which the bodies of query
operations can make as deep as they like.

* `eval` — the evaluation of a tree in a context.
* `evaluate`, `evaluateWithTrace`, `evaluateWithListener` — from initial bindings, with a log.
-/

namespace ObjectConstraint

namespace Literal

/-- The value of a constant. A natural number beyond 64-bit integers is undefined. -/
def value : Literal → Value
  | boolean b => .boolean b
  | integer n => .integer n
  | unlimitedNatural (some n) => .ofNat n.toNat
  | unlimitedNatural none => .unlimited
  | real r => .ofBinary64 r
  | string s => .string s
  | date d => .date d
  | undefined => .undefined

end Literal

namespace ObjectModel

variable (M : ObjectModel)

/-- A property of a value. -/
def read (v : Value) (property : Property) : EvalM Value :=
  match v, property with
  | .undefined, _ => pure .undefined
  | .object o, .attr name => pure (M.attributeOf o name)
  | .object o, .associationEnd role _ _ => pure (M.linked o role)
  | .tuple parts, .tuplePart name => pure ((parts.lookup name).getD .undefined)
  | _, _ => .malformed (.unreadable property.name v)

/-- The value of a type test. A cast to `Real` makes a real of an integer. -/
def testType (test : TypeTest) (v : Value) (target : Ty) : Value :=
  if v.isUndefined then .undefined
  else
    match test with
    | .isTypeOf => .boolean (v.dynamicType = target)
    | .isKindOf => .boolean (M.conforms v.dynamicType target)
    | .asType => if M.conforms v.dynamicType target then v.promote target else .undefined

/-- All integers from `lo` to `hi`. -/
def integersFrom (lo hi : Int64) : List Value :=
  (List.range (hi.toInt - lo.toInt + 1).toNat).map fun i : Nat => .ofInt (lo.toInt + i)

/-- A value as the elements that an implicit or explicit `collect` takes from it. -/
def spread (v : Value) : List Value :=
  match v with
  | .collection _ _ elems => elems
  | v => [v]

section Nodes

variable (fuel : Nat) (eval : Expr → EvalM Value)

/-- The elements that the parts of a collection literal give, from left to right; nothing if the
bounds of a range are not integers. -/
def partElements : List (Part Expr) → EvalM (Option (List Value))
  | [] => pure (some [])
  | .item e :: parts => do
    let v ← eval e
    return (← partElements parts).map (v :: ·)
  | .range first last :: parts => do
    let lo ← eval first
    let hi ← eval last
    match lo, hi with
    | .integer lo, .integer hi => return (← partElements parts).map (integersFrom lo hi ++ ·)
    | _, _ => return none

/-- The values of several trees, from left to right. -/
def evalAll : List Expr → EvalM (List Value)
  | [] => pure []
  | e :: es => do
    let v ← eval e
    return v :: (← evalAll es)

/-- The values of the parts of a tuple, from left to right. -/
def evalParts : List (String × Expr) → EvalM (List (String × Value))
  | [] => pure []
  | (name, e) :: parts => do
    let v ← eval e
    return (name, v) :: (← evalParts parts)

/-- A call of a query operation on evaluated operands: the body runs in a frame that holds the
receiver and the arguments alone. -/
def callQuery (name : String) (receiver : Value) (args : List Value) : EvalM Value :=
  match receiver with
  | .undefined => pure .undefined
  | .object o =>
    match M.definition o.cls name with
    | none => do
      modifyThe Context (·.write (.noBody o.cls name))
      return .undefined
    | some (body, signature) =>
      if signature.params.length ≠ args.length then
        .malformed (.wrongArguments o.cls name signature.params.length args.length)
      else
        let vars := ("self", receiver) :: (signature.params.map Prod.fst).zip args
        EvalM.bracket (fun ctx => ctx.pushFrame.bindAll vars) Context.popFrame (eval body)
  | _ => .malformed (.notAnObject name receiver)

/-- A call of a standard operation. The right operand of a connective is evaluated only if the left
one leaves the value open. -/
def callStandard (name : String) (op : Operation) (source : Expr) (args : List Expr) (ty : Ty) :
    EvalM Value :=
  if op.isConnective then do
    let left ← eval source
    match Kleene.shortCircuit op left.bool? with
    | some decided => return .boolean decided
    | none =>
      match args with
      | [] => .malformed (.missingOperand name)
      | arg :: _ => return op.apply left [← eval arg] ty
  else do
    let receiver ← eval source
    return op.apply receiver (← evalAll eval args) ty

/-- An `iterate` loop over evaluated elements. -/
def iterate (iterator : String) (accumulator : Accumulator Expr) (body : Expr)
    (elems : List Value) : EvalM Value := do
  let step := fun acc x =>
    EvalM.withBinding iterator x (EvalM.withBinding accumulator.name acc (eval body))
  EvalM.foldEach step (← eval accumulator.init) elems

/-- A `forAll` or `exists` loop over evaluated elements; `wanted` is the truth value that lets it
go on. -/
def quantified (wanted : Bool) (elems : List Value) (iterators : List String) (body : Expr) :
    EvalM Value := do
  let test := do return (← eval body).bool?
  return .ofBool? (← EvalM.quantify wanted elems test iterators)

/-- A `select` or `reject` loop over evaluated elements; `wanted` is the truth value of the elements
that it keeps. -/
def filtered (wanted : Bool) (source : Kind) (elem : Ty) (elems : List Value)
    (test : Value → EvalM (Option Bool)) : EvalM Value := do
  match ← EvalM.keep wanted test elems with
  | some kept => return .collectionOf source elem kept
  | none => return .undefined

/-- A `sortedBy` loop over evaluated elements: they are sorted by their keys, stably. -/
def sortedBy (source : Kind) (elem : Ty) (elems : List Value) (key : Value → EvalM Value) :
    EvalM Value := do
  match ← EvalM.withKeys key elems with
  | some keyed =>
    let sorted := keyed.mergeSort fun a b => Value.le a.1 b.1
    return .collectionOf (if source.isUnique then .orderedSet else .sequence) elem
      (sorted.map Prod.snd)
  | none => return .undefined

/-- A loop over the elements of a collection of kind `source`; `elem` is the element type of its
result. -/
def loop (kind : LoopKind) (source : Kind) (elem : Ty) (elems : List Value)
    (iterators : List String) (accumulator : Option (Accumulator Expr)) (body : Expr) :
    EvalM Value :=
  let withIterator := fun (run : (Value → EvalM Value) → EvalM Value) =>
    match iterators with
    | [] => .malformed (.noIterator kind)
    | iterator :: _ => run fun x => EvalM.withBinding iterator x (eval body)
  let withTest := fun (run : (Value → EvalM (Option Bool)) → EvalM Value) =>
    withIterator fun act => run fun x => do return (← act x).bool?
  match kind with
  | .forAll => quantified eval true elems iterators body
  | .exists => quantified eval false elems iterators body
  | .iterate =>
    match accumulator, iterators with
    | none, _ => .malformed .noAccumulator
    | some _, [] => .malformed (.noIterator kind)
    | some accumulator, iterator :: _ => iterate eval iterator accumulator body elems
  | .one => withTest fun test => do return .ofBool? (← EvalM.exactlyOne test false elems)
  | .any => withTest fun test => EvalM.firstPassing test elems
  | .select => withTest (filtered true source elem elems)
  | .reject => withTest (filtered false source elem elems)
  | .collect => withIterator fun act => do
    return .collectionOf .bag elem ((← EvalM.forEach act elems).flatMap spread)
  | .collectNested => withIterator fun act => do
    return .collectionOf .bag elem (← EvalM.forEach act elems)
  | .isUnique => withIterator fun act => do
    let results ← EvalM.forEach act elems
    return .boolean ((Value.dropRepeats (Value.ascending results)).length = results.length)
  | .sortedBy => withIterator (sortedBy source elem elems)
  | .closure => withIterator fun act => do
    let reached ← EvalM.closureFrom act fuel ∅ elems
    return .collectionOf (if source.isOrdered then .orderedSet else .set) elem reached

/-- The value of a node, given how to evaluate trees. -/
def evalNode (e : Expr) : EvalM Value :=
  match e with
  | .literal lit _ => pure lit.value
  | .var name _ => do
    match (← getThe Context).lookup name with
    | .ok v => return v
    | .error err => .fail err
  | .navigate source property false _ => do M.read (← eval source) property
  | .navigate source property true ty => do
    match ← eval source with
    | .collection _ _ elems =>
      let values ← EvalM.forEach (M.read · property) elems
      return .collectionOf (ty.kind?.getD .bag) ty.elemOrAny (values.flatMap spread)
    | _ => return .undefined
  | .call name (.standard op) source args ty => callStandard eval name op source args ty
  | .call name .query source args _ => do
    let receiver ← eval source
    M.callQuery eval name receiver (← evalAll eval args)
  | .ifThenElse condition onTrue onFalse _ => do
    match (← eval condition).bool? with
    | some true => eval onTrue
    | some false => eval onFalse
    | none => return .undefined
  | .letIn name value body _ => do
    EvalM.withBinding name (← eval value) (eval body)
  | .loop kind source iterators accumulator body ty => do
    match ← eval source with
    | .collection sourceKind _ elems =>
      loop fuel eval kind sourceKind ty.elemOrAny elems iterators accumulator body
    | _ => return .undefined
  | .allInstances cls _ =>
    return .collectionOf .set (.object cls) ((M.instances cls).map .object)
  | .typeTest test source target _ => return M.testType test (← eval source) target
  | .collection kind parts ty => do
    match ← partElements eval parts with
    | some elems => return .collectionOf kind ty.elemOrAny elems
    | none => return .undefined
  | .tuple parts _ => return .tupleOf (← evalParts eval parts)

end Nodes

/-- The value of a tree, with fuel for the depth of the evaluation. -/
def eval : (fuel : Nat) → Expr → EvalM Value
  | 0, _ => throw .outOfFuel
  | fuel + 1, e => EvalM.observed e (M.evalNode fuel (eval fuel) e)

end ObjectModel

/-! ### Evaluation from initial bindings -/

/-- How trees are evaluated. -/
structure Settings where
  /-- Whether a trace is recorded. -/
  recordTrace : Bool
  /-- The greatest number of entries in a trace; 0 for any. -/
  maxTraceEntries : Nat
  /-- Whether the entry and exit of each node are logged. -/
  logNodes : Bool
  deriving DecidableEq, Repr

namespace Settings

def standard : Settings := ⟨false, 10000, false⟩

/-- The context in which an evaluation with these settings starts. -/
def context (s : Settings) : Context :=
  let ctx := { Context.empty with logNodes := s.logNodes }
  if s.recordTrace then ctx.recording s.maxTraceEntries else ctx

end Settings

/-- The outcome of an evaluation and the context it leaves. -/
structure Run where
  outcome : Except Stop Value
  context : Context

namespace ObjectModel

variable (M : ObjectModel) (fuel : Nat)

/-- Evaluates a tree in a context with further bindings, and logs beginning and end. -/
def run (e : Expr) (bindings : List (String × Value)) (ctx : Context) : Run :=
  let ctx := (ctx.bindAll bindings).write (.evaluating e)
  match ((M.eval fuel e).run.run ctx : Except Stop Value × Context) with
  | (.ok v, ctx) => ⟨.ok v, ctx.write (.evaluated v)⟩
  | (.error (.error err), ctx) =>
    let path := (ctx.failure.map pathText).getD ""
    ⟨.error (.error err), ctx.write (.aborted err e path)⟩
  | (.error .outOfFuel, ctx) => ⟨.error .outOfFuel, ctx⟩

/-- Evaluates a tree. -/
def evaluate (settings : Settings) (e : Expr) (bindings : List (String × Value)) : Run :=
  M.run fuel e bindings settings.context

/-- Evaluates a tree and records a trace, whatever the settings say. -/
def evaluateWithTrace (settings : Settings) (e : Expr) (bindings : List (String × Value)) : Run :=
  M.run fuel e bindings { settings with recordTrace := true }.context

/-- Evaluates a tree and tells a listener of every entry and exit. -/
def evaluateWithListener (settings : Settings) (e : Expr) (bindings : List (String × Value)) :
    Run :=
  M.run fuel e bindings settings.context.listening

end ObjectModel

end ObjectConstraint
