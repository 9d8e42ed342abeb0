import ObjectConstraint.Evaluation.Context
import ObjectConstraint.Value.Collection

/-!
# Evaluation with effects, and loops

`EvalM` is a computation on a context: it ends with a value, an evaluation error, or out of fuel,
and the context it leaves is kept in each case. The loops here run a given computation on the
elements of a collection, in order, and stop as soon as the rest cannot matter.

* `bracket`, `withBinding` — a computation between two changes of the context, the second of which
  is made however the computation ends.
* `scan`, `quantify` — `forAll` and `exists` over one and over several iterators.
* `closureFrom` — the values reached by one step or more.
-/

namespace ObjectConstraint

/-- Why an evaluation stops without a value. -/
inductive Stop where
  | error (e : EvalError)
  | outOfFuel

/-- A computation on a context. -/
abbrev EvalM := ExceptT Stop (StateM Context)

namespace EvalM

variable {α : Type}

def fail (e : EvalError) : EvalM α := throw (.error e)

def malformed (detail : Malformed) : EvalM α := fail (.malformed detail)

/-- A computation after a change of the context, with another change after it however it ends. -/
def bracket (before after : Context → Context) (act : EvalM α) : EvalM α :=
  ExceptT.mk fun ctx =>
    let (result, inner) := act.run.run (before ctx)
    (result, after inner)

/-- A computation with a variable bound. -/
def withBinding (name : String) (v : Value) (act : EvalM α) : EvalM α :=
  bracket (·.bind name v) Context.unbind act

/-- The evaluation of a node between its entry and its exit. A node without a value is left with
the undefined one, after the path to it has been kept. -/
def observed (e : Expr) (act : EvalM Value) : EvalM Value :=
  ExceptT.mk fun ctx =>
    match act.run.run (ctx.enter e) with
    | (.ok v, inner) => (.ok v, inner.exit e v)
    | (.error stop, inner) => (.error stop, inner.recordFailure.exit e .undefined)

/-! ### Loops over elements -/

/-- The results of a computation on every element. -/
def forEach (act : Value → EvalM α) : List Value → EvalM (List α)
  | [] => pure []
  | x :: xs => do
    let result ← act x
    return result :: (← forEach act xs)

/-- Tests the elements until one does not have the truth value `wanted`: that truth value, or
nothing, is the result. If all have it, it is the result. -/
def scan (wanted : Bool) (test : Value → EvalM (Option Bool)) : List Value → EvalM (Option Bool)
  | [] => pure (some wanted)
  | x :: xs => do
    match ← test x with
    | some b => if b = wanted then scan wanted test xs else return some b
    | none => return none

/-- Tests the body on every choice of elements for the iterators, the first iterator changing most
slowly. -/
def quantify (wanted : Bool) (elems : List Value) (body : EvalM (Option Bool)) :
    (iterators : List String) → EvalM (Option Bool)
  | [] => body
  | iterator :: rest =>
    scan wanted (fun x => withBinding iterator x (quantify wanted elems body rest)) elems

/-- Whether exactly one element passes, given whether one has passed before; nothing if a test has
no truth value. The second element that passes ends the loop. -/
def exactlyOne (test : Value → EvalM (Option Bool)) (found : Bool) :
    List Value → EvalM (Option Bool)
  | [] => pure (some found)
  | x :: xs => do
    match ← test x with
    | some true => if found then return some false else exactlyOne test true xs
    | some false => exactlyOne test found xs
    | none => return none

/-- The first element that passes; undefined if there is none, or if a test before it has no truth
value. -/
def firstPassing (test : Value → EvalM (Option Bool)) : List Value → EvalM Value
  | [] => pure .undefined
  | x :: xs => do
    match ← test x with
    | some true => return x
    | some false => firstPassing test xs
    | none => return .undefined

/-- The elements with the truth value `wanted`; nothing if a test has no truth value. -/
def keep (wanted : Bool) (test : Value → EvalM (Option Bool)) :
    List Value → EvalM (Option (List Value))
  | [] => pure (some [])
  | x :: xs => do
    match ← test x with
    | some b =>
      let kept ← keep wanted test xs
      return if b = wanted then kept.map (x :: ·) else kept
    | none => return none

/-- The elements with their keys; nothing if a key is undefined. -/
def withKeys (key : Value → EvalM Value) : List Value → EvalM (Option (List (Value × Value)))
  | [] => pure (some [])
  | x :: xs => do
    let k ← key x
    if k.isUndefined then return none
    else return (← withKeys key xs).map ((k, x) :: ·)

/-- The result of each element, from left to right, starting from `acc`. -/
def foldEach (step : Value → Value → EvalM Value) (acc : Value) : List Value → EvalM Value
  | [] => pure acc
  | x :: xs => do foldEach step (← step acc x) xs

/-! ### Closure -/

/-- The values that a step of a closure leads to: the elements of a collection, nothing for the
undefined value, else the value itself. -/
def stepTargets (v : Value) : List Value :=
  match v with
  | .collection _ _ elems => elems
  | .undefined => []
  | v => [v]

/-- The values that the steps of a level newly reach, in the order of the elements of the level and
of what each step leads to; and what is known after them. -/
def discover (act : Value → EvalM Value) (known : Value.Known) :
    (level : List Value) → EvalM (List Value × Value.Known)
  | [] => pure ([], known)
  | x :: level => do
    let targets := stepTargets (← act x)
    let (found, known) := Value.firstOccurrences known (targets.filter (!·.isUndefined))
    let (others, known) ← discover act known level
    return (found ++ others, known)

/-- Breadth-first search, level by level: the values that the steps of one level newly reach are the
next one. -/
def closureFrom (act : Value → EvalM Value) :
    (fuel : Nat) → (known : Value.Known) → (level : List Value) → EvalM (List Value)
  | _, _, [] => pure []
  | 0, _, _ :: _ => throw .outOfFuel
  | fuel + 1, known, x :: level => do
    let (next, known) ← discover act known (x :: level)
    return next ++ (← closureFrom act fuel known next)

end EvalM

end ObjectConstraint
