import ObjectConstraint.Evaluation.Error
import ObjectConstraint.Evaluation.Trace

/-!
# The state of an evaluation

Bindings form one stack, cut into frames: a frame hides all bindings outside it. The nodes entered
and not yet left form a second stack. The first failure keeps that stack as the path to it. A
listener, a trace and a log take note of the walk and do not change it.

* `bind`, `unbind`, `pushFrame`, `popFrame`, `lookup` — the bindings.
* `enter`, `exit`, `recordFailure` — the walk.
-/

namespace ObjectConstraint

/-- A node that has been entered and not yet left. -/
structure OpenNode where
  label : String
  ty : Ty
  deriving DecidableEq, Repr

def OpenNode.text (node : OpenNode) : String := node.label ++ " : " ++ node.ty.text

/-- The open nodes, innermost first. -/
structure Path where
  nodes : List OpenNode
  /-- How many there are. -/
  depth : Nat
  depth_eq : depth = nodes.length

namespace Path

def empty : Path := ⟨[], 0, List.length_nil.symm⟩

/-- The path to a node inside the innermost one. -/
def enter (path : Path) (node : OpenNode) : Path :=
  ⟨node :: path.nodes, path.depth + 1, by simp [path.depth_eq]⟩

/-- The path without the innermost node. -/
def leave (path : Path) : Path :=
  ⟨path.nodes.tail, path.depth - 1, by simp [path.depth_eq]⟩

end Path

/-- A path, outermost node first. -/
def pathText (nodes : List OpenNode) : String :=
  " / ".intercalate (nodes.map OpenNode.text)

/-- What a listener is told. -/
inductive Event where
  | entered (node : Expr)
  | left (node : Expr) (result : Value)

/-- What is written to the log. -/
inductive LogEntry where
  | evaluating (node : Expr)
  | evaluated (result : Value)
  | aborted (error : EvalError) (node : Expr) (path : String)
  /-- A query operation was called that no class of the receiver has a body for. -/
  | noBody (cls operation : String)
  | entered (depth : Nat) (node : Expr)
  | left (depth : Nat) (node : Expr) (result : Value)

/-- The state of an evaluation. -/
structure Context where
  /-- All bindings, newest first. -/
  bindings : List (String × Value)
  /-- The number of bindings in the newest frame. -/
  own : Nat
  /-- The numbers of bindings in the frames outside it, newest first. -/
  outer : List Nat
  /-- The path to the innermost open node. -/
  path : Path
  /-- The path to the first failure, outermost first. -/
  failure : Option (List OpenNode)
  /-- The events so far, for a listener. -/
  events : Option (Array Event)
  /-- The trace so far, if one is recorded. -/
  trace : Option Trace
  /-- The greatest number of entries in the trace; 0 for any. -/
  traceLimit : Nat
  /-- Whether each node is logged. -/
  logNodes : Bool
  log : Array LogEntry

namespace Context

/-- A context without bindings and without observers. -/
def empty : Context where
  bindings := []
  own := 0
  outer := []
  path := .empty
  failure := none
  events := none
  trace := none
  traceLimit := 0
  logNodes := false
  log := #[]

/-- The context with a listener that has been told nothing yet. -/
def listening (ctx : Context) : Context := { ctx with events := some #[] }

/-- The context with an empty trace of at most `limit` entries; 0 for any number. -/
def recording (ctx : Context) (limit : Nat) : Context :=
  { ctx with trace := some .empty, traceLimit := limit }

/-! ### Bindings -/

/-- Binds a name in the newest frame. It hides an older binding of that name. -/
def bind (ctx : Context) (name : String) (v : Value) : Context :=
  { ctx with bindings := (name, v) :: ctx.bindings, own := ctx.own + 1 }

/-- Binds names one after the other. -/
def bindAll (ctx : Context) (vars : List (String × Value)) : Context :=
  vars.foldl (fun ctx var => ctx.bind var.1 var.2) ctx

/-- The bindings of the newest frame, newest first. -/
def visible (ctx : Context) : List (String × Value) := ctx.bindings.take ctx.own

/-- Drops the newest binding of the newest frame, if it has one. -/
def unbind (ctx : Context) : Context :=
  match ctx.own with
  | 0 => ctx
  | own + 1 => { ctx with bindings := ctx.bindings.tail, own }

/-- Begins a frame. -/
def pushFrame (ctx : Context) : Context := { ctx with own := 0, outer := ctx.own :: ctx.outer }

/-- Ends the newest frame with all its bindings, unless it is the outermost one. -/
def popFrame (ctx : Context) : Context :=
  match ctx.outer with
  | [] => ctx
  | own :: outer => { ctx with bindings := ctx.bindings.drop ctx.own, own, outer }

/-- The newest value bound to a name in the newest frame. -/
def lookup (ctx : Context) (name : String) : Except EvalError Value :=
  match ctx.visible.lookup name with
  | some v => .ok v
  | none => .error (.unbound name)

/-! ### The walk -/

/-- The open nodes, innermost first. -/
def openNodes (ctx : Context) : List OpenNode := ctx.path.nodes

/-- The number of open nodes. -/
def depth (ctx : Context) : Nat := ctx.path.depth

/-- Tells the listener, if there is one. -/
def tell (ctx : Context) (event : Event) : Context :=
  { ctx with events := ctx.events.map (·.push event) }

/-- Writes an entry to the log. -/
def write (ctx : Context) (entry : LogEntry) : Context :=
  { ctx with log := ctx.log.push entry }

/-- Writes what happens to a node, with the number of nodes around it, if nodes are logged. -/
def writeNode (ctx : Context) (entry : (depth : Nat) → LogEntry) : Context :=
  if ctx.logNodes then ctx.write (entry ctx.depth) else ctx

/-- Opens a node. -/
def enter (ctx : Context) (e : Expr) : Context :=
  let ctx := (ctx.writeNode (.entered · e)).tell (.entered e)
  { ctx with path := ctx.path.enter ⟨e.label, e.ty⟩ }

/-- Closes the innermost open node, which has been evaluated with the given result. -/
def exit (ctx : Context) (e : Expr) (result : Value) : Context :=
  let ctx := { ctx with path := ctx.path.leave }
  let ctx := (ctx.writeNode (.left · e result)).tell (.left e result)
  { ctx with trace := ctx.trace.map fun t => t.record ctx.traceLimit ⟨ctx.depth, e, result⟩ }

/-- Keeps the open nodes as the path to a failure, unless there was a failure before. -/
def recordFailure (ctx : Context) : Context :=
  { ctx with failure := ctx.failure.or (some ctx.openNodes.reverse) }

/-- The trace, and the context that records no more. -/
def takeTrace (ctx : Context) : Option Trace × Context :=
  (ctx.trace, { ctx with trace := none })

end Context

end ObjectConstraint
