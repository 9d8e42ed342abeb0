import ObjectConstraint.Proofs.Ensures

/-!
# Observers

A listener, a trace and the number of open nodes take note of the walk: a node is entered, or it is
left with a value. Whatever else a context holds, what they have noted follows from these events.

* `Observers.see`, `Observers.seeAll` — what an event leaves in the observers, and a list of them.
* `Context.observers_enter`, `Context.observers_exit` — the walk of a context makes such events.
* `exits` — the entries that a list of events leaves in a trace.
* `Observers.events_seeAll`, `Observers.trace_seeAll` — what a listener and a trace have noted.
-/

namespace ObjectConstraint

/-- The part of a context that takes note of the walk. -/
structure Observers where
  events : Option (Array Event)
  trace : Option Trace
  traceLimit : Nat
  /-- The number of open nodes. -/
  opened : Nat

/-- The entries that events leave in a trace: one for each exit, with the number of nodes that are
still open after it. -/
def exits (opened : Nat) : List Event → List TraceEntry
  | [] => []
  | .entered _ :: events => exits (opened + 1) events
  | .left node result :: events => ⟨opened - 1, node, result⟩ :: exits (opened - 1) events

namespace Observers

/-- The observers after an event. -/
def see (o : Observers) (event : Event) : Observers :=
  let events := o.events.map (Array.push · event)
  match event with
  | .entered _ => { o with events, opened := o.opened + 1 }
  | .left node result =>
    let opened := o.opened - 1
    let trace := o.trace.map (Trace.record · o.traceLimit ⟨opened, node, result⟩)
    { o with events, opened, trace }

def seeAll (o : Observers) (events : List Event) : Observers := events.foldl see o

theorem seeAll_cons (o : Observers) (event : Event) (events : List Event) :
    o.seeAll (event :: events) = (o.see event).seeAll events :=
  rfl

theorem seeAll_append (o : Observers) (events others : List Event) :
    o.seeAll (events ++ others) = (o.seeAll events).seeAll others :=
  List.foldl_append

theorem events_seeAll (o : Observers) (events : List Event) :
    (o.seeAll events).events = o.events.map (· ++ events.toArray) := by
  induction events generalizing o with
  | nil => cases h : o.events <;> simp [seeAll, h]
  | cons event events ih =>
    rw [seeAll_cons, ih]
    cases event <;> cases h : o.events <;> simp [see, h]

theorem trace_seeAll (o : Observers) (events : List Event) :
    (o.seeAll events).trace =
      o.trace.map fun t => (exits o.opened events).foldl (·.record o.traceLimit) t := by
  induction events generalizing o with
  | nil => cases h : o.trace <;> simp [seeAll, exits, h]
  | cons event events ih =>
    rw [seeAll_cons, ih]
    cases event <;> cases h : o.trace <;> simp [see, exits, h]

end Observers

namespace Context

def observers (ctx : Context) : Observers := ⟨ctx.events, ctx.trace, ctx.traceLimit, ctx.depth⟩

theorem observers_enter (ctx : Context) (e : Expr) :
    (ctx.enter e).observers = ctx.observers.see (.entered e) := by
  unfold enter
  rw [writeNode_eq]
  rfl

theorem observers_exit (ctx : Context) (e : Expr) (result : Value) :
    (ctx.exit e result).observers = ctx.observers.see (.left e result) := by
  unfold exit
  dsimp only
  rw [writeNode_eq]
  rfl

theorem observers_unbind (ctx : Context) : ctx.unbind.observers = ctx.observers := by
  unfold unbind
  split <;> rfl

theorem observers_popFrame (ctx : Context) : ctx.popFrame.observers = ctx.observers := by
  unfold popFrame
  split <;> rfl

end Context

end ObjectConstraint
