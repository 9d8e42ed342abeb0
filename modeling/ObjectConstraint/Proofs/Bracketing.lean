import ObjectConstraint.Proofs.Calls
import ObjectConstraint.Snapshot

/-!
# The walk is well bracketed

What an evaluation shows to a listener and in a trace comes from the nodes that are visited. Each is
entered, then come the evaluations that it makes, each with all that it shows in turn, and then it
is left with its value, however its evaluation ends. So a whole evaluation is a tree of visits. The
trace has an entry for each exit, with the number of nodes around it as its depth.

* `Visit`, `Visit.events` — the tree of an evaluation, and what a listener is told of it.
* `Visit.Occurs` — a visit that takes place: inside it are the evaluations that its node makes.
* `Visit.Occurs.begun` — if the fuel lasts, all these evaluations are begun.
* `Visit.exits_events_append` — a visit leaves as many nodes open as it finds.
* `ObjectModel.exists_occurs` — every evaluation is a visit that takes place.
* `ObjectModel.eval_wellBracketed` — what an evaluation shows is its visit.
-/

namespace ObjectConstraint

/-! ### The tree of an evaluation -/

/-- The evaluation of a node from a context. -/
inductive Visit where
  /-- It has an outcome, and the evaluations that the node makes are inside it, in their order. -/
  | mk (node : Expr) (start : Context) (outcome : Except Stop Value) (inside : List Visit)
  /-- It is not begun, as there is no fuel left for it. -/
  | unbegun (node : Expr) (start : Context)

namespace Visit

/-- Which evaluation it is. -/
def call : Visit → Call
  | mk node start _ _ => ⟨node, start⟩
  | unbegun node start => ⟨node, start⟩

/-- The value that a node is left with, the undefined one if it has none. -/
def resultOf (outcome : Except Stop Value) : Value := outcome.toOption.getD .undefined

mutual

/-- What a listener is told of a visit. -/
def events : Visit → List Event
  | mk node _ outcome inside =>
    .entered node :: (eventsOfAll inside ++ [.left node (resultOf outcome)])
  | unbegun .. => []
  termination_by structural visit => visit

def eventsOfAll : List Visit → List Event
  | [] => []
  | visit :: visits => visit.events ++ eventsOfAll visits
  termination_by structural visits => visits

end

theorem eventsOfAll_map {ι : Type} (visit : ι → Visit) (xs : List ι) :
    eventsOfAll (xs.map visit) = xs.flatMap fun x => (visit x).events := by
  induction xs with
  | nil => rfl
  | cons x xs ih => rw [List.map_cons, eventsOfAll, ih, List.flatMap_cons]

/-- A visit that takes place with the given fuel. Its outcome is the one of the evaluation of its
node from the context where it starts, and what that shows is what a listener is told of the visit.
Inside it are, in their order, the evaluations that the node makes once it has been entered, each
from the context that the run has come to; and these take place as well. -/
inductive Occurs (M : ObjectModel) : (fuel : Nat) → Visit → Prop
  | unbegun (node : Expr) (start : Context) : Occurs M 0 (.unbegun node start)
  | mk {fuel : Nat} {node : Expr} {start final : Context} {outcome : Except Stop Value}
    {inside : List Visit} (hrun : (M.eval (fuel + 1) node).run.run start = (outcome, final))
    (hseen : final.observers = start.observers.seeAll (Visit.mk node start outcome inside).events)
    (hmakes : Evaluator.Makes (M.eval fuel) (fun eval => M.evalNode fuel eval node)
      (start.enter node) (inside.map call))
    (horder : M.InOrder (M.eval fuel) (start.enter node) node (inside.map call))
    (hinside : ∀ visit ∈ inside, Occurs M fuel visit) :
    Occurs M (fuel + 1) (.mk node start outcome inside)

theorem Occurs.observers_eq {M : ObjectModel} {fuel : Nat} {visit : Visit}
    (h : visit.Occurs M fuel) :
    ((M.eval fuel visit.call.node).run.run visit.call.start).2.observers =
      visit.call.start.observers.seeAll visit.events := by
  cases h with
  | unbegun node start => rfl
  | mk hrun hseen => rwa [call, hrun]

/-- A node has the outcome of the computation inside it, and is left with the value of that. -/
theorem run_observed (e : Expr) (act : EvalM Value) (ctx : Context) :
    ((EvalM.observed e act).run.run ctx).1 = (act.run.run (ctx.enter e)).1 ∧
      ((EvalM.observed e act).run.run ctx).2.observers =
        (act.run.run (ctx.enter e)).2.observers.see
          (.left e (resultOf (act.run.run (ctx.enter e)).1)) := by
  rw [EvalM.run_observed]
  rcases act.run.run (ctx.enter e) with ⟨stop | v, inner⟩
  · exact ⟨rfl, Context.observers_exit inner.recordFailure e .undefined⟩
  · exact ⟨rfl, Context.observers_exit inner e v⟩

/-- No evaluation in the visit is left out because of the fuel. -/
inductive Begun : Visit → Prop
  | mk {node : Expr} {start : Context} {outcome : Except Stop Value} {inside : List Visit}
    (hinside : ∀ visit ∈ inside, Begun visit) : Begun (.mk node start outcome inside)

/-- An evaluation that is not begun has run out of fuel, and so has every one around it. -/
theorem Occurs.begun {M : ObjectModel} {fuel : Nat} {visit : Visit} (h : visit.Occurs M fuel)
    (hfuel : ((M.eval fuel visit.call.node).run.run visit.call.start).1 ≠ .error .outOfFuel) :
    visit.Begun := by
  induction h with
  | unbegun node start => exact absurd rfl hfuel
  | mk hrun hseen hmakes horder hinside ih =>
    refine .mk fun inner hinner => ih inner hinner fun hout => hfuel ?_
    have herror := hmakes.error_eq (List.mem_map_of_mem hinner) hout
    exact (run_observed _ _ _).1.trans herror

/-! ### What a visit leaves in a trace -/

mutual

/-- A visit leaves as many nodes open as it finds. -/
theorem exits_events_append (opened : Nat) (visit : Visit) (others : List Event) :
    exits opened (visit.events ++ others) =
      exits opened visit.events ++ exits opened others := by
  cases visit with
  | mk node start outcome inside =>
    simp only [events, List.cons_append, List.append_assoc, exits, List.nil_append,
      exits_eventsOfAll_append, Nat.add_sub_cancel]
  | unbegun node start => rfl

theorem exits_eventsOfAll_append (opened : Nat) (visits : List Visit) (others : List Event) :
    exits opened (eventsOfAll visits ++ others) =
      exits opened (eventsOfAll visits) ++ exits opened others := by
  cases visits with
  | nil => rfl
  | cons visit visits =>
    simp only [eventsOfAll, List.append_assoc, exits_events_append,
      exits_eventsOfAll_append opened visits]

end

/-- The last entry of a visit is the one of its node. -/
theorem getLast?_exits_events (opened : Nat) (node : Expr) (start : Context)
    (outcome : Except Stop Value) (inside : List Visit) :
    (exits opened (Visit.mk node start outcome inside).events).getLast? =
      some ⟨opened, node, resultOf outcome⟩ := by
  rw [events, exits, exits_eventsOfAll_append, exits, exits, List.getLast?_concat]
  rfl

end Visit

namespace Trace

/-- A trace without limit keeps all its entries. -/
theorem entries_foldl_record (t : Trace) (new : List TraceEntry) :
    (new.foldl (·.record 0) t).entries = t.entries ++ new := by
  induction new generalizing t with
  | nil => simp
  | cons entry new ih => simp [ih, record]

/-- The root is the last entry, if its depth is 0. -/
theorem root_eq (t : Trace) : t.root = t.entries.getLast?.filter (·.depth = 0) := by
  rw [root, entries, List.getLast?_append, List.getLast?_reverse]

end Trace

/-! ### Any tree -/

namespace ObjectModel

variable {M : ObjectModel}

/-- If the evaluations that a node makes are visits, then its own is one, with these inside. -/
theorem exists_occurs_of_calls {fuel : Nat}
    (hcalls : ∀ call : Call, ∃ visit : Visit, visit.call = call ∧ visit.Occurs M fuel) (e : Expr)
    (ctx : Context) :
    ∃ inside, (Visit.mk e ctx ((M.eval (fuel + 1) e).run.run ctx).1 inside).Occurs M (fuel + 1) := by
  choose visit hcall hoccurs using hcalls
  obtain ⟨calls, hmakes, horder⟩ := makes_evalNode M (M.eval fuel) fuel e (ctx.enter e)
  have hinside : (calls.map visit).map Visit.call = calls := by
    simp [Function.comp_def, hcall]
  have hshown (call : Call) : ((M.eval fuel call.node).run.run call.start).2.observers =
      call.start.observers.seeAll (visit call).events := by
    have hseen := (hoccurs call).observers_eq
    rwa [hcall] at hseen
  obtain ⟨houtcome, hobservers⟩ := Visit.run_observed e (M.evalNode fuel (M.eval fuel) e) ctx
  refine ⟨calls.map visit, .mk Prod.mk.eta.symm ?_ ?_ ?_ ?_⟩
  · rw [eval, hobservers, hmakes.observers_eq hshown, Context.observers_enter, houtcome,
      Visit.events, Visit.eventsOfAll_map, Observers.seeAll_cons, Observers.seeAll_append]
    rfl
  · rwa [hinside]
  · rwa [hinside]
  · intro inner hinner
    obtain ⟨call, -, rfl⟩ := List.mem_map.mp hinner
    exact hoccurs call

/-- Every evaluation is a visit that takes place. -/
theorem exists_occurs (M : ObjectModel) (fuel : Nat) (call : Call) :
    ∃ visit : Visit, visit.call = call ∧ visit.Occurs M fuel := by
  induction fuel generalizing call with
  | zero => exact ⟨_, rfl, .unbegun call.node call.start⟩
  | succ fuel ih =>
    obtain ⟨inside, hoccurs⟩ := exists_occurs_of_calls ih call.node call.start
    exact ⟨_, rfl, hoccurs⟩

/-- In a fresh context with a listener and unlimited recording, an evaluation tells the listener of
one visit that takes place: its tree is entered, then come the complete events of the evaluations
that it makes, then it is left with the value that is returned. These are evaluations of its
children in their order, and of the body of a query operation, and they are visits in turn. The
trace has one entry for each exit, with the number of nodes around it as its depth, and its root is
the entry of the tree. If the fuel lasts, no evaluation is left out of the visit. -/
theorem eval_wellBracketed (M : ObjectModel) (fuel : Nat) (e : Expr) (ctx : Context)
    (hevents : ctx.events = some #[]) (htrace : ctx.trace = some .empty)
    (hlimit : ctx.traceLimit = 0) (hdepth : ctx.depth = 0) :
    let outcome := ((M.eval (fuel + 1) e).run.run ctx).1
    let final := ((M.eval (fuel + 1) e).run.run ctx).2
    ∃ inside : List Visit,
      let visit := Visit.mk e ctx outcome inside
      visit.Occurs M (fuel + 1) ∧ (outcome ≠ .error .outOfFuel → visit.Begun) ∧
        final.events = some visit.events.toArray ∧
        ∃ t, final.trace = some t ∧ t.entries = exits 0 visit.events ∧
          t.root = some ⟨0, e, Visit.resultOf outcome⟩ := by
  intro outcome final
  obtain ⟨inside, hoccurs⟩ := exists_occurs_of_calls (exists_occurs M fuel) e ctx
  have hseen : final.observers = ctx.observers.seeAll (Visit.mk e ctx outcome inside).events :=
    hoccurs.observers_eq
  have hobservers : ctx.observers = ⟨some #[], some .empty, 0, 0⟩ := by
    rw [Context.observers, hevents, htrace, hlimit, hdepth]
  rw [hobservers] at hseen
  have hfinalEvents := congrArg Observers.events hseen
  have hfinalTrace := congrArg Observers.trace hseen
  rw [Observers.events_seeAll] at hfinalEvents
  rw [Observers.trace_seeAll] at hfinalTrace
  have hentries := Trace.entries_foldl_record .empty
    (exits 0 (Visit.mk e ctx outcome inside).events)
  refine ⟨inside, hoccurs, hoccurs.begun, hfinalEvents.trans (by simp), _, hfinalTrace, hentries, ?_⟩
  rw [Trace.root_eq, hentries]
  show (exits 0 (Visit.mk e ctx outcome inside).events).getLast?.filter _ = _
  rw [Visit.getLast?_exits_events]
  rfl

/-- An evaluation that fails two nodes deep, after another operand has had its value: all nodes are
left, the three around the failure with the undefined value. -/
theorem eval_wellBracketed_unbound :
    let x := Expr.var "x" .boolean
    let y := Expr.var "y" .boolean
    let both := Expr.call "and" (.standard .and) x [y] .boolean
    let e := Expr.call "not" (.standard .not) both [] .boolean
    let ctx := ((Context.empty.bind "x" (.boolean true)).listening).recording 0
    let outcome := ((Snapshot.empty.toModel.eval 3 e).run.run ctx).1
    let final := ((Snapshot.empty.toModel.eval 3 e).run.run ctx).2
    outcome = .error (.error (.unbound "y")) ∧
      final.events = some #[.entered e, .entered both, .entered x, .left x (.boolean true),
        .entered y, .left y .undefined, .left both .undefined, .left e .undefined] ∧
      ∃ inside : List Visit,
        let visit := Visit.mk e ctx outcome inside
        visit.Occurs Snapshot.empty.toModel 3 ∧ (outcome ≠ .error .outOfFuel → visit.Begun) ∧
          final.events = some visit.events.toArray ∧
          ∃ t, final.trace = some t ∧ t.entries = exits 0 visit.events ∧
            t.root = some ⟨0, e, Visit.resultOf outcome⟩ := by
  intro x y both e ctx outcome final
  exact ⟨rfl, rfl, eval_wellBracketed Snapshot.empty.toModel 2 e ctx rfl rfl rfl rfl⟩

end ObjectModel

end ObjectConstraint
