import ObjectConstraint.Proofs.Observers
import ObjectConstraint.Proofs.StackKept
import ObjectConstraint.Snapshot

/-!
# Observers do not take part

Two evaluations of one tree that differ in what takes note of them, a trace of any length, a
listener, a log or nothing, run side by side: they end alike and fail at the same node. Each event
reaches both sets of observers, so a relation of observers that every event keeps holds at the end;
that a limited trace is the newest part of an unlimited one is such a relation.

* `Trace.IsWindow` — a trace has the latest entries of another one and counts the rest as dropped.
* `Lockstep.watching` — contexts with the same bindings, path and failure.
* `ObjectModel.evaluate_observed` — the outcome and the failure path of a run, and its trace.
-/

namespace ObjectConstraint

/-! ### Windows -/

namespace Trace

/-- A trace that shows the latest entries of a full one, as many as the limit lets it, and counts
the others as dropped. -/
structure IsWindow (limit : Nat) (full shown : Trace) : Prop where
  suffix : shown.entries <:+ full.entries
  size_eq : shown.size = min limit full.size
  dropped_eq : shown.dropped = full.size - shown.size

variable {limit : Nat} {full shown : Trace}

@[simp] theorem size_push (t : Trace) (entry : TraceEntry) : (t.push entry).size = t.size + 1 := rfl

@[simp] theorem dropped_push (t : Trace) (entry : TraceEntry) :
    (t.push entry).dropped = t.dropped := rfl

@[simp] theorem size_dropOldest (t : Trace) : t.dropOldest.size = t.size - 1 := by
  unfold dropOldest
  split <;> rfl

@[simp] theorem dropped_dropOldest (t : Trace) : t.dropOldest.dropped = t.dropped + 1 := by
  unfold dropOldest
  split <;> rfl

theorem isWindow_empty : IsWindow limit .empty .empty :=
  ⟨List.suffix_refl _, (Nat.min_zero limit).symm, rfl⟩

/-- An entry moves the window on: a full one loses its oldest entry, any other grows. -/
theorem IsWindow.record (h : IsWindow limit full shown) (hlimit : 0 < limit) (entry : TraceEntry) :
    IsWindow limit (full.record 0 entry) (shown.record limit entry) := by
  obtain ⟨hsuffix, hsize, hdropped⟩ := h
  have hfull : full.record 0 entry = full.push entry := if_neg (by simp)
  rw [hfull]
  by_cases hmoves : limit ≤ shown.size
  · rw [Trace.record, if_pos ⟨hlimit, hmoves⟩]
    constructor
    · rw [entries_push, entries_push, entries_dropOldest, List.suffix_append_self_iff]
      exact (List.tail_suffix _).trans hsuffix
    · simp only [size_push, size_dropOldest]
      omega
    · simp only [dropped_push, dropped_dropOldest, size_push, size_dropOldest]
      omega
  · rw [Trace.record, if_neg fun h => hmoves h.2]
    constructor
    · rw [entries_push, entries_push, List.suffix_append_self_iff]
      exact hsuffix
    · simp only [size_push]
      omega
    · simp only [dropped_push, size_push]
      omega

end Trace

namespace Observers

/-- Observers of one walk of which the first keep a full trace and the second a limited one. -/
def Windowed (limit : Nat) (o o' : Observers) : Prop :=
  o.opened = o'.opened ∧ o.traceLimit = 0 ∧ o'.traceLimit = limit ∧
    ∃ full shown, o.trace = some full ∧ o'.trace = some shown ∧ Trace.IsWindow limit full shown

theorem Windowed.see {limit : Nat} (hlimit : 0 < limit) {o o' : Observers}
    (h : Windowed limit o o') (event : Event) : Windowed limit (o.see event) (o'.see event) := by
  obtain ⟨hopened, hunlimited, hlimited, full, shown, hfull, hshown, hwindow⟩ := h
  cases event with
  | entered node =>
    exact ⟨congrArg (· + 1) hopened, hunlimited, hlimited, full, shown, hfull, hshown, hwindow⟩
  | left node result =>
    refine ⟨congrArg (· - 1) hopened, hunlimited, hlimited,
      full.record 0 ⟨o.opened - 1, node, result⟩, shown.record limit ⟨o.opened - 1, node, result⟩,
      ?_, ?_, hwindow.record hlimit _⟩
    · simp [Observers.see, hfull, hunlimited]
    · simp [Observers.see, hshown, hlimited, hopened]

end Observers

/-! ### Two evaluations -/

namespace Context

/-- Contexts that differ in their observers only. They have the given stack of bindings, the same
path and the same failure, and their observers are related. -/
structure SideBySide (R : Observers → Observers → Prop) (s : Stack) (ctx ctx' : Context) :
    Prop where
  stack_left : ctx.stack = s
  stack_right : ctx'.stack = s
  path : ctx.path = ctx'.path
  failure : ctx.failure = ctx'.failure
  observers : R ctx.observers ctx'.observers

theorem failure_enter (ctx : Context) (e : Expr) : (ctx.enter e).failure = ctx.failure := by
  unfold enter
  rw [writeNode_eq]
  rfl

theorem failure_exit (ctx : Context) (e : Expr) (result : Value) :
    (ctx.exit e result).failure = ctx.failure := by
  unfold exit
  dsimp only
  rw [writeNode_eq]
  rfl

theorem failure_unbind (ctx : Context) : ctx.unbind.failure = ctx.failure := by
  unfold unbind
  split <;> rfl

theorem failure_popFrame (ctx : Context) : ctx.popFrame.failure = ctx.failure := by
  unfold popFrame
  split <;> rfl

end Context

/-- Contexts with the same bindings, the same path and the same failure, at points that give the
bindings. What happens is seen by related observers, and every event keeps their relation. -/
def Lockstep.watching (R : Observers → Observers → Prop)
    (hR : ∀ {o o' : Observers} (event : Event), R o o' → R (o.see event) (o'.see event)) :
    Lockstep Stack where
  rel := Context.SideBySide R
  good _ := True
  bind := Stack.bind
  frame := Stack.framed
  enter s _ := s
  good_undefined := trivial
  rel_bind name v _ h :=
    ⟨h.stack_left ▸ rfl, h.stack_right ▸ rfl, h.path, h.failure, h.observers⟩
  rel_unbind h := by
    refine ⟨Context.stack_unbind h.stack_left, Context.stack_unbind h.stack_right, ?_, ?_, ?_⟩
    · rw [Context.path_unbind, Context.path_unbind, h.path]
    · rw [Context.failure_unbind, Context.failure_unbind, h.failure]
    · rw [Context.observers_unbind, Context.observers_unbind]
      exact h.observers
  rel_pushFrame h := ⟨h.stack_left ▸ rfl, h.stack_right ▸ rfl, h.path, h.failure, h.observers⟩
  rel_popFrame h := by
    refine ⟨Context.stack_popFrame h.stack_left, Context.stack_popFrame h.stack_right, ?_, ?_, ?_⟩
    · rw [Context.path_popFrame, Context.path_popFrame, h.path]
    · rw [Context.failure_popFrame, Context.failure_popFrame, h.failure]
    · rw [Context.observers_popFrame, Context.observers_popFrame]
      exact h.observers
  rel_write _ h := ⟨h.stack_left, h.stack_right, h.path, h.failure, h.observers⟩
  rel_enter e h := by
    refine ⟨(Context.stack_enter _ e).trans h.stack_left,
      (Context.stack_enter _ e).trans h.stack_right, ?_, ?_, ?_⟩
    · rw [Context.path_enter, Context.path_enter, h.path]
    · rw [Context.failure_enter, Context.failure_enter, h.failure]
    · rw [Context.observers_enter, Context.observers_enter]
      exact hR _ h.observers
  rel_exit e v _ h := by
    refine ⟨(Context.stack_exit _ e v).trans h.stack_left,
      (Context.stack_exit _ e v).trans h.stack_right, ?_, ?_, ?_⟩
    · rw [Context.path_exit, Context.path_exit, h.path]
    · rw [Context.failure_exit, Context.failure_exit, h.failure]
    · rw [Context.observers_exit, Context.observers_exit]
      exact hR _ h.observers
  rel_recordFailure h := by
    refine ⟨h.stack_left, h.stack_right, h.path, ?_, h.observers⟩
    show Option.or _ (some (List.reverse _)) = Option.or _ (some (List.reverse _))
    rw [Context.openNodes, Context.openNodes, h.failure, h.path]

namespace ObjectModel

variable {M : ObjectModel} {R : Observers → Observers → Prop}

theorem watching_follows
    {hR : ∀ {o o' : Observers} (event : Event), R o o' → R (o.see event) (o'.see event)} :
    (Lockstep.watching R hR).Follows M (fun _ _ => True) (fun _ => True) where
  values := Value.invariant_true
  attributeOf _ _ := trivial
  linked _ _ := trivial
  malformed _ := trivial
  lookup {_ x _ _} _ h := by
    have hvisible := congrArg Stack.visible (h.stack_left.trans h.stack_right.symm)
    refine ⟨?_, fun _ _ => trivial, fun _ _ => trivial⟩
    rw [Context.lookup, Context.lookup, ← Context.visible_stack, hvisible, Context.visible_stack]
  enter _ _ := trivial
  bind _ _ _ := trivial
  body _ _ _ := trivial

/-- A run ends with the failure and the observers of the evaluation in its middle. -/
theorem context_run (M : ObjectModel) (fuel : Nat) (e : Expr) (bindings : List (String × Value))
    (ctx : Context) :
    let final := ((M.eval fuel e).run.run ((ctx.bindAll bindings).write (.evaluating e))).2
    (M.run fuel e bindings ctx).context.failure = final.failure ∧
      (M.run fuel e bindings ctx).context.observers = final.observers := by
  unfold run
  dsimp only
  generalize (ctx.bindAll bindings).write (.evaluating e) = start
  rcases (M.eval fuel e).run.run start with ⟨stop | v, final⟩
  · cases stop <;> exact ⟨rfl, rfl⟩
  · exact ⟨rfl, rfl⟩

theorem sideBySide_bindAll {s : Stack} {ctx ctx' : Context} (h : ctx.SideBySide R s ctx')
    (bindings : List (String × Value)) :
    (ctx.bindAll bindings).SideBySide R (s.bindAll bindings) (ctx'.bindAll bindings) := by
  induction bindings generalizing s ctx ctx' with
  | nil => exact h
  | cons var bindings ih =>
    exact ih ⟨h.stack_left ▸ rfl, h.stack_right ▸ rfl, h.path, h.failure, h.observers⟩

/-- Runs from contexts that differ in their observers only end with the same outcome and the same
failure, and their observers are still related. -/
theorem run_sideBySide
    (hR : ∀ {o o' : Observers} (event : Event), R o o' → R (o.see event) (o'.see event))
    {s : Stack} {ctx ctx' : Context} (h : ctx.SideBySide R s ctx') (fuel : Nat) (e : Expr)
    (bindings : List (String × Value)) :
    let run := M.run fuel e bindings ctx
    let run' := M.run fuel e bindings ctx'
    run.outcome = run'.outcome ∧ run.context.failure = run'.context.failure ∧
      R run.context.observers run'.context.observers := by
  intro run run'
  have hstart := (Lockstep.watching R hR).rel_write (.evaluating e) (sideBySide_bindAll h bindings)
  obtain ⟨houtcome, -, hfinal⟩ :=
    (watching_follows (M := M)).alike_eval fuel (fun _ _ => trivial) _ _ hstart
  obtain ⟨hfailure, hobservers⟩ := context_run M fuel e bindings ctx
  obtain ⟨hfailure', hobservers'⟩ := context_run M fuel e bindings ctx'
  refine ⟨?_, ?_, ?_⟩
  · rw [outcome_run, outcome_run, houtcome]
  · rw [hfailure, hfailure', hfinal.failure]
  · rw [hobservers, hobservers']
    exact hfinal.observers

/-- The runs of a tree with given settings: plainly, with a trace, and with a listener. -/
def runs (M : ObjectModel) (fuel : Nat) (e : Expr) (bindings : List (String × Value))
    (settings : Settings) : List Run :=
  [M.evaluate fuel settings e bindings, M.evaluateWithTrace fuel settings e bindings,
    M.evaluateWithListener fuel settings e bindings]

/-- Evaluations start with the same bindings, path and failure, whatever observes them. -/
theorem exists_run_eq_of_mem_runs {fuel : Nat} {e : Expr} {bindings : List (String × Value)}
    {settings : Settings} {r : Run} (hr : r ∈ M.runs fuel e bindings settings) :
    ∃ ctx : Context, ctx.SideBySide (fun _ _ => True) Context.empty.stack Context.empty ∧
      r = M.run fuel e bindings ctx := by
  obtain ⟨record, limit, logNodes⟩ := settings
  simp only [runs, List.mem_cons, List.not_mem_nil, or_false] at hr
  rcases hr with rfl | rfl | rfl
  · refine ⟨_, ?_, rfl⟩
    cases record <;> exact ⟨rfl, rfl, rfl, rfl, trivial⟩
  · refine ⟨_, ?_, rfl⟩
    exact ⟨rfl, rfl, rfl, rfl, trivial⟩
  · refine ⟨_, ?_, rfl⟩
    cases record <;> exact ⟨rfl, rfl, rfl, rfl, trivial⟩

/-- Whether a trace is recorded, with whatever limit, whether a listener is told and nodes are
logged, a tree has the same value or error, and the failure is at the same path. A trace with a
limit shows the latest entries of the trace without one, in their order and as many as the limit
lets it, and counts the others as dropped. -/
theorem evaluate_observed (M : ObjectModel) (fuel : Nat) (e : Expr)
    (bindings : List (String × Value)) (settings settings' : Settings) :
    (∀ r ∈ M.runs fuel e bindings settings, ∀ r' ∈ M.runs fuel e bindings settings',
      r.outcome = r'.outcome ∧ r.context.failure = r'.context.failure) ∧
    ∀ limit, 0 < limit → ∃ full shown : Trace,
      (M.evaluateWithTrace fuel { settings with maxTraceEntries := 0 } e bindings).context.trace =
        some full ∧
      (M.evaluateWithTrace fuel { settings' with maxTraceEntries := limit } e
        bindings).context.trace = some shown ∧
      shown.entries <:+ full.entries ∧ shown.size = min limit full.size ∧
      shown.dropped = full.size - shown.size := by
  constructor
  · intro r hr r' hr'
    obtain ⟨ctx, hctx, rfl⟩ := exists_run_eq_of_mem_runs hr
    obtain ⟨ctx', hctx', rfl⟩ := exists_run_eq_of_mem_runs hr'
    have hboth : ctx.SideBySide (fun _ _ => True) Context.empty.stack ctx' :=
      ⟨hctx.stack_left, hctx'.stack_left, hctx.path.trans hctx'.path.symm,
        hctx.failure.trans hctx'.failure.symm, trivial⟩
    obtain ⟨houtcome, hfailure, -⟩ :=
      run_sideBySide (M := M) (fun _ _ => trivial) hboth fuel e bindings
    exact ⟨houtcome, hfailure⟩
  · intro limit hlimit
    have hstart : Context.SideBySide (Observers.Windowed limit) Context.empty.stack
        { settings with recordTrace := true, maxTraceEntries := 0 : Settings }.context
        { settings' with recordTrace := true, maxTraceEntries := limit : Settings }.context :=
      ⟨rfl, rfl, rfl, rfl, rfl, rfl, rfl, .empty, .empty, rfl, rfl, Trace.isWindow_empty⟩
    obtain ⟨-, -, -, -, -, full, shown, hfull, hshown, hwindow⟩ :=
      run_sideBySide (M := M) (fun event h => h.see hlimit event) hstart fuel e bindings
    exact ⟨full, shown, hfull, hshown, hwindow.suffix, hwindow.size_eq, hwindow.dropped_eq⟩

/-- Three nodes are evaluated, and a trace of two entries has lost the first one. -/
theorem evaluate_observed_two :
    let x := Expr.var "x" .boolean
    let e := Expr.call "and" (.standard .and) x [x] .boolean
    let trace := fun limit => (Snapshot.empty.toModel.evaluateWithTrace 2 ⟨false, limit, false⟩ e
      [("x", .boolean true)]).context.trace
    (trace 2).map (fun t => (t.entries, t.dropped)) =
        some ([⟨1, x, .boolean true⟩, ⟨0, e, .boolean true⟩], 1) ∧
      0 < 2 ∧ ∃ full shown : Trace, trace 0 = some full ∧ trace 2 = some shown ∧
        shown.entries <:+ full.entries ∧ shown.size = min 2 full.size ∧
        shown.dropped = full.size - shown.size := by
  intro x e trace
  exact ⟨rfl, by decide, (evaluate_observed Snapshot.empty.toModel 2 e [("x", .boolean true)]
    ⟨false, 0, false⟩ ⟨false, 0, false⟩).2 2 (by decide)⟩

end ObjectModel

end ObjectConstraint
