import ObjectConstraint.Proofs.LoopValues
import ObjectConstraint.Proofs.Observers
import ObjectConstraint.Proofs.Walk

/-!
# The evaluations that a computation makes

A computation that evaluates trees is handed a way to evaluate them. From a context it makes certain
evaluations, each from a context of its own: where the first one begins, the walk has been noted as
far as where the computation began, and each of the others begins where the one before it has led.

* `Evaluator.Makes` — the evaluations that a computation makes, in their order.
* `Makes.run_eq`, `Makes.error_eq`, `Makes.observers_eq` — the run depends on no other evaluation,
  an error in one of them ends it, and what is seen of it is what is seen of them.
* `Evaluator.Calling` — what is true of these evaluations from every context.
* `Evaluator.callingOnly` — the judgement that they are all of trees of one kind.
* `ObjectModel.InOrder` — the evaluations that a node may make.
* `ObjectModel.makes_evalNode` — a node makes evaluations in that order.
-/

namespace ObjectConstraint

/-- A way to evaluate trees. -/
abbrev Evaluator := Expr → EvalM Value

/-- An evaluation that is made: of a tree, from a context. -/
structure Call where
  node : Expr
  start : Context

namespace Context

/-- What a failure depends on: the path to the innermost open node, and the first failure. -/
def walk (ctx : Context) : Path × Option (List OpenNode) := (ctx.path, ctx.failure)

/-- All that a context has noted of the walk. -/
def notes (ctx : Context) : (Path × Option (List OpenNode)) × Observers := (ctx.walk, ctx.observers)

theorem walk_eq_of_notes_eq {ctx inner : Context} (h : inner.notes = ctx.notes) :
    inner.walk = ctx.walk :=
  congrArg Prod.fst h

theorem observers_eq_of_notes_eq {ctx inner : Context} (h : inner.notes = ctx.notes) :
    inner.observers = ctx.observers :=
  congrArg Prod.snd h

theorem notes_bindAll (ctx : Context) (vars : List (String × Value)) :
    (ctx.bindAll vars).notes = ctx.notes := by
  induction vars generalizing ctx with
  | nil => rfl
  | cons var vars ih => exact ih (ctx.bind var.1 var.2)

theorem notes_unbind (ctx : Context) : ctx.unbind.notes = ctx.notes := by
  unfold unbind
  split <;> rfl

theorem notes_popFrame (ctx : Context) : ctx.popFrame.notes = ctx.notes := by
  unfold popFrame
  split <;> rfl

end Context

namespace Evaluator

variable {α β : Type} {eval eval' : Evaluator} {act : Evaluator → EvalM α} {ctx : Context}

/-- From a context, a computation makes evaluations in the given order. What does not ask for any
evaluation, and notes nothing, makes none; a tree makes its own; one computation after another makes
the evaluations of both, unless an error keeps it from beginning the second; and changes around a
computation that note nothing make none. -/
inductive Makes (eval : Evaluator) :
    {α : Type} → (act : Evaluator → EvalM α) → Context → List Call → Prop
  | quiet {α : Type} {act : EvalM α} {ctx : Context}
    (h : (act.run.run ctx).2.notes = ctx.notes) : Makes eval (fun _ => act) ctx []
  | tree (e : Expr) (ctx : Context) : Makes eval (fun eval => eval e) ctx [⟨e, ctx⟩]
  | stopped {α β : Type} {act : Evaluator → EvalM α} {f : Evaluator → α → EvalM β}
    {ctx inner : Context} {stop : Stop} {calls : List Call} (h : Makes eval act ctx calls)
    (hrun : (act eval).run.run ctx = (.error stop, inner)) :
    Makes eval (fun eval => act eval >>= f eval) ctx calls
  | bind {α β : Type} {act : Evaluator → EvalM α} {f : Evaluator → α → EvalM β}
    {ctx inner : Context} {v : α} {calls others : List Call} (h : Makes eval act ctx calls)
    (hrun : (act eval).run.run ctx = (.ok v, inner))
    (hf : Makes eval (fun eval => f eval v) inner others) :
    Makes eval (fun eval => act eval >>= f eval) ctx (calls ++ others)
  | bracket {α : Type} {act : Evaluator → EvalM α} {before after : Context → Context}
    {ctx : Context} {calls : List Call} (hbefore : ∀ ctx, (before ctx).notes = ctx.notes)
    (hafter : ∀ ctx, (after ctx).notes = ctx.notes) (h : Makes eval act (before ctx) calls) :
    Makes eval (fun eval => EvalM.bracket before after (act eval)) ctx calls

namespace Makes

variable {calls : List Call}

theorem run_bracket (before after : Context → Context) (act : EvalM α) (ctx : Context) :
    (EvalM.bracket before after act).run.run ctx =
      ((act.run.run (before ctx)).1, after (act.run.run (before ctx)).2) :=
  rfl

/-- The run depends on nothing but the evaluations that are made. -/
theorem run_eq (h : Makes eval act ctx calls)
    (hsame : ∀ call ∈ calls, (eval' call.node).run.run call.start =
      (eval call.node).run.run call.start) : (act eval').run.run ctx = (act eval).run.run ctx := by
  induction h with
  | quiet _ => rfl
  | tree e ctx => exact hsame ⟨e, ctx⟩ List.mem_cons_self
  | stopped _ hrun ih => simp only [EvalM.run_bind, ih hsame, hrun]
  | bind _ hrun _ ih ihf =>
    rw [List.forall_mem_append] at hsame
    simp only [EvalM.run_bind, ih hsame.1, hrun, ihf hsame.2]
  | bracket _ _ _ ih => simp only [run_bracket, ih hsame]

/-- An evaluation that ends with an error ends the run with it. -/
theorem error_eq (h : Makes eval act ctx calls) {call : Call} (hcall : call ∈ calls) {stop : Stop}
    (herror : ((eval call.node).run.run call.start).1 = .error stop) :
    ((act eval).run.run ctx).1 = .error stop := by
  induction h with
  | quiet _ => cases hcall
  | tree e ctx =>
    obtain rfl := List.mem_singleton.mp hcall
    exact herror
  | stopped _ hrun ih =>
    have hstop := ih hcall
    rw [hrun] at hstop
    cases hstop
    simp only [EvalM.run_bind, hrun]
  | bind _ hrun _ ih ihf =>
    simp only [EvalM.run_bind, hrun]
    rcases List.mem_append.mp hcall with hcall | hcall
    · have hstop := ih hcall
      rw [hrun] at hstop
      cases hstop
    · exact ihf hcall
  | bracket _ _ _ ih => exact ih hcall

/-- What is seen of the run is what is seen of the evaluations, one after the other. -/
theorem observers_eq (h : Makes eval act ctx calls) {shown : Call → List Event}
    (hshown : ∀ call : Call, ((eval call.node).run.run call.start).2.observers =
      call.start.observers.seeAll (shown call)) :
    ((act eval).run.run ctx).2.observers = ctx.observers.seeAll (calls.flatMap shown) := by
  induction h with
  | quiet h => exact Context.observers_eq_of_notes_eq h
  | tree e ctx => simpa using hshown ⟨e, ctx⟩
  | stopped _ hrun ih => simpa only [EvalM.run_bind, hrun] using ih
  | bind _ hrun _ ih ihf =>
    rw [hrun] at ih
    simp only [EvalM.run_bind, hrun, ihf, ih, List.flatMap_append, Observers.seeAll_append]
  | bracket hbefore hafter _ ih =>
    rw [run_bracket, Context.observers_eq_of_notes_eq (hafter _), ih,
      Context.observers_eq_of_notes_eq (hbefore _)]

end Makes

/-! ### From every context -/

/-- From every context, a computation makes evaluations of which the condition is true, together with
its outcome. -/
def Calling (eval : Evaluator) (act : Evaluator → EvalM α)
    (P : List Call → Except Stop α → Prop) : Prop :=
  ∀ ctx, ∃ calls, eval.Makes act ctx calls ∧ P calls ((act eval).run.run ctx).1

namespace Calling

variable {P P' : List Call → Except Stop α → Prop}

theorem mono (h : eval.Calling act P) (hP : ∀ calls outcome, P calls outcome → P' calls outcome) :
    eval.Calling act P' := by
  intro ctx
  obtain ⟨calls, hmakes, hcalls⟩ := h ctx
  exact ⟨calls, hmakes, hP _ _ hcalls⟩

theorem quiet {act : EvalM α}
    (h : ∀ ctx, P [] (act.run.run ctx).1 ∧ (act.run.run ctx).2.notes = ctx.notes) :
    eval.Calling (fun _ => act) P :=
  fun ctx => ⟨[], .quiet (h ctx).2, (h ctx).1⟩

theorem pure {v : α} (h : P [] (.ok v)) : eval.Calling (fun _ => Pure.pure v) P :=
  quiet fun _ => ⟨h, rfl⟩

theorem fail {e : EvalError} (h : P [] (.error (.error e))) :
    eval.Calling (fun _ => EvalM.fail e) P :=
  quiet fun _ => ⟨h, rfl⟩

theorem tree {e : Expr} {P : List Call → Except Stop Value → Prop}
    (h : ∀ ctx outcome, P [⟨e, ctx⟩] outcome) : eval.Calling (fun eval => eval e) P :=
  fun ctx => ⟨_, .tree e ctx, h ctx _⟩

/-- One computation after another. -/
theorem bind {f : Evaluator → α → EvalM β} {R : List Call → Except Stop β → Prop}
    (h : eval.Calling act P) (herror : ∀ calls stop, P calls (.error stop) → R calls (.error stop))
    (hf : ∀ calls v, P calls (.ok v) →
      eval.Calling (fun eval => f eval v) fun others outcome => R (calls ++ others) outcome) :
    eval.Calling (fun eval => act eval >>= f eval) R := by
  intro ctx
  obtain ⟨calls, hmakes, hcalls⟩ := h ctx
  rcases hrun : (act eval).run.run ctx with ⟨stop | v, inner⟩ <;> rw [hrun] at hcalls
  · refine ⟨calls, hmakes.stopped hrun, ?_⟩
    simpa only [EvalM.run_bind, hrun] using herror calls stop hcalls
  · obtain ⟨others, hmakes', hothers⟩ := hf calls v hcalls inner
    refine ⟨calls ++ others, hmakes.bind hrun hmakes', ?_⟩
    simpa only [EvalM.run_bind, hrun] using hothers

theorem withBinding {name : String} {v : Value} (h : eval.Calling act P) :
    eval.Calling (fun eval => EvalM.withBinding name v (act eval)) P := by
  intro ctx
  obtain ⟨calls, hmakes, hcalls⟩ := h (ctx.bind name v)
  exact ⟨calls, .bracket (fun _ => rfl) Context.notes_unbind hmakes, hcalls⟩

theorem inFrame {vars : List (String × Value)} (h : eval.Calling act P) :
    eval.Calling (fun eval =>
      EvalM.bracket (fun ctx => ctx.pushFrame.bindAll vars) Context.popFrame (act eval)) P := by
  intro ctx
  obtain ⟨calls, hmakes, hcalls⟩ := h (ctx.pushFrame.bindAll vars)
  exact ⟨calls, .bracket (fun ctx => Context.notes_bindAll ctx.pushFrame vars)
    Context.notes_popFrame hmakes, hcalls⟩

end Calling

/-- A computation makes evaluations of some of the given trees, in their order. -/
abbrev CallingSome (eval : Evaluator) (nodes : List Expr) (act : Evaluator → EvalM α) : Prop :=
  eval.Calling act fun calls _ => (calls.map Call.node).Sublist nodes

/-- A computation makes evaluations of given trees in their order: of all if it has a value. -/
abbrev CallingAll (eval : Evaluator) (nodes : List Expr) (act : Evaluator → EvalM α) : Prop :=
  eval.Calling act fun calls outcome => (calls.map Call.node).Sublist nodes ∧
    (outcome.isOk → calls.map Call.node = nodes)

section

variable {f : Evaluator → α → EvalM β} {nodes others : List Expr}

theorem CallingSome.bind (h : eval.CallingSome nodes act)
    (hf : ∀ v, eval.CallingSome others fun eval => f eval v) :
    eval.CallingSome (nodes ++ others) fun eval => act eval >>= f eval := by
  refine Calling.bind h ?_ ?_
  · intro calls _ hcalls
    exact hcalls.trans (List.sublist_append_left nodes others)
  · intro calls v hcalls
    refine (hf v).mono fun more _ hmore => ?_
    rw [List.map_append]
    exact hcalls.append hmore

/-- A computation that makes no evaluation, after another one. -/
theorem CallingSome.bind_quiet (h : eval.CallingSome nodes act)
    (hf : ∀ v, eval.CallingSome [] fun eval => f eval v) :
    eval.CallingSome nodes fun eval => act eval >>= f eval := by
  simpa using h.bind hf

theorem CallingSome.map (h : eval.CallingSome nodes act) (g : α → β) :
    eval.CallingSome nodes fun eval => act eval >>= fun v => pure (g v) :=
  h.bind_quiet fun _ => .pure (.refl _)

theorem CallingAll.some (h : eval.CallingAll nodes act) : eval.CallingSome nodes act :=
  h.mono fun _ _ hcalls => hcalls.1

theorem CallingAll.bind (h : eval.CallingAll nodes act)
    (hf : ∀ v, eval.CallingAll others fun eval => f eval v) :
    eval.CallingAll (nodes ++ others) fun eval => act eval >>= f eval := by
  refine Calling.bind h ?_ ?_
  · intro calls _ hcalls
    exact ⟨hcalls.1.trans (List.sublist_append_left nodes others), nofun⟩
  · intro calls v hcalls
    refine (hf v).mono fun more _ hmore => ?_
    rw [List.map_append, hcalls.2 rfl]
    exact ⟨hmore.1.append_left nodes, fun hok => congrArg _ (hmore.2 hok)⟩

theorem CallingAll.map (h : eval.CallingAll nodes act) (g : α → β) :
    eval.CallingAll nodes fun eval => act eval >>= fun v => pure (g v) := by
  have hvalue (v : α) : eval.CallingAll [] fun _ => (pure (g v) : EvalM β) :=
    .pure ⟨.refl _, fun _ => rfl⟩
  simpa using h.bind hvalue

theorem callingAll_tree (e : Expr) : eval.CallingAll [e] fun eval => eval e :=
  .tree fun _ _ => ⟨.refl _, fun _ => rfl⟩

theorem callingSome_tree (e : Expr) : eval.CallingSome [e] fun eval => eval e :=
  (callingAll_tree e).some

end

/-- All evaluations that a computation makes are of trees that satisfy the condition. -/
def callingOnly (eval : Evaluator) (C : Expr → Prop) : Judgement Evaluator Unit where
  holds _ _ act Q := eval.Calling act fun calls outcome =>
    (∀ call ∈ calls, C call.node) ∧ ∀ v, outcome = .ok v → Q v
  fails _ := True
  good _ := True
  bound _ _ _ := ()
  pure h := .pure ⟨nofun, fun _ hv => Except.ok.inj hv ▸ h⟩
  fail _ := .fail ⟨nofun, nofun⟩
  outOfFuel := .quiet fun _ => ⟨⟨nofun, nofun⟩, rfl⟩
  bind h hf := by
    refine Calling.bind h ?_ ?_
    · exact fun _ _ hcalls => ⟨hcalls.1, nofun⟩
    · intro calls v hcalls
      refine (hf v (hcalls.2 v rfl)).mono fun others _ hothers => ⟨?_, hothers.2⟩
      exact List.forall_mem_append.mpr ⟨hcalls.1, hothers.1⟩
  withBinding _ h := .withBinding h

theorem callingOnly_tree {C : Expr → Prop} {e : Expr} (he : C e) :
    (eval.callingOnly C).holds () (fun eval => eval e) (fun _ => True) :=
  fun ctx => ⟨_, .tree e ctx, List.forall_mem_singleton.mpr he, fun _ _ => trivial⟩

theorem calling_of_callingOnly {C : Expr → Prop} {Q : α → Prop}
    (h : (eval.callingOnly C).holds () act Q) :
    eval.Calling act fun calls _ => ∀ call ∈ calls, C call.node := by
  intro ctx
  obtain ⟨calls, hmakes, hcalls, -⟩ := h ctx
  exact ⟨calls, hmakes, hcalls⟩

/-- What makes evaluations of no tree at all makes none. -/
theorem callingSome_of_callingOnly {Q : α → Prop}
    (h : (eval.callingOnly fun _ => False).holds () act Q) : eval.CallingSome [] act := by
  refine (calling_of_callingOnly h).mono fun calls _ hcalls => ?_
  rw [List.eq_nil_iff_forall_not_mem.mpr hcalls]
  exact .refl _

end Evaluator

/-! ### The evaluation of a node -/

/-- The evaluations that a node may make from a context. They are of its children, in the order in
which it has them, though not of all. The body of a loop may be evaluated any number of times, after
the other children. The call of a query operation evaluates all operands, and then the body of the
operation in the class of the object that the first one has given. -/
inductive ObjectModel.InOrder (M : ObjectModel) (eval : Evaluator) (ctx : Context) :
    Expr → List Call → Prop
  | children {e : Expr} {calls : List Call} (hchildren : (calls.map Call.node).Sublist e.children) :
    M.InOrder eval ctx e calls
  | loop {kind : LoopKind} {source body : Expr} {iterators : List String}
    {accumulator : Option (Accumulator Expr)} {ty : Ty} {front repeats : List Call}
    (hfront : (front.map Call.node).Sublist (source :: accumulator.toList.map (·.init)))
    (hrepeats : ∀ call ∈ repeats, call.node = body) :
    M.InOrder eval ctx (.loop kind source iterators accumulator body ty) (front ++ repeats)
  | query {name : String} {source body : Expr} {args : List Expr} {ty : Ty} {o : ObjectRef}
    {signature : Signature} {operands : List Call} {inner : Context}
    (hobject : ((eval source).run.run ctx).1 = .ok (.object o))
    (hoperands : operands.map Call.node = args)
    (hbody : M.definition o.cls name = some (body, signature)) :
    M.InOrder eval ctx (.call name .query source args ty)
      (⟨source, ctx⟩ :: (operands ++ [⟨body, inner⟩]))

namespace ObjectModel

open Evaluator

variable {M : ObjectModel} {eval : Evaluator}

/-- Reading the model makes no evaluation. -/
theorem callingOnly_read {C : Expr → Prop} (v : Value) (property : Property) :
    (eval.callingOnly C).holds () (fun _ => M.read v property) (fun _ => True) := by
  unfold read
  split <;> first | exact Judgement.pure _ trivial | exact Judgement.fail _ trivial

/-! #### Several trees -/

theorem callingAll_evalAll (es : List Expr) :
    eval.CallingAll es fun eval => evalAll eval es := by
  induction es with
  | nil => exact .pure ⟨.refl _, fun _ => rfl⟩
  | cons e es ih => exact (callingAll_tree e).bind fun v => ih.map (v :: ·)

theorem callingSome_evalParts (parts : List (String × Expr)) :
    eval.CallingSome (parts.map Prod.snd) fun eval => evalParts eval parts := by
  induction parts with
  | nil => exact .pure (.refl _)
  | cons part parts ih => exact (callingSome_tree part.2).bind fun v => ih.map _

theorem callingSome_partElements (parts : List (Part Expr)) :
    eval.CallingSome (parts.flatMap Part.children) fun eval => partElements eval parts := by
  induction parts with
  | nil => exact .pure (.refl _)
  | cons part parts ih =>
    cases part with
    | item e => exact (callingSome_tree e).bind fun v => ih.map _
    | range first last =>
      refine (callingSome_tree first).bind fun lo => (callingSome_tree last).bind fun hi => ?_
      split
      · exact ih.map _
      · exact .pure (List.nil_sublist _)

/-! #### Calls -/

theorem callingSome_callStandard (name : String) (op : Operation) (source : Expr)
    (args : List Expr) (ty : Ty) :
    eval.CallingSome (source :: args) fun eval => callStandard eval name op source args ty := by
  have hsource : eval.CallingSome [source] fun eval => eval source := callingSome_tree source
  by_cases hop : op.isConnective
  · simp only [callStandard, hop, if_true]
    refine hsource.bind fun left => ?_
    cases Kleene.shortCircuit op left.bool? with
    | some decided => exact .pure (List.nil_sublist _)
    | none =>
      cases args with
      | nil => exact .fail (List.nil_sublist _)
      | cons arg rest =>
        have hargs : eval.CallingSome ([arg] ++ rest) fun eval => do
            return op.apply left [← eval arg] ty :=
          (callingSome_tree arg).bind fun right => .pure (List.nil_sublist rest)
        exact hargs
  · simp only [callStandard, hop, Bool.false_eq_true, if_false]
    exact hsource.bind fun receiver => (callingAll_evalAll args).some.map _

/-- Once its operands have values, the call of a query operation evaluates the body of the
operation, if it comes to that. -/
theorem calling_callQuery (name : String) (receiver : Value) (args : List Value) :
    eval.Calling (fun eval => M.callQuery eval name receiver args) fun calls _ => calls = [] ∨
      ∃ o body signature inner, receiver = .object o ∧
        M.definition o.cls name = some (body, signature) ∧ calls = [⟨body, inner⟩] := by
  unfold callQuery
  split
  · exact .pure (.inl rfl)
  · next o =>
    split
    · exact .quiet fun ctx => ⟨.inl rfl, rfl⟩
    · next body signature hbody =>
      split
      · exact .fail (.inl rfl)
      · exact .inFrame (.tree fun inner _ => .inr ⟨o, body, signature, inner, rfl, hbody, rfl⟩)
  · exact .fail (.inl rfl)

theorem makes_query (fuel : Nat) (name : String) (source : Expr) (args : List Expr) (ty : Ty)
    (ctx : Context) : ∃ calls,
      eval.Makes (fun eval => M.evalNode fuel eval (.call name .query source args ty)) ctx calls ∧
        M.InOrder eval ctx (.call name .query source args ty) calls := by
  rcases hrun : (eval source).run.run ctx with ⟨stop | receiver, inner⟩
  · exact ⟨_, (Makes.tree source ctx).stopped hrun, .children (by simp [Expr.children])⟩
  have hcall : eval.Calling (fun eval => evalAll eval args >>= M.callQuery eval name receiver)
      fun calls _ => (calls.map Call.node).Sublist args ∨ ∃ o body signature operands inner,
        receiver = .object o ∧ M.definition o.cls name = some (body, signature) ∧
          operands.map Call.node = args ∧ calls = operands ++ [⟨body, inner⟩] := by
    refine Calling.bind (callingAll_evalAll args) ?_ ?_
    · exact fun _ _ hoperands => .inl hoperands.1
    · intro operands vals hoperands
      refine (calling_callQuery name receiver vals).mono ?_
      rintro calls outcome (rfl | ⟨o, body, signature, inner, hobject, hbody, rfl⟩)
      · exact .inl (by simpa using hoperands.1)
      · exact .inr ⟨o, body, signature, operands, inner, hobject, hbody, hoperands.2 rfl, rfl⟩
  obtain ⟨calls, hmakes, hcalls⟩ := hcall inner
  refine ⟨_, (Makes.tree source ctx).bind hrun hmakes, ?_⟩
  rcases hcalls with hsublist | ⟨o, body, signature, operands, inner, rfl, hbody, hargs, rfl⟩
  · exact .children (hsublist.cons_cons source)
  · exact .query (by rw [hrun]) hargs hbody

/-! #### Loops -/

/-- A loop over evaluated elements evaluates the start of its accumulator at most once, and then its
body any number of times. -/
theorem calling_loop (kind : LoopKind) (fuel : Nat) (source : Kind) (elem : Ty)
    (elems : List Value) (iterators : List String) (accumulator : Option (Accumulator Expr))
    (body : Expr) :
    eval.Calling (fun eval => loop fuel eval kind source elem elems iterators accumulator body)
      fun calls _ => ∃ front repeats, calls = front ++ repeats ∧
        (front.map Call.node).Sublist (accumulator.toList.map (·.init)) ∧
        ∀ call ∈ repeats, call.node = body := by
  have hbody : (eval.callingOnly (· = body)).holds () (fun eval => eval body) fun _ => True :=
    callingOnly_tree rfl
  by_cases hkind : kind = .iterate
  · subst hkind
    rcases accumulator with _ | accumulator
    · exact .fail ⟨[], [], rfl, .refl _, nofun⟩
    rcases iterators with _ | ⟨iterator, rest⟩
    · exact .fail ⟨[], [], rfl, List.nil_sublist _, nofun⟩
    refine Calling.bind (callingSome_tree accumulator.init) ?_ ?_
    · exact fun calls _ hinit => ⟨calls, [], (List.append_nil calls).symm, hinit, nofun⟩
    · intro front acc hinit
      have hstep (acc x : Value) : (eval.callingOnly (· = body)).holds ()
          (fun eval => EvalM.withBinding iterator x
            (EvalM.withBinding accumulator.name acc (eval body))) fun _ => True :=
        Judgement.withBinding _ trivial (Judgement.withBinding _ trivial hbody)
      have hsteps : (eval.callingOnly (· = body)).holds ()
          (fun eval => EvalM.foldEach (fun acc x => EvalM.withBinding iterator x
            (EvalM.withBinding accumulator.name acc (eval body))) acc elems) fun _ => True :=
        Judgement.foldEach trivial fun acc _ x _ => hstep acc x
      exact (calling_of_callingOnly hsteps).mono fun repeats _ hrepeats =>
        ⟨front, repeats, rfl, hinit, hrepeats⟩
  · have hloop : (eval.callingOnly (· = body)).holds ()
        (fun eval => loop fuel eval kind source elem elems iterators accumulator body)
        (LoopResult (fun _ => True) (fun _ => True) kind source elem) :=
      Judgement.loop fuel source elem accumulator hkind (fun _ => trivial) (fun _ _ => trivial)
        (fun _ _ => trivial) (fun _ _ _ => hbody) fun _ _ _ _ _ => trivial
    exact (calling_of_callingOnly hloop).mono fun calls _ hcalls =>
      ⟨[], calls, rfl, List.nil_sublist _, hcalls⟩

theorem calling_loopNode (fuel : Nat) (ctx : Context) (kind : LoopKind) (source : Expr)
    (iterators : List String) (accumulator : Option (Accumulator Expr)) (body : Expr) (ty : Ty) :
    eval.Calling
      (fun eval => M.evalNode fuel eval (.loop kind source iterators accumulator body ty))
      fun calls _ => M.InOrder eval ctx (.loop kind source iterators accumulator body ty) calls := by
  refine Calling.bind (callingSome_tree source) ?_ ?_
  · intro calls stop hsource
    exact .children (hsource.trans (List.singleton_sublist.mpr List.mem_cons_self))
  · intro calls v hsource
    split
    · refine (calling_loop kind fuel _ ty.elemOrAny _ iterators accumulator body).mono ?_
      rintro _ _ ⟨front, repeats, rfl, hfront, hrepeats⟩
      rw [← List.append_assoc]
      refine .loop ?_ hrepeats
      rw [List.map_append]
      exact hsource.append hfront
    · refine .pure (.children ?_)
      rw [List.append_nil]
      exact hsource.trans (List.singleton_sublist.mpr List.mem_cons_self)

/-! #### Any node -/

/-- A node makes evaluations in its order. -/
theorem makes_evalNode (M : ObjectModel) (eval : Evaluator) (fuel : Nat) (e : Expr)
    (ctx : Context) : ∃ calls,
      eval.Makes (fun eval => M.evalNode fuel eval e) ctx calls ∧ M.InOrder eval ctx e calls := by
  have hchildren {act : Evaluator → EvalM Value} (h : eval.CallingSome e.children act) :
      ∃ calls, eval.Makes act ctx calls ∧ M.InOrder eval ctx e calls := by
    obtain ⟨calls, hmakes, hcalls⟩ := h ctx
    exact ⟨calls, hmakes, .children hcalls⟩
  cases e with
  | literal lit ty => exact hchildren (.pure (.refl _))
  | var name ty =>
    have hquiet (ctx : Context) :
        ((M.evalNode fuel eval (.var name ty)).run.run ctx).2.notes = ctx.notes := by
      rw [run_var]
      split <;> rfl
    exact hchildren (.quiet fun ctx => ⟨.refl _, hquiet ctx⟩)
  | navigate source property shorthand ty =>
    cases shorthand with
    | false =>
      exact hchildren ((callingSome_tree source).bind_quiet fun v =>
        callingSome_of_callingOnly (callingOnly_read v property))
    | true =>
      refine hchildren ((callingSome_tree source).bind_quiet fun v => ?_)
      split
      · exact (callingSome_of_callingOnly
          (Judgement.forEach fun x _ => callingOnly_read x property)).map _
      · exact .pure (.refl _)
  | call name callee source args ty =>
    cases callee with
    | standard op => exact hchildren (callingSome_callStandard name op source args ty)
    | query => exact makes_query fuel name source args ty ctx
  | ifThenElse condition onTrue onFalse ty =>
    refine hchildren (CallingSome.bind (callingSome_tree condition) fun v => ?_)
    split
    · exact .tree fun _ _ => List.singleton_sublist.mpr List.mem_cons_self
    · exact .tree fun _ _ => List.sublist_cons_self onTrue [onFalse]
    · exact .pure (List.nil_sublist _)
  | letIn name value body ty =>
    exact hchildren ((callingSome_tree value).bind fun v => .withBinding (callingSome_tree body))
  | loop kind source iterators accumulator body ty =>
    exact calling_loopNode fuel ctx kind source iterators accumulator body ty ctx
  | allInstances cls ty => exact hchildren (.pure (.refl _))
  | typeTest test source target ty => exact hchildren ((callingSome_tree source).map _)
  | collection kind parts ty =>
    refine hchildren ((callingSome_partElements parts).bind_quiet fun elems => ?_)
    cases elems <;> exact .pure (.refl _)
  | tuple parts ty => exact hchildren ((callingSome_evalParts parts).map _)

end ObjectModel

end ObjectConstraint
