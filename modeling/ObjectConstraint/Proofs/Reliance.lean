import ObjectConstraint.Proofs.Calls
import ObjectConstraint.Proofs.Recording

/-!
# What a computation relies on

Nothing in a computation recovers from an error, so either all evaluations that it makes have a
value, or it ends with the error of the first one that has none. In the first case it runs in the
same way wherever trees evaluate to the same values, whatever else the evaluations that fail would
give.

* `Evaluator.Extends` — one way to evaluate trees has the values of another one.
* `Evaluator.Settles`, `Evaluator.StopsAt` — the two cases; `StopsAt.not_settles` — they exclude
  each other.
* `Evaluator.Relies` — one of them holds; `Relies.bind`, `Relies.bracket` — one computation after
  another, and between changes of the context.
* `Makes.relies` — a computation relies on the trees whose evaluations it makes.
* `ObjectModel.relies_evalNode` — a node relies on its children, and on the body of the query
  operation that it calls.
-/

namespace ObjectConstraint

namespace Evaluator

variable {α β : Type} {eval : Evaluator}

/-- Where a tree has a value in the first way, it has the same value in the second. -/
def Extends (eval eval' : Evaluator) : Prop :=
  ∀ e ctx v final, (eval e).run.run ctx = (.ok v, final) → (eval' e).run.run ctx = (.ok v, final)

/-- An evaluation with a value leaves the open nodes and the first failure as they were. -/
def KeepsWalk (eval : Evaluator) : Prop :=
  ∀ e ctx v final, (eval e).run.run ctx = (.ok v, final) → final.walk = ctx.walk

/-- No evaluation that fails has a part in the run: it is the same whatever they give instead. -/
def Settles (eval : Evaluator) (act : Evaluator → EvalM α) (ctx : Context) : Prop :=
  ∀ eval', eval.Extends eval' → (act eval').run.run ctx = (act eval).run.run ctx

/-- The run comes to the evaluation of a tree from an inner context with none before it failing:
whatever error that one ends with, the run ends with it too. -/
def StopsAt (eval : Evaluator) (act : Evaluator → EvalM α) (ctx : Context) (c : Expr)
    (inner : Context) : Prop :=
  ∃ undo : Context → Context, (∀ ctx, (undo ctx).walk = ctx.walk) ∧
    ∀ eval', eval.Extends eval' → ∀ stop final, (eval' c).run.run inner = (.error stop, final) →
      (act eval').run.run ctx = (.error stop, undo final)

/-- From a context, a computation settles without a failing evaluation, or it stops at one of a tree
that satisfies the condition. -/
inductive Relies (C : Expr → Prop) (eval : Evaluator) (act : Evaluator → EvalM α) (ctx : Context) :
    Prop
  | settles (h : eval.Settles act ctx) (hwalk : ((act eval).run.run ctx).2.walk = ctx.walk)
  | stops {c : Expr} {inner final : Context} {stop : Stop} (hc : C c)
    (hwalk : inner.walk = ctx.walk) (herror : (eval c).run.run inner = (.error stop, final))
    (h : eval.StopsAt act ctx c inner)

theorem Extends.refl (eval : Evaluator) : eval.Extends eval := fun _ _ _ _ h => h

/-- The same values, and one error in place of all others. -/
def failingWith (eval : Evaluator) (stop : Stop) : Evaluator := fun e =>
  ExceptT.mk fun ctx =>
    match (eval e).run.run ctx with
    | (.ok v, final) => (.ok v, final)
    | (.error _, final) => (.error stop, final)

theorem run_failingWith (eval : Evaluator) (stop : Stop) (e : Expr) (ctx : Context) :
    (eval.failingWith stop e).run.run ctx = match (eval e).run.run ctx with
      | (.ok v, final) => (.ok v, final)
      | (.error _, final) => (.error stop, final) :=
  rfl

theorem extends_failingWith (eval : Evaluator) (stop : Stop) :
    eval.Extends (eval.failingWith stop) := by
  intro e ctx v final hrun
  rw [run_failingWith, hrun]

/-- A run that stops at a failing evaluation depends on it: with another error there, it ends with
that one. -/
theorem StopsAt.not_settles {act : Evaluator → EvalM α} {ctx inner final : Context} {c : Expr}
    {stop : Stop} (h : eval.StopsAt act ctx c inner)
    (herror : (eval c).run.run inner = (.error stop, final)) : ¬ eval.Settles act ctx := by
  intro hsettles
  obtain ⟨undo, -, hstops⟩ := h
  obtain ⟨other, hother⟩ : ∃ other : Stop, other ≠ stop := by
    cases stop with
    | error e => exact ⟨.outOfFuel, nofun⟩
    | outOfFuel => exact ⟨.error (.unbound ""), nofun⟩
  have hextends := extends_failingWith eval other
  have hinstead : (eval.failingWith other c).run.run inner = (.error other, final) := by
    rw [run_failingWith, herror]
  have hsame := hsettles _ hextends
  rw [hstops _ hextends other final hinstead, hstops _ (.refl eval) stop final herror] at hsame
  exact hother (Except.error.inj (congrArg Prod.fst hsame))

namespace Relies

variable {C : Expr → Prop} {act : Evaluator → EvalM α} {ctx : Context}

/-- A run with a value keeps the walk. -/
theorem walk_eq (h : Relies C eval act ctx) (hok : ((act eval).run.run ctx).1.isOk) :
    ((act eval).run.run ctx).2.walk = ctx.walk := by
  cases h with
  | settles _ hwalk => exact hwalk
  | stops _ _ herror hstops =>
    obtain ⟨undo, -, hstops⟩ := hstops
    rw [hstops eval (.refl eval) _ _ herror] at hok
    cases hok

/-- A computation that evaluates no tree. -/
theorem silent {act : EvalM α} (h : (act.run.run ctx).2.walk = ctx.walk) :
    Relies C eval (fun _ => act) ctx :=
  .settles (fun _ _ => rfl) h

theorem tree (hkeeps : eval.KeepsWalk) {c : Expr} (hc : C c) :
    Relies C eval (fun eval => eval c) ctx := by
  rcases hrun : (eval c).run.run ctx with ⟨stop | v, final⟩
  · exact .stops hc rfl hrun ⟨id, fun _ => rfl, fun _ _ _ _ h => h⟩
  · refine .settles (fun eval' h => ?_) ?_
    · rw [h c ctx v final hrun, hrun]
    · rw [hrun]
      exact hkeeps c ctx v final hrun

/-- One computation after another, from the context that the first one leaves. -/
theorem bind {f : Evaluator → α → EvalM β} (h : Relies C eval act ctx)
    (hf : ∀ v inner, (act eval).run.run ctx = (.ok v, inner) →
      Relies C eval (fun eval => f eval v) inner) :
    Relies C eval (fun eval => act eval >>= f eval) ctx := by
  cases h with
  | @stops c inner final stop hc hwalk herror h =>
    obtain ⟨undo, hundo, hstops⟩ := h
    refine .stops hc hwalk herror ⟨undo, hundo, fun eval' hext stop final herror => ?_⟩
    rw [EvalM.run_bind, hstops eval' hext stop final herror]
  | settles h hwalk =>
    rcases hrun : (act eval).run.run ctx with ⟨stop | v, inner⟩
    · refine .settles (fun eval' hext => ?_) ?_
      · simp only [EvalM.run_bind, h eval' hext, hrun]
      · simpa only [EvalM.run_bind, hrun] using hwalk
    · have hinner : inner.walk = ctx.walk := by rwa [hrun] at hwalk
      cases hf v inner hrun with
      | settles hrest hwalk' =>
        refine .settles (fun eval' hext => ?_) ?_
        · simp only [EvalM.run_bind, h eval' hext, hrun, hrest eval' hext]
        · simpa only [EvalM.run_bind, hrun, hinner] using hwalk'
      | stops hc hwalk' herror hrest =>
        obtain ⟨undo, hundo, hstops⟩ := hrest
        refine .stops hc (hwalk'.trans hinner) herror ⟨undo, hundo, ?_⟩
        intro eval' hext stop final herror
        simp only [EvalM.run_bind, h eval' hext, hrun, hstops eval' hext stop final herror]

/-- Changes around a computation that are none of the walk. -/
theorem bracket {before after : Context → Context} (hbefore : ∀ ctx, (before ctx).walk = ctx.walk)
    (hafter : ∀ ctx, (after ctx).walk = ctx.walk) (h : Relies C eval act (before ctx)) :
    Relies C eval (fun eval => EvalM.bracket before after (act eval)) ctx := by
  have hrun (eval' : Evaluator) : (EvalM.bracket before after (act eval')).run.run ctx =
      (((act eval').run.run (before ctx)).1, after ((act eval').run.run (before ctx)).2) := rfl
  cases h with
  | settles h hwalk =>
    refine .settles (fun eval' hext => ?_) ?_
    · rw [hrun, hrun, h eval' hext]
    · rw [hrun, hafter, hwalk, hbefore]
  | stops hc hwalk herror h =>
    obtain ⟨undo, hundo, hstops⟩ := h
    refine .stops hc (hwalk.trans (hbefore ctx)) herror
      ⟨fun ctx => after (undo ctx), fun ctx => (hafter _).trans (hundo ctx), ?_⟩
    intro eval' hext stop final herror
    rw [hrun, hstops eval' hext stop final herror]

end Relies

/-- A computation relies on the trees whose evaluations it makes. -/
theorem Makes.relies {C : Expr → Prop} {act : Evaluator → EvalM α} {ctx : Context}
    {calls : List Call} (h : eval.Makes act ctx calls) (hkeeps : eval.KeepsWalk)
    (hC : ∀ call ∈ calls, C call.node) : Relies C eval act ctx := by
  induction h with
  | quiet h => exact .silent (Context.walk_eq_of_notes_eq h)
  | tree e ctx => exact .tree hkeeps (hC ⟨e, ctx⟩ List.mem_cons_self)
  | stopped _ hrun ih =>
    refine (ih hC).bind fun v inner hvalue => ?_
    rw [hrun] at hvalue
    cases hvalue
  | bind _ hrun _ ih ihf =>
    obtain ⟨hcalls, hothers⟩ := List.forall_mem_append.mp hC
    refine (ih hcalls).bind fun v inner hvalue => ?_
    rw [hrun] at hvalue
    cases hvalue
    exact ihf hothers
  | bracket hbefore hafter _ ih =>
    exact .bracket (fun ctx => Context.walk_eq_of_notes_eq (hbefore ctx))
      (fun ctx => Context.walk_eq_of_notes_eq (hafter ctx)) (ih hC)

end Evaluator

/-! ### The evaluation of a node -/

namespace ObjectModel

open Evaluator

/-- From a node to the trees that its evaluation in a context may need: its children, and the body
of the query operation that it calls, in the class of the object that its receiver is. -/
inductive Leads (M : ObjectModel) (eval : Evaluator) (ctx : Context) : Expr → Expr → Prop
  | child {e c : Expr} (h : c ∈ e.children) : M.Leads eval ctx e c
  | body {name : String} {source body : Expr} {args : List Expr} {ty : Ty} {o : ObjectRef}
    {signature : Signature} (hreceiver : ((eval source).run.run ctx).1 = .ok (.object o))
    (hbody : M.definition o.cls name = some (body, signature)) :
    M.Leads eval ctx (.call name .query source args ty) body

variable {M : ObjectModel} {eval : Evaluator}

/-- A node leads to all trees whose evaluations it makes. -/
theorem InOrder.leads {ctx : Context} {e : Expr} {calls : List Call}
    (h : M.InOrder eval ctx e calls) : ∀ call ∈ calls, M.Leads eval ctx e call.node := by
  intro call hcall
  cases h with
  | children hchildren => exact .child (hchildren.subset (List.mem_map_of_mem hcall))
  | loop hfront hrepeats =>
    apply Leads.child
    rcases List.mem_append.mp hcall with hcall | hcall
    · have hmem := hfront.subset (List.mem_map_of_mem hcall)
      simp only [Expr.children]
      exact List.mem_append_left _ hmem
    · simp [Expr.children, hrepeats call hcall]
  | query hobject hoperands hbody =>
    rcases List.mem_cons.mp hcall with rfl | hcall
    · exact .child List.mem_cons_self
    rcases List.mem_append.mp hcall with hcall | hcall
    · exact .child (List.mem_cons_of_mem _ (hoperands ▸ List.mem_map_of_mem hcall))
    · obtain rfl := List.mem_singleton.mp hcall
      exact .body hobject hbody

/-- The evaluation of a node relies on the trees to which the node leads. -/
theorem relies_evalNode (hkeeps : eval.KeepsWalk) (fuel : Nat) (e : Expr) (ctx : Context) :
    Relies (M.Leads eval ctx e) eval (fun eval => M.evalNode fuel eval e) ctx := by
  obtain ⟨calls, hmakes, horder⟩ := makes_evalNode M eval fuel e ctx
  exact hmakes.relies hkeeps horder.leads

/-! ### Any tree -/

/-- An evaluation that succeeds keeps the path and the first failure. -/
theorem keepsWalk_eval (M : ObjectModel) (fuel : Nat) : KeepsWalk (M.eval fuel) := by
  induction fuel with
  | zero => exact fun _ _ _ _ h => nomatch h
  | succ fuel ih =>
    intro e ctx v final hrun
    have hpath : final.path = ctx.path := by
      have hkept := (stack_path_eval (M := M) (fuel + 1) e ctx).2
      rwa [hrun] at hkept
    obtain ⟨inner, hinner⟩ := EvalM.exists_of_observed_ok hrun
    have hwalk : inner.walk = (ctx.enter e).walk := by
      have hkept := (relies_evalNode (M := M) ih fuel e (ctx.enter e)).walk_eq (by rw [hinner]; rfl)
      rwa [hinner] at hkept
    have hfinal : inner.exit e v = final := by
      rw [eval, EvalM.run_observed, hinner] at hrun
      exact congrArg Prod.snd hrun
    have hfailure : final.failure = ctx.failure := by
      rw [← hfinal, Context.failure_exit, ← Context.failure_enter ctx e]
      exact congrArg Prod.snd hwalk
    rw [Context.walk, Context.walk, hpath, hfailure]

end ObjectModel

end ObjectConstraint
