import ObjectConstraint.Proofs.Calls

/-!
# More fuel

Fuel bounds the depth of an evaluation and the levels of a closure, and has no other part in them: a
run that does not use it up is the same run with more of it.

* `EvalM.OutlastedBy` — one computation ends as another does that does not run out of fuel.
* `Evaluator.Makes.outlastedBy` — a computation ends as before where the evaluations that it makes
  do.
* `ObjectModel.outlastedBy_eval` — the evaluation of a tree with more fuel.
* `ObjectModel.EvaluatesTo` — the value of a tree, with whatever fuel it takes.
-/

namespace ObjectConstraint

/-! ### Computations -/

namespace EvalM

variable {α β : Type} {act act' : EvalM α}

/-- The second computation ends as the first one does, unless that one runs out of fuel. -/
def OutlastedBy (act act' : EvalM α) : Prop :=
  ∀ ctx, (act.run.run ctx).1 ≠ .error .outOfFuel → act'.run.run ctx = act.run.run ctx

namespace OutlastedBy

theorem refl (act : EvalM α) : OutlastedBy act act := fun _ _ => rfl

theorem trans {act'' : EvalM α} (h : OutlastedBy act act') (h' : OutlastedBy act' act'') :
    OutlastedBy act act'' := by
  intro ctx hfinished
  rw [h' ctx (by rwa [h ctx hfinished]), h ctx hfinished]

theorem bind {f f' : α → EvalM β} (h : OutlastedBy act act') (hf : ∀ v, OutlastedBy (f v) (f' v)) :
    OutlastedBy (act >>= f) (act' >>= f') := by
  intro ctx hfinished
  rw [run_bind] at hfinished ⊢
  rw [run_bind]
  rcases hrun : act.run.run ctx with ⟨stop | v, inner⟩ <;> rw [hrun] at hfinished
  · have hstop : (act.run.run ctx).1 ≠ .error .outOfFuel := by
      rw [hrun]
      exact fun hstop => hfinished (congrArg _ (Except.error.inj hstop))
    rw [h ctx hstop, hrun]
  · rw [h ctx (by rw [hrun]; exact nofun), hrun]
    exact hf v inner hfinished

theorem observed {act act' : EvalM Value} (h : OutlastedBy act act') (e : Expr) :
    OutlastedBy (EvalM.observed e act) (EvalM.observed e act') := by
  intro ctx hfinished
  have hinner : (act.run.run (ctx.enter e)).1 ≠ .error .outOfFuel := by
    rw [run_observed] at hfinished
    rcases hrun : act.run.run (ctx.enter e) with ⟨stop | v, inner⟩ <;> rw [hrun] at hfinished
    · exact hfinished
    · exact nofun
  rw [run_observed, run_observed, h _ hinner]

end OutlastedBy

theorem outlastedBy_closureFrom (act : Value → EvalM Value) {fuel fuel' : Nat} (h : fuel ≤ fuel')
    (known : Value.Known) (level : List Value) :
    OutlastedBy (closureFrom act fuel known level) (closureFrom act fuel' known level) := by
  induction fuel generalizing fuel' known level with
  | zero =>
    cases level with
    | nil => cases fuel' <;> exact .refl _
    | cons x level => exact fun _ hfinished => absurd rfl hfinished
  | succ fuel ih =>
    obtain ⟨more, rfl⟩ := Nat.exists_eq_add_of_lt h
    cases level with
    | nil => exact .refl _
    | cons x level => exact .bind (.refl _) fun found => .bind (ih (by omega) _ _) fun _ => .refl _

end EvalM

/-! ### Evaluations -/

/-- A computation that does not run out of fuel makes no evaluation that does, so it ends as before
where the evaluations go on as they did. -/
theorem Evaluator.Makes.outlastedBy {α : Type} {eval eval' : Evaluator}
    {act : Evaluator → EvalM α} {ctx : Context} {calls : List Call} (h : eval.Makes act ctx calls)
    (heval : ∀ e, EvalM.OutlastedBy (eval e) (eval' e))
    (hfinished : ((act eval).run.run ctx).1 ≠ .error .outOfFuel) :
    (act eval').run.run ctx = (act eval).run.run ctx := by
  refine h.run_eq fun call hcall => heval call.node call.start ?_
  exact fun hout => hfinished (h.error_eq hcall hout)

namespace ObjectModel

open EvalM (OutlastedBy)

variable {M : ObjectModel} {fuel fuel' : Nat}

theorem outlastedBy_evalNode (h : fuel ≤ fuel') (eval : Evaluator) (e : Expr) :
    OutlastedBy (M.evalNode fuel eval e) (M.evalNode fuel' eval e) := by
  cases e with
  | loop kind source iterators accumulator body ty =>
    refine .bind (.refl _) fun v => ?_
    split
    · cases kind with
      | closure =>
        cases iterators with
        | nil => exact .refl _
        | cons iterator rest =>
          exact .bind (EvalM.outlastedBy_closureFrom _ h ∅ _) fun _ => .refl _
      | _ => exact .refl _
    · exact .refl _
  | navigate source property shorthand ty => cases shorthand <;> exact .refl _
  | call name callee source args ty => cases callee <;> exact .refl _
  | _ => exact .refl _

/-- An evaluation that does not run out of fuel is the same with more of it. -/
theorem outlastedBy_eval (M : ObjectModel) (h : fuel ≤ fuel') (e : Expr) :
    OutlastedBy (M.eval fuel e) (M.eval fuel' e) := by
  induction fuel generalizing fuel' e with
  | zero => exact fun _ hfinished => absurd rfl hfinished
  | succ fuel ih =>
    obtain ⟨more, rfl⟩ := Nat.exists_eq_add_of_lt h
    have hle : fuel ≤ fuel + more := Nat.le_add_right fuel more
    have htrees : OutlastedBy (M.evalNode fuel (M.eval fuel) e)
        (M.evalNode fuel (M.eval (fuel + more)) e) := by
      intro ctx hfinished
      obtain ⟨calls, hmakes, -⟩ := makes_evalNode M (M.eval fuel) fuel e ctx
      exact hmakes.outlastedBy (fun c => ih hle c) hfinished
    have hlevels := outlastedBy_evalNode (M := M) hle (M.eval (fuel + more)) e
    exact (htrees.trans hlevels).observed e

/-- With enough fuel, a tree has a value in a context. -/
def EvaluatesTo (M : ObjectModel) (e : Expr) (ctx : Context) (v : Value) : Prop :=
  ∃ fuel, ((M.eval fuel e).run.run ctx).1 = .ok v

/-- All fuel that is enough gives the same value. -/
theorem EvaluatesTo.exists_fuel {e : Expr} {ctx : Context} {v : Value} (h : M.EvaluatesTo e ctx v) :
    ∃ enough, ∀ fuel, enough ≤ fuel → ((M.eval fuel e).run.run ctx).1 = .ok v := by
  obtain ⟨enough, hrun⟩ := h
  refine ⟨enough, fun fuel hfuel => ?_⟩
  rw [outlastedBy_eval M hfuel e ctx (by rw [hrun]; exact nofun), hrun]

end ObjectModel

end ObjectConstraint
