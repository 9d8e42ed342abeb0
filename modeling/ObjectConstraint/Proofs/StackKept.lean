import ObjectConstraint.Proofs.Walk

/-!
# Evaluation restores its context

Whatever a tree is, and whether or not it has a value, its evaluation leaves the bindings, the
frames and the open nodes as it found them: what is bound, framed or entered at any depth is undone
on every way out.

* `ObjectModel.eval_restores` — the context after an evaluation.
* `ObjectModel.ensures_evalAll`, `ensures_evalParts`, `ensures_partElements` — several trees, one
  after the other.
-/

namespace ObjectConstraint

namespace Context

theorem path_enter (ctx : Context) (e : Expr) :
    (ctx.enter e).path = ctx.path.enter ⟨e.label, e.ty⟩ := by
  unfold enter
  rw [writeNode_eq]
  rfl

theorem path_exit (ctx : Context) (e : Expr) (result : Value) :
    (ctx.exit e result).path = ctx.path.leave := by
  unfold exit
  dsimp only
  rw [writeNode_eq]
  rfl

theorem path_unbind (ctx : Context) : ctx.unbind.path = ctx.path := by
  unfold unbind
  split <;> rfl

theorem path_popFrame (ctx : Context) : ctx.popFrame.path = ctx.path := by
  unfold popFrame
  split <;> rfl

end Context

open Lockstep (alone)

/-- A computation beside itself, at points that give the path there beside the stack. -/
def Lockstep.restoring : Lockstep (Stack × Path) where
  rel i ctx ctx' := alone.rel i.1 ctx ctx' ∧ ctx.path = i.2
  good := alone.good
  bind i name v := (alone.bind i.1 name v, i.2)
  frame i := (alone.frame i.1, i.2)
  enter i e := (alone.enter i.1 e, i.2.enter ⟨e.label, e.ty⟩)
  good_undefined := alone.good_undefined
  rel_bind name _ hv h := ⟨alone.rel_bind name hv h.1, h.2⟩
  rel_unbind h := ⟨alone.rel_unbind h.1, (Context.path_unbind _).trans h.2⟩
  rel_pushFrame h := ⟨alone.rel_pushFrame h.1, h.2⟩
  rel_popFrame {i _ _ vars} h := by
    have hpoint : vars.foldl (fun i var => (alone.bind i.1 var.1 var.2, i.2))
        (alone.frame i.1, i.2) = (alone.bindAll (alone.frame i.1) vars, i.2) :=
      List.foldl_hom (·, i.2) fun _ _ => rfl
    rw [hpoint] at h
    exact ⟨alone.rel_popFrame h.1, (Context.path_popFrame _).trans h.2⟩
  rel_write entry h := ⟨alone.rel_write entry h.1, h.2⟩
  rel_enter e h := ⟨alone.rel_enter e h.1, h.2 ▸ Context.path_enter _ e⟩
  rel_exit e v hv h :=
    ⟨alone.rel_exit e hv h.1, (Context.path_exit _ e v).trans (h.2 ▸ rfl)⟩
  rel_recordFailure h := ⟨alone.rel_recordFailure h.1, h.2⟩

namespace ObjectModel

open EvalM (Ensures)

variable {M : ObjectModel} {s : Stack} {E : EvalError → Prop} {eval : Expr → EvalM Value}

/-! ### Any tree -/

theorem restoring_follows :
    Lockstep.restoring.Follows M (fun _ _ => True) (fun _ => True) where
  values := Value.invariant_true
  attributeOf _ _ := trivial
  linked _ _ := trivial
  malformed _ := trivial
  lookup _ h := ⟨congrArg (Context.lookup · _) h.1.1, fun _ _ => trivial, fun _ _ => trivial⟩
  enter _ _ := trivial
  bind _ _ _ := trivial
  body _ _ _ := trivial

theorem stack_path_eval (fuel : Nat) (e : Expr) (ctx : Context) :
    ((M.eval fuel e).run.run ctx).2.stack = ctx.stack ∧
      ((M.eval fuel e).run.run ctx).2.path = ctx.path := by
  have halike := restoring_follows.alike_eval (M := M) (i := (ctx.stack, ctx.path)) (e := e) fuel
    fun _ _ => trivial
  obtain ⟨-, -, ⟨-, hstack⟩, hpath⟩ := halike ctx ctx ⟨⟨rfl, rfl⟩, rfl⟩
  exact ⟨hstack, hpath⟩

/-- An evaluation leaves the bindings, the frames and the open nodes as it found them, however it
ends. -/
theorem eval_restores (M : ObjectModel) (fuel : Nat) (e : Expr) (ctx : Context) :
    let final := ((M.eval fuel e).run.run ctx).2
    final.bindings = ctx.bindings ∧ final.own = ctx.own ∧ final.outer = ctx.outer ∧
      final.path = ctx.path := by
  intro final
  obtain ⟨hstack, hpath⟩ := stack_path_eval (M := M) fuel e ctx
  obtain ⟨hbindings, hown, houter⟩ := Stack.mk.inj hstack
  exact ⟨hbindings, hown, houter, hpath⟩

/-- A computation that keeps the stack, whatever its outcome. -/
abbrev KeepsStack {α : Type} (act : EvalM α) : Prop :=
  ∀ s, Ensures s act (fun _ => True) (fun _ => True)

/-- What the values of all runs have is ensured, with any errors. -/
theorem KeepsStack.ensures {α : Type} {act : EvalM α} {Q : α → Prop} (hact : KeepsStack act)
    (h : ∀ ctx inner v, ctx.stack = s → act.run.run ctx = (.ok v, inner) → Q v) :
    Ensures s act Q (fun _ => True) := by
  intro ctx hctx
  refine ⟨?_, (hact s ctx hctx).2⟩
  rcases hrun : act.run.run ctx with ⟨stop | v, inner⟩
  · cases stop <;> trivial
  · exact h ctx inner v hctx hrun

theorem keepsStack_eval (fuel : Nat) (e : Expr) : KeepsStack (M.eval fuel e) := by
  rintro s ctx rfl
  refine ⟨?_, (stack_path_eval fuel e ctx).1⟩
  rcases ((M.eval fuel e).run.run ctx).1 with (_ | _) | _ <;> trivial

/-! ### Several trees -/

theorem ensures_evalAll {es : List Expr} {R : Expr → Value → Prop}
    (h : ∀ e ∈ es, Ensures s (eval e) (R e) E) :
    Ensures s (evalAll eval es) (List.Forall₂ R es) E :=
  .of_alike (alike_evalAll fun e he => (h e he).alike)

theorem ensures_evalParts {parts : List (String × Expr)} {R : Expr → Value → Prop}
    (h : ∀ p ∈ parts, Ensures s (eval p.2) (R p.2) E) :
    Ensures s (evalParts eval parts)
      (List.Forall₂ (fun p q => p.1 = q.1 ∧ R p.2 q.2) parts) E :=
  .of_alike (alike_evalParts fun p hp => (h p hp).alike)

/-- The elements of a collection literal are the values of its items and the integers of its
ranges. -/
theorem ensures_partElements {parts : List (Part Expr)} {P : Value → Prop}
    (hitem : ∀ e, .item e ∈ parts → Ensures s (eval e) P E)
    (hrange : ∀ first last, .range first last ∈ parts →
      Ensures s (eval first) (fun _ => True) E ∧ Ensures s (eval last) (fun _ => True) E ∧
        ∀ n, P (.ofInt n)) :
    Ensures s (partElements eval parts) (fun elems => ∀ xs ∈ elems, ∀ x ∈ xs, P x) E := by
  apply Ensures.of_alike
  apply alike_partElements
  · exact fun e he => (hitem e he).alike
  · rintro first last h
    obtain ⟨hfirst, hlast, hint⟩ := hrange first last h
    exact ⟨hfirst.alike, hlast.alike, hint⟩

end ObjectModel

end ObjectConstraint
