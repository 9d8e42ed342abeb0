import ObjectConstraint.Proofs.Walk
import ObjectConstraint.Snapshot

/-!
# Lexical scoping

The outcome of an evaluation depends on the free variables of the tree and on nothing else of the
context. Two contexts with different bindings run side by side; they agree on a variable once it is
bound in both, and the frame of a query operation hides all they disagree on.

* `Lockstep.sideBySide` — two contexts with a stack of bindings each.
* `ObjectModel.eval_lexical` — the outcome of a tree, of a run and of a query operation.
* `ObjectModel.eval_not_lexical_listed` — the names that a loop lists and does not bind.
-/

namespace ObjectConstraint

theorem Stack.foldl_bind_pair (i : Stack × Stack) (vars : List (String × Value)) :
    vars.foldl (fun i var => (i.1.bind var.1 var.2, i.2.bind var.1 var.2)) i =
      (i.1.bindAll vars, i.2.bindAll vars) := by
  induction vars generalizing i with
  | nil => rfl
  | cons var vars ih => exact ih _

/-- Any two contexts, at points that give the stacks of bindings there. -/
def Lockstep.sideBySide : Lockstep (Stack × Stack) where
  rel i ctx ctx' := ctx.stack = i.1 ∧ ctx'.stack = i.2
  good _ := True
  bind i name v := (i.1.bind name v, i.2.bind name v)
  frame i := (i.1.framed, i.2.framed)
  enter i _ := i
  good_undefined := trivial
  rel_bind name v _ h := ⟨h.1 ▸ rfl, h.2 ▸ rfl⟩
  rel_unbind h := ⟨Context.stack_unbind h.1, Context.stack_unbind h.2⟩
  rel_pushFrame h := ⟨h.1 ▸ rfl, h.2 ▸ rfl⟩
  rel_popFrame h := by
    rw [Stack.foldl_bind_pair] at h
    exact ⟨Context.stack_popFrame h.1, Context.stack_popFrame h.2⟩
  rel_write _ h := h
  rel_enter e h := ⟨(Context.stack_enter _ e).trans h.1, (Context.stack_enter _ e).trans h.2⟩
  rel_exit e v _ h := ⟨(Context.stack_exit _ e v).trans h.1, (Context.stack_exit _ e v).trans h.2⟩
  rel_recordFailure h := h

namespace Stack

/-- A variable has the same value in the newest frames of two stacks, or none in both. -/
def Agree (i : Stack × Stack) (x : String) : Prop := i.1.visible.lookup x = i.2.visible.lookup x

theorem agree_iff_lookup {ctx ctx' : Context} {x : String} :
    Agree (ctx.stack, ctx'.stack) x ↔ ctx.lookup x = ctx'.lookup x := by
  show ctx.visible.lookup x = ctx'.visible.lookup x ↔ _
  unfold Context.lookup
  cases ctx.visible.lookup x <;> cases ctx'.visible.lookup x <;> simp

theorem Agree.bind {i : Stack × Stack} {x : String} (name : String) (v : Value)
    (h : x = name ∨ Agree i x) : Agree (i.1.bind name v, i.2.bind name v) x := by
  unfold Agree
  rw [visible_bind, visible_bind]
  by_cases hx : x = name
  · subst hx
    rw [List.lookup_cons_self, List.lookup_cons_self]
  · rw [Parts.lookup_cons_ne hx, Parts.lookup_cons_ne hx]
    exact h.resolve_left hx

/-- The newest frame of a query operation holds the same variables on both sides. -/
theorem agree_framed (i : Stack × Stack) (vars : List (String × Value)) (x : String) :
    Agree (Lockstep.sideBySide.bindAll (i.1.framed, i.2.framed) vars) x := by
  rw [Lockstep.bindAll, Lockstep.sideBySide, foldl_bind_pair, Agree, visible_bindAll,
    visible_bindAll]
  rfl

end Stack

namespace ObjectModel

open Lockstep (sideBySide)

variable {M : ObjectModel}

theorem sideBySide_follows : sideBySide.Follows M Stack.Agree (fun _ => True) where
  values := Value.invariant_true
  attributeOf _ _ := trivial
  linked _ _ := trivial
  malformed _ := trivial
  lookup := by
    rintro i x ctx ctx' hx ⟨hstack, hstack'⟩
    exact ⟨Stack.agree_iff_lookup.mp (hstack ▸ hstack' ▸ hx), fun _ _ => trivial,
      fun _ _ => trivial⟩
  enter _ hx := hx
  bind name v hx := .bind name v hx
  body _ _ _ := Stack.agree_framed _ _ _

/-- Contexts that agree on the free variables of a tree give it the same outcome. -/
theorem outcome_eq_of_agree {e : Expr} {ctx ctx' : Context} (fuel : Nat)
    (h : ∀ x, e.Free LoopKind.binders x → ctx.lookup x = ctx'.lookup x) :
    ((M.eval fuel e).run.run ctx).1 = ((M.eval fuel e).run.run ctx').1 := by
  have hsight : Lockstep.InSight Stack.Agree (ctx.stack, ctx'.stack) e :=
    fun x hx => Stack.agree_iff_lookup.mpr (h x hx)
  exact (sideBySide_follows.alike_eval fuel hsight ctx ctx' ⟨rfl, rfl⟩).1

/-- Bindings made one after the other on top of the same variables: the last one of a variable
counts. -/
theorem lookup_bindAll_eq {ctx ctx' : Context} (hctx : ctx.visible = ctx'.visible)
    {bindings bindings' : List (String × Value)} {x : String}
    (h : bindings.reverse.lookup x = bindings'.reverse.lookup x) :
    (ctx.bindAll bindings).lookup x = (ctx'.bindAll bindings').lookup x := by
  apply Stack.agree_iff_lookup.mp
  show (ctx.bindAll bindings).visible.lookup x = (ctx'.bindAll bindings').visible.lookup x
  rw [Context.visible_bindAll, Context.visible_bindAll, hctx, List.lookup_append,
    List.lookup_append, h]

theorem lookup_reverse_eq_of_perm {bindings bindings' : List (String × Value)}
    (hperm : bindings.Perm bindings') (hnames : (bindings.map Prod.fst).Nodup) (x : String) :
    bindings.reverse.lookup x = bindings'.reverse.lookup x := by
  have hnames' : (bindings'.map Prod.fst).Nodup := (hperm.map Prod.fst).nodup_iff.mp hnames
  apply Parts.lookup_eq_of_mem_iff
  · rwa [List.map_reverse, List.nodup_reverse]
  · rwa [List.map_reverse, List.nodup_reverse]
  · intro v
    rw [List.mem_reverse, List.mem_reverse, hperm.mem_iff]

theorem outcome_evaluate_eq {e : Expr} (fuel : Nat) (settings settings' : Settings)
    {bindings bindings' : List (String × Value)}
    (h : ∀ x, e.Free LoopKind.binders x →
      bindings.reverse.lookup x = bindings'.reverse.lookup x) :
    (M.evaluate fuel settings e bindings).outcome =
      (M.evaluate fuel settings' e bindings').outcome := by
  rw [evaluate, evaluate, outcome_run, outcome_run]
  apply outcome_eq_of_agree
  intro x hx
  exact lookup_bindAll_eq (settings.visible_context.trans settings'.visible_context.symm) (h x hx)

/-- The outcome of an evaluation depends on what its context has for the free variables of the tree.
So of the initial bindings only the last one of each free variable matters, and distinct variables
may be bound in any order; and what a query operation gives depends on the receiver and the
arguments, not on where it is called. -/
theorem eval_lexical (M : ObjectModel) (fuel : Nat) (e : Expr) :
    (∀ ctx ctx' : Context,
        (∀ x, e.Free LoopKind.binders x → ctx.lookup x = ctx'.lookup x) →
        ((M.eval fuel e).run.run ctx).1 = ((M.eval fuel e).run.run ctx').1) ∧
      (∀ (settings settings' : Settings) (bindings bindings' : List (String × Value)),
        (∀ x, e.Free LoopKind.binders x →
          bindings.reverse.lookup x = bindings'.reverse.lookup x) →
        (M.evaluate fuel settings e bindings).outcome =
          (M.evaluate fuel settings' e bindings').outcome) ∧
      (∀ (settings settings' : Settings) (bindings bindings' : List (String × Value)),
        bindings.Perm bindings' → (bindings.map Prod.fst).Nodup →
        (M.evaluate fuel settings e bindings).outcome =
          (M.evaluate fuel settings' e bindings').outcome) ∧
      ∀ (name : String) (receiver : Value) (args : List Value) (ctx ctx' : Context),
        ((M.callQuery (M.eval fuel) name receiver args).run.run ctx).1 =
          ((M.callQuery (M.eval fuel) name receiver args).run.run ctx').1 := by
  refine ⟨fun ctx ctx' => outcome_eq_of_agree fuel, ?_, ?_, ?_⟩
  · intro settings settings' bindings bindings' h
    exact outcome_evaluate_eq fuel settings settings' h
  · intro settings settings' bindings bindings' hperm hnames
    exact outcome_evaluate_eq fuel settings settings'
      fun x _ => lookup_reverse_eq_of_perm hperm hnames x
  · intro name receiver args ctx ctx'
    have hcall : sideBySide.Alike (ctx.stack, ctx'.stack)
        (M.callQuery (M.eval fuel) name receiver args)
        (M.callQuery (M.eval fuel) name receiver args) (fun _ => True) fun _ => True :=
      sideBySide_follows.alike_callQuery (fun _ _ he => sideBySide_follows.alike_eval fuel he) name
        trivial fun _ _ => trivial
    exact (hcall ctx ctx' ⟨rfl, rfl⟩).1

/-- A variable beside the bound one is all that the value of a `let` asks for. -/
theorem eval_lexical_let :
    let e := Expr.letIn "x" (.const (.integer 1)) (.var "y" .integer) .integer
    let outcome := fun bindings =>
      (Snapshot.empty.toModel.evaluate 3 .standard e bindings).outcome
    outcome [("x", .unlimited), ("y", .integer 7)] = outcome [("y", .integer 7), ("z", .undefined)] ∧
      outcome [("y", .integer 7), ("z", .undefined)] = .ok (.integer 7) := by
  dsimp only
  refine ⟨(eval_lexical _ 3 _).2.1 _ _ _ _ ?_, rfl⟩
  rintro x (_ | ⟨hchild, -, hfree⟩)
  rcases List.mem_cons.mp hchild with heq | hchild
  · obtain ⟨rfl, rfl⟩ := Prod.mk.inj heq
    exact absurd hfree (Expr.not_free_literal _ _)
  · obtain ⟨rfl, rfl⟩ := Prod.mk.inj (List.mem_singleton.mp hchild)
    obtain rfl := Expr.free_var_iff.mp hfree
    rfl

/-- A `select` loop binds the first iterator that it lists, but no other, and no accumulator. -/
theorem eval_not_lexical_listed :
    let source := Expr.collection .set [.item (.const (.integer 1))] (.collection .set .integer)
    let loop := fun iterators accumulator =>
      Expr.loop .select source iterators accumulator (.var "y" .boolean) (.collection .set .integer)
    let M := Snapshot.empty.toModel
    ∀ e ∈ [loop ["x", "y"] none, loop ["x"] (some ⟨"y", .boolean, .const (.boolean true)⟩)],
      (∀ x, ¬ e.Free LoopKind.listed x) ∧
        ((M.eval 3 e).run.run Context.empty).1 = .error (.error (.unbound "y")) ∧
        ((M.eval 3 e).run.run (Context.empty.bind "y" (.boolean true))).1 =
          .ok (.collection .set .integer [.integer 1]) := by
  intro source loop M e he
  have hsource : ∀ x, ¬ source.Free LoopKind.listed x := by
    intro x h
    refine h.elim_children rfl (fun _ heq => nomatch heq) ?_
    rintro child hchild
    obtain rfl := List.mem_singleton.mp hchild
    exact Expr.not_free_literal _ _
  rcases List.mem_cons.mp he with rfl | he
  · refine ⟨fun x => ?_, rfl, rfl⟩
    apply Expr.not_free_loop (hsource x)
    · exact fun a ha => nomatch ha
    · rw [Expr.free_var_iff]
      rintro rfl
      decide
  · obtain rfl := List.mem_singleton.mp he
    refine ⟨fun x => ?_, rfl, rfl⟩
    apply Expr.not_free_loop (hsource x)
    · intro a ha
      obtain rfl := List.mem_singleton.mp ha
      exact Expr.not_free_literal _ _
    · rw [Expr.free_var_iff]
      rintro rfl
      decide

end ObjectModel

end ObjectConstraint
