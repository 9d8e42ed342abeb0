import ObjectConstraint.Proofs.MoreFuel
import ObjectConstraint.Proofs.Scoping
import ObjectConstraint.Proofs.StackKept

/-!
# Computations with known outcomes

What a computation gives follows from what the computations that it is made of give. A loop whose
source and body have known values has one itself, with fuel that is enough for the source and for
the body on each of the elements.

* `EvalM.Yields` — a computation has a given outcome wherever given variables are bound; with a
  value for the outcome, it is `EvalM.Returns`.
* `EvalM.returns_keep`, `EvalM.returns_withKeys`, … — loops over elements, by what their test, key
  or step gives on each of them.
* `ObjectModel.yields_literal`, `ObjectModel.yields_var` — the trees without sub-trees.
* `ObjectModel.exists_returns` — one amount of fuel for the source and the body of a loop.
-/

namespace ObjectConstraint

theorem Value.isUndefined_iff {v : Value} : v.isUndefined ↔ v = .undefined := by
  cases v <;> simp [isUndefined]

/-- What every element gives is what a `mapM` over them gives. -/
theorem mapM_eq_ok {ε α β : Type} {xs : List α} {f : α → Except ε β} {g : α → β}
    (h : ∀ x ∈ xs, f x = .ok (g x)) : xs.mapM f = .ok (xs.map g) := by
  induction xs with
  | nil => rfl
  | cons x xs ih =>
    obtain ⟨hx, hxs⟩ := List.forall_mem_cons.mp h
    rw [List.mapM_cons, hx, ih hxs]
    rfl

/-! ### Computations -/

namespace EvalM

variable {α β : Type} {s : Stack}

/-- From every context with these bindings, the computation has this outcome, and leaves the
bindings as they were. -/
def Yields (s : Stack) (act : EvalM α) (outcome : Except EvalError α) : Prop :=
  ∀ ctx : Context, ctx.stack = s →
    (act.run.run ctx).1 = outcome.mapError Stop.error ∧
      ((act.run.run ctx).2 : Context).stack = s

namespace Yields

variable {act : EvalM α} {outcome : Except EvalError α}

theorem pure (v : α) : Yields s (Pure.pure v : EvalM α) (.ok v) := fun _ hctx => ⟨rfl, hctx⟩

theorem fail (err : EvalError) : Yields s (EvalM.fail err : EvalM α) (.error err) :=
  fun _ hctx => ⟨rfl, hctx⟩

theorem bind {f : α → EvalM β} {v : α} {outcome : Except EvalError β} (h : Yields s act (.ok v))
    (hf : Yields s (f v) outcome) : Yields s (act >>= f) outcome := by
  intro ctx hctx
  obtain ⟨hrun, hstack⟩ := h ctx hctx
  rw [run_bind]
  rcases hinner : act.run.run ctx with ⟨result, inner⟩
  rw [hinner] at hrun hstack
  obtain rfl : result = .ok v := hrun
  exact hf inner hstack

theorem bind_error {f : α → EvalM β} {err : EvalError} (h : Yields s act (.error err)) :
    Yields s (act >>= f) (.error err) := by
  intro ctx hctx
  obtain ⟨hrun, hstack⟩ := h ctx hctx
  rw [run_bind]
  rcases hinner : act.run.run ctx with ⟨result, inner⟩
  rw [hinner] at hrun hstack
  obtain rfl : result = .error (.error err) := hrun
  exact ⟨rfl, hstack⟩

theorem withBinding {name : String} {v : Value} (h : Yields (s.bind name v) act outcome) :
    Yields s (EvalM.withBinding name v act) outcome := by
  rintro ctx rfl
  obtain ⟨hrun, hstack⟩ := h (ctx.bind name v) rfl
  exact ⟨hrun, Context.stack_unbind hstack⟩

theorem observed {act : EvalM Value} {outcome : Except EvalError Value} (e : Expr)
    (h : Yields s act outcome) : Yields s (EvalM.observed e act) outcome := by
  intro ctx hctx
  obtain ⟨hrun, hstack⟩ := h (ctx.enter e) ((ctx.stack_enter e).trans hctx)
  rw [run_observed]
  rcases hinner : act.run.run (ctx.enter e) with ⟨_ | v, inner⟩ <;> rw [hinner] at hrun hstack
  · exact ⟨hrun, (Context.stack_exit _ _ _).trans hstack⟩
  · exact ⟨hrun, (Context.stack_exit _ _ _).trans hstack⟩

/-- A computation has one outcome. -/
theorem unique {outcome' : Except EvalError α} (h : Yields s act outcome)
    (h' : Yields s act outcome') {ctx : Context} (hctx : ctx.stack = s) : outcome = outcome' := by
  have heq := (h ctx hctx).1.symm.trans (h' ctx hctx).1
  cases outcome <;> cases outcome' <;> cases heq <;> rfl

/-- The outcome of a tree depends on the stack only. -/
theorem eval {M : ObjectModel} {fuel : Nat} {e : Expr} {ctx : Context}
    {outcome : Except EvalError Value}
    (h : ((M.eval fuel e).run.run ctx).1 = outcome.mapError Stop.error) :
    Yields ctx.stack (M.eval fuel e) outcome := by
  intro ctx' hstack
  constructor
  · rw [← h]
    refine ObjectModel.outcome_eq_of_agree fuel fun x _ => Stack.agree_iff_lookup.mp ?_
    rw [hstack]
    rfl
  · rw [(ObjectModel.stack_path_eval fuel e ctx').1, hstack]

end Yields

/-- The computation has the value. -/
abbrev Returns (s : Stack) (act : EvalM α) (v : α) : Prop := Yields s act (.ok v)

theorem Returns.eval {M : ObjectModel} {fuel : Nat} {e : Expr} {ctx : Context} {v : Value}
    (h : ((M.eval fuel e).run.run ctx).1 = .ok v) : Returns ctx.stack (M.eval fuel e) v :=
  Yields.eval h

/-! ### Loops over elements -/

/-- What a filter keeps, by the truth value of each element. -/
theorem returns_keep {wanted : Bool} {test : Value → EvalM (Option Bool)} {passes : Value → Bool}
    {xs : List Value} (h : ∀ x ∈ xs, Returns s (test x) (some (passes x))) :
    Returns s (keep wanted test xs) (some (xs.filter fun x => passes x = wanted)) := by
  induction xs with
  | nil => exact .pure _
  | cons x xs ih =>
    obtain ⟨hx, hxs⟩ := List.forall_mem_cons.mp h
    refine hx.bind ((ih hxs).bind ?_)
    rw [List.filter_cons]
    by_cases hpasses : passes x = wanted
    · simpa [hpasses] using Yields.pure (some (x :: xs.filter fun y => passes y = wanted))
    · simpa [hpasses] using Yields.pure (some (xs.filter fun y => passes y = wanted))

section Tests

variable {test : Value → EvalM (Option Bool)} {passes : Value → Bool} {xs : List Value}

/-- What a scan for a truth value finds, by the truth value of each element. -/
theorem returns_scan (wanted : Bool) (h : ∀ x ∈ xs, Returns s (test x) (some (passes x))) :
    Returns s (scan wanted test xs) (some (xs.all (passes · == wanted) == wanted)) := by
  induction xs with
  | nil => exact (Bool.true_beq wanted).symm ▸ .pure (some wanted)
  | cons x xs ih =>
    obtain ⟨hx, hxs⟩ := List.forall_mem_cons.mp h
    refine hx.bind ?_
    rw [List.all_cons]
    by_cases hpasses : passes x = wanted
    · simpa [hpasses] using ih hxs
    · have hother : passes x = !wanted := Bool.eq_not.mpr hpasses
      simpa [hother] using Yields.pure (some !wanted)

/-- Whether exactly one element passes is a matter of their number. -/
theorem returns_exactlyOne (found : Bool) (h : ∀ x ∈ xs, Returns s (test x) (some (passes x))) :
    Returns s (exactlyOne test found xs) (some (decide (xs.countP passes + found.toNat = 1))) := by
  induction xs generalizing found with
  | nil =>
    cases found
    · exact .pure (some false)
    · exact .pure (some true)
  | cons x xs ih =>
    obtain ⟨hx, hxs⟩ := List.forall_mem_cons.mp h
    refine hx.bind ?_
    rw [List.countP_cons]
    cases hpasses : passes x with
    | false => simpa using ih found hxs
    | true =>
      cases found with
      | false => simpa using ih true hxs
      | true => simpa using Yields.pure (some false)

theorem returns_firstPassing (h : ∀ x ∈ xs, Returns s (test x) (some (passes x))) :
    Returns s (firstPassing test xs) ((xs.find? passes).getD .undefined) := by
  induction xs with
  | nil => exact .pure Value.undefined
  | cons x xs ih =>
    obtain ⟨hx, hxs⟩ := List.forall_mem_cons.mp h
    refine hx.bind ?_
    rw [List.find?_cons]
    cases hpasses : passes x with
    | false => exact ih hxs
    | true => exact .pure x

end Tests

variable {act : Value → EvalM Value} {key : Value → Value}

/-- The results on the elements are gathered until one fails. -/
theorem yields_forEach {xs : List Value} {outcomes : Value → Except EvalError Value}
    (h : ∀ x ∈ xs, Yields s (act x) (outcomes x)) :
    Yields s (forEach act xs) (xs.mapM outcomes) := by
  induction xs with
  | nil => exact .pure _
  | cons x xs ih =>
    obtain ⟨hx, hxs⟩ := List.forall_mem_cons.mp h
    rw [List.mapM_cons]
    cases hresult : outcomes x with
    | error err => exact (hresult ▸ hx).bind_error
    | ok v =>
      refine (hresult ▸ hx).bind ?_
      cases hresults : xs.mapM outcomes with
      | error err => exact (hresults ▸ ih hxs).bind_error
      | ok vs => exact (hresults ▸ ih hxs).bind (.pure _)

theorem returns_forEach {xs : List Value} {results : Value → Value}
    (h : ∀ x ∈ xs, Returns s (act x) (results x)) :
    Returns s (forEach act xs) (xs.map results) := by
  have hall := yields_forEach h
  rwa [mapM_eq_ok fun x _ => rfl] at hall

/-- A fold whose step has a value for every accumulator has the value of the list's own fold. -/
theorem returns_foldEach {step : Value → Value → EvalM Value} {next : Value → Value → Value}
    (h : ∀ acc x, Returns s (step acc x) (next acc x)) (acc : Value) (xs : List Value) :
    Returns s (foldEach step acc xs) (xs.foldl next acc) := by
  induction xs generalizing acc with
  | nil => exact .pure acc
  | cons x xs ih => exact (h acc x).bind (ih (next acc x))

/-- Elements whose keys are all defined stand beside them. -/
theorem returns_withKeys {xs : List Value} (h : ∀ x ∈ xs, Returns s (act x) (key x))
    (hdefined : ∀ x ∈ xs, key x ≠ .undefined) :
    Returns s (withKeys act xs) (some (xs.map fun x => (key x, x))) := by
  induction xs with
  | nil => exact .pure _
  | cons x xs ih =>
    obtain ⟨hx, hxs⟩ := List.forall_mem_cons.mp h
    obtain ⟨hfirst, hothers⟩ := List.forall_mem_cons.mp hdefined
    refine hx.bind ?_
    rw [if_neg (mt Value.isUndefined_iff.mp hfirst)]
    exact (ih hxs hothers).bind (.pure _)

/-- An undefined key leaves nothing, whatever the elements after it give. -/
theorem returns_withKeys_none {before after : List Value} {x : Value}
    (h : ∀ y ∈ before ++ [x], Returns s (act y) (key y)) (hx : key x = .undefined) :
    Returns s (withKeys act (before ++ x :: after)) none := by
  induction before with
  | nil =>
    refine (h x List.mem_cons_self).bind ?_
    rw [if_pos (Value.isUndefined_iff.mpr hx)]
    exact .pure _
  | cons y before ih =>
    obtain ⟨hy, hothers⟩ := List.forall_mem_cons.mp h
    refine hy.bind ?_
    split
    · exact .pure _
    · exact (ih hothers).bind (.pure _)

end EvalM

/-! ### Trees -/

/-- Fuel that is enough for each of finitely many values is enough for all. -/
theorem exists_fuel_forall (xs : List Value) {P : Value → Nat → Prop}
    (h : ∀ x ∈ xs, ∃ enough, ∀ fuel, enough ≤ fuel → P x fuel) :
    ∃ enough, ∀ fuel, enough ≤ fuel → ∀ x ∈ xs, P x fuel := by
  induction xs with
  | nil => exact ⟨0, fun _ _ => nofun⟩
  | cons x xs ih =>
    obtain ⟨hx, hxs⟩ := List.forall_mem_cons.mp h
    obtain ⟨enough, henough⟩ := hx
    obtain ⟨others, hothers⟩ := ih hxs
    refine ⟨max enough others, fun fuel hfuel => List.forall_mem_cons.mpr ⟨?_, ?_⟩⟩
    · exact henough fuel (le_trans (le_max_left _ _) hfuel)
    · exact hothers fuel (le_trans (le_max_right _ _) hfuel)

namespace ObjectModel

open EvalM (Returns Yields)

variable {M : ObjectModel} {ctx : Context} {fuel : Nat}

theorem yields_literal (hfuel : 0 < fuel) (s : Stack) (lit : Literal) (ty : Ty) :
    Yields s (M.eval fuel (.literal lit ty)) (.ok lit.value) := by
  obtain ⟨fuel, rfl⟩ : ∃ n, fuel = n + 1 := ⟨fuel - 1, by omega⟩
  exact .observed _ (.pure lit.value)

theorem yields_var (hfuel : 0 < fuel) (s : Stack) (name : String) (ty : Ty) :
    Yields s (M.eval fuel (.var name ty))
      ((s.visible.lookup name).elim (.error (.unbound name)) .ok) := by
  obtain ⟨fuel, rfl⟩ : ∃ n, fuel = n + 1 := ⟨fuel - 1, by omega⟩
  refine .observed _ ?_
  rintro ctx rfl
  rw [run_var, Context.lookup, Context.visible_stack]
  cases ctx.visible.lookup name <;> exact ⟨rfl, rfl⟩

theorem returns_var (hfuel : 0 < fuel) {s : Stack} {name : String} {v : Value}
    (h : s.visible.lookup name = some v) (ty : Ty) :
    Returns s (M.eval fuel (.var name ty)) v := by
  have hvar := yields_var (M := M) hfuel s name ty
  rwa [h] at hvar

/-- A tree has the value that its node has with some fuel. -/
theorem EvaluatesTo.of_returns {fuel : Nat} {e : Expr} {v : Value}
    (h : Returns ctx.stack (M.evalNode fuel (M.eval fuel) e) v) : M.EvaluatesTo e ctx v :=
  ⟨fuel + 1, (h.observed e ctx rfl).1⟩

/-- A loop over a collection gives what it gives over its elements. -/
theorem returns_loopNode {s : Stack} {fuel : Nat} {eval : Expr → EvalM Value} {kind : LoopKind}
    {source body : Expr} {iterators : List String} {accumulator : Option (Accumulator Expr)}
    {ty elem : Ty} {sourceKind : Kind} {elems : List Value} {v : Value}
    (hsource : Returns s (eval source) (.collection sourceKind elem elems))
    (hloop : Returns s
      (loop fuel eval kind sourceKind ty.elemOrAny elems iterators accumulator body) v) :
    Returns s (M.evalNode fuel eval (.loop kind source iterators accumulator body ty)) v :=
  hsource.bind hloop

/-- Fuel that is enough for the source of a loop and for its body on some elements. -/
theorem exists_returns_inside {source body : Expr} {iterator : String} {v : Value}
    {xs : List Value} {results : Value → Value} (hsource : M.EvaluatesTo source ctx v)
    (hbody : ∀ x ∈ xs, M.EvaluatesTo body (ctx.bind iterator x) (results x)) :
    ∃ fuel, Returns ctx.stack (M.eval fuel source) v ∧
      ∀ x ∈ xs, Returns (ctx.stack.bind iterator x) (M.eval fuel body) (results x) := by
  obtain ⟨enough, henough⟩ := hsource.exists_fuel
  obtain ⟨enoughInside, hinside⟩ := exists_fuel_forall xs fun x hx => (hbody x hx).exists_fuel
  refine ⟨max enough enoughInside, .eval (henough _ (le_max_left _ _)), fun x hx => ?_⟩
  exact Returns.eval (hinside _ (le_max_right _ _) x hx)

theorem exists_returns {source body : Expr} {iterator : String} {v : Value} {xs : List Value}
    {results : Value → Value} (hsource : M.EvaluatesTo source ctx v)
    (hbody : ∀ x ∈ xs, M.EvaluatesTo body (ctx.bind iterator x) (results x)) :
    ∃ fuel, Returns ctx.stack (M.eval fuel source) v ∧
      ∀ x ∈ xs, Returns ctx.stack (EvalM.withBinding iterator x (M.eval fuel body))
        (results x) := by
  obtain ⟨fuel, hsource, hinside⟩ := exists_returns_inside hsource hbody
  exact ⟨fuel, hsource, fun x hx => .withBinding (hinside x hx)⟩

end ObjectModel

end ObjectConstraint
