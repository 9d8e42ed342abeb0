import ObjectConstraint.Proofs.KnownValues

/-!
# Computations that mirror each other

A computation mirrors another one if it ends as that does with the same error, or with a value that
stands in a given relation to the other value, wherever that other one does not run out of fuel.
Two trees that mirror each other need not take the same fuel, so how a tree ends is a statement
about all fuels.

* `EvalM.Mirrors` — one computation mirrors another.
* `EvalM.mirrors_quantify`, `EvalM.mirrors_keep` — loops with tests that mirror each other.
* `ObjectModel.MirroredBy` — one tree mirrors another.
* `ObjectModel.EndsIn` — the outcome of a tree, with whatever fuel it takes.
* `ObjectModel.EndsIn.mirrored`, `ObjectModel.endsIn_iff` — the outcomes of trees that mirror each
  other.
-/

namespace ObjectConstraint

/-- Values that stand in a relation, or the same error. -/
def Corresponds {ε α β : Type} (R : α → β → Prop) : Except ε α → Except ε β → Prop
  | .ok v, .ok w => R v w
  | .error err, .error err' => err = err'
  | _, _ => False

theorem Corresponds.exists_ok {ε α β : Type} {R : α → β → Prop} {v : α} {outcome : Except ε β}
    (h : Corresponds R (.ok v) outcome) : ∃ w, outcome = .ok w ∧ R v w := by
  cases outcome with
  | ok w => exact ⟨w, rfl, h⟩
  | error err => exact h.elim

theorem Corresponds.eq_error {ε α β : Type} {R : α → β → Prop} {err : ε} {outcome : Except ε β}
    (h : Corresponds R (.error err) outcome) : outcome = .error err := by
  cases outcome with
  | ok w => exact h.elim
  | error err' => exact congrArg _ (Eq.symm h)

theorem Corresponds.mono {ε α β : Type} {R R' : α → β → Prop} {outcome : Except ε α}
    {outcome' : Except ε β} (h : Corresponds R outcome outcome') (hR : ∀ v w, R v w → R' v w) :
    Corresponds R' outcome outcome' := by
  cases outcome with
  | ok v =>
    obtain ⟨w, rfl, hvw⟩ := h.exists_ok
    exact hR v w hvw
  | error err => exact h.eq_error ▸ rfl

theorem Corresponds.eq {ε α : Type} {outcome outcome' : Except ε α}
    (h : Corresponds Eq outcome outcome') : outcome = outcome' := by
  cases outcome with
  | ok v =>
    obtain ⟨_, rfl, rfl⟩ := h.exists_ok
    rfl
  | error err => exact h.eq_error.symm

namespace EvalM

variable {α β γ δ : Type} {s : Stack} {R : α → β → Prop} {T : γ → δ → Prop} {act : EvalM α}
  {act' : EvalM β}

/-- From contexts with the given stack, the second computation ends as the first one does, unless
that runs out of fuel; both leave the stack as it was. -/
def Mirrors (s : Stack) (R : α → β → Prop) (act : EvalM α) (act' : EvalM β) : Prop :=
  ∀ ctx ctx' : Context, ctx.stack = s → ctx'.stack = s →
    (act.run.run ctx).1 ≠ .error .outOfFuel →
    Corresponds R (act.run.run ctx).1 (act'.run.run ctx').1 ∧
      ((act.run.run ctx).2 : Context).stack = s ∧ ((act'.run.run ctx').2 : Context).stack = s

namespace Mirrors

theorem mono {R' : α → β → Prop} (h : Mirrors s R act act') (hR : ∀ v w, R v w → R' v w) :
    Mirrors s R' act act' := by
  intro ctx ctx' hctx hctx' hfinished
  obtain ⟨houtcomes, hafter⟩ := h ctx ctx' hctx hctx' hfinished
  exact ⟨houtcomes.mono hR, hafter⟩

theorem pure {v : α} {w : β} (h : R v w) : Mirrors s R (Pure.pure v) (Pure.pure w) :=
  fun _ _ hctx hctx' _ => ⟨h, hctx, hctx'⟩

theorem outOfFuel : Mirrors s R (throw .outOfFuel) act' :=
  fun _ _ _ _ hfinished => absurd rfl hfinished

theorem bind {f : α → EvalM γ} {f' : β → EvalM δ} (h : Mirrors s R act act')
    (hf : ∀ v w, R v w → Mirrors s T (f v) (f' w)) : Mirrors s T (act >>= f) (act' >>= f') := by
  intro ctx ctx' hctx hctx' hfinished
  have hacts := h ctx ctx' hctx hctx'
  rw [run_bind] at hfinished ⊢
  rw [run_bind]
  rcases hrun : act.run.run ctx with ⟨stop | v, inner⟩ <;> rw [hrun] at hacts hfinished
  · obtain ⟨houtcomes, hinner⟩ := hacts fun hstop => hfinished (congrArg _ (Except.error.inj hstop))
    rcases hrun' : act'.run.run ctx' with ⟨stop' | w, inner'⟩ <;> rw [hrun'] at houtcomes hinner
    · exact ⟨houtcomes, hinner⟩
    · exact houtcomes.elim
  · obtain ⟨houtcomes, hinner, hinner'⟩ := hacts nofun
    rcases hrun' : act'.run.run ctx' with ⟨stop' | w, inner'⟩ <;> rw [hrun'] at houtcomes hinner'
    · exact houtcomes.elim
    · exact hf v w houtcomes inner inner' hinner hinner' hfinished

/-- What comes after the first computation alone. -/
theorem bindLeft {f : α → EvalM γ} {T : γ → β → Prop} (h : Mirrors s R act act')
    (hf : ∀ v w, R v w → Mirrors s T (f v) (Pure.pure w)) : Mirrors s T (act >>= f) act' := by
  have hbind := h.bind hf
  rwa [bind_pure] at hbind

/-- What comes after the second computation alone. -/
theorem bindRight {f' : β → EvalM δ} {T : α → δ → Prop} (h : Mirrors s R act act')
    (hf : ∀ v w, R v w → Mirrors s T (Pure.pure v) (f' w)) : Mirrors s T act (act' >>= f') := by
  have hbind := h.bind hf
  rwa [bind_pure] at hbind

theorem withBinding {name : String} {x : Value} (h : Mirrors (s.bind name x) R act act') :
    Mirrors s R (EvalM.withBinding name x act) (EvalM.withBinding name x act') := by
  rintro ctx ctx' rfl hctx' hfinished
  obtain ⟨houtcomes, hinner, hinner'⟩ := h (ctx.bind name x) (ctx'.bind name x) rfl
    (congrArg (Stack.bind · name x) hctx') hfinished
  exact ⟨houtcomes, Context.stack_unbind hinner, Context.stack_unbind hinner'⟩

theorem observedLeft {act : EvalM Value} {R : Value → β → Prop} (e : Expr)
    (h : Mirrors s R act act') : Mirrors s R (EvalM.observed e act) act' := by
  intro ctx ctx' hctx hctx' hfinished
  have hact := h (ctx.enter e) ctx' ((ctx.stack_enter e).trans hctx) hctx'
  rw [run_observed] at hfinished ⊢
  rcases hrun : act.run.run (ctx.enter e) with ⟨stop | v, inner⟩ <;> rw [hrun] at hact hfinished
  · obtain ⟨houtcomes, hinner, hinner'⟩ := hact hfinished
    exact ⟨houtcomes, (Context.stack_exit _ _ _).trans hinner, hinner'⟩
  · obtain ⟨houtcomes, hinner, hinner'⟩ := hact hfinished
    exact ⟨houtcomes, (Context.stack_exit _ _ _).trans hinner, hinner'⟩

theorem observedRight {act' : EvalM Value} {R : α → Value → Prop} (e : Expr)
    (h : Mirrors s R act act') : Mirrors s R act (EvalM.observed e act') := by
  intro ctx ctx' hctx hctx' hfinished
  obtain ⟨houtcomes, hinner, hinner'⟩ :=
    h ctx (ctx'.enter e) hctx ((ctx'.stack_enter e).trans hctx') hfinished
  rw [run_observed]
  rcases hrun : act'.run.run (ctx'.enter e) with ⟨stop | w, final⟩ <;>
    rw [hrun] at houtcomes hinner'
  · exact ⟨houtcomes, hinner, (Context.stack_exit _ _ _).trans hinner'⟩
  · exact ⟨houtcomes, hinner, (Context.stack_exit _ _ _).trans hinner'⟩

theorem observed {act act' : EvalM Value} {R : Value → Value → Prop} (e e' : Expr)
    (h : Mirrors s R act act') : Mirrors s R (EvalM.observed e act) (EvalM.observed e' act') :=
  (h.observedRight e').observedLeft e

/-- A tree ends in the same way with more fuel. -/
theorem eval (M : ObjectModel) {fuel fuel' : Nat} (h : fuel ≤ fuel') (e : Expr) :
    Mirrors s Eq (M.eval fuel e) (M.eval fuel' e) := by
  rintro ctx ctx' rfl hctx' hfinished
  refine ⟨?_, (ObjectModel.stack_path_eval fuel e ctx).1,
    (ObjectModel.stack_path_eval fuel' e ctx').1.trans hctx'⟩
  have hsame : ((M.eval fuel' e).run.run ctx').1 = ((M.eval fuel e).run.run ctx).1 := by
    rw [← ObjectModel.outlastedBy_eval M h e ctx hfinished]
    refine ObjectModel.outcome_eq_of_agree fuel' fun x _ => Stack.agree_iff_lookup.mp ?_
    rw [hctx']
    rfl
  rw [hsame]
  rcases ((M.eval fuel e).run.run ctx).1 with stop | v
  · rfl
  · rfl

end Mirrors

/-! ### Loops over elements -/

variable {xs : List Value} {test test' : Value → EvalM (Option Bool)}

/-- With opposite tests, a scan for the one truth value ends where a scan for the other one does. -/
theorem mirrors_scan (wanted : Bool)
    (h : ∀ x ∈ xs, Mirrors s (fun b b' => b' = Kleene.not b) (test x) (test' x)) :
    Mirrors s (fun b b' => b' = Kleene.not b) (scan wanted test xs) (scan (!wanted) test' xs) := by
  induction xs with
  | nil => exact .pure rfl
  | cons x xs ih =>
    obtain ⟨hx, hxs⟩ := List.forall_mem_cons.mp h
    refine hx.bind ?_
    rintro (_ | b) _ rfl
    · exact .pure rfl
    · by_cases hb : b = wanted
      · simpa [Kleene.not, hb] using ih hxs
      · have hpure : Mirrors s (fun b b' => b' = Kleene.not b) (Pure.pure (some b))
            (Pure.pure (some !b)) := .pure rfl
        simpa [Kleene.not, hb] using hpure

/-- The same of all loops of a quantifier, from the innermost one. -/
theorem mirrors_quantify (wanted : Bool) {body body' : EvalM (Option Bool)}
    (h : ∀ s, Mirrors s (fun b b' => b' = Kleene.not b) body body') (iterators : List String) :
    Mirrors s (fun b b' => b' = Kleene.not b) (quantify wanted xs body iterators)
      (quantify (!wanted) xs body' iterators) := by
  induction iterators generalizing s with
  | nil => exact h s
  | cons iterator rest ih => exact mirrors_scan wanted fun x _ => .withBinding ih

/-- Filters whose tests have truth values for the same elements are both known or both not. They
keep the same elements if `f` takes what the one wants, and that alone, to what the other one
wants. -/
theorem mirrors_keep (wanted wanted' : Bool) (f : Bool → Bool)
    (h : ∀ x ∈ xs, Mirrors s (fun b b' => b' = b.map f) (test x) (test' x)) :
    Mirrors s (fun kept kept' => kept'.isSome = kept.isSome ∧
        ((∀ b, f b = wanted' ↔ b = wanted) → kept' = kept))
      (keep wanted test xs) (keep wanted' test' xs) := by
  induction xs with
  | nil => exact .pure ⟨rfl, fun _ => rfl⟩
  | cons x xs ih =>
    obtain ⟨hx, hxs⟩ := List.forall_mem_cons.mp h
    refine hx.bind ?_
    rintro (_ | b) _ rfl
    · exact .pure ⟨rfl, fun _ => rfl⟩
    · refine (ih hxs).bind ?_
      rintro kept kept' ⟨hsome, hsame⟩
      refine .pure ⟨?_, fun hwanted => ?_⟩
      · split <;> split <;> simpa using hsome
      · simp only [hwanted b, hsame hwanted]

end EvalM

/-! ### Trees -/

namespace ObjectModel

open EvalM (Mirrors)

variable {M : ObjectModel} {R T : Value → Value → Prop} {e e' : Expr} {ctx : Context}

/-- With enough fuel, the second tree mirrors the first one, whatever fuel that has. -/
def MirroredBy (M : ObjectModel) (R : Value → Value → Prop) (e e' : Expr) : Prop :=
  ∀ fuel, ∃ enough, ∀ fuel', enough ≤ fuel' → ∀ s,
    Mirrors s R (M.eval fuel e) (M.eval fuel' e')

namespace MirroredBy

theorem refl (M : ObjectModel) (e : Expr) : M.MirroredBy Eq e e :=
  fun fuel => ⟨fuel, fun _ h _ => .eval M h e⟩

theorem mono (h : M.MirroredBy R e e') (hRT : ∀ v w, R v w → T v w) : M.MirroredBy T e e' := by
  intro fuel
  obtain ⟨enough, henough⟩ := h fuel
  exact ⟨enough, fun fuel' hfuel' s => (henough fuel' hfuel' s).mono hRT⟩

/-- Loops over one source mirror each other if they do over any elements, given bodies that do. -/
theorem loop {kind kind' : LoopKind} {source body body' : Expr} {iterators : List String}
    {accumulator : Option (Accumulator Expr)} {ty : Ty} (hbody : M.MirroredBy R body body')
    (hundefined : T .undefined .undefined)
    (hloop : ∀ s fuel fuel' k elems,
      (∀ s, Mirrors s R (M.eval fuel body) (M.eval fuel' body')) →
      Mirrors s T
        (ObjectModel.loop fuel (M.eval fuel) kind k ty.elemOrAny elems iterators accumulator body)
        (ObjectModel.loop fuel' (M.eval fuel') kind' k ty.elemOrAny elems iterators accumulator
          body')) :
    M.MirroredBy T (.loop kind source iterators accumulator body ty)
      (.loop kind' source iterators accumulator body' ty) := by
  intro fuel
  cases fuel with
  | zero => exact ⟨0, fun _ _ _ => .outOfFuel⟩
  | succ fuel =>
    obtain ⟨enough, henough⟩ := hbody fuel
    -- the source takes the fuel that it has, the second body what it needs beside the first one
    refine ⟨max fuel enough + 1, fun fuel' hfuel' s => ?_⟩
    obtain ⟨fuel', rfl⟩ : ∃ n, fuel' = n + 1 := ⟨fuel' - 1, by omega⟩
    refine .observed _ _ ((Mirrors.eval M (by omega) source).bind ?_)
    rintro v _ rfl
    cases v with
    | collection k elem elems => exact hloop s fuel fuel' k elems (henough fuel' (by omega))
    | _ => exact .pure hundefined

end MirroredBy

/-- With enough fuel, a tree has a value or an error in a context. -/
def EndsIn (M : ObjectModel) (e : Expr) (ctx : Context) (outcome : Except EvalError Value) : Prop :=
  ∃ fuel, ((M.eval fuel e).run.run ctx).1 = outcome.mapError Stop.error

/-- A tree that ends in an outcome is mirrored in a corresponding one. -/
theorem EndsIn.mirrored {outcome : Except EvalError Value} (h : M.EndsIn e ctx outcome)
    (hmirrored : M.MirroredBy R e e') :
    ∃ outcome', M.EndsIn e' ctx outcome' ∧ Corresponds R outcome outcome' := by
  obtain ⟨fuel, hrun⟩ := h
  obtain ⟨fuel', henough⟩ := hmirrored fuel
  have hfinished : ((M.eval fuel e).run.run ctx).1 ≠ .error .outOfFuel := by
    rw [hrun]
    cases outcome <;> exact nofun
  obtain ⟨houtcomes, -, -⟩ := henough fuel' le_rfl ctx.stack ctx ctx rfl rfl hfinished
  rw [hrun] at houtcomes
  cases outcome with
  | ok v =>
    obtain ⟨w, hrun', hvw⟩ := houtcomes.exists_ok
    exact ⟨.ok w, ⟨fuel', hrun'⟩, hvw⟩
  | error err => exact ⟨.error err, ⟨fuel', houtcomes.eq_error⟩, rfl⟩

/-- Trees that have the same values where they mirror each other end alike. -/
theorem endsIn_iff (h : M.MirroredBy Eq e e') (h' : M.MirroredBy Eq e' e)
    (outcome : Except EvalError Value) : M.EndsIn e ctx outcome ↔ M.EndsIn e' ctx outcome := by
  constructor
  · intro hends
    obtain ⟨outcome', hends', hsame⟩ := hends.mirrored h
    rwa [hsame.eq]
  · intro hends
    obtain ⟨outcome', hends', hsame⟩ := hends.mirrored h'
    rwa [hsame.eq]

end ObjectModel

end ObjectConstraint
