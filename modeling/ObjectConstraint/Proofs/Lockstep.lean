import ObjectConstraint.Proofs.Judgements

/-!
# Computations in lockstep

Two computations run side by side, each on a context of its own, and end alike: with the same value,
with the same error, or both out of fuel. A lockstep says which contexts may stand beside each other
at each point of a walk through a tree; the points are indices, so that a bound variable or an open
node leads from one to another and back. With equal contexts on both sides it describes one
computation alone.

* `Lockstep` — the pairs of contexts at each point, and the values that may be bound and reported.
* `Lockstep.Alike` — two computations from any pair of contexts at a point.
* `Alike.bind`, `Alike.withBinding`, `Alike.inFrame`, `Alike.observed` — one computation after
  another, with a variable bound, in a frame of its own, and as the evaluation of a node.
* `Lockstep.judgement` — the loops over elements come from the rules for all judgements.
-/

namespace ObjectConstraint

namespace EvalM

variable {α β : Type}

/-! ### Runs -/

theorem run_bind (act : EvalM α) (f : α → EvalM β) (ctx : Context) :
    (act >>= f).run.run ctx = match act.run.run ctx with
      | (.ok v, inner) => (f v).run.run inner
      | (.error stop, inner) => (.error stop, inner) := by
  show ExceptT.bindCont f (act.run.run ctx).1 (act.run.run ctx).2 = _
  rcases act.run.run ctx with ⟨_ | v, inner⟩ <;> rfl

theorem run_observed (e : Expr) (act : EvalM Value) (ctx : Context) :
    (observed e act).run.run ctx = match act.run.run (ctx.enter e) with
      | (.ok v, inner) => (.ok v, inner.exit e v)
      | (.error stop, inner) => (.error stop, inner.recordFailure.exit e .undefined) :=
  rfl

/-- A node has the value of the computation between its entry and its exit. -/
theorem exists_of_observed_ok {e : Expr} {act : EvalM Value} {ctx final : Context} {v : Value}
    (h : (observed e act).run.run ctx = (.ok v, final)) :
    ∃ inner, act.run.run (ctx.enter e) = (.ok v, inner) := by
  rw [run_observed] at h
  rcases hrun : act.run.run (ctx.enter e) with ⟨stop | w, inner⟩
  · rw [hrun] at h
    cases h
  · rw [hrun] at h
    cases h
    exact ⟨inner, rfl⟩

/-- What an outcome satisfies: its value the first condition, its error the second. Running out of
fuel satisfies any two. -/
def Meets (Q : α → Prop) (E : EvalError → Prop) : Except Stop α → Prop
  | .ok v => Q v
  | .error (.error e) => E e
  | .error .outOfFuel => True

theorem Meets.mono {Q Q' : α → Prop} {E : EvalError → Prop} {outcome : Except Stop α}
    (h : Meets Q E outcome) (hQ : ∀ v, Q v → Q' v) : Meets Q' E outcome := by
  cases outcome with
  | ok v => exact hQ v h
  | error stop => cases stop <;> exact h

/-- What an outcome without a value satisfies does not depend on the type of values. -/
theorem Meets.error {Q : α → Prop} {R : β → Prop} {E : EvalError → Prop} {stop : Stop}
    (h : Meets Q E (.error stop)) : Meets R E (.error stop) := by
  cases stop <;> exact h

end EvalM

/-- Which contexts may stand beside each other at each point of a walk, and which values may be
bound to variables and reported of nodes. Whatever is done to both contexts leads on to a pair at
the next point. -/
structure Lockstep (ι : Type) where
  /-- The pairs of contexts at a point. -/
  rel : ι → Context → Context → Prop
  /-- The values that may be bound and reported. -/
  good : Value → Prop
  /-- The point after a variable has been bound. -/
  bind : ι → (name : String) → (v : Value) → ι
  /-- The point in a new frame. -/
  frame : ι → ι
  /-- The point inside a node. -/
  enter : ι → (e : Expr) → ι
  good_undefined : good .undefined
  rel_bind {i : ι} {ctx ctx' : Context} (name : String) {v : Value} (hv : good v)
    (h : rel i ctx ctx') : rel (bind i name v) (ctx.bind name v) (ctx'.bind name v)
  rel_unbind {i : ι} {ctx ctx' : Context} {name : String} {v : Value}
    (h : rel (bind i name v) ctx ctx') : rel i ctx.unbind ctx'.unbind
  rel_pushFrame {i : ι} {ctx ctx' : Context} (h : rel i ctx ctx') :
    rel (frame i) ctx.pushFrame ctx'.pushFrame
  rel_popFrame {i : ι} {ctx ctx' : Context} {vars : List (String × Value)}
    (h : rel (vars.foldl (fun i var => bind i var.1 var.2) (frame i)) ctx ctx') :
    rel i ctx.popFrame ctx'.popFrame
  rel_write {i : ι} {ctx ctx' : Context} (entry : LogEntry) (h : rel i ctx ctx') :
    rel i (ctx.write entry) (ctx'.write entry)
  rel_enter {i : ι} {ctx ctx' : Context} (e : Expr) (h : rel i ctx ctx') :
    rel (enter i e) (ctx.enter e) (ctx'.enter e)
  rel_exit {i : ι} {ctx ctx' : Context} (e : Expr) {v : Value} (hv : good v)
    (h : rel (enter i e) ctx ctx') : rel i (ctx.exit e v) (ctx'.exit e v)
  rel_recordFailure {i : ι} {ctx ctx' : Context} (h : rel i ctx ctx') :
    rel i ctx.recordFailure ctx'.recordFailure

namespace Lockstep

open EvalM (Meets)

variable {ι α β : Type} {L : Lockstep ι} {i : ι}

/-- The point after variables have been bound one after the other. -/
def bindAll (L : Lockstep ι) (i : ι) (vars : List (String × Value)) : ι :=
  vars.foldl (fun i var => L.bind i var.1 var.2) i

theorem rel_bindAll {vars : List (String × Value)} {ctx ctx' : Context}
    (hvars : ∀ var ∈ vars, L.good var.2) (h : L.rel i ctx ctx') :
    L.rel (L.bindAll i vars) (ctx.bindAll vars) (ctx'.bindAll vars) := by
  induction vars generalizing i ctx ctx' with
  | nil => exact h
  | cons var vars ih =>
    obtain ⟨hvar, hvars⟩ := List.forall_mem_cons.mp hvars
    exact ih hvars (L.rel_bind var.1 hvar h)

/-- From every pair of contexts at a point, the two computations end alike, with a value or an error
as described, and in a pair of contexts at that point. -/
def Alike (L : Lockstep ι) (i : ι) (act act' : EvalM α) (Q : α → Prop) (E : EvalError → Prop) :
    Prop :=
  ∀ ctx ctx' : Context, L.rel i ctx ctx' →
    (act.run.run ctx).1 = (act'.run.run ctx').1 ∧ Meets Q E (act.run.run ctx).1 ∧
      L.rel i (act.run.run ctx).2 (act'.run.run ctx').2

namespace Alike

variable {act act' : EvalM α} {Q Q' : α → Prop} {R : β → Prop} {E : EvalError → Prop}

theorem mono (h : L.Alike i act act' Q E) (hQ : ∀ v, Q v → Q' v) : L.Alike i act act' Q' E := by
  intro ctx ctx' hrel
  obtain ⟨heq, hmeets, hafter⟩ := h ctx ctx' hrel
  exact ⟨heq, hmeets.mono hQ, hafter⟩

theorem pure {v : α} (h : Q v) :
    L.Alike i (Pure.pure v : EvalM α) (Pure.pure v : EvalM α) Q E :=
  fun _ _ hrel => ⟨rfl, h, hrel⟩

theorem fail {e : EvalError} (h : E e) :
    L.Alike i (EvalM.fail e : EvalM α) (EvalM.fail e : EvalM α) Q E :=
  fun _ _ hrel => ⟨rfl, h, hrel⟩

theorem outOfFuel :
    L.Alike i (throw .outOfFuel : EvalM α) (throw .outOfFuel : EvalM α) Q E :=
  fun _ _ hrel => ⟨rfl, trivial, hrel⟩

theorem write (entry : LogEntry) :
    L.Alike i (modifyThe Context (·.write entry) : EvalM PUnit)
      (modifyThe Context (·.write entry) : EvalM PUnit) (fun _ => True) E :=
  fun _ _ hrel => ⟨rfl, trivial, L.rel_write entry hrel⟩

theorem bind {f f' : α → EvalM β} (h : L.Alike i act act' Q E)
    (hf : ∀ v, Q v → L.Alike i (f v) (f' v) R E) : L.Alike i (act >>= f) (act' >>= f') R E := by
  intro ctx ctx' hrel
  have hacts := h ctx ctx' hrel
  rw [EvalM.run_bind, EvalM.run_bind]
  revert hacts
  rcases act.run.run ctx with ⟨outcome, inner⟩
  rcases act'.run.run ctx' with ⟨outcome', inner'⟩
  rintro ⟨rfl, hmeets, hafter⟩
  cases outcome with
  | ok v => exact hf v hmeets inner inner' hafter
  | error stop => exact ⟨rfl, hmeets.error, hafter⟩

theorem withBinding {name : String} {v : Value} (hv : L.good v)
    (h : L.Alike (L.bind i name v) act act' Q E) :
    L.Alike i (EvalM.withBinding name v act) (EvalM.withBinding name v act') Q E := by
  intro ctx ctx' hrel
  obtain ⟨heq, hmeets, hafter⟩ := h _ _ (L.rel_bind name hv hrel)
  exact ⟨heq, hmeets, L.rel_unbind hafter⟩

theorem inFrame {vars : List (String × Value)} (hvars : ∀ var ∈ vars, L.good var.2)
    (h : L.Alike (L.bindAll (L.frame i) vars) act act' Q E) :
    L.Alike i (EvalM.bracket (fun ctx => ctx.pushFrame.bindAll vars) Context.popFrame act)
      (EvalM.bracket (fun ctx => ctx.pushFrame.bindAll vars) Context.popFrame act') Q E := by
  intro ctx ctx' hrel
  obtain ⟨heq, hmeets, hafter⟩ := h _ _ (rel_bindAll hvars (L.rel_pushFrame hrel))
  exact ⟨heq, hmeets, L.rel_popFrame hafter⟩

theorem observed {act act' : EvalM Value} {Q : Value → Prop} (e : Expr)
    (h : L.Alike (L.enter i e) act act' Q E) (hQ : ∀ v, Q v → L.good v) :
    L.Alike i (EvalM.observed e act) (EvalM.observed e act') Q E := by
  intro ctx ctx' hrel
  have hacts := h _ _ (L.rel_enter e hrel)
  rw [EvalM.run_observed, EvalM.run_observed]
  revert hacts
  rcases act.run.run (ctx.enter e) with ⟨outcome, inner⟩
  rcases act'.run.run (ctx'.enter e) with ⟨outcome', inner'⟩
  rintro ⟨rfl, hmeets, hafter⟩
  cases outcome with
  | ok v => exact ⟨rfl, hmeets, L.rel_exit e (hQ v hmeets) hafter⟩
  | error stop =>
    exact ⟨rfl, hmeets, L.rel_exit e L.good_undefined (L.rel_recordFailure hafter)⟩

end Alike

/-- Computations in lockstep as a judgement on pairs of them. -/
def judgement (L : Lockstep ι) (E : EvalError → Prop) : Judgement Bool ι where
  holds i _ act Q := L.Alike i (act true) (act false) Q E
  fails := E
  good := L.good
  bound := L.bind
  pure := .pure
  fail := .fail
  outOfFuel := .outOfFuel
  bind h hf := h.bind hf
  withBinding hv h := .withBinding hv h

/-- The results stand beside the elements that gave them. -/
theorem alike_forEach {act act' : Value → EvalM β} {Rel : Value → β → Prop}
    {E : EvalError → Prop} {xs : List Value}
    (h : ∀ x ∈ xs, L.Alike i (act x) (act' x) (Rel x) E) :
    L.Alike i (EvalM.forEach act xs) (EvalM.forEach act' xs) (List.Forall₂ Rel xs) E := by
  show (L.judgement E).holds i
    (fun side => EvalM.forEach (bif side then act else act') xs) (List.Forall₂ Rel xs)
  exact Judgement.forEach h

end Lockstep

end ObjectConstraint
