import ObjectConstraint.Evaluation
import ObjectConstraint.Proofs.Belonging

/-!
# Judgements on computations

What is to be shown of an evaluation is often shown of its parts: it holds of a computation at once,
it passes from two computations to one after the other, and from a computation to the same one with
a variable bound. A judgement is a statement of this form. The loops over elements are made in no
other way, so a judgement on the body of a loop is one on the loop.

* `Judgement` — a statement about computations that are given something, with its rules.
* `Judgement.forEach`, `Judgement.keep`, … — the loops over elements, each from its body.
-/

namespace ObjectConstraint

/-- A statement about computations that are given something of type `ι`, at each point of a walk
through a tree. It says what the values are, and which errors there may be. -/
structure Judgement (ι π : Type) where
  holds : π → {α : Type} → (act : ι → EvalM α) → (Q : α → Prop) → Prop
  /-- The errors that there may be. -/
  fails : EvalError → Prop
  /-- The values that may be bound. -/
  good : Value → Prop
  /-- The point after a variable has been bound. -/
  bound : π → (name : String) → (v : Value) → π
  pure {p : π} {α : Type} {v : α} {Q : α → Prop} (h : Q v) : holds p (fun _ => Pure.pure v) Q
  fail {p : π} {α : Type} {e : EvalError} {Q : α → Prop} (h : fails e) :
    holds p (fun _ => EvalM.fail e) Q
  outOfFuel {p : π} {α : Type} {Q : α → Prop} : holds p (fun _ => throw .outOfFuel) Q
  bind {p : π} {α β : Type} {act : ι → EvalM α} {f : ι → α → EvalM β} {Q : α → Prop}
    {R : β → Prop} (h : holds p act Q) (hf : ∀ v, Q v → holds p (fun i => f i v) R) :
    holds p (fun i => act i >>= f i) R
  withBinding {p : π} {α : Type} {act : ι → EvalM α} {name : String} {v : Value} {Q : α → Prop}
    (hv : good v) (h : holds (bound p name v) act Q) :
    holds p (fun i => EvalM.withBinding name v (act i)) Q

namespace Judgement

variable {ι π α β : Type} {J : Judgement ι π} {p : π}

theorem mono {act : ι → EvalM α} {Q Q' : α → Prop} (h : J.holds p act Q) (hQ : ∀ v, Q v → Q' v) :
    J.holds p act Q' := by
  simpa using J.bind h fun v hv => J.pure (hQ v hv)

/-- A value made of the value of a computation. -/
theorem map {act : ι → EvalM α} {Q : α → Prop} {R : β → Prop} {g : α → β} (h : J.holds p act Q)
    (hg : ∀ v, Q v → R (g v)) : J.holds p (fun i => act i >>= fun v => Pure.pure (g v)) R :=
  J.bind h fun v hv => J.pure (hg v hv)

/-- The point after variables have been bound one after the other. -/
def boundAll (J : Judgement ι π) (p : π) (vars : List (String × Value)) : π :=
  vars.foldl (fun p var => J.bound p var.1 var.2) p

variable {xs : List Value}

/-- The results stand beside the elements that gave them. -/
theorem forEach {act : ι → Value → EvalM β} {Rel : Value → β → Prop}
    (h : ∀ x ∈ xs, J.holds p (fun i => act i x) (Rel x)) :
    J.holds p (fun i => EvalM.forEach (act i) xs) (List.Forall₂ Rel xs) := by
  induction xs with
  | nil => exact J.pure .nil
  | cons x xs ih =>
    obtain ⟨hx, hxs⟩ := List.forall_mem_cons.mp h
    exact J.bind hx fun r hr => J.map (ih hxs) fun rs hrs => .cons hr hrs

section Tests

variable {test : ι → Value → EvalM (Option Bool)}
  (h : ∀ x ∈ xs, J.holds p (fun i => test i x) (fun _ => True))

include h

theorem scan {wanted : Bool} :
    J.holds p (fun i => EvalM.scan wanted (test i) xs) (fun _ => True) := by
  induction xs with
  | nil => exact J.pure trivial
  | cons x xs ih =>
    obtain ⟨hx, hxs⟩ := List.forall_mem_cons.mp h
    refine J.bind hx ?_
    intro b _
    rcases b with _ | b
    · exact J.pure trivial
    · by_cases hb : b = wanted
      · simpa only [hb, if_true] using ih hxs
      · simpa only [hb, if_false] using J.pure trivial

theorem exactlyOne {found : Bool} :
    J.holds p (fun i => EvalM.exactlyOne (test i) found xs) (fun _ => True) := by
  induction xs generalizing found with
  | nil => exact J.pure trivial
  | cons x xs ih =>
    obtain ⟨hx, hxs⟩ := List.forall_mem_cons.mp h
    refine J.bind hx ?_
    intro b _
    rcases b with _ | _ | _
    · exact J.pure trivial
    · exact ih hxs
    · cases found with
      | true => exact J.pure trivial
      | false => exact ih hxs

theorem firstPassing :
    J.holds p (fun i => EvalM.firstPassing (test i) xs) (fun v => v = .undefined ∨ v ∈ xs) := by
  induction xs with
  | nil => exact J.pure (.inl rfl)
  | cons x xs ih =>
    obtain ⟨hx, hxs⟩ := List.forall_mem_cons.mp h
    refine J.bind hx ?_
    intro b _
    rcases b with _ | _ | _
    · exact J.pure (.inl rfl)
    · exact J.mono (ih hxs) fun v hv => hv.imp id (List.mem_cons_of_mem _)
    · exact J.pure (.inr List.mem_cons_self)

/-- What is kept are elements, in their order. -/
theorem keep {wanted : Bool} :
    J.holds p (fun i => EvalM.keep wanted (test i) xs)
      (fun kept => ∀ ys ∈ kept, ys.Sublist xs) := by
  induction xs with
  | nil => exact J.pure (by simp)
  | cons x xs ih =>
    obtain ⟨hx, hxs⟩ := List.forall_mem_cons.mp h
    refine J.bind hx ?_
    intro b _
    rcases b with _ | b
    · exact J.pure (by simp)
    · refine J.map (ih hxs) ?_
      intro kept hkept ys hys
      split at hys
      · obtain ⟨zs, hzs, rfl⟩ := Option.mem_map.mp hys
        exact (hkept zs hzs).cons_cons x
      · exact (hkept ys hys).cons x

end Tests

/-- The body is run with the iterators bound to elements. -/
theorem quantify {wanted : Bool} {body : ι → EvalM (Option Bool)} {iterators : List String}
    (hxs : ∀ x ∈ xs, J.good x)
    (h : ∀ vals : List Value, vals.length = iterators.length → (∀ x ∈ vals, x ∈ xs) →
      J.holds (J.boundAll p (iterators.zip vals)) body (fun _ => True)) :
    J.holds p (fun i => EvalM.quantify wanted xs (body i) iterators) (fun _ => True) := by
  induction iterators generalizing p with
  | nil => exact h [] rfl fun _ hx => nomatch hx
  | cons iterator rest ih =>
    refine scan ?_
    intro x hx
    refine J.withBinding (hxs x hx) (ih ?_)
    intro vals hlength hvals
    exact h (x :: vals) (congrArg (· + 1) hlength) (List.forall_mem_cons.mpr ⟨hx, hvals⟩)

theorem withKeys {key : ι → Value → EvalM Value}
    (h : ∀ x ∈ xs, J.holds p (fun i => key i x) (fun _ => True)) :
    J.holds p (fun i => EvalM.withKeys (key i) xs)
      (fun keyed => ∀ ps ∈ keyed, ps.map Prod.snd = xs) := by
  induction xs with
  | nil => exact J.pure (by simp)
  | cons x xs ih =>
    obtain ⟨hx, hxs⟩ := List.forall_mem_cons.mp h
    refine J.bind hx ?_
    intro k _
    by_cases hk : k.isUndefined
    · simpa only [hk, if_true] using J.pure (by simp)
    · simp only [hk, Bool.false_eq_true, if_false]
      refine J.map (ih hxs) ?_
      intro keyed hkeyed ps hps
      obtain ⟨qs, hqs, rfl⟩ := Option.mem_map.mp hps
      simp [hkeyed qs hqs]

/-- What holds of the start and passes on with every step holds at the end. -/
theorem foldEach {step : ι → Value → Value → EvalM Value} {acc : Value} {I : Value → Prop}
    (hacc : I acc) (h : ∀ acc, I acc → ∀ x ∈ xs, J.holds p (fun i => step i acc x) I) :
    J.holds p (fun i => EvalM.foldEach (step i) acc xs) I := by
  induction xs generalizing acc with
  | nil => exact J.pure hacc
  | cons x xs ih =>
    refine J.bind (h acc hacc x List.mem_cons_self) ?_
    intro next hnext
    exact ih hnext fun acc hacc y hy => h acc hacc y (List.mem_cons_of_mem _ hy)

/-! ### Closure -/

variable {act : ι → Value → EvalM Value} {P : Value → Prop}

theorem discover {known : Value.Known}
    (h : ∀ x ∈ xs, J.holds p (fun i => act i x) (fun r => ∀ y ∈ EvalM.stepTargets r, P y)) :
    J.holds p (fun i => EvalM.discover (act i) known xs) (fun found => ∀ y ∈ found.1, P y) := by
  induction xs generalizing known with
  | nil => exact J.pure fun _ hy => nomatch hy
  | cons x xs ih =>
    obtain ⟨hx, hxs⟩ := List.forall_mem_cons.mp h
    refine J.bind hx fun r hr => J.map (ih hxs) ?_
    intro others hothers y hy
    rcases List.mem_append.mp hy with hy | hy
    · exact hr y (List.mem_of_mem_filter (Value.mem_of_mem_firstOccurrences hy))
    · exact hothers y hy

/-- A closure reaches only what its steps lead to. -/
theorem closureFrom {fuel : Nat} {known : Value.Known} {level : List Value}
    (hlevel : ∀ x ∈ level, P x)
    (h : ∀ x, P x → J.holds p (fun i => act i x) (fun r => ∀ y ∈ EvalM.stepTargets r, P y)) :
    J.holds p (fun i => EvalM.closureFrom (act i) fuel known level)
      (fun reached => ∀ y ∈ reached, P y) := by
  induction fuel generalizing known level with
  | zero =>
    cases level with
    | nil => exact J.pure fun _ hy => nomatch hy
    | cons x level => exact J.outOfFuel
  | succ fuel ih =>
    cases level with
    | nil => exact J.pure fun _ hy => nomatch hy
    | cons x level =>
      refine J.bind (discover fun y hy => h y (hlevel y hy)) fun found hfound =>
        J.map (ih hfound) ?_
      intro others hothers y hy
      exact (List.mem_append.mp hy).elim (hfound y) (hothers y)

end Judgement

end ObjectConstraint
