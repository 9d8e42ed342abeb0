import ObjectConstraint.Proofs.Lockstep

/-!
# Computations that keep the bindings

A computation is described by what holds of its value and of its error, and it leaves the bindings
and frames as it found them. `Ensures` says so for every context with a given stack of bindings, so
nothing depends on what listeners, traces and logs have noted.

* `Ensures` — the description; running out of fuel satisfies every one.
* `Ensures.bind`, `Ensures.withBinding`, `Ensures.inFrame`, `Ensures.observed` — one computation
  after another, with a variable bound, in a frame of its own, and as the evaluation of a node.

`ensures_iff_alike` makes such a computation one that runs in lockstep with itself, and the rules
come from there.
-/

namespace ObjectConstraint

/-- The bindings of a context and the frames they are cut into. -/
structure Stack where
  bindings : List (String × Value)
  own : Nat
  outer : List Nat

namespace Stack

/-- The bindings of the newest frame, newest first. -/
def visible (s : Stack) : List (String × Value) := s.bindings.take s.own

def bind (s : Stack) (name : String) (v : Value) : Stack :=
  ⟨(name, v) :: s.bindings, s.own + 1, s.outer⟩

def bindAll (s : Stack) (vars : List (String × Value)) : Stack :=
  vars.foldl (fun s var => s.bind var.1 var.2) s

/-- The stack in a new frame. -/
def framed (s : Stack) : Stack := ⟨s.bindings, 0, s.own :: s.outer⟩

@[simp] theorem visible_bind (s : Stack) (name : String) (v : Value) :
    (s.bind name v).visible = (name, v) :: s.visible := rfl

theorem bindAll_eq (s : Stack) (vars : List (String × Value)) :
    s.bindAll vars = ⟨vars.reverse ++ s.bindings, s.own + vars.length, s.outer⟩ := by
  induction vars generalizing s with
  | nil => rfl
  | cons var vars ih =>
    refine (ih (s.bind var.1 var.2)).trans ?_
    simp [bind, Nat.add_assoc, Nat.add_comm 1]

theorem visible_bindAll (s : Stack) (vars : List (String × Value)) :
    (s.bindAll vars).visible = vars.reverse ++ s.visible := by
  rw [bindAll_eq, visible, Nat.add_comm, ← List.length_reverse]
  exact List.take_length_add_append _

end Stack

namespace Context

/-- The stack of bindings of a context. -/
def stack (ctx : Context) : Stack := ⟨ctx.bindings, ctx.own, ctx.outer⟩

theorem visible_stack (ctx : Context) : ctx.stack.visible = ctx.visible := rfl

theorem stack_bindAll (ctx : Context) (vars : List (String × Value)) :
    (ctx.bindAll vars).stack = ctx.stack.bindAll vars := by
  induction vars generalizing ctx with
  | nil => rfl
  | cons var vars ih => exact ih (ctx.bind var.1 var.2)

theorem visible_bindAll (ctx : Context) (vars : List (String × Value)) :
    (ctx.bindAll vars).visible = vars.reverse ++ ctx.visible := by
  rw [← visible_stack, stack_bindAll, Stack.visible_bindAll, visible_stack]

theorem stack_unbind {ctx : Context} {s : Stack} {name : String} {v : Value}
    (h : ctx.stack = s.bind name v) : ctx.unbind.stack = s := by
  obtain ⟨hbindings, hown, houter⟩ := Stack.mk.inj h
  simp only [unbind, hown, stack, hbindings, houter, List.tail_cons]

/-- Ending a frame drops all its bindings. -/
theorem stack_popFrame {ctx : Context} {s : Stack} {vars : List (String × Value)}
    (h : ctx.stack = s.framed.bindAll vars) : ctx.popFrame.stack = s := by
  rw [Stack.bindAll_eq] at h
  obtain ⟨hbindings, hown, houter⟩ := Stack.mk.inj h
  simp only [popFrame, houter, stack, hbindings, hown, Stack.framed]
  simp

/-- What happens to a node is written to the log and leaves the rest as it is. -/
theorem writeNode_eq (ctx : Context) (entry : Nat → LogEntry) :
    ctx.writeNode entry = { ctx with log := (ctx.writeNode entry).log } := by
  unfold writeNode
  split <;> rfl

@[simp] theorem stack_enter (ctx : Context) (e : Expr) : (ctx.enter e).stack = ctx.stack := by
  unfold enter
  rw [writeNode_eq]
  rfl

@[simp] theorem stack_exit (ctx : Context) (e : Expr) (result : Value) :
    (ctx.exit e result).stack = ctx.stack := by
  unfold exit
  dsimp only
  rw [writeNode_eq]
  rfl

end Context

/-- Before any binding an evaluation starts without one. -/
theorem Settings.visible_context (settings : Settings) : settings.context.visible = [] := by
  unfold context
  dsimp only
  split <;> rfl

/-- A computation beside itself: equal contexts on both sides, with the stack that the point says. -/
def Lockstep.alone : Lockstep Stack where
  rel s ctx ctx' := ctx = ctx' ∧ ctx.stack = s
  good _ := True
  bind := Stack.bind
  frame := Stack.framed
  enter s _ := s
  good_undefined := trivial
  rel_bind name v _ h := ⟨congrArg (·.bind name v) h.1, h.2 ▸ rfl⟩
  rel_unbind h := ⟨congrArg Context.unbind h.1, Context.stack_unbind h.2⟩
  rel_pushFrame h := ⟨congrArg Context.pushFrame h.1, h.2 ▸ rfl⟩
  rel_popFrame h := ⟨congrArg Context.popFrame h.1, Context.stack_popFrame h.2⟩
  rel_write entry h := ⟨congrArg (·.write entry) h.1, h.2⟩
  rel_enter e h := ⟨congrArg (·.enter e) h.1, (Context.stack_enter _ e).trans h.2⟩
  rel_exit e v _ h := ⟨congrArg (·.exit e v) h.1, (Context.stack_exit _ e v).trans h.2⟩
  rel_recordFailure h := ⟨congrArg Context.recordFailure h.1, h.2⟩

namespace EvalM

open Lockstep (alone)

variable {α β : Type}

/-! ### Descriptions of outcomes -/

/-- From every context with the given stack, the computation has a value or an error as described,
and leaves the stack as it was. -/
def Ensures (s : Stack) (act : EvalM α) (Q : α → Prop) (E : EvalError → Prop) : Prop :=
  ∀ ctx : Context, ctx.stack = s →
    Meets Q E (act.run.run ctx).1 ∧ ((act.run.run ctx).2 : Context).stack = s

theorem ensures_iff_alike {s : Stack} {act : EvalM α} {Q : α → Prop} {E : EvalError → Prop} :
    Ensures s act Q E ↔ alone.Alike s act act Q E := by
  constructor
  · rintro h ctx _ ⟨rfl, hctx⟩
    obtain ⟨hmeets, hstack⟩ := h ctx hctx
    exact ⟨rfl, hmeets, rfl, hstack⟩
  · intro h ctx hctx
    obtain ⟨-, hmeets, -, hstack⟩ := h ctx ctx ⟨rfl, hctx⟩
    exact ⟨hmeets, hstack⟩

namespace Ensures

variable {s : Stack} {act : EvalM α} {Q Q' : α → Prop} {R : β → Prop} {E : EvalError → Prop}

theorem alike (h : Ensures s act Q E) : alone.Alike s act act Q E := ensures_iff_alike.mp h

theorem of_alike (h : alone.Alike s act act Q E) : Ensures s act Q E := ensures_iff_alike.mpr h

theorem mono (h : Ensures s act Q E) (hQ : ∀ v, Q v → Q' v) : Ensures s act Q' E :=
  of_alike (h.alike.mono hQ)

/-- The value of a run has what is ensured. -/
theorem of_ok (h : Ensures s act Q E) {ctx inner : Context} {v : α} (hctx : ctx.stack = s)
    (hrun : act.run.run ctx = (.ok v, inner)) : Q v := by
  have hmeets := (h ctx hctx).1
  rw [hrun] at hmeets
  exact hmeets

theorem stack_eq (h : Ensures s act Q E) {ctx inner : Context} {outcome : Except Stop α}
    (hctx : ctx.stack = s) (hrun : act.run.run ctx = (outcome, inner)) : inner.stack = s := by
  have hstack := (h ctx hctx).2
  rw [hrun] at hstack
  exact hstack

theorem pure {v : α} (h : Q v) : Ensures s (Pure.pure v : EvalM α) Q E := of_alike (.pure h)

theorem bind {f : α → EvalM β} (h : Ensures s act Q E) (hf : ∀ v, Q v → Ensures s (f v) R E) :
    Ensures s (act >>= f) R E :=
  of_alike (h.alike.bind fun v hv => (hf v hv).alike)

theorem outOfFuel : Ensures s (throw .outOfFuel : EvalM α) Q E := of_alike .outOfFuel

theorem write (entry : LogEntry) :
    Ensures s (modifyThe Context (·.write entry) : EvalM PUnit) (fun _ => True) E :=
  of_alike (.write entry)

theorem getContext {Q : Context → Prop} (h : ∀ ctx : Context, ctx.stack = s → Q ctx) :
    Ensures s (getThe Context : EvalM Context) Q E :=
  fun ctx hctx => ⟨h ctx hctx, hctx⟩

theorem withBinding {name : String} {v : Value} (h : Ensures (s.bind name v) act Q E) :
    Ensures s (EvalM.withBinding name v act) Q E :=
  of_alike (.withBinding trivial h.alike)

theorem inFrame {vars : List (String × Value)} (h : Ensures (s.framed.bindAll vars) act Q E) :
    Ensures s (bracket (fun ctx => ctx.pushFrame.bindAll vars) Context.popFrame act) Q E :=
  of_alike (.inFrame (fun _ _ => trivial) h.alike)

theorem observed {act : EvalM Value} {Q : Value → Prop} (e : Expr) (h : Ensures s act Q E) :
    Ensures s (EvalM.observed e act) Q E :=
  of_alike (.observed e h.alike fun _ _ => trivial)

end Ensures

/-- The results stand beside the elements that gave them. -/
theorem ensures_forEach {s : Stack} {act : Value → EvalM β} {Rel : Value → β → Prop}
    {E : EvalError → Prop} {xs : List Value} (h : ∀ x ∈ xs, Ensures s (act x) (Rel x) E) :
    Ensures s (forEach act xs) (List.Forall₂ Rel xs) E :=
  .of_alike (Lockstep.alike_forEach fun x hx => (h x hx).alike)

end EvalM

end ObjectConstraint
