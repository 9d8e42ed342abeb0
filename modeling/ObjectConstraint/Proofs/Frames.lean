import ObjectConstraint.Evaluation.Context
import Mathlib.Algebra.Ring.Nat

/-!
# Bindings as a stack of frames

A context keeps all bindings in one list and cuts it into frames by counting. What can be seen of it
is a stack of frames with a list of bindings each, however binding, unbinding and framing follow
each other.

* `FrameStack` — frames that hold their own bindings; there is always an outermost one.
* `Bindings`, `Bindings.answers` — what is asked of either, and the answers to a list of commands.
* `Bindings.Simulates` — two implementations in step, which answer every list of commands alike.
* `Context.Represents` — a context whose counts cut its bindings into the frames of a stack.
* `Context.answers_eq_frames` — the answers are those of the stack, and the counts add up.
* `IndexedFrames`, `Context.answers_indexed` — the same bindings cut by the places where frames
  begin, which say as much as the counts.
-/

namespace ObjectConstraint

/-! ### Two implementations -/

/-- What is done with bindings, for any kind of state. -/
structure Bindings (σ : Type) where
  bind : σ → (name : String) → (v : Value) → σ
  unbind : σ → σ
  pushFrame : σ → σ
  popFrame : σ → σ
  lookup : σ → (name : String) → Except EvalError Value

/-- A command to bindings. -/
inductive BindingCommand where
  | bind (name : String) (v : Value)
  | unbind
  | pushFrame
  | popFrame
  | lookup (name : String)

namespace Bindings

variable {σ : Type} (B : Bindings σ)

/-- The state after a command. -/
def perform (s : σ) : BindingCommand → σ
  | .bind name v => B.bind s name v
  | .unbind => B.unbind s
  | .pushFrame => B.pushFrame s
  | .popFrame => B.popFrame s
  | .lookup _ => s

/-- The answer to a command: only a lookup has one. -/
def answer (s : σ) : BindingCommand → List (Except EvalError Value)
  | .lookup name => [B.lookup s name]
  | _ => []

def performAll (s : σ) (commands : List BindingCommand) : σ := commands.foldl B.perform s

/-- The answers to commands that are given one after the other. -/
def answers (s : σ) : List BindingCommand → List (Except EvalError Value)
  | [] => []
  | command :: commands => B.answer s command ++ answers (B.perform s command) commands

/-- Related states answer every command alike, and every command leads to related states. -/
structure Simulates {τ : Type} (B : Bindings σ) (B' : Bindings τ) (R : σ → τ → Prop) : Prop where
  perform {s : σ} {t : τ} (h : R s t) (command : BindingCommand) :
    R (B.perform s command) (B'.perform t command)
  answer {s : σ} {t : τ} (h : R s t) (command : BindingCommand) :
    B.answer s command = B'.answer t command

namespace Simulates

variable {τ : Type} {B : Bindings σ} {B' : Bindings τ} {R : σ → τ → Prop} {s : σ} {t : τ}

theorem performAll (hsim : Simulates B B' R) (h : R s t) (commands : List BindingCommand) :
    R (B.performAll s commands) (B'.performAll t commands) := by
  induction commands generalizing s t with
  | nil => exact h
  | cons command commands ih => exact ih (hsim.perform h command)

theorem answers (hsim : Simulates B B' R) (h : R s t) (commands : List BindingCommand) :
    B.answers s commands = B'.answers t commands := by
  induction commands generalizing s t with
  | nil => rfl
  | cons command commands ih =>
    rw [Bindings.answers, Bindings.answers, hsim.answer h command, ih (hsim.perform h command)]

end Simulates

end Bindings

/-- The bindings of a context. -/
def Context.asBindings : Bindings Context :=
  ⟨Context.bind, Context.unbind, Context.pushFrame, Context.popFrame, Context.lookup⟩

/-- A stack of frames, each with its bindings, newest first. The last frame is the outermost one. -/
structure FrameStack where
  top : List (String × Value)
  below : List (List (String × Value))

namespace FrameStack

/-- One frame without a binding. -/
def empty : FrameStack := ⟨[], []⟩

def bind (s : FrameStack) (name : String) (v : Value) : FrameStack :=
  { s with top := (name, v) :: s.top }

def unbind (s : FrameStack) : FrameStack := { s with top := s.top.tail }

def pushFrame (s : FrameStack) : FrameStack := ⟨[], s.top :: s.below⟩

def popFrame (s : FrameStack) : FrameStack :=
  match s.below with
  | [] => s
  | top :: below => ⟨top, below⟩

def lookup (s : FrameStack) (name : String) : Except EvalError Value :=
  match s.top.lookup name with
  | some v => .ok v
  | none => .error (.unbound name)

def asBindings : Bindings FrameStack :=
  ⟨FrameStack.bind, FrameStack.unbind, FrameStack.pushFrame, FrameStack.popFrame,
    FrameStack.lookup⟩

end FrameStack

/-! ### The simulation -/

namespace Context

variable {ctx : Context} {s : FrameStack}

/-- The counts of a context cut its bindings into the frames of a stack. -/
structure Represents (ctx : Context) (s : FrameStack) : Prop where
  bindings : ctx.bindings = s.top ++ s.below.flatten
  own : ctx.own = s.top.length
  outer : ctx.outer = s.below.map List.length

namespace Represents

/-- The newest frame is what a lookup searches. -/
theorem visible (h : ctx.Represents s) : ctx.visible = s.top := by
  rw [Context.visible, h.bindings, h.own, List.take_left]

theorem bind (h : ctx.Represents s) (name : String) (v : Value) :
    (ctx.bind name v).Represents (s.bind name v) where
  bindings := congrArg ((name, v) :: ·) h.bindings
  own := congrArg (· + 1) h.own
  outer := h.outer

/-- Unbinding stops at the end of the newest frame. -/
theorem unbind (h : ctx.Represents s) : ctx.unbind.Represents s.unbind := by
  obtain ⟨_ | ⟨binding, top⟩, below⟩ := s
  · have hown : ctx.own = 0 := h.own
    rwa [Context.unbind, hown]
  · have hown : ctx.own = top.length + 1 := h.own
    have hbindings : ctx.bindings = binding :: (top ++ below.flatten) := h.bindings
    rw [Context.unbind, hown]
    exact ⟨congrArg List.tail hbindings, rfl, h.outer⟩

theorem pushFrame (h : ctx.Represents s) : ctx.pushFrame.Represents s.pushFrame where
  bindings := h.bindings
  own := rfl
  outer := congr (congrArg List.cons h.own) h.outer

/-- The outermost frame is never discarded. -/
theorem popFrame (h : ctx.Represents s) : ctx.popFrame.Represents s.popFrame := by
  obtain ⟨top, _ | ⟨next, below⟩⟩ := s
  · have houter : ctx.outer = [] := h.outer
    rwa [Context.popFrame, houter]
  · have houter : ctx.outer = next.length :: below.map List.length := h.outer
    rw [Context.popFrame, houter]
    refine ⟨?_, rfl, rfl⟩
    show ctx.bindings.drop ctx.own = next ++ below.flatten
    rw [h.bindings, h.own, List.drop_left, List.flatten_cons]

theorem lookup (h : ctx.Represents s) (name : String) : ctx.lookup name = s.lookup name := by
  unfold Context.lookup FrameStack.lookup
  exact h.visible ▸ rfl

/-- The counts add up to the number of bindings. -/
theorem count_eq (h : ctx.Represents s) : ctx.own + ctx.outer.sum = ctx.bindings.length := by
  rw [h.bindings, h.own, h.outer, List.length_append, List.length_flatten]

/-- With the oldest binding first, the newest frame is all that stands from the end of the frames
outside it. -/
theorem visible_eq_drop (h : ctx.Represents s) :
    ctx.visible.reverse = ctx.bindings.reverse.drop ctx.outer.sum := by
  rw [h.visible, h.bindings, h.outer, ← List.length_flatten, List.reverse_append,
    ← List.length_reverse, List.drop_left]

end Represents

/-- A context answers commands as the stack that it represents. -/
theorem simulates_frames : Bindings.Simulates asBindings FrameStack.asBindings Represents where
  perform h command := by
    cases command with
    | bind name v => exact h.bind name v
    | unbind => exact h.unbind
    | pushFrame => exact h.pushFrame
    | popFrame => exact h.popFrame
    | lookup name => exact h
  answer h command := by
    cases command with
    | lookup name => exact congrArg ([·]) (h.lookup name)
    | _ => rfl

/-- A context in which nothing is bound yet answers every sequence of commands as a stack of frames
does. Whatever has been done, its frames cover its bindings exactly: the bindings of the outer ones
come first, in a number that does not exceed the number of all, and the rest is what a lookup
searches. -/
theorem answers_eq_frames (ctx : Context) (commands : List BindingCommand) :
    let fresh := { ctx with bindings := [], own := 0, outer := [] }
    let final := asBindings.performAll fresh commands
    asBindings.answers fresh commands = FrameStack.asBindings.answers .empty commands ∧
      final.outer.sum + final.own = final.bindings.length ∧
      final.visible.reverse = final.bindings.reverse.drop final.outer.sum ∧
      final.visible.length = final.own := by
  intro fresh final
  have hfresh : fresh.Represents .empty := ⟨rfl, rfl, rfl⟩
  have hfinal := simulates_frames.performAll hfresh commands
  refine ⟨simulates_frames.answers hfresh commands, ?_, hfinal.visible_eq_drop, ?_⟩
  · rw [Nat.add_comm, hfinal.count_eq]
  · rw [hfinal.visible, hfinal.own]

/-- Unbinding in a new frame leaves the caller's variables alone, and what the frame binds is gone
with it; one end of a frame too many does nothing. -/
example :
    asBindings.answers .empty
        [.bind "x" (.boolean true), .pushFrame, .unbind, .lookup "x", .bind "x" .undefined,
          .lookup "x", .popFrame, .popFrame, .lookup "x"] =
      [.error (.unbound "x"), .ok .undefined, .ok (.boolean true)] := rfl

end Context

/-! ### Frames by base indices -/

/-- Bindings in one list, oldest first, cut into frames by the places where these begin. The frames
are newest first; the outermost one begins at 0 and is not among them. -/
structure IndexedFrames where
  bindings : List (String × Value)
  bases : List Nat

namespace IndexedFrames

def empty : IndexedFrames := ⟨[], []⟩

/-- Where the newest frame begins. -/
def base (t : IndexedFrames) : Nat := t.bases.headD 0

def bind (t : IndexedFrames) (name : String) (v : Value) : IndexedFrames :=
  { t with bindings := t.bindings ++ [(name, v)] }

def unbind (t : IndexedFrames) : IndexedFrames :=
  if t.base < t.bindings.length then { t with bindings := t.bindings.dropLast } else t

def pushFrame (t : IndexedFrames) : IndexedFrames :=
  { t with bases := t.bindings.length :: t.bases }

def popFrame (t : IndexedFrames) : IndexedFrames :=
  match t.bases with
  | [] => t
  | base :: bases => ⟨t.bindings.take base, bases⟩

def lookup (t : IndexedFrames) (name : String) : Except EvalError Value :=
  match (t.bindings.drop t.base).reverse.lookup name with
  | some v => .ok v
  | none => .error (.unbound name)

def asBindings : Bindings IndexedFrames :=
  ⟨IndexedFrames.bind, IndexedFrames.unbind, IndexedFrames.pushFrame, IndexedFrames.popFrame,
    IndexedFrames.lookup⟩

end IndexedFrames

namespace Context

/-- Where frames begin, given the numbers of bindings in the frames outside each: a frame begins
after all of these. -/
def bases : (outer : List Nat) → List Nat
  | [] => []
  | own :: outer => (own + outer.sum) :: bases outer

theorem headD_bases (outer : List Nat) : (bases outer).headD 0 = outer.sum := by
  cases outer <;> simp [bases]

theorem le_sum_of_mem_bases {outer : List Nat} {base : Nat} (h : base ∈ bases outer) :
    base ≤ outer.sum := by
  induction outer with
  | nil => cases h
  | cons own outer ih =>
    rw [List.sum_cons]
    rcases List.mem_cons.mp h with rfl | h
    · exact Nat.le_refl _
    · exact Nat.le_trans (ih h) (Nat.le_add_left _ own)

/-- No frame begins before one outside it. -/
theorem pairwise_bases (outer : List Nat) : (bases outer).Pairwise (· ≥ ·) := by
  induction outer with
  | nil => exact .nil
  | cons own outer ih =>
    refine .cons (fun base h => ?_) ih
    exact Nat.le_trans (le_sum_of_mem_bases h) (Nat.le_add_left _ own)

/-- The bindings of a context by base indices. -/
def indexed (ctx : Context) : IndexedFrames := ⟨ctx.bindings.reverse, bases ctx.outer⟩

variable {ctx : Context} {s : FrameStack}

theorem base_indexed (ctx : Context) : ctx.indexed.base = ctx.outer.sum := headD_bases ctx.outer

namespace Represents

/-- The bindings below the newest frame are the ones before its base. -/
theorem length_indexed (h : ctx.Represents s) :
    ctx.indexed.bindings.length = ctx.own + ctx.indexed.base := by
  rw [base_indexed, h.count_eq, indexed, List.length_reverse]

/-- There is a binding to drop exactly if the bindings reach beyond the base. -/
theorem indexed_unbind (h : ctx.Represents s) : ctx.unbind.indexed = ctx.indexed.unbind := by
  have hlength := h.length_indexed
  rw [IndexedFrames.unbind, Context.unbind]
  cases hown : ctx.own with
  | zero => rw [if_neg (by omega)]
  | succ own =>
    rw [if_pos (by omega)]
    simp [indexed]

theorem indexed_pushFrame (h : ctx.Represents s) :
    ctx.pushFrame.indexed = ctx.indexed.pushFrame := by
  simp [indexed, Context.pushFrame, IndexedFrames.pushFrame, bases, h.count_eq]

/-- What the newest frame has bound is what stands from its base on. -/
theorem indexed_popFrame (h : ctx.Represents s) : ctx.popFrame.indexed = ctx.indexed.popFrame := by
  have hcount := h.count_eq
  rw [IndexedFrames.popFrame, Context.popFrame]
  cases houter : ctx.outer with
  | nil => simp [indexed, houter, bases]
  | cons own outer =>
    rw [houter, List.sum_cons] at hcount
    have hdropped : ctx.bindings.length - (own + outer.sum) = ctx.own := by omega
    simp [indexed, houter, bases, List.take_reverse, hdropped]

theorem indexed_lookup (h : ctx.Represents s) (name : String) :
    ctx.indexed.lookup name = ctx.lookup name := by
  have hvisible : (ctx.indexed.bindings.drop ctx.indexed.base).reverse = ctx.visible := by
    rw [base_indexed, indexed, ← h.visible_eq_drop, List.reverse_reverse]
  cases hfound : ctx.visible.lookup name <;>
    simp only [IndexedFrames.lookup, Context.lookup, hvisible, hfound]

end Represents

/-- A context answers commands as its bindings by base indices do. -/
theorem simulates_indexed : Bindings.Simulates asBindings IndexedFrames.asBindings
    fun ctx t => t = ctx.indexed ∧ ∃ s, ctx.Represents s where
  perform := by
    rintro ctx t ⟨rfl, s, h⟩ command
    refine ⟨?_, _, simulates_frames.perform h command⟩
    cases command with
    | bind name v => exact congrArg (IndexedFrames.mk · _) List.reverse_cons.symm
    | unbind => exact h.indexed_unbind.symm
    | pushFrame => exact h.indexed_pushFrame.symm
    | popFrame => exact h.indexed_popFrame.symm
    | lookup name => rfl
  answer := by
    rintro ctx t ⟨rfl, s, h⟩ command
    cases command with
    | lookup name => exact congrArg ([·]) (h.indexed_lookup name).symm
    | _ => rfl

/-- Frames by counts and frames by base indices answer every sequence of commands alike, and hold
the same bindings after it. No frame then begins before one outside it, and the newest one begins
within the bindings, so the part of them that a lookup takes is there. -/
theorem answers_indexed (ctx : Context) (commands : List BindingCommand) :
    let fresh := { ctx with bindings := [], own := 0, outer := [] }
    let final := IndexedFrames.asBindings.performAll .empty commands
    IndexedFrames.asBindings.answers .empty commands = asBindings.answers fresh commands ∧
      final = (asBindings.performAll fresh commands).indexed ∧
      final.bases.Pairwise (· ≥ ·) ∧ final.base ≤ final.bindings.length := by
  intro fresh final
  have hfresh : IndexedFrames.empty = fresh.indexed ∧ ∃ s, fresh.Represents s :=
    ⟨rfl, .empty, rfl, rfl, rfl⟩
  obtain ⟨hfinal : final = (asBindings.performAll fresh commands).indexed, s, hframes⟩ :=
    simulates_indexed.performAll hfresh commands
  refine ⟨(simulates_indexed.answers hfresh commands).symm, hfinal, ?_, ?_⟩
  · rw [hfinal]
    exact pairwise_bases _
  · rw [hfinal, hframes.length_indexed]
    exact Nat.le_add_left _ _

end Context

end ObjectConstraint
