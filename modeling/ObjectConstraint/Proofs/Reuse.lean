import ObjectConstraint.Proofs.Construction

/-!
# Builders after use

A builder keeps one stack of scopes for all that it is asked to build. Whatever a construction does,
whether it succeeds, fails at any depth or recovers from failures, it closes the scopes that it
opens, so that only declarations outlast it.

* `Scripted` — the constructions made of the builder's steps, with any control flow.
* `Build.Declares` — a construction leaves its scope with some variables declared, and no other
  change.
* `Scripted.declares` — so does every construction made of steps.
* `BuilderCommand.build_eq_fresh` — a used builder builds as a fresh one with its declarations.
-/

namespace ObjectConstraint

/-! ### Declarations -/

namespace Scope

variable {s t u : Scope} {may : Prop}

theorem bindAll_append (s : Scope) (vars others : List (String × Ty)) :
    s.bindAll (vars ++ others) = (s.bindAll vars).bindAll others :=
  List.foldl_append

/-- One scope is another with some variables declared in it, and with none unless that may be. -/
def ExtendedTo (may : Prop) (s t : Scope) : Prop :=
  ∃ vars, t = s.bindAll vars ∧ (¬ may → vars = [])

theorem ExtendedTo.refl (s : Scope) : ExtendedTo may s s := ⟨[], rfl, fun _ => rfl⟩

theorem ExtendedTo.trans (hst : ExtendedTo may s t) (htu : ExtendedTo may t u) :
    ExtendedTo may s u := by
  obtain ⟨vars, rfl, hnone⟩ := hst
  obtain ⟨others, rfl, hnone'⟩ := htu
  exact ⟨vars ++ others, (bindAll_append s vars others).symm,
    fun h => by rw [hnone h, hnone' h, List.nil_append]⟩

theorem ExtendedTo.eq (h : ExtendedTo False s t) : t = s := by
  obtain ⟨vars, rfl, hnone⟩ := h
  rw [hnone not_false]
  rfl

end Scope

/-! ### Steps -/

namespace Build

variable {α β : Type} {scope : Scope}

theorem outcome_tryCatch (x : Build α) (handler : TypeError → Build α) (scope : Scope) :
    Build.outcome (tryCatch x handler) scope = match x.outcome scope with
      | (.ok a, inner) => (.ok a, inner)
      | (.error e, inner) => (handler e).outcome inner := by
  show Build.outcome (ExceptT.tryCatch x handler) scope = _
  unfold Build.outcome ExceptT.tryCatch ExceptT.run StateT.run
  simp only [bind, ExceptT.mk, StateT.bind]
  rcases x scope with ⟨_ | a, inner⟩ <;> rfl

/-- A construction leaves the scope that it finds with some variables declared in it, and with none
unless it may declare. -/
def Declares (may : Prop) (x : Build α) : Prop :=
  ∀ scope, Scope.ExtendedTo may scope (x.outcome scope).2

namespace Declares

variable {may : Prop} {x : Build α}

theorem of_unchanged (h : ∀ scope, (x.outcome scope).2 = scope) : Declares may x := by
  intro scope
  rw [h]
  exact .refl scope

theorem check (checked : Checked α) : Declares may (check checked) :=
  of_unchanged fun _ => rfl

theorem variableRef (name : String) : Declares may (variableRef name) :=
  of_unchanged fun scope => by
    unfold ObjectConstraint.variableRef
    rw [outcome_get_bind]
    cases scope.lookup name <;> rfl

theorem declare (name : String) (ty : Ty) (hmay : may) : Declares may (declare name ty) :=
  fun _ => ⟨[(name, ty)], rfl, fun h => absurd hmay h⟩

theorem bind {f : α → Build β} (hx : Declares may x) (hf : ∀ a, Declares may (f a)) :
    Declares may (x >>= f) := by
  intro scope
  have hfirst := hx scope
  rw [outcome_bind]
  rcases hrun : x.outcome scope with ⟨e | a, inner⟩ <;> rw [hrun] at hfirst
  · exact hfirst
  · exact hfirst.trans (hf a inner)

theorem tryCatch {handler : TypeError → Build α} (hx : Declares may x)
    (hhandler : ∀ e, Declares may (handler e)) : Declares may (tryCatch x handler) := by
  intro scope
  have hfirst := hx scope
  rw [outcome_tryCatch]
  rcases hrun : x.outcome scope with ⟨e | a, inner⟩ <;> rw [hrun] at hfirst
  · exact hfirst.trans (hhandler e inner)
  · exact hfirst

/-- The scope of a binder is closed with all that its body declares. -/
theorem inScope (vars : List (String × Ty)) (hbody : Declares True x) :
    Declares may (inScope vars x) :=
  of_unchanged fun scope => by
    obtain ⟨others, hothers, -⟩ := hbody (scope.opened.bindAll vars)
    show (x.outcome (scope.opened.bindAll vars)).2.closed = scope
    rw [hothers, ← Scope.bindAll_append, Scope.closed_bindAll_opened]

/-! ### Binders -/

variable {S : Schema} {body : Build Expr}

theorem letIn (name : String) (declared : Option Ty) (value : Expr) (hbody : Declares True body) :
    Declares may (S.letIn name declared value body) := by
  have hbody : Declares may (ObjectConstraint.inScope [(name, declared.getD value.ty)] body) :=
    inScope _ hbody
  have hrest := hbody.bind fun body => check (.ok (Expr.letIn name value body body.ty))
  cases declared with
  | none => exact hrest
  | some ty => exact (check _).bind fun _ => hrest

theorem loop (kind : LoopKind) (source : Expr) (iterators : List String)
    (hbody : Declares True body) : Declares may (S.loop kind source iterators body) := by
  have hsource : Declares may (ObjectConstraint.check (sourceParts source.ty)) := check _
  have hrest := hsource.bind fun parts =>
    (inScope (iterators.map (·, parts.2)) hbody).bind fun body =>
      (check (S.loopType kind parts.1 parts.2 body.ty)).bind fun ty =>
        check (.ok (Expr.loop kind source iterators none body ty))
  unfold Schema.loop
  by_cases haccepts : Schema.acceptsIterators kind iterators.length
  · rw [if_pos haccepts]
    exact (of_unchanged fun _ => rfl : Declares may (pure PUnit.unit)).bind fun _ => hrest
  · rw [if_neg haccepts]
    exact (of_unchanged fun _ => rfl : Declares may
      (throw (.invalidIterators kind iterators.length) : Build PUnit)).bind fun _ => hrest

theorem iterate (source : Expr) (iterator : String) (accumulator : Accumulator Expr)
    (hbody : Declares True body) : Declares may (S.iterate source iterator accumulator body) :=
  (check _).bind fun _ => (check _).bind fun _ => (inScope _ hbody).bind fun body =>
    (check _).bind fun _ => check (.ok (Expr.loop .iterate source [iterator] (some accumulator) body
      accumulator.ty))

end Declares

end Build

/-! ### Constructions made of steps -/

/-- The constructions that are made of the builder's steps. What follows a step may depend on its
result, and a failure may be recovered from. Variables are declared only where the construction may
do so: in the body of a binder it always may. -/
inductive Scripted (S : Schema) : (may : Prop) → {α : Type} → Build α → Prop
  /-- A result or a failure that does not depend on the scope. All constructors but variables and
  binders are of this kind. -/
  | check {may : Prop} {α : Type} (checked : Checked α) : Scripted S may (check checked)
  | variableRef {may : Prop} (name : String) : Scripted S may (variableRef name)
  | declare {may : Prop} (name : String) (ty : Ty) (hmay : may) :
      Scripted S may (declare name ty)
  | bind {may : Prop} {α β : Type} {x : Build α} {f : α → Build β} (first : Scripted S may x)
      (rest : ∀ a, Scripted S may (f a)) : Scripted S may (x >>= f)
  | tryCatch {may : Prop} {α : Type} {x : Build α} {handler : TypeError → Build α}
      (first : Scripted S may x) (recover : ∀ e, Scripted S may (handler e)) :
      Scripted S may (tryCatch x handler)
  | letIn {may : Prop} (name : String) (declared : Option Ty) (value : Expr) {body : Build Expr}
      (inner : Scripted S True body) : Scripted S may (S.letIn name declared value body)
  | loop {may : Prop} (kind : LoopKind) (source : Expr) (iterators : List String)
      {body : Build Expr} (inner : Scripted S True body) :
      Scripted S may (S.loop kind source iterators body)
  | iterate {may : Prop} (source : Expr) (iterator : String) (accumulator : Accumulator Expr)
      {body : Build Expr} (inner : Scripted S True body) :
      Scripted S may (S.iterate source iterator accumulator body)

/-- Whatever is made of the builder's steps closes the scopes that it opens. -/
theorem Scripted.declares {S : Schema} {may : Prop} {α : Type} {x : Build α}
    (h : Scripted S may x) : x.Declares may := by
  induction h with
  | check checked => exact .check checked
  | variableRef name => exact .variableRef name
  | declare name ty hmay => exact .declare name ty hmay
  | bind _ _ hfirst hrest => exact hfirst.bind hrest
  | tryCatch _ _ hfirst hrecover => exact hfirst.tryCatch hrecover
  | letIn name declared value _ hinner => exact .letIn name declared value hinner
  | loop kind source iterators _ hinner => exact .loop kind source iterators hinner
  | iterate source iterator accumulator _ hinner =>
    exact .iterate source iterator accumulator hinner

/-- The construction of one tree, which declares nothing outside its binders. -/
structure Script (S : Schema) where
  construct : Build Expr
  scripted : Scripted S False construct

/-- The construction of a tree leaves the scope as it was, whether it succeeds or fails. -/
theorem Script.scope_kept {S : Schema} (script : Script S) (scope : Scope) :
    (script.construct.outcome scope).2 = scope :=
  (script.scripted.declares scope).eq

/-! ### Builders in use -/

/-- A command to a builder. -/
inductive BuilderCommand (S : Schema) where
  /-- Declare a free variable. -/
  | declare (name : String) (ty : Ty)
  /-- Build a tree. -/
  | build (script : Script S)

namespace BuilderCommand

variable {S : Schema}

def isDeclaration : BuilderCommand S → Bool
  | declare .. => true
  | build _ => false

/-- The scope that a command leaves, whatever its outcome. -/
def perform (scope : Scope) : BuilderCommand S → Scope
  | declare name ty => (Build.outcome (ObjectConstraint.declare name ty) scope).2
  | build script => (script.construct.outcome scope).2

/-- The scope after commands that are given one after the other to a fresh builder. -/
def performAll (commands : List (BuilderCommand S)) : Scope :=
  commands.foldl perform .empty

/-- Only the declarations among the commands leave a trace. -/
theorem performAll_filter (commands : List (BuilderCommand S)) :
    performAll (commands.filter isDeclaration) = performAll commands := by
  suffices ∀ scope : Scope,
      (commands.filter isDeclaration).foldl perform scope = commands.foldl perform scope from
    this .empty
  induction commands with
  | nil => exact fun _ => rfl
  | cons command commands ih =>
    intro scope
    cases command with
    | declare name ty => exact ih _
    | build script =>
      rw [List.foldl_cons, perform, script.scope_kept]
      exact ih scope

/-- Between commands only the scope of the free variables is open. -/
theorem depth_performAll (commands : List (BuilderCommand S)) :
    (performAll commands).depth = 1 := by
  suffices ∀ scope : Scope, (commands.foldl perform scope).depth = scope.depth from this .empty
  induction commands with
  | nil => exact fun _ => rfl
  | cons command commands ih =>
    intro scope
    rw [List.foldl_cons, ih]
    cases command with
    | declare name ty => exact Scope.depth_bind scope name ty
    | build script => rw [perform, script.scope_kept]

/-- After any commands, some of which may have failed at any depth, a builder gives the tree or the
error that it gives when it is fresh but for the declarations among these commands; and it has one
scope open, before and after. -/
theorem build_eq_fresh (before : List (BuilderCommand S)) (script : Script S) :
    (script.construct.outcome (performAll before)).1 =
        (script.construct.outcome (performAll (before.filter isDeclaration))).1 ∧
      (performAll before).depth = 1 ∧ (performAll (before ++ [.build script])).depth = 1 :=
  ⟨by rw [performAll_filter], depth_performAll before, depth_performAll _⟩

/-- The variable of a `let` whose body fails is out of sight afterwards. -/
example :
    (Build.outcome (variableRef "x") (performAll
      [.build ⟨Schema.empty.letIn "x" none (.const (.integer 1)) (variableRef "y"),
        .letIn "x" none _ (.variableRef "y")⟩])).1 =
      .error (.undefinedVariable "x") := rfl

end BuilderCommand

end ObjectConstraint
