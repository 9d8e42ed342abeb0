import ObjectConstraint.Proofs.Construction
import ObjectConstraint.Proofs.Faithful

/-!
# Built trees and the values of their variables

A tree is built when each of its nodes comes from a constructor, and the body of each binder from a
construction in the binder's own scope. A stack of bindings provides for a scope when it has a value
for each variable of the scope, of the variable's type.

* `Built` — the trees built in a scope.
* `(Expr.Steady casts)`, `Expr.Everywhere` — a condition on one node, and on all nodes of a tree.
* `Stack.Provides` — the relation of stacks and scopes, for any relation of values and types;
  binding variables on both sides keeps it. `Stack.Supplies` is the one for faithful values.
-/

namespace ObjectConstraint

/-! ### Built trees -/

/-- The trees that the constructors make in a scope. -/
inductive Built (S : Schema) : Scope → Expr → Prop
  | const {scope : Scope} (lit : Literal) : Built S scope (.const lit)
  | undefinedOf {scope : Scope} (ty : Ty) : Built S scope (.undefinedOf ty)
  | variable {scope scope' : Scope} {name : String} {e : Expr}
    (h : Build.outcome (variableRef name) scope = (.ok e, scope')) : Built S scope e
  | navigate {scope : Scope} {source e : Expr} {name : String} (hsource : Built S scope source)
    (h : S.navigate source name = .ok e) : Built S scope e
  | call {scope : Scope} {source e : Expr} {name : String} {args : List Expr}
    (hsource : Built S scope source) (hargs : ∀ arg ∈ args, Built S scope arg)
    (h : S.call source name args = .ok e) : Built S scope e
  | ifThenElse {scope : Scope} {condition onTrue onFalse e : Expr}
    (hcondition : Built S scope condition) (htrue : Built S scope onTrue)
    (hfalse : Built S scope onFalse) (h : S.ifThenElse condition onTrue onFalse = .ok e) :
    Built S scope e
  | letIn {scope scope' : Scope} {name : String} {declared : Option Ty} {value e : Expr}
    {construct : Build Expr} (hvalue : Built S scope value)
    (hbody : ∀ body inner,
      construct.outcome (scope.opened.bindAll [(name, declared.getD value.ty)]) =
        (.ok body, inner) →
      Built S (scope.opened.bindAll [(name, declared.getD value.ty)]) body)
    (h : Build.outcome (S.letIn name declared value construct) scope = (.ok e, scope')) :
    Built S scope e
  | loop {scope scope' : Scope} {kind : LoopKind} {source e : Expr} {iterators : List String}
    {construct : Build Expr} (hsource : Built S scope source)
    (hbody : ∀ body inner,
      construct.outcome (scope.opened.bindAll (iterators.map (·, source.ty.elemOrAny))) =
        (.ok body, inner) →
      Built S (scope.opened.bindAll (iterators.map (·, source.ty.elemOrAny))) body)
    (h : Build.outcome (S.loop kind source iterators construct) scope = (.ok e, scope')) :
    Built S scope e
  | iterate {scope scope' : Scope} {source e : Expr} {iterator : String}
    {accumulator : Accumulator Expr} {construct : Build Expr} (hsource : Built S scope source)
    (hinit : Built S scope accumulator.init)
    (hbody : ∀ body inner,
      construct.outcome (scope.opened.bindAll
        [(iterator, source.ty.elemOrAny), (accumulator.name, accumulator.ty)]) =
        (.ok body, inner) →
      Built S (scope.opened.bindAll
        [(iterator, source.ty.elemOrAny), (accumulator.name, accumulator.ty)]) body)
    (h : Build.outcome (S.iterate source iterator accumulator construct) scope = (.ok e, scope')) :
    Built S scope e
  | allInstances {scope : Scope} {cls : String} {e : Expr} (h : S.allInstances cls = .ok e) :
    Built S scope e
  | typeTest {scope : Scope} {test : TypeTest} {source e : Expr} {target : Ty}
    (hsource : Built S scope source) (h : S.typeTest test source target = .ok e) : Built S scope e
  | collection {scope : Scope} {kind : Kind} {parts : List (Part Expr)} {declared : Option Ty}
    {e : Expr} (hparts : ∀ part ∈ parts, ∀ child ∈ part.children, Built S scope child)
    (h : S.collection kind parts declared = .ok e) : Built S scope e
  | tuple {scope : Scope} {parts : List (String × Expr)} {e : Expr}
    (hparts : ∀ part ∈ parts, Built S scope part.2) (h : Expr.tupleOf parts = .ok e) :
    Built S scope e

namespace Expr

/-- A node that has values of its type: it is no symmetric difference, no sort or closure over a
source whose type has the abstract kind, and no cast if there are to be none. -/
def Steady (casts : Prop) : Expr → Prop
  | call _ callee _ _ _ => callee ≠ .standard .symmetricDifference
  | loop kind source _ _ _ _ =>
    kind = .sortedBy ∨ kind = .closure → source.ty.kind? ≠ some .collection
  | typeTest test _ _ _ => test = .asType → casts
  | _ => True

/-- A property of a tree and of all trees inside it. -/
inductive Everywhere (P : Expr → Prop) : Expr → Prop
  | intro {e : Expr} (here : P e) (inside : ∀ child ∈ e.children, Everywhere P child) :
    Everywhere P e

namespace Everywhere

variable {P : Expr → Prop} {e : Expr}

theorem here (h : e.Everywhere P) : P e := by
  cases h with
  | intro here inside => exact here

theorem inside (h : e.Everywhere P) {child : Expr} (hchild : child ∈ e.children) :
    child.Everywhere P := by
  cases h with
  | intro here inside => exact inside child hchild

theorem mono {Q : Expr → Prop} (h : e.Everywhere P) (hPQ : ∀ e, P e → Q e) : e.Everywhere Q := by
  induction h with
  | intro here inside ih => exact .intro (hPQ _ here) ih

end Everywhere

end Expr

/-! ### Bindings for a scope -/

namespace Stack

variable {R : Value → Ty → Prop} {s : Stack} {scope : Scope}

/-- The stack has for each variable of the scope a value that is fit for the variable's type. -/
def Provides (R : Value → Ty → Prop) (s : Stack) (scope : Scope) : Prop :=
  ∀ name t, scope.lookup name = some t → ∃ v, s.visible.lookup name = some v ∧ R v t

/-- The stack has a faithful value of its type for each variable of the scope. -/
def Supplies (H : Hierarchy) (known : ObjectRef → Prop) (casts : Prop) (s : Stack)
    (scope : Scope) : Prop :=
  ∀ name t, scope.lookup name = some t →
    ∃ v, s.visible.lookup name = some v ∧ Fits H known casts v t

namespace Provides

theorem empty : s.Provides R .empty := fun _ _ h => nomatch h

theorem opened (h : s.Provides R scope) : s.Provides R scope.opened := by
  intro name t ht
  exact h name t (scope.lookup_opened name ▸ ht)

theorem bind {v : Value} {t : Ty} (h : s.Provides R scope) (name : String) (hv : R v t) :
    (s.bind name v).Provides R (scope.bind name t) := by
  intro other u hu
  rw [Scope.lookup_bind] at hu
  rw [visible_bind]
  by_cases hname : other = name
  · rw [if_pos hname] at hu
    obtain rfl := Option.some.inj hu
    exact ⟨v, hname ▸ List.lookup_cons_self, hv⟩
  · rw [if_neg hname] at hu
    rw [Parts.lookup_cons_ne hname]
    exact h other u hu

theorem bindAll {vars : List (String × Ty)} {vals : List (String × Value)}
    (h : s.Provides R scope) (hvals : Parts.Paired (fun t v => R v t) vars vals) :
    (s.bindAll vals).Provides R (scope.bindAll vars) := by
  induction hvals generalizing s scope with
  | nil => exact h
  | @cons var val vars vals hval _ ih =>
    show ((s.bind val.1 val.2).bindAll vals).Provides R ((scope.bind var.1 var.2).bindAll vars)
    rw [← hval.1]
    exact ih (h.bind var.1 hval.2)

end Provides

/-- Values beside the variables that they are fit for the types of. -/
theorem paired_zip {vars : List (String × Ty)} {vals : List Value}
    (h : List.Forall₂ (fun (var : String × Ty) v => R v var.2) vars vals) :
    Parts.Paired (fun t v => R v t) vars ((vars.map Prod.fst).zip vals) := by
  induction h with
  | nil => exact .nil
  | cons hval _ ih => exact .cons ⟨rfl, hval⟩ ih

/-- The iterators of a loop beside elements of its source. -/
theorem paired_iterators {iterators : List String} {elem : Ty} {vals : List Value}
    (hlength : vals.length = iterators.length) (hvals : ∀ x ∈ vals, R x elem) :
    Parts.Paired (fun t v => R v t) (iterators.map (·, elem)) (iterators.zip vals) := by
  induction iterators generalizing vals with
  | nil => exact .nil
  | cons iterator rest ih =>
    cases vals with
    | nil => cases hlength
    | cons x vals =>
      obtain ⟨hx, hvals⟩ := List.forall_mem_cons.mp hvals
      exact .cons ⟨rfl, hx⟩ (ih (Nat.succ.inj hlength) hvals)

end Stack

end ObjectConstraint
