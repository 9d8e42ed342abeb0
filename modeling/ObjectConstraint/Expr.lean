import ObjectConstraint.Literal
import ObjectConstraint.LoopKind
import ObjectConstraint.Operation

/-!
# Expression trees

A node says what is evaluated and carries the type of its result. `Expr.Build` makes trees that
pass the type rules; this module says only what a tree is.

* `children` — the direct sub-expressions in the order of evaluation.
* `size_eq` — a tree has one node more than its children together.
-/

namespace ObjectConstraint

/-- What a navigation step reads. -/
inductive Property where
  | attr (name : String)
  | associationEnd (role : String) (many ordered : Bool)
  | tuplePart (name : String)
  deriving DecidableEq, Repr

def Property.name : Property → String
  | attr name => name
  | associationEnd role _ _ => role
  | tuplePart name => name

/-- What a call runs: a standard operation, or the query operation of the model that the receiver's
class has under the name of the call. -/
inductive Callee where
  | standard (op : Operation)
  | query
  deriving DecidableEq, Repr

/-- The operations on the type of a value. -/
inductive TypeTest where
  | isKindOf
  | isTypeOf
  | asType
  deriving DecidableEq, Repr

def TypeTest.text : TypeTest → String
  | isKindOf => "oclIsKindOf"
  | isTypeOf => "oclIsTypeOf"
  | asType => "oclAsType"

/-- The accumulator of an `iterate` loop. -/
structure Accumulator (ε : Type) where
  name : String
  ty : Ty
  init : ε

/-- A part of a collection literal. -/
inductive Part (ε : Type) where
  | item (e : ε)
  /-- All integers from `first` to `last`. -/
  | range (first last : ε)

/-- The sub-expressions of a part. -/
def Part.children {ε : Type} : Part ε → List ε
  | item e => [e]
  | range first last => [first, last]

/-- An expression. The last field of each form is the type of its result. -/
inductive Expr where
  | literal (lit : Literal) (ty : Ty)
  | var (name : String) (ty : Ty)
  /-- Reads a property; in the short form from every element of a collection. -/
  | navigate (source : Expr) (property : Property) (shorthand : Bool) (ty : Ty)
  | call (name : String) (callee : Callee) (source : Expr) (args : List Expr) (ty : Ty)
  | ifThenElse (condition onTrue onFalse : Expr) (ty : Ty)
  | letIn (name : String) (value body : Expr) (ty : Ty)
  | loop (kind : LoopKind) (source : Expr) (iterators : List String)
      (accumulator : Option (Accumulator Expr)) (body : Expr) (ty : Ty)
  | allInstances (cls : String) (ty : Ty)
  | typeTest (test : TypeTest) (source : Expr) (target : Ty) (ty : Ty)
  | collection (kind : Kind) (parts : List (Part Expr)) (ty : Ty)
  | tuple (parts : List (String × Expr)) (ty : Ty)

namespace Expr

/-- The type of the result. -/
def ty : Expr → Ty
  | literal _ ty | var _ ty | navigate _ _ _ ty | call _ _ _ _ ty | ifThenElse _ _ _ ty
  | letIn _ _ _ ty | loop _ _ _ _ _ ty | allInstances _ ty | typeTest _ _ _ ty
  | collection _ _ ty | tuple _ ty => ty

/-- The same node with another type. -/
def withTy (ty : Ty) : Expr → Expr
  | literal lit _ => literal lit ty
  | var name _ => var name ty
  | navigate source property shorthand _ => navigate source property shorthand ty
  | call name callee source args _ => call name callee source args ty
  | ifThenElse condition onTrue onFalse _ => ifThenElse condition onTrue onFalse ty
  | letIn name value body _ => letIn name value body ty
  | loop kind source iterators accumulator body _ => loop kind source iterators accumulator body ty
  | allInstances cls _ => allInstances cls ty
  | typeTest test source target _ => typeTest test source target ty
  | collection kind parts _ => collection kind parts ty
  | tuple parts _ => tuple parts ty

/-- What kind of node it is, in a word or two. -/
def label : Expr → String
  | literal .. => "literal"
  | var .. => "variable"
  | navigate .. => "navigation"
  | call .. => "call"
  | ifThenElse .. => "if"
  | letIn .. => "let"
  | loop kind .. => kind.text
  | allInstances .. => "allInstances"
  | typeTest test .. => test.text
  | collection .. => "collection literal"
  | tuple .. => "tuple literal"

/-- The direct sub-expressions in the order of evaluation. -/
def children : Expr → List Expr
  | literal .. | var .. | allInstances .. => []
  | navigate source .. | typeTest _ source .. => [source]
  | call _ _ source args _ => source :: args
  | ifThenElse condition onTrue onFalse _ => [condition, onTrue, onFalse]
  | letIn _ value body _ => [value, body]
  | loop _ source _ accumulator body _ =>
    source :: (accumulator.toList.map (·.init) ++ [body])
  | collection _ parts _ => parts.flatMap Part.children
  | tuple parts _ => parts.map Prod.snd

/-! ### Size -/

mutual

/-- The number of nodes. -/
def size : Expr → Nat
  | literal .. | var .. | allInstances .. => 1
  | navigate source .. | typeTest _ source .. => source.size + 1
  | call _ _ source args _ => source.size + sizes args + 1
  | ifThenElse condition onTrue onFalse _ => condition.size + onTrue.size + onFalse.size + 1
  | letIn _ value body _ => value.size + body.size + 1
  | loop _ source _ accumulator body _ => source.size + initSize accumulator + body.size + 1
  | collection _ parts _ => partSizes parts + 1
  | tuple parts _ => namedSizes parts + 1
  termination_by structural e => e

def sizes : List Expr → Nat
  | [] => 0
  | e :: es => e.size + sizes es
  termination_by structural es => es

def initSize : Option (Accumulator Expr) → Nat
  | none => 0
  | some ⟨_, _, init⟩ => init.size
  termination_by structural accumulator => accumulator

def partSizes : List (Part Expr) → Nat
  | [] => 0
  | .item e :: parts => e.size + partSizes parts
  | .range first last :: parts => first.size + last.size + partSizes parts
  termination_by structural parts => parts

def namedSizes : List (String × Expr) → Nat
  | [] => 0
  | (_, e) :: parts => e.size + namedSizes parts
  termination_by structural parts => parts

end

theorem partSizes_eq (parts : List (Part Expr)) :
    partSizes parts = sizes (parts.flatMap Part.children) := by
  induction parts with
  | nil => rfl
  | cons part parts ih =>
    cases part <;> simp [partSizes, sizes, Part.children, ih, Nat.add_assoc]

theorem namedSizes_eq (parts : List (String × Expr)) :
    namedSizes parts = sizes (parts.map Prod.snd) := by
  induction parts with
  | nil => rfl
  | cons part parts ih => simp [namedSizes, sizes, ih]

/-- A tree has one node more than its children together. -/
theorem size_eq (e : Expr) : e.size = sizes e.children + 1 := by
  cases e with
  | loop kind source iterators accumulator body ty =>
    cases accumulator <;> simp [size, initSize, sizes, children, Nat.add_assoc]
  | _ => simp [size, sizes, children, partSizes_eq, namedSizes_eq, Nat.add_assoc]

/-! ### Equality -/

mutual

/-- Whether two trees are the same, real constants being compared as numbers. -/
def same : Expr → Expr → Bool
  | literal a s, literal b t => a.same b && s = t
  | var m s, var n t => m = n && s = t
  | navigate a p i s, navigate b q j t => a.same b && p = q && i = j && s = t
  | call m c a as s, call n d b bs t => m = n && c = d && a.same b && sameList as bs && s = t
  | ifThenElse a b c s, ifThenElse a' b' c' t => a.same a' && b.same b' && c.same c' && s = t
  | letIn m a b s, letIn n a' b' t => m = n && a.same a' && b.same b' && s = t
  | loop k a is acc b s, loop l a' js acc' b' t =>
    k = l && a.same a' && is = js && sameAccumulator acc acc' && b.same b' && s = t
  | allInstances c s, allInstances d t => c = d && s = t
  | typeTest k a u s, typeTest l b v t => k = l && a.same b && u = v && s = t
  | collection k ps s, collection l qs t => k = l && sameParts ps qs && s = t
  | tuple ps s, tuple qs t => sameNamed ps qs && s = t
  | _, _ => false
  termination_by structural a => a

def sameList : List Expr → List Expr → Bool
  | [], [] => true
  | a :: as, b :: bs => a.same b && sameList as bs
  | _, _ => false
  termination_by structural as => as

def sameAccumulator : Option (Accumulator Expr) → Option (Accumulator Expr) → Bool
  | none, none => true
  | some ⟨m, s, a⟩, some ⟨n, t, b⟩ => m = n && s = t && a.same b
  | _, _ => false
  termination_by structural a => a

def sameParts : List (Part Expr) → List (Part Expr) → Bool
  | [], [] => true
  | .item a :: ps, .item b :: qs => a.same b && sameParts ps qs
  | .range a b :: ps, .range a' b' :: qs => a.same a' && b.same b' && sameParts ps qs
  | _, _ => false
  termination_by structural ps => ps

def sameNamed : List (String × Expr) → List (String × Expr) → Bool
  | [], [] => true
  | (m, a) :: ps, (n, b) :: qs => m = n && a.same b && sameNamed ps qs
  | _, _ => false
  termination_by structural ps => ps

end

end Expr

end ObjectConstraint
