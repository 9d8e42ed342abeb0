import ObjectConstraint.Proofs.Construction
import ObjectConstraint.Proofs.OperationNames
import ObjectConstraint.Proofs.Phrases

/-!
# Formulas and how they are printed

Formulas are the trees made of integers, truth values, variables, standard operations, conditionals
and `let`. Three things that matter may be lost when one is printed: a sign belongs to all that
follows it, although the tree may call an operation on a constant with a sign; a `let` shows the
type of its value, whatever type is declared for its variable; and it shows the name of a class as
it is, although the name may look like more of the formula. A formula in which none of them happens
is plain.

* `Formula` — the formulas of a scope.
* `Expr.phrase` — the phrase that a formula is printed as.
* `Formula.legible` — the text of a plain formula is read as its phrase.
-/

namespace ObjectConstraint

/-! ### Formulas -/

namespace Expr

/-- Whether a tree is a constant that is printed with a sign. -/
def isNegative : Expr → Bool
  | literal (.integer n) _ => n.toInt < 0
  | _ => false

end Expr

/-- The trees made in a scope of integers, truth values, variables, standard operations,
conditionals and `let`. In a plain one no call follows a constant with a sign, and the variable of
each `let` has the type of its value, in which no equals sign occurs. -/
inductive Formula (S : Schema) (plain : Prop) : Scope → Expr → Prop
  | boolean {scope : Scope} (b : Bool) : Formula S plain scope (.const (.boolean b))
  | integer {scope : Scope} (n : Int64) : Formula S plain scope (.const (.integer n))
  | variable {scope scope' : Scope} {name : String} {e : Expr} (hname : isName name)
    (h : Build.outcome (variableRef name) scope = (.ok e, scope')) : Formula S plain scope e
  | call {scope : Scope} {source : Expr} {name : String} {args : List Expr} {op : Operation}
    {ty : Ty} (hsource : Formula S plain scope source)
    (hargs : ∀ arg ∈ args, Formula S plain scope arg)
    (h : S.call source name args = .ok (.call name (.standard op) source args ty))
    (hplain : plain → Expr.isInfix name args ∨ Expr.isPrefix name args ∨ ¬ source.isNegative) :
    Formula S plain scope (.call name (.standard op) source args ty)
  | ifThenElse {scope : Scope} {condition onTrue onFalse e : Expr}
    (hcondition : Formula S plain scope condition) (htrue : Formula S plain scope onTrue)
    (hfalse : Formula S plain scope onFalse) (h : S.ifThenElse condition onTrue onFalse = .ok e) :
    Formula S plain scope e
  | letIn {scope scope' : Scope} {name : String} {declared : Option Ty} {value e : Expr}
    {construct : Build Expr} (hname : isName name) (hvalue : Formula S plain scope value)
    (hbody : ∀ body inner,
      construct.outcome (scope.opened.bindAll [(name, declared.getD value.ty)]) =
        (.ok body, inner) →
      Formula S plain (scope.opened.bindAll [(name, declared.getD value.ty)]) body)
    (h : Build.outcome (S.letIn name declared value construct) scope = (.ok e, scope'))
    (hplain : plain → declared.getD value.ty = value.ty ∧ '=' ∉ value.ty.text.toList) :
    Formula S plain scope e

/-! ### Phrases of formulas -/

namespace Expr

/-- The phrase of a tree that stands as an operand. -/
def operandPhrase (e : Expr) (p : Phrase) : Phrase :=
  if e.needsParens then .parens p else p

def integerPhrase : Int → Phrase
  | .ofNat n => .word n.repr
  | .negSucc n => .minus (.word (n + 1).repr)

/-- The phrase of a call, from those of the receiver as an operand and of the arguments. -/
def callPhrase (name : String) (source : Expr) (args : List Expr) (receiver : Phrase)
    (ps : List Phrase) : Phrase :=
  match args, ps with
  | [arg], [p] =>
    if name ∈ infixNames then .operation name receiver (arg.operandPhrase p)
    else .method source.ty.isCollection name receiver [p]
  | [], [] =>
    if name = "not" then .negation receiver
    else if name = "-" then .minus receiver
    else .method source.ty.isCollection name receiver []
  | _, ps => .method source.ty.isCollection name receiver ps

mutual

/-- The phrase that a formula is printed as; trees of other forms have none. -/
def phrase : Expr → Phrase
  | literal (.integer n) _ => integerPhrase n.toInt
  | literal lit _ => .word lit.text
  | var name _ => .word name
  | call name _ source args _ =>
    callPhrase name source args (source.operandPhrase source.phrase) (phrases args)
  | ifThenElse condition onTrue onFalse _ =>
    .conditional condition.phrase onTrue.phrase onFalse.phrase
  | letIn name value body _ => .binding name value.ty.text value.phrase body.phrase
  | _ => .word ""
  termination_by structural e => e

def phrases : List Expr → List Phrase
  | [] => []
  | e :: es => e.phrase :: phrases es
  termination_by structural es => es

end

theorem phrases_eq_map (es : List Expr) : phrases es = es.map phrase := by
  induction es with
  | nil => rfl
  | cons e es ih => simp [phrases, ih]

theorem texts_eq_map (es : List Expr) : texts es = es.map text := by
  induction es with
  | nil => rfl
  | cons e es ih => simp [texts, ih]

end Expr

/-! ### Words of formulas -/

theorem isDigit_of_mem_repr {n : Nat} {c : Char} (hc : c ∈ n.repr.toList) : c.isDigit := by
  rw [Nat.toList_repr] at hc
  exact Nat.isDigit_of_mem_toDigits (by decide) (by decide) hc

theorem isWord_repr (n : Nat) : isWord n.repr := by
  have hchars : ∀ c ∈ n.repr.toList, isWordChar c = true := fun c hc => by
    simp [isWordChar, Char.isAlphanum, isDigit_of_mem_repr hc]
  simp only [isWord, Bool.and_eq_true, List.all_eq_true]
  exact ⟨by simp, hchars⟩

/-- A number is no word with a letter in it. -/
theorem repr_ne {n : Nat} {w : String} (hw : ∃ c ∈ w.toList, ¬ c.isDigit) : n.repr ≠ w := by
  obtain ⟨c, hc, hdigit⟩ := hw
  rintro rfl
  exact hdigit (isDigit_of_mem_repr hc)

theorem readsAtom_repr (n : Nat) : ReadsAtom n.repr (.word n.repr) := by
  refine .word (isWord_repr n) ?_
  simp only [List.mem_cons, List.not_mem_nil, or_false, not_or]
  exact ⟨repr_ne ⟨'i', by decide⟩, repr_ne ⟨'l', by decide⟩, repr_ne ⟨'n', by decide⟩⟩

theorem readsAtom_name {name : String} (h : isName name) : ReadsAtom name (.word name) := by
  simp only [isName, Bool.and_eq_true, decide_eq_true_eq] at h
  exact .word h.1.1 fun hmem => h.2 (by simp_all)

theorem not_mem_of_isName {name : String} (h : isName name) : ' ' ∉ name.toList := fun hmem =>
  absurd (isWordChar_of_mem (isWord_of_isName h) hmem) (by decide)

theorem not_mem_of_isOperationName {name : String} (h : isOperationName name) :
    '(' ∉ name.toList := by
  simp only [isOperationName, Bool.or_eq_true, decide_eq_true_eq] at h
  rcases h with h | h
  · revert name
    decide
  · exact fun hmem => absurd (isWordChar_of_mem h hmem) (by decide)

/-! ### Reading formulas -/

namespace Expr

/-- A tree is read as its phrase, wherever a tree of its form may stand. -/
def Legible (e : Expr) : Prop :=
  if e.needsParens then Reads e.text e.phrase
  else if e.isNegative then ReadsOperand e.text e.phrase
  else ReadsAtom e.text e.phrase

namespace Legible

variable {e : Expr}

theorem of_needsParens (hparens : e.needsParens) (h : Reads e.text e.phrase) : e.Legible := by
  rwa [Legible, if_pos hparens]

theorem of_atom (hparens : ¬ e.needsParens) (hsign : ¬ e.isNegative)
    (h : ReadsAtom e.text e.phrase) : e.Legible := by
  rwa [Legible, if_neg hparens, if_neg hsign]

theorem reads (h : e.Legible) : Reads e.text e.phrase := by
  unfold Legible at h
  split at h
  · exact h
  · split at h
    · exact ReadsOperand.reads h
    · exact (ReadsAtom.operand h).reads

/-- As an operand, in parentheses if it needs them. -/
theorem operand (h : e.Legible) :
    ReadsOperand (e.asOperand e.text) (e.operandPhrase e.phrase) := by
  by_cases hparens : e.needsParens
  · rw [asOperand, operandPhrase, if_pos hparens, if_pos hparens]
    exact (ReadsAtom.parens h.reads).operand
  · rw [Legible, if_neg hparens] at h
    rw [asOperand, operandPhrase, if_neg hparens, if_neg hparens]
    split at h
    · exact h
    · exact ReadsAtom.operand h

/-- As a receiver, if no sign is in the way. -/
theorem receiver (h : e.Legible) (hsign : ¬ e.isNegative) :
    ReadsAtom (e.asOperand e.text) (e.operandPhrase e.phrase) := by
  by_cases hparens : e.needsParens
  · rw [asOperand, operandPhrase, if_pos hparens, if_pos hparens]
    exact .parens h.reads
  · rw [Legible, if_neg hparens, if_neg hsign] at h
    rwa [asOperand, operandPhrase, if_neg hparens, if_neg hparens]

theorem boolean (b : Bool) : (const (.boolean b)).Legible := by
  cases b
  · exact of_atom nofun nofun (.word rfl (by decide))
  · exact of_atom nofun nofun (.word rfl (by decide))

theorem integer (n : Int64) : (const (.integer n)).Legible := by
  rw [Legible, if_neg nofun]
  show if decide (n.toInt < 0) then ReadsOperand (toString n.toInt) (integerPhrase n.toInt)
    else ReadsAtom (toString n.toInt) (integerPhrase n.toInt)
  rcases n.toInt with k | k
  · exact readsAtom_repr k
  · rw [if_pos (by simp)]
    exact (readsAtom_repr (k + 1)).operand.minus

theorem call {name : String} {op : Operation} {source : Expr} {args : List Expr} {ty : Ty}
    (hsource : source.Legible) (hargs : ∀ arg ∈ args, arg.Legible) (hname : '(' ∉ name.toList)
    (hsign : isInfix name args ∨ isPrefix name args ∨ ¬ source.isNegative) :
    (Expr.call name (.standard op) source args ty).Legible := by
  by_cases hinfix : isInfix name args
  · obtain ⟨arg, rfl, hoperator⟩ : ∃ arg, args = [arg] ∧ name ∈ infixNames := by
      simpa [isInfix, List.length_eq_one_iff] using hinfix
    refine of_needsParens (by simp [needsParens, hinfix]) ?_
    have hoperation := Reads.operation hoperator hsource.operand (hargs arg (by simp)).operand
    simpa [text, texts, callText, hinfix, phrase, phrases, callPhrase, hoperator] using hoperation
  by_cases hprefix : isPrefix name args
  · obtain ⟨rfl, hoperator⟩ : args = [] ∧ name ∈ prefixNames := by simpa [isPrefix] using hprefix
    refine of_needsParens (by simp [needsParens, hprefix]) ?_
    rcases List.mem_pair.mp hoperator with rfl | rfl
    · exact .negation hsource.operand
    · exact hsource.operand.minus.reads
  have hreceiver := hsource.receiver ((hsign.resolve_left hinfix).resolve_left hprefix)
  have hreads : List.Forall₂ Reads (texts args) (phrases args) := by
    rw [texts_eq_map, phrases_eq_map, List.forall₂_map_left_iff, List.forall₂_map_right_iff,
      List.forall₂_same]
    exact fun arg harg => (hargs arg harg).reads
  have hmethod := hreceiver.method source.ty.isCollection hname hreads
  have hphrase : (Expr.call name (.standard op) source args ty).phrase =
      .method source.ty.isCollection name (source.operandPhrase source.phrase) (phrases args) := by
    rcases args with _ | ⟨arg, _ | ⟨arg', args⟩⟩
    · simp_all [isPrefix, prefixNames, phrase, phrases, callPhrase]
    · simp_all [isInfix, phrase, phrases, callPhrase]
    · rfl
  refine of_atom ?_ nofun ?_
  · simp [needsParens, hinfix, hprefix]
  · rw [hphrase]
    simpa [text, callText, hinfix, hprefix] using hmethod

end Legible

end Expr

theorem Formula.legible {S : Schema} {scope : Scope} {e : Expr} (h : Formula S True scope e) :
    e.Legible := by
  induction h with
  | boolean b => exact .boolean b
  | integer n => exact .integer n
  | «variable» hname h =>
    obtain ⟨ty, -, rfl⟩ := variableRef_eq_ok h
    exact .of_atom nofun nofun (readsAtom_name hname)
  | call _ _ h hplain hsource hargs =>
    rcases Schema.call_eq_ok h with ⟨_, _, -, -, -, heq⟩ | ⟨_, _, hresolve, heq⟩
    · cases heq
    · exact .call hsource hargs (not_mem_of_isOperationName (Hierarchy.name_of_resolve hresolve))
        (hplain trivial)
  | ifThenElse _ _ _ h hcondition htrue hfalse =>
    obtain ⟨-, rfl⟩ := Schema.ifThenElse_eq_ok h
    exact .of_needsParens rfl
      (ReadsAtom.conditional hcondition.reads htrue.reads hfalse.reads).operand.reads
  | letIn hname _ _ h hplain hvalue hbody =>
    obtain ⟨-, body, inner, hconstruct, rfl⟩ := Schema.letIn_eq_ok h
    refine .of_needsParens rfl ?_
    exact .binding (not_mem_of_isName hname) (hplain trivial).2 hvalue.reads
      (hbody _ _ hconstruct).reads

end ObjectConstraint
