import ObjectConstraint.Proofs.Tokens
import Mathlib.Data.List.Forall2
import Mathlib.Logic.Relation

/-!
# Phrases of the concrete syntax

How a printed tree hangs together, types apart. A reader goes over the text once, from the left, and
keeps what it is in the middle of, innermost first. An operator takes what stands before it with its
signs; any other token that ends an expression ends all that can end with it.

* `Phrase`, `Pending`, `Reader` — phrases, phrases in the making, and the steps of the reader.
* `Reads`, `ReadsOperand`, `ReadsAtom` — a text is read as a phrase where an expression, an operand
  or a receiver may stand.
* `ReadsAtom.parens`, `Reads.operation`, … — the forms of the syntax, each from its parts.
* `Reads.unique` — no text is read as two phrases.
-/

namespace ObjectConstraint

/-- The structure of a printed tree. -/
inductive Phrase where
  | word (w : String)
  | parens (p : Phrase)
  | minus (p : Phrase)
  | negation (p : Phrase)
  | operation (operator : String) (left right : Phrase)
  | method (arrow : Bool) (name : String) (source : Phrase) (args : List Phrase)
  | conditional (condition onTrue onFalse : Phrase)
  | binding (name ty : String) (value body : Phrase)

/-- A phrase in the making, up to the place where an expression is due. -/
inductive Pending where
  | parens
  | minus
  | negation
  | right (operator : String) (left : Phrase)
  | args (arrow : Bool) (name : String) (source : Phrase) (done : List Phrase)
  | condition
  | onTrue (condition : Phrase)
  | onFalse (condition onTrue : Phrase)
  | value (name ty : String)
  | body (name ty : String) (value : Phrase)

namespace Pending

/-- A phrase with the signs before it. -/
def signed (p : Phrase) : List Pending → Phrase × List Pending
  | minus :: rest => signed (.minus p) rest
  | pending => (p, pending)

/-- The largest phrase that ends with the given one. -/
def settle (p : Phrase) : List Pending → Phrase × List Pending
  | minus :: rest => settle (.minus p) rest
  | negation :: rest => settle (.negation p) rest
  | right operator left :: rest => settle (.operation operator left p) rest
  | body name ty v :: rest => settle (.binding name ty v p) rest
  | pending => (p, pending)

/-- What becomes of a phrase in the making when a token ends an expression in it: it is complete, or
another expression is due. -/
def take (q : Phrase) : Token → Pending → Option (Phrase ⊕ Pending)
  | .closing, parens => some (.inl (.parens q))
  | .closing, args arrow name source done => some (.inl (.method arrow name source (done ++ [q])))
  | .comma, args arrow name source done => some (.inr (args arrow name source (done ++ [q])))
  | .between "then", condition => some (.inr (onTrue q))
  | .between "else", onTrue c => some (.inr (onFalse c q))
  | .between "in", value name ty => some (.inr (body name ty q))
  | .endif, onFalse c t => some (.inl (.conditional c t q))
  | _, _ => none

/-- The effect of a token where an expression is due. -/
def start : Token → List Pending → Option (Option Phrase × List Pending)
  | .word w, pending => some (some (.word w), pending)
  | .minus, pending => some (none, minus :: pending)
  | .opening, pending => some (none, parens :: pending)
  | .condition, pending => some (none, condition :: pending)
  | .negation, pending => some (none, negation :: pending)
  | .binder name ty, pending => some (none, value name ty :: pending)
  -- no expression was due after all
  | .closing, args arrow name source [] :: rest => some (some (.method arrow name source []), rest)
  | _, _ => none

/-- The effect of a token that ends an expression, which the phrase is the largest end of. -/
def finish (t : Token) : Phrase × List Pending → Option (Option Phrase × List Pending)
  | (_, []) => none
  | (q, top :: rest) =>
    match take q t top with
    | some (.inl complete) => some (some complete, rest)
    | some (.inr next) => some (none, next :: rest)
    | none => none

/-- The effect of a token after a phrase. -/
def resume (p : Phrase) : Token → List Pending → Option (Option Phrase × List Pending)
  | .selector arrow name, pending => some (none, args arrow name p [] :: pending)
  | .between w, pending =>
    if w ∈ infixNames then
      let (q, rest) := signed p pending
      some (none, right w q :: rest)
    else finish (.between w) (settle p pending)
  | t, pending => finish t (settle p pending)

/-- The tokens that end an expression together with all that can end with it. -/
def Ends : Token → Prop
  | .closing | .comma | .endif => True
  | .between w => w ∉ infixNames
  | _ => False

theorem Ends.endsBefore {t : Token} (ht : Ends t) (rest : List Char) : t.EndsBefore rest := by
  cases t with
  | word => exact ht.elim
  | _ => trivial

theorem resume_of_ends {t : Token} (ht : Ends t) (p : Phrase) (pending : List Pending) :
    resume p t pending = finish t (settle p pending) := by
  cases t with
  | between w => exact if_neg ht
  | closing | comma | endif => rfl
  | _ => exact ht.elim

/-- An operation may stand here: no sign takes its left operand from it. -/
def Open : List Pending → Prop
  | minus :: _ => False
  | _ => True

theorem signed_of_open {pending : List Pending} (h : Open pending) (p : Phrase) :
    signed p pending = (p, pending) := by
  unfold signed
  split
  · exact h.elim
  · rfl

theorem settle_signed (p : Phrase) (pending : List Pending) :
    settle (signed p pending).1 (signed p pending).2 = settle p pending := by
  induction pending generalizing p with
  | nil => rfl
  | cons top rest ih =>
    cases top with
    | minus => exact ih _
    | _ => rfl

end Pending

/-! ### The reader -/

/-- A reader in the middle of a text. -/
structure Reader where
  input : List Char
  /-- The phrase that has just been read; none where an expression is due. -/
  last : Option Phrase
  pending : List Pending

namespace Reader

/-- The effect of a token. -/
def act (last : Option Phrase) (t : Token) (pending : List Pending) :
    Option (Option Phrase × List Pending) :=
  match last with
  | none => Pending.start t pending
  | some p => Pending.resume p t pending

/-- Reads one token. -/
def step (r : Reader) : Option Reader := do
  let (t, rest) ← Token.read? r.last.isNone r.input
  let (last, pending) ← act r.last t r.pending
  return ⟨rest, last, pending⟩

/-- The reader gets from one point to another. -/
abbrev Reaches : Reader → Reader → Prop := Relation.ReflTransGen fun r s => r.step = some s

/-- The reader gets from before a token to wherever it gets from after it. -/
theorem reaches_of_token {last last' : Option Phrase} {pending pending' : List Pending}
    {rest : List Char} {r : Reader} (t : Token) (ht : t.Sound last.isNone)
    (hrest : t.EndsBefore rest)
    (hact : act last t pending = some (last', pending')) (h : Reaches ⟨rest, last', pending'⟩ r) :
    Reaches ⟨t.chars ++ rest, last, pending⟩ r := by
  refine .head ?_ h
  rw [step, Token.read?_chars ht hrest]
  simp [hact]

/-- A reader that has read all of a text goes no further. -/
theorem eq_of_reaches_end {r s : Reader} (hr : r.input = []) (h : Reaches r s) : s = r := by
  rcases h.cases_head with heq | ⟨t, ht, -⟩
  · exact heq.symm
  · rw [step, hr] at ht
    cases ht

/-- There is one way to the end of a text. -/
theorem eq_of_reaches_ends {start r s : Reader} (hr : Reaches start r) (hs : Reaches start s)
    (hrend : r.input = []) (hsend : s.input = []) : r = s := by
  have hunique : Relator.RightUnique fun r s : Reader => r.step = some s :=
    fun _ _ _ h h' => Option.some.inj (h.symm.trans h')
  rcases Relation.ReflTransGen.total_of_right_unique hunique hr hs with h | h
  · exact (eq_of_reaches_end hrend h).symm
  · exact eq_of_reaches_end hsend h

end Reader

/-! ### Readings -/

open Pending Reader

/-- The reader takes a text for a phrase by itself. -/
def ReadsAtom (text : String) (p : Phrase) : Prop :=
  ∀ rest pending, Delimited rest →
    Reaches ⟨text.toList ++ rest, none, pending⟩ ⟨rest, some p, pending⟩

/-- The reader takes a text for a phrase with signs before it. -/
def ReadsOperand (text : String) (p : Phrase) : Prop :=
  ∀ rest pending, Delimited rest → ∃ q inner,
    Reaches ⟨text.toList ++ rest, none, pending⟩ ⟨rest, some q, inner⟩ ∧
      signed q inner = signed p pending

/-- The reader takes a text for a phrase, where it is not held back by a sign. -/
def Reads (text : String) (p : Phrase) : Prop :=
  ∀ rest pending, Delimited rest → Open pending → ∃ q inner,
    Reaches ⟨text.toList ++ rest, none, pending⟩ ⟨rest, some q, inner⟩ ∧
      settle q inner = settle p pending

theorem ReadsAtom.operand {text : String} {p : Phrase} (h : ReadsAtom text p) :
    ReadsOperand text p :=
  fun rest pending hrest => ⟨p, pending, h rest pending hrest, rfl⟩

theorem ReadsOperand.reads {text : String} {p : Phrase} (h : ReadsOperand text p) :
    Reads text p := by
  intro rest pending hrest _
  obtain ⟨q, inner, hreach, hsigned⟩ := h rest pending hrest
  refine ⟨q, inner, hreach, ?_⟩
  rw [← settle_signed, hsigned, settle_signed]

/-- No text is read as two phrases. -/
theorem Reads.unique {text : String} {p q : Phrase} (hp : Reads text p) (hq : Reads text q) :
    p = q := by
  obtain ⟨p', inner, hpreach, hpsettle⟩ := hp [] [] (by simp [Delimited]) trivial
  obtain ⟨q', inner', hqreach, hqsettle⟩ := hq [] [] (by simp [Delimited]) trivial
  have hends := eq_of_reaches_ends hpreach hqreach rfl rfl
  obtain ⟨rfl, rfl⟩ : p' = q' ∧ inner = inner' := by simpa using hends
  exact congrArg Prod.fst (hpsettle.symm.trans hqsettle)

/-! ### Forms -/

variable {text : String} {p : Phrase}

/-- An expression and the token that ends it. -/
theorem Reads.reaches_of_end (h : Reads text p) (t : Token) (ht : t.Sound false) (hends : Ends t)
    {pending pending' : List Pending} {last : Option Phrase} {rest : List Char} {r : Reader}
    (hopen : Open pending) (hfinish : finish t (settle p pending) = some (last, pending'))
    (hafter : Reaches ⟨rest, last, pending'⟩ r) :
    Reaches ⟨text.toList ++ (t.chars ++ rest), none, pending⟩ r := by
  obtain ⟨q, inner, hreach, hsettle⟩ := h _ pending (t.delimited_chars ht rest) hopen
  refine hreach.trans (reaches_of_token t ht (hends.endsBefore rest) ?_ hafter)
  rw [act, resume_of_ends hends, hsettle, hfinish]

theorem ReadsAtom.word {w : String} (hw : isWord w) (hkeyword : w ∉ ["if", "let", "not"]) :
    ReadsAtom w (.word w) := fun _ _ hrest =>
  reaches_of_token (.word w) ⟨rfl, hw, hkeyword⟩ hrest rfl .refl

theorem ReadsAtom.parens (h : Reads text p) : ReadsAtom ("(" ++ text ++ ")") (.parens p) := by
  intro rest pending _
  have hchars : ("(" ++ text ++ ")").toList ++ rest =
      Token.opening.chars ++ (text.toList ++ (Token.closing.chars ++ rest)) := by
    simp [Token.chars]
  rw [hchars]
  refine reaches_of_token .opening rfl trivial rfl ?_
  exact h.reaches_of_end .closing trivial trivial trivial rfl .refl

theorem ReadsOperand.minus (h : ReadsOperand text p) : ReadsOperand ("-" ++ text) (.minus p) := by
  intro rest pending hrest
  obtain ⟨q, inner, hreach, hsigned⟩ := h rest (.minus :: pending) hrest
  refine ⟨q, inner, ?_, hsigned⟩
  rw [String.toList_append, List.append_assoc]
  exact reaches_of_token .minus rfl trivial rfl hreach

theorem Reads.negation (h : ReadsOperand text p) : Reads ("not " ++ text) (.negation p) := by
  intro rest pending hrest _
  obtain ⟨q, inner, hreach, hsettle⟩ := h.reads rest (.negation :: pending) hrest trivial
  refine ⟨q, inner, ?_, hsettle⟩
  rw [String.toList_append, List.append_assoc]
  exact reaches_of_token .negation rfl trivial rfl hreach

theorem Reads.operation {operator left right : String} {l r : Phrase}
    (hoperator : operator ∈ infixNames) (hleft : ReadsOperand left l)
    (hright : ReadsOperand right r) :
    Reads (left ++ " " ++ operator ++ " " ++ right) (.operation operator l r) := by
  intro rest pending hrest hopen
  have hsound : (Token.between operator).Sound false :=
    ⟨Bool.false_ne_true, List.mem_append_left _ hoperator⟩
  obtain ⟨l', inner, hreach, hsigned⟩ :=
    hleft ((Token.between operator).chars ++ (right.toList ++ rest)) pending
      (Token.delimited_chars _ hsound _)
  obtain ⟨r', inner', hreach', hsettle⟩ :=
    hright.reads rest (.right operator l :: pending) hrest trivial
  refine ⟨r', inner', ?_, hsettle⟩
  have hact : act (some l') (.between operator) inner =
      some (none, .right operator l :: pending) := by
    simp [act, resume, hoperator, hsigned, signed_of_open hopen]
  have hchars : (left ++ " " ++ operator ++ " " ++ right).toList ++ rest =
      left.toList ++ ((Token.between operator).chars ++ (right.toList ++ rest)) := by
    simp [Token.chars]
  rw [hchars]
  exact hreach.trans (reaches_of_token _ hsound trivial hact hreach')

/-- Arguments, and the parenthesis after them, complete a call. -/
theorem reaches_of_args {texts : List String} {ps : List Phrase} (h : List.Forall₂ Reads texts ps)
    (hne : texts ≠ []) (arrow : Bool) (name : String) (source : Phrase) (done : List Phrase)
    (pending : List Pending) (rest : List Char) :
    Reaches
      ⟨(", ".intercalate texts).toList ++ (Token.closing.chars ++ rest), none,
        .args arrow name source done :: pending⟩
      ⟨rest, some (.method arrow name source (done ++ ps)), pending⟩ := by
  induction h generalizing done with
  | nil => exact absurd rfl hne
  | @cons text p texts ps htext htexts ih =>
    cases htexts with
    | nil =>
      rw [String.intercalate_singleton]
      exact htext.reaches_of_end .closing trivial trivial trivial rfl .refl
    | cons =>
      have hrest := ih (List.cons_ne_nil _ _) (done ++ [p])
      rw [List.append_assoc, List.singleton_append] at hrest
      rw [String.intercalate_cons_cons, String.toList_append, String.toList_append,
        List.append_assoc, List.append_assoc]
      exact htext.reaches_of_end .comma Bool.false_ne_true trivial trivial rfl hrest

theorem ReadsAtom.method {texts : List String} {ps : List Phrase} {name : String}
    (hsource : ReadsAtom text p) (arrow : Bool) (hname : '(' ∉ name.toList)
    (hargs : List.Forall₂ Reads texts ps) :
    ReadsAtom
      (text ++ (if arrow then "->" else ".") ++ name ++ "(" ++ ", ".intercalate texts ++ ")")
      (.method arrow name p ps) := by
  intro rest pending _
  have hsound : (Token.selector arrow name).Sound false := ⟨Bool.false_ne_true, hname⟩
  have hchars : (text ++ (if arrow then "->" else ".") ++ name ++ "(" ++ ", ".intercalate texts
        ++ ")").toList ++ rest =
      text.toList ++ ((Token.selector arrow name).chars ++
        ((", ".intercalate texts).toList ++ (Token.closing.chars ++ rest))) := by
    cases arrow <;> simp [Token.chars]
  rw [hchars]
  refine (hsource _ pending (Token.delimited_chars _ hsound _)).trans ?_
  refine reaches_of_token (.selector arrow name) hsound trivial rfl ?_
  cases hargs with
  | nil => exact reaches_of_token .closing trivial trivial rfl .refl
  | cons hp hps =>
    exact reaches_of_args (.cons hp hps) (List.cons_ne_nil _ _) arrow name p [] pending rest

theorem ReadsAtom.conditional {condition onTrue onFalse : String} {c t f : Phrase}
    (hcondition : Reads condition c) (htrue : Reads onTrue t) (hfalse : Reads onFalse f) :
    ReadsAtom ("if " ++ condition ++ " then " ++ onTrue ++ " else " ++ onFalse ++ " endif")
      (.conditional c t f) := by
  intro rest pending _
  have hchars : ("if " ++ condition ++ " then " ++ onTrue ++ " else " ++ onFalse
        ++ " endif").toList ++ rest =
      Token.condition.chars ++ (condition.toList ++ ((Token.between "then").chars ++
        (onTrue.toList ++ ((Token.between "else").chars ++
          (onFalse.toList ++ (Token.endif.chars ++ rest)))))) := by
    simp [Token.chars]
  rw [hchars]
  refine reaches_of_token .condition rfl trivial rfl ?_
  refine hcondition.reaches_of_end (.between "then") ⟨Bool.false_ne_true, by decide⟩
    (by decide : "then" ∉ infixNames) trivial rfl ?_
  refine htrue.reaches_of_end (.between "else") ⟨Bool.false_ne_true, by decide⟩
    (by decide : "else" ∉ infixNames) trivial rfl ?_
  exact hfalse.reaches_of_end .endif Bool.false_ne_true trivial trivial rfl .refl

theorem Reads.binding {name ty value body : String} {v b : Phrase} (hname : ' ' ∉ name.toList)
    (hty : '=' ∉ ty.toList) (hvalue : Reads value v) (hbody : Reads body b) :
    Reads ("let " ++ name ++ " : " ++ ty ++ " = " ++ value ++ " in " ++ body)
      (.binding name ty v b) := by
  intro rest pending hrest _
  obtain ⟨q, inner, hreach, hsettle⟩ := hbody rest (.body name ty v :: pending) hrest trivial
  refine ⟨q, inner, ?_, hsettle⟩
  have hchars : ("let " ++ name ++ " : " ++ ty ++ " = " ++ value ++ " in " ++ body).toList ++ rest =
      (Token.binder name ty).chars ++ (value.toList ++ ((Token.between "in").chars ++
        (body.toList ++ rest))) := by
    simp [Token.chars]
  rw [hchars]
  refine reaches_of_token (.binder name ty) ⟨rfl, hname, hty⟩ trivial rfl ?_
  exact hvalue.reaches_of_end (.between "in") ⟨Bool.false_ne_true, by decide⟩
    (by decide : "in" ∉ infixNames) trivial rfl hreach

end ObjectConstraint
