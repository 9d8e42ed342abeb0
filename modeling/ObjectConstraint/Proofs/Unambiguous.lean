import ObjectConstraint.Proofs.Agreement
import ObjectConstraint.Proofs.Formulas
import ObjectConstraint.Snapshot

/-!
# What the text of a formula determines

The text of a plain formula is read as one phrase only, and the phrase, with the types of the
variables in scope, determines a tree up to the spelling of negative numbers. So formulas with one
text have one value. Of the restrictions on plain formulas none can be left out.

* `Phrase.elaborate` — the tree that a phrase stands for.
* `Formula.elaborates` — the phrase of a plain formula stands for a tree of the same meaning.
* `Formula.ensures_eval` — formulas have values.
* `Formula.evaluate_eq_of_text_eq` — plain formulas with the same text evaluate alike.
-/

namespace ObjectConstraint

/-! ### From phrases to trees -/

namespace Phrase

/-- The number that a phrase is the numeral of. -/
def numeral? : Phrase → Option Nat
  | word w => if w.toList.all Char.isDigit then some (Nat.ofDigitChars 10 w.toList 0) else none
  | _ => none

variable (S : Schema)

mutual

/-- The tree that a phrase stands for in a scope, made by the constructors. A sign before a numeral
belongs to the number, and a `let` without a declared type gives its variable the type of the
value. -/
def elaborate (scope : Scope) : Phrase → Option Expr
  | word w =>
    match (word w).numeral? with
    | some n => some (.const (.integer (.ofInt n)))
    | none =>
      if w = "true" then some (.const (.boolean true))
      else if w = "false" then some (.const (.boolean false))
      else (scope.lookup w).map (.var w)
  | parens p => elaborate scope p
  | minus p =>
    match p.numeral? with
    | some n => some (.const (.integer (.ofInt (-n))))
    | none => do (S.unary "-" (← elaborate scope p)).toOption
  | negation p => do (S.unary "not" (← elaborate scope p)).toOption
  | operation operator left right => do
    let left ← elaborate scope left
    (S.binary left operator (← elaborate scope right)).toOption
  | method _ name source args => do
    let source ← elaborate scope source
    (S.call source name (← elaborateAll scope args)).toOption
  | conditional condition onTrue onFalse => do
    let condition ← elaborate scope condition
    let onTrue ← elaborate scope onTrue
    (S.ifThenElse condition onTrue (← elaborate scope onFalse)).toOption
  | binding name _ value body => do
    let value ← elaborate scope value
    let body ← elaborate (scope.opened.bindAll [(name, value.ty)]) body
    return .letIn name value body body.ty
  termination_by structural p => p

def elaborateAll (scope : Scope) : List Phrase → Option (List Expr)
  | [] => some []
  | p :: ps => do
    let e ← elaborate scope p
    return e :: (← elaborateAll scope ps)
  termination_by structural ps => ps

end

end Phrase

namespace Phrase

variable {S : Schema} {scope : Scope} {p : Phrase}

theorem numeral?_repr (n : Nat) : (word n.repr).numeral? = some n := by
  have hdigits : n.repr.toList.all Char.isDigit :=
    List.all_eq_true.mpr fun c hc => isDigit_of_mem_repr hc
  rw [numeral?, if_pos hdigits, Nat.toList_repr, Nat.ofDigitChars_ten_toDigits]

theorem numeral?_of_isName {w : String} (h : isName w) : (word w).numeral? = none := by
  have hne : w.toList ≠ [] := by
    have hword := isWord_of_isName h
    simp_all [isWord]
  simp only [isName, Bool.and_eq_true] at h
  have hhead := h.1.2
  rcases hw : w.toList with _ | ⟨c, cs⟩
  · exact absurd hw hne
  · rw [hw] at hhead
    have hdigit : c.isDigit = false := by simpa using hhead
    simp [numeral?, hw, hdigit]

theorem numeral?_of_operandPhrase {e : Expr} {n : Nat}
    (h : (e.operandPhrase p).numeral? = some n) : p.numeral? = some n := by
  unfold Expr.operandPhrase at h
  split at h
  · cases h
  · exact h

theorem numeral?_callPhrase (name : String) (source : Expr) (args : List Expr) (receiver : Phrase)
    (ps : List Phrase) : (Expr.callPhrase name source args receiver ps).numeral? = none := by
  unfold Expr.callPhrase
  split
  · split <;> rfl
  · split
    · rfl
    · split <;> rfl
  · rfl

theorem elaborate_operandPhrase (e : Expr) (p : Phrase) :
    (e.operandPhrase p).elaborate S scope = p.elaborate S scope := by
  unfold Expr.operandPhrase
  split <;> rfl

theorem elaborate_integerPhrase (i : Int) :
    (Expr.integerPhrase i).elaborate S scope = some (.const (.integer (.ofInt i))) := by
  rcases i with k | k
  · simp [Expr.integerPhrase, elaborate, numeral?_repr]
  · simp [Expr.integerPhrase, elaborate, numeral?_repr, Int.negSucc_eq]

theorem elaborate_name {name : String} {ty : Ty} (hname : isName name)
    (h : scope.lookup name = some ty) :
    (word name).elaborate S scope = some (.var name ty) := by
  have hkeyword : name ≠ "true" ∧ name ≠ "false" := by
    simp only [isName, Bool.and_eq_true, decide_eq_true_eq] at hname
    simp_all
  simp [elaborate, numeral?_of_isName hname, hkeyword, h]

/-- The phrase of a call stands for a call of what its parts stand for, but for the negation of a
numeral. -/
theorem elaborate_callPhrase {name : String} {source source' e : Expr} {args args' : List Expr}
    {receiver : Phrase} {ps : List Phrase}
    (hreceiver : receiver.elaborate S scope = some source')
    (hargs : elaborateAll S scope ps = some args')
    (hsign : args = [] → name = "-" → receiver.numeral? = none)
    (h : S.call source' name args' = .ok e) :
    (Expr.callPhrase name source args receiver ps).elaborate S scope = some e := by
  have hmethod : ∀ arrow, (method arrow name receiver ps).elaborate S scope = some e := by
    intro arrow
    simp [elaborate, hreceiver, hargs, h, Except.toOption]
  unfold Expr.callPhrase
  split
  · next arg p =>
    split
    · obtain ⟨right, hright, hargs⟩ := Option.bind_eq_some_iff.mp hargs
      obtain rfl := Option.some.inj hargs
      simp [elaborate, hreceiver, elaborate_operandPhrase, hright, Schema.binary, h,
        Except.toOption]
    · exact hmethod _
  · obtain rfl := Option.some.inj hargs
    split
    · next hname =>
      subst hname
      simp [elaborate, hreceiver, Schema.unary, h, Except.toOption]
    · split
      · next hname =>
        subst hname
        simp [elaborate, hsign rfl rfl, hreceiver, Schema.unary, h, Except.toOption]
      · exact hmethod _
  · exact hmethod _

end Phrase

namespace Schema

variable {S : Schema} {source source' : Expr} {args args' : List Expr}

/-- Whether a standard operation may be called depends on the types of the operands alone. -/
theorem call_of_types {name : String} {op : Operation} {ty : Ty}
    (h : S.call source name args = .ok (.call name (.standard op) source args ty))
    (hsource : source'.ty = source.ty) (hargs : args'.map Expr.ty = args.map Expr.ty) :
    S.call source' name args' = .ok (.call name (.standard op) source' args' ty) := by
  unfold call at h ⊢
  have hquery : S.query? source' name = S.query? source name := by rw [query?, hsource, query?]
  rw [hquery]
  split at h
  · split at h
    · cases h
    · obtain ⟨_, -, h⟩ := Checked.bind_eq_ok h
      cases h
  · obtain ⟨⟨ty', op'⟩, hresolve, h⟩ := Checked.bind_eq_ok h
    cases h
    rw [hsource, hargs, hresolve]
    rfl

/-- A connective is called with one argument. -/
theorem exists_eq_singleton_of_call {name : String} {op : Operation} {ty : Ty}
    (h : S.call source name args = .ok (.call name (.standard op) source args ty))
    (hop : op.isConnective) : ∃ arg, args = [arg] := by
  rcases call_eq_ok h with ⟨_, _, -, -, -, heq⟩ | ⟨_, _, hresolve, heq⟩
  · cases heq
  · cases heq
    have hsignature := Hierarchy.hasSignature_of_resolve hresolve
    have hlength := (Hierarchy.eq_of_isConnective hsignature hop).1
    rwa [List.length_map, List.length_eq_one_iff] at hlength

theorem ifThenElse_of_types {condition condition' onTrue onTrue' onFalse onFalse' : Expr}
    (h : S.conforms condition.ty .boolean) (hcondition : condition'.ty = condition.ty)
    (htrue : onTrue'.ty = onTrue.ty) (hfalse : onFalse'.ty = onFalse.ty) :
    S.ifThenElse condition' onTrue' onFalse' =
      .ok (.ifThenElse condition' onTrue' onFalse' (S.join onTrue.ty onFalse.ty)) := by
  have hexpect : S.expectBoolean condition.ty .ifCondition = .ok ⟨⟩ :=
    Hierarchy.expectBoolean_eq_ok.mpr h
  rw [ifThenElse, hcondition, htrue, hfalse, hexpect]
  rfl

end Schema

namespace Formula

variable {S : Schema} {M : ObjectModel} {scope : Scope} {e f : Expr}

/-- A numeral is a constant without a sign. -/
theorem eq_const_of_numeral? (h : Formula S True scope e) {n : Nat}
    (hn : e.phrase.numeral? = some n) : ∃ k : Int64, k.toInt = n ∧ e = .const (.integer k) := by
  cases h with
  | boolean b => cases b <;> cases hn
  | integer k =>
    refine ⟨k, ?_, rfl⟩
    change (Expr.integerPhrase k.toInt).numeral? = some n at hn
    generalize k.toInt = i at hn
    rcases i with m | m
    · have hm := (Phrase.numeral?_repr m).symm.trans hn
      exact congrArg Int.ofNat (Option.some.inj hm)
    · cases hn
  | «variable» hname h =>
    obtain ⟨ty, -, rfl⟩ := variableRef_eq_ok h
    exact absurd ((Phrase.numeral?_of_isName hname).symm.trans hn) nofun
  | call => exact absurd ((Phrase.numeral?_callPhrase ..).symm.trans hn) nofun
  | ifThenElse _ _ _ h =>
    obtain ⟨-, rfl⟩ := Schema.ifThenElse_eq_ok h
    cases hn
  | letIn _ _ _ h =>
    obtain ⟨-, _, _, -, rfl⟩ := Schema.letIn_eq_ok h
    cases hn

/-- The arguments of a call, if the phrase of each stands for a tree of the same meaning. -/
theorem elaborateAll_phrases {args : List Expr}
    (h : ∀ arg ∈ args, ∃ arg', arg.phrase.elaborate S scope = some arg' ∧ M.SameMeaning arg arg') :
    ∃ args', Phrase.elaborateAll S scope (Expr.phrases args) = some args' ∧
      List.Forall₂ M.SameMeaning args args' := by
  induction args with
  | nil => exact ⟨[], rfl, .nil⟩
  | cons arg args ih =>
    obtain ⟨⟨arg', harg, hsame⟩, hargs⟩ := List.forall_mem_cons.mp h
    obtain ⟨args', hargs, hsames⟩ := ih hargs
    exact ⟨arg' :: args', by simp [Expr.phrases, Phrase.elaborateAll, harg, hargs],
      .cons hsame hsames⟩

/-- The phrase of a plain formula stands for a tree that means the same. -/
theorem elaborates (h : Formula S True scope e) :
    ∃ e', e.phrase.elaborate S scope = some e' ∧ M.SameMeaning e e' := by
  induction h with
  | boolean b => exact ⟨.const (.boolean b), by cases b <;> rfl, .literal _ _⟩
  | integer n =>
    refine ⟨.const (.integer n), ?_, .literal _ _⟩
    exact (Phrase.elaborate_integerPhrase n.toInt).trans (by rw [Int64.ofInt_toInt])
  | «variable» hname h =>
    obtain ⟨ty, hlookup, rfl⟩ := variableRef_eq_ok h
    exact ⟨_, Phrase.elaborate_name hname hlookup, .var _ _⟩
  | @call scope source name args op ty hsource _ h _ ihsource ihargs =>
    obtain ⟨source', hsource', hs⟩ := ihsource
    obtain ⟨args', hargs', has⟩ := elaborateAll_phrases ihargs
    have hreceiver := (Phrase.elaborate_operandPhrase source source.phrase).trans hsource'
    have hcall := Schema.call_of_types h hs.ty (ObjectModel.SameMeaning.map_ty has)
    by_cases hsign : args = [] → name = "-" →
        (source.operandPhrase source.phrase).numeral? = none
    · refine ⟨_, ?_, .call name op ty hs has⟩
      exact Phrase.elaborate_callPhrase hreceiver hargs' hsign hcall
    · simp only [Classical.not_imp] at hsign
      obtain ⟨rfl, rfl, hnumeral⟩ := hsign
      obtain ⟨n, hn⟩ := Option.ne_none_iff_exists'.mp hnumeral
      obtain ⟨k, hk, rfl⟩ := hsource.eq_const_of_numeral? (Phrase.numeral?_of_operandPhrase hn)
      have hneg : S.call (.const (.integer k)) "-" [] =
          .ok (.call "-" (.standard .neg) (.const (.integer k)) [] .integer) := rfl
      rw [hneg] at h
      cases h
      refine ⟨_, ?_, .negation (by omega)⟩
      rw [hk]
      simp [Expr.phrase, Expr.phrases, Expr.callPhrase, Phrase.elaborate, hn]
  | ifThenElse _ _ _ h ihcondition ihtrue ihfalse =>
    obtain ⟨hconforms, rfl⟩ := Schema.ifThenElse_eq_ok h
    obtain ⟨condition', hcondition, hc⟩ := ihcondition
    obtain ⟨onTrue', htrue, ht⟩ := ihtrue
    obtain ⟨onFalse', hfalse, hf⟩ := ihfalse
    refine ⟨.ifThenElse condition' onTrue' onFalse' _, ?_, .ifThenElse _ hc ht hf⟩
    have hbuilt := Schema.ifThenElse_of_types hconforms hc.ty ht.ty hf.ty
    simp [Expr.phrase, Phrase.elaborate, hcondition, htrue, hfalse, hbuilt, Except.toOption]
  | letIn hname _ _ h hplain hvalue hbody =>
    obtain ⟨-, body, inner, hconstruct, rfl⟩ := Schema.letIn_eq_ok h
    obtain ⟨value', hvalue, hv⟩ := hvalue
    obtain ⟨body', hbody, hb⟩ := hbody body inner hconstruct
    refine ⟨_, ?_, .letIn _ hv hb⟩
    rw [(hplain trivial).1, ← hv.ty] at hbody
    simp [Expr.phrase, Phrase.elaborate, hvalue, hbody]

/-- A formula has a value wherever its variables have one. -/
theorem ensures_eval {plain : Prop} (h : Formula S plain scope e) {s : Stack}
    (hs : s.Provides (fun _ _ => True) scope) (fuel : Nat) :
    EvalM.Ensures s (M.eval fuel e) (fun _ => True) (fun _ => False) := by
  induction fuel generalizing scope e s with
  | zero => exact .outOfFuel
  | succ fuel ih =>
    refine .observed e ?_
    cases h with
    | boolean b => exact .pure trivial
    | integer n => exact .pure trivial
    | @«variable» _ _ name _ hname h =>
      obtain ⟨ty, hlookup, rfl⟩ := variableRef_eq_ok h
      obtain ⟨v, hv, -⟩ := hs name ty hlookup
      have hcontext : ∀ ctx : Context, ctx.stack = s → ctx.lookup name = .ok v := by
        intro ctx hctx
        rw [Context.lookup, ← Context.visible_stack, hctx, hv]
      refine (EvalM.Ensures.getContext hcontext).bind fun ctx hctx => ?_
      rw [hctx]
      exact .pure trivial
    | @call _ source name args op ty hsource hargs h =>
      show EvalM.Ensures s (ObjectModel.callStandard _ name op source args ty) _ _
      unfold ObjectModel.callStandard
      split
      · next hconnective =>
        refine (ih hsource hs).bind fun left _ => ?_
        split
        · exact .pure trivial
        · obtain ⟨arg, rfl⟩ := Schema.exists_eq_singleton_of_call h hconnective
          exact (ih (hargs arg List.mem_cons_self) hs).bind fun _ _ => .pure trivial
      · refine (ih hsource hs).bind fun receiver _ => ?_
        have hvals := ObjectModel.ensures_evalAll fun arg harg => ih (hargs arg harg) hs
        exact hvals.bind fun vals _ => .pure trivial
    | ifThenElse hcondition htrue hfalse h =>
      obtain ⟨-, rfl⟩ := Schema.ifThenElse_eq_ok h
      refine (ih hcondition hs).bind fun v _ => ?_
      split
      · exact ih htrue hs
      · exact ih hfalse hs
      · exact .pure trivial
    | letIn hname hvalue hbody h =>
      obtain ⟨-, body, inner, hconstruct, rfl⟩ := Schema.letIn_eq_ok h
      refine (ih hvalue hs).bind fun v _ => .withBinding ?_
      exact ih (hbody body inner hconstruct) (hs.opened.bind _ trivial)

/-- Bindings provide for a scope if they have a value for each of its variables. -/
theorem provides_bindAll {bindings : List (String × Value)}
    (h : ∀ x, (scope.lookup x).isSome → ∃ v, (x, v) ∈ bindings) (settings : Settings) :
    (settings.context.bindAll bindings).stack.Provides (fun _ _ => True) scope := by
  intro x ty hx
  obtain ⟨v, hv⟩ := h x (hx ▸ rfl)
  have hvisible : (settings.context.bindAll bindings).stack.visible = bindings.reverse := by
    rw [Context.visible_stack, Context.visible_bindAll, settings.visible_context, List.append_nil]
  have hfound : (bindings.reverse.lookup x).isSome :=
    List.lookup_isSome_iff.mpr ⟨(x, v), List.mem_reverse.mpr hv, beq_self_eq_true _⟩
  obtain ⟨w, hw⟩ := Option.isSome_iff_exists.mp hfound
  exact ⟨w, hvisible ▸ hw, trivial⟩

/-- Plain formulas that are printed alike evaluate alike: to one value if the bindings have a value
for each variable of the scope, and in any case to the same outcome. -/
theorem evaluate_eq_of_text_eq (M : ObjectModel) (he : Formula S True scope e)
    (hf : Formula S True scope f) (htext : e.text = f.text) (settings : Settings)
    (bindings : List (String × Value)) {fuel : Nat} (hefuel : e.size ≤ fuel)
    (hffuel : f.size ≤ fuel) :
    (M.evaluate fuel settings e bindings).outcome =
        (M.evaluate fuel settings f bindings).outcome ∧
      ((∀ x, (scope.lookup x).isSome → ∃ v, (x, v) ∈ bindings) →
        ∃ v, (M.evaluate fuel settings e bindings).outcome = .ok v) := by
  have hphrase : e.phrase = f.phrase := he.legible.reads.unique (htext ▸ hf.legible.reads)
  obtain ⟨e', helab, hesame⟩ := he.elaborates (M := M)
  obtain ⟨f', hflab, hfsame⟩ := hf.elaborates (M := M)
  obtain rfl : e' = f' := by
    rw [hphrase, hflab] at helab
    exact (Option.some.inj helab).symm
  have hstack : ∀ g, ((settings.context.bindAll bindings).write (.evaluating g)).stack =
      (settings.context.bindAll bindings).stack := fun _ => rfl
  obtain ⟨outcome, heval, htree⟩ := hesame.agree _ fuel e'.size hefuel le_rfl
  obtain ⟨outcome', hfval, htree'⟩ := hfsame.agree _ fuel e'.size hffuel le_rfl
  obtain rfl := htree.unique htree' (hstack e)
  have hrun : (M.evaluate fuel settings e bindings).outcome = outcome.mapError .error :=
    (ObjectModel.outcome_run ..).trans (heval _ (hstack e)).1
  have hrun' : (M.evaluate fuel settings f bindings).outcome = outcome.mapError .error :=
    (ObjectModel.outcome_run ..).trans (hfval _ (hstack f)).1
  refine ⟨hrun.trans hrun'.symm, fun hbindings => ?_⟩
  have hensures := he.ensures_eval (M := M) (provides_bindAll hbindings settings) fuel
  have hmeets := (hensures _ (hstack e)).1
  rw [(heval _ (hstack e)).1] at hmeets
  cases outcome with
  | error err => exact hmeets.elim
  | ok v => exact ⟨v, hrun⟩

/-- A number with a sign, and a negated number that is declared to be an integer. -/
theorem evaluate_eq_of_text_eq_sign :
    let body := Expr.var "x" .integer
    let e := Expr.letIn "x" (.const (.integer (-5))) body .integer
    let f := Expr.letIn "x" (.call "-" (.standard .neg) (.const (.integer 5)) [] .integer) body
      .integer
    let outcome := fun g => (Snapshot.empty.toModel.evaluate 4 .standard g []).outcome
    e.text = "let x : Integer = -5 in x" ∧ e.text = f.text ∧ outcome e = outcome f ∧
      ∃ v, outcome e = .ok v := by
  intro body e f outcome
  have hbody : ∀ {body inner}, Build.outcome (variableRef "x")
      (Scope.empty.opened.bindAll [("x", .integer)]) = (.ok body, inner) →
      Formula Schema.empty True (Scope.empty.opened.bindAll [("x", .integer)]) body :=
    fun h => .variable rfl h
  have he : Formula Schema.empty True .empty e := by
    have hbuilt : Build.outcome (Schema.empty.letIn "x" none (.const (.integer (-5)))
        (variableRef "x")) .empty = (.ok e, .empty) := rfl
    exact .letIn rfl (.integer _) (fun _ _ => hbody) hbuilt fun _ => ⟨rfl, by decide⟩
  have hf : Formula Schema.empty True .empty f := by
    have hbuilt : Build.outcome (Schema.empty.letIn "x" (some .integer)
        (.call "-" (.standard .neg) (.const (.integer 5)) [] .integer) (variableRef "x")) .empty =
        (.ok f, .empty) := rfl
    have hneg : Formula Schema.empty True .empty
        (.call "-" (.standard .neg) (.const (.integer 5)) [] .integer) :=
      .call (.integer 5) nofun rfl fun _ => .inr (.inl rfl)
    exact .letIn rfl hneg (fun _ _ => hbody) hbuilt fun _ => ⟨rfl, by decide⟩
  have htext : e.text = f.text := by decide
  have hesize : e.size ≤ 4 := by decide
  have hfsize : f.size ≤ 4 := by decide
  obtain ⟨heq, hvalue⟩ :=
    evaluate_eq_of_text_eq Snapshot.empty.toModel he hf htext .standard [] hesize hfsize
  refine ⟨by decide, htext, heq, hvalue fun x hx => ?_⟩
  cases hx

/-- A call that follows a constant with a sign is printed as the negation of a call. -/
theorem not_evaluate_eq_of_text_eq :
    let e := Expr.call "abs" (.standard .abs) (.const (.integer (-5))) [] .integer
    let f := Expr.call "-" (.standard .neg)
      (.call "abs" (.standard .abs) (.const (.integer 5)) [] .integer) [] .integer
    let outcome := fun g => (Snapshot.empty.toModel.evaluate 3 .standard g []).outcome
    Formula Schema.empty False .empty e ∧ Formula Schema.empty False .empty f ∧
      e.text = "-5.abs()" ∧ f.text = e.text ∧ outcome e = .ok (.integer 5) ∧
      outcome f = .ok (.integer (-5)) := by
  intro e f outcome
  have he : Formula Schema.empty False .empty e := .call (.integer _) nofun rfl nofun
  have hf : Formula Schema.empty False .empty f :=
    .call (.call (.integer _) nofun rfl nofun) nofun rfl nofun
  exact ⟨he, hf, by decide, by decide, rfl, rfl⟩

/-- A variable that is declared to be a real number is printed as the integer that is its value. -/
example :
    let sum := fun declared => Build.outcome (Schema.empty.letIn "x" declared
      (.const (.integer 9007199254740993)) do
        check (Schema.empty.binary (← variableRef "x") "+" (.const (.integer 0)))) .empty
    let shown := fun declared => (sum declared).1.map fun e =>
      (e.text, match (Snapshot.empty.toModel.evaluate 4 .standard e []).outcome with
        | .ok v => v.text
        | .error _ => "")
    shown none = .ok ("let x : Integer = 9007199254740993 in x + 0", "9007199254740993") ∧
      shown (some .real) =
        .ok ("let x : Integer = 9007199254740993 in x + 0", "9007199254740992.0") := by
  exact ⟨rfl, by decide +kernel⟩

/-- The name of a class may look like the bindings that another formula goes on with. -/
example :
    let ty := Ty.object "Integer = 1 in let v : Boolean = true in let y : Boolean"
    let scope := Scope.empty.opened.bindAll [("v", ty)]
    let built := fun construct : Build Expr => (construct.outcome scope).1
    let outcome := fun g =>
      (Snapshot.empty.toModel.evaluate 7 .standard g [("v", .undefined)]).outcome
    let e := Expr.letIn "x" (.var "v" ty) (.var "x" ty) ty
    let f := Expr.letIn "x" (.const (.integer 1)) (.letIn "v" (.const (.boolean true))
      (.letIn "y" (.var "v" .boolean) (.var "x" .integer) .integer) .integer) .integer
    built (Schema.empty.letIn "x" none (.var "v" ty) (variableRef "x")) = .ok e ∧
      built (Schema.empty.letIn "x" none (.const (.integer 1))
        (Schema.empty.letIn "v" none (.const (.boolean true)) do
          Schema.empty.letIn "y" none (← variableRef "v") (variableRef "x"))) = .ok f ∧
      e.text = f.text ∧ outcome e = .ok .undefined ∧ outcome f = .ok (.integer 1) := by
  exact ⟨rfl, rfl, by decide, rfl, rfl⟩

end Formula

end ObjectConstraint
