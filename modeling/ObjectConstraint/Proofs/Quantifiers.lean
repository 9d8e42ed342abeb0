import ObjectConstraint.Proofs.StackKept
import ObjectConstraint.Snapshot

/-!
# Quantifiers scan the choices of elements

A `forAll` or `exists` loop with several iterators is a loop inside a loop. It comes to the same as
one scan of all choices of elements for the iterators, in the lexicographic order of their places,
each of which binds all iterators anew: what is bound and unbound in between leaves no trace.

* `choices` — the lists of a given length with members of a list, in lexicographic order.
* `Scans` — a scan of choices that stops at the first one whose result is not the wanted one.
* `scans_quantify` — the loops inside each other are such a scan.
* `ObjectModel.eval_quantifier` — the evaluation of a quantifier.
-/

namespace ObjectConstraint

/-! ### Choices -/

section Choices

variable {α β : Type}

/-- The lists of length `k` with members of a list. The first member changes most slowly. -/
def choices (xs : List α) : (k : Nat) → List (List α)
  | 0 => [[]]
  | k + 1 => xs.flatMap fun x => (choices xs k).map (x :: ·)

theorem mem_choices {xs c : List α} {k : Nat} :
    c ∈ choices xs k ↔ c.length = k ∧ ∀ x ∈ c, x ∈ xs := by
  induction k generalizing c with
  | zero => cases c <;> simp [choices]
  | succ k ih =>
    cases c with
    | nil => simp [choices]
    | cons x c => simp [choices, ih, and_left_comm]

theorem length_choices (xs : List α) (k : Nat) : (choices xs k).length = xs.length ^ k := by
  induction k with
  | zero => rfl
  | succ k ih => simp [choices, List.length_flatMap, ih, Nat.pow_succ, Nat.mul_comm]

theorem map_choices (f : α → β) (xs : List α) (k : Nat) :
    (choices xs k).map (List.map f) = choices (xs.map f) k := by
  induction k with
  | zero => rfl
  | succ k ih =>
    rw [choices, choices, List.map_flatMap, List.flatMap_map, ← ih]
    simp [Function.comp_def]

/-- Choices of ascending elements ascend lexicographically. -/
theorem pairwise_choices [LT α] {xs : List α} (h : xs.Pairwise (· < ·)) (k : Nat) :
    (choices xs k).Pairwise (· < ·) := by
  induction k with
  | zero => exact List.pairwise_singleton _ _
  | succ k ih =>
    rw [choices, List.pairwise_flatMap]
    constructor
    · intro x _
      refine List.pairwise_map.mpr (ih.imp fun hlt => ?_)
      exact List.Lex.cons hlt
    · refine h.imp fun hlt c hc d hd => ?_
      obtain ⟨c, -, rfl⟩ := List.mem_map.mp hc
      obtain ⟨d, -, rfl⟩ := List.mem_map.mp hd
      exact List.Lex.rel hlt

end Choices

/-! ### Scans -/

/-- Ending a binding and making it again changes nothing. -/
theorem Context.bind_unbind {ctx : Context} {s : Stack} {name : String} {x : Value}
    (h : ctx.stack = s.bind name x) : ctx.unbind.bind name x = ctx := by
  obtain ⟨hbindings, hown, -⟩ := Stack.mk.inj h
  simp only [unbind, hown, bind, hbindings, List.tail_cons]
  rw [← hbindings, ← hown]

namespace EvalM

/-- A computation with variables bound, one after the other. -/
def withBindings (vars : List (String × Value)) (act : EvalM Value) : EvalM Value :=
  vars.foldr (fun var act => withBinding var.1 var.2 act) act

/-- Runs a computation on choices one after the other, from a context to another one, until one does
not have the truth value `wanted`. A result of the other truth value is the result of the scan, one
without truth value makes it undefined, and an error is passed on. -/
inductive Scans (wanted : Bool) (run : List Value → EvalM Value) :
    Context → List (List Value) → Except Stop Value → Context → Prop
  | done (ctx : Context) : Scans wanted run ctx [] (.ok (.boolean wanted)) ctx
  | pass {ctx inner final : Context} {vals : List Value} {others : List (List Value)}
      {outcome : Except Stop Value}
      (hrun : (run vals).run.run ctx = (.ok (.boolean wanted), inner))
      (hothers : Scans wanted run inner others outcome final) :
      Scans wanted run ctx (vals :: others) outcome final
  | decided {ctx final : Context} {vals : List Value} (others : List (List Value))
      (hrun : (run vals).run.run ctx = (.ok (.boolean !wanted), final)) :
      Scans wanted run ctx (vals :: others) (.ok (.boolean !wanted)) final
  | unknown {ctx final : Context} {vals : List Value} (others : List (List Value)) {v : Value}
      (hrun : (run vals).run.run ctx = (.ok v, final)) (hv : v.bool? = none) :
      Scans wanted run ctx (vals :: others) (.ok .undefined) final
  | failed {ctx final : Context} {vals : List Value} (others : List (List Value)) {stop : Stop}
      (hrun : (run vals).run.run ctx = (.error stop, final)) :
      Scans wanted run ctx (vals :: others) (.error stop) final

namespace Scans

variable {wanted : Bool} {run : List Value → EvalM Value} {ctx inner final : Context}
  {cs ds : List (List Value)} {outcome : Except Stop Value}

/-- A scan that all choices pass goes on with further ones. -/
theorem append (h : Scans wanted run ctx cs (.ok (.boolean wanted)) inner)
    (hds : Scans wanted run inner ds outcome final) :
    Scans wanted run ctx (cs ++ ds) outcome final := by
  generalize hpassed : (.ok (.boolean wanted) : Except Stop Value) = passed at h
  induction h with
  | done => exact hds
  | pass hrun _ ih => exact .pass hrun (ih hds hpassed)
  | decided => cases wanted <;> cases hpassed
  | unknown => cases hpassed
  | failed => cases hpassed

/-- A scan that stops does not get to further choices. -/
theorem append_right (h : Scans wanted run ctx cs outcome final)
    (hstopped : outcome ≠ .ok (.boolean wanted)) (ds : List (List Value)) :
    Scans wanted run ctx (cs ++ ds) outcome final := by
  induction h with
  | done => exact absurd rfl hstopped
  | pass hrun _ ih => exact .pass hrun (ih hstopped)
  | decided others hrun => exact .decided (others ++ ds) hrun
  | unknown others hrun hv => exact .unknown (others ++ ds) hrun hv
  | failed others hrun => exact .failed (others ++ ds) hrun

/-- A scan with a variable bound throughout is one that binds it for each choice anew. -/
theorem unbind {run' : List Value → EvalM Value} {s : Stack} {name : String} {x : Value}
    (h : Scans wanted run ctx cs outcome final)
    (hkeeps : ∀ vals ctx, ((run vals).run.run ctx).2.stack = ctx.stack)
    (hrun' : ∀ vals, run' (x :: vals) = withBinding name x (run vals))
    (hctx : ctx.stack = s.bind name x) :
    Scans wanted run' ctx.unbind (cs.map (x :: ·)) outcome final.unbind := by
  -- to unbind the variable and to bind it for the next choice leads back to the same context
  have hstep : ∀ {vals : List Value} {ctx inner : Context} {result : Except Stop Value},
      (run vals).run.run ctx = (result, inner) → ctx.stack = s.bind name x →
      (run' (x :: vals)).run.run ctx.unbind = (result, inner.unbind) := by
    intro vals ctx inner result hrun hctx
    rw [hrun']
    show (((run vals).run.run (ctx.unbind.bind name x)).1,
      ((run vals).run.run (ctx.unbind.bind name x)).2.unbind) = _
    rw [Context.bind_unbind hctx, hrun]
  induction h with
  | done => exact .done _
  | @pass ctx inner final vals others outcome hrun _ ih =>
    have hinner : inner.stack = s.bind name x := by
      rw [← hctx, ← hkeeps vals ctx, hrun]
    exact .pass (hstep hrun hctx) (ih hinner)
  | decided others hrun => exact .decided _ (hstep hrun hctx)
  | unknown others hrun hv => exact .unknown _ (hstep hrun hctx) hv
  | failed others hrun => exact .failed _ (hstep hrun hctx)

end Scans

variable {wanted : Bool} {run : List Value → EvalM Value} {act : EvalM Value}

theorem stack_withBindings (hkeeps : ∀ ctx, (act.run.run ctx).2.stack = ctx.stack)
    (vars : List (String × Value)) (ctx : Context) :
    ((withBindings vars act).run.run ctx).2.stack = ctx.stack := by
  induction vars generalizing ctx with
  | nil => exact hkeeps ctx
  | cons var vars ih => exact Context.stack_unbind (ih (ctx.bind var.1 var.2))

/-- A scan of elements, each of which is a scan of choices that begin with it. -/
theorem scans_scan {test : Value → EvalM (Option Bool)} {cs : List (List Value)} {xs : List Value}
    (h : ∀ x ctx outcome final, (test x).run.run ctx = (outcome, final) →
      Scans wanted run ctx (cs.map (x :: ·)) (outcome.map .ofBool?) final)
    {ctx final : Context} {outcome : Except Stop (Option Bool)}
    (hrun : (scan wanted test xs).run.run ctx = (outcome, final)) :
    Scans wanted run ctx (xs.flatMap fun x => cs.map (x :: ·)) (outcome.map .ofBool?) final := by
  induction xs generalizing ctx with
  | nil =>
    cases hrun
    exact .done _
  | cons x xs ih =>
    rw [scan, run_bind] at hrun
    rcases htest : (test x).run.run ctx with ⟨stop | b, inner⟩ <;> rw [htest] at hrun
    · cases hrun
      exact (h x ctx _ _ htest).append_right nofun _
    · rcases b with _ | b
      · cases hrun
        exact (h x ctx _ _ htest).append_right nofun _
      · dsimp only at hrun
        by_cases hb : b = wanted
        · subst hb
          rw [if_pos rfl] at hrun
          exact (h x ctx _ _ htest).append (ih hrun)
        · rw [if_neg hb] at hrun
          cases hrun
          refine (h x ctx _ _ htest).append_right ?_ _
          exact fun heq => hb (Value.boolean.inj (Except.ok.inj heq))

/-- The loops of a quantifier inside each other are one scan of the choices for its iterators. -/
theorem scans_quantify {elems : List Value}
    (hkeeps : ∀ ctx, (act.run.run ctx).2.stack = ctx.stack) {iterators : List String}
    {ctx final : Context} {outcome : Except Stop (Option Bool)}
    (hrun : (quantify wanted elems (do return (← act).bool?) iterators).run.run ctx =
      (outcome, final)) :
    Scans wanted (fun vals => withBindings (iterators.zip vals) act) ctx
      (choices elems iterators.length) (outcome.map .ofBool?) final := by
  induction iterators generalizing ctx outcome final with
  | nil =>
    rw [quantify, run_bind] at hrun
    rcases hact : act.run.run ctx with ⟨stop | v, inner⟩ <;> rw [hact] at hrun
    · cases hrun
      exact .failed [] hact
    · cases hrun
      rcases hv : v.bool? with _ | b
      · exact .unknown [] hact hv
      · obtain rfl : v = .boolean b := by
          cases v <;> cases hv
          rfl
        by_cases hb : b = wanted
        · subst hb
          exact .pass hact (.done _)
        · obtain rfl : b = !wanted := Bool.eq_not.mpr hb
          exact .decided [] hact
  | cons iterator rest ih =>
    -- a turn of the outermost loop is a scan with its iterator bound throughout
    refine scans_scan (fun x ctx outcome final hx => ?_) hrun
    obtain ⟨rfl, rfl⟩ := Prod.mk.inj hx
    have hinner : Scans wanted (fun vals => withBindings (rest.zip vals) act)
        (ctx.bind iterator x) (choices elems rest.length) _ _ := ih rfl
    have hbound : ∀ vals, withBindings ((iterator :: rest).zip (x :: vals)) act =
        withBinding iterator x (withBindings (rest.zip vals) act) := fun _ => rfl
    have hstack : (ctx.bind iterator x).stack = ctx.stack.bind iterator x := rfl
    exact hinner.unbind (fun vals => stack_withBindings hkeeps _) hbound hstack

end EvalM

/-! ### Quantifiers -/

namespace ObjectModel

open EvalM (Scans withBindings)

/-- The quantifier that goes on while its body has a truth value. -/
def quantifying (wanted : Bool) : LoopKind := if wanted then .forAll else .exists

theorem loop_quantifying (wanted : Bool) (fuel : Nat) (eval : Expr → EvalM Value) (kind : Kind)
    (elem : Ty) (elems : List Value) (iterators : List String)
    (accumulator : Option (Accumulator Expr)) (body : Expr) :
    loop fuel eval (quantifying wanted) kind elem elems iterators accumulator body =
      quantified eval wanted elems iterators body := by
  cases wanted <;> rfl

/-- After its source, a loop over a collection is the loop over the elements. -/
theorem run_loopNode {M : ObjectModel} {fuel : Nat} {eval : Expr → EvalM Value} {kind : LoopKind}
    {source body : Expr} {iterators : List String} {accumulator : Option (Accumulator Expr)}
    {ty elem : Ty} {k : Kind} {elems : List Value} {ctx start : Context}
    (hsource : (eval source).run.run ctx = (.ok (.collection k elem elems), start)) :
    (M.evalNode fuel eval (.loop kind source iterators accumulator body ty)).run.run ctx =
      (loop fuel eval kind k ty.elemOrAny elems iterators accumulator body).run.run start := by
  show (eval source >>= _).run.run ctx = _
  rw [EvalM.run_bind, hsource]

theorem scans_quantified {M : ObjectModel} {fuel : Nat} {wanted : Bool} {elems : List Value}
    {iterators : List String} {body : Expr} {ctx final : Context} {outcome : Except Stop Value}
    (hrun : (quantified (M.eval fuel) wanted elems iterators body).run.run ctx = (outcome, final)) :
    Scans wanted (fun vals => withBindings (iterators.zip vals) (M.eval fuel body)) ctx
      (choices elems iterators.length) outcome final := by
  rw [quantified, EvalM.run_bind] at hrun
  rcases hquantify : (EvalM.quantify wanted elems (do return (← M.eval fuel body).bool?)
    iterators).run.run ctx with ⟨stop | b, inner⟩ <;> rw [hquantify] at hrun <;> cases hrun
  · exact EvalM.scans_quantify (fun ctx => (stack_path_eval fuel body ctx).1) hquantify
  · exact EvalM.scans_quantify (fun ctx => (stack_path_eval fuel body ctx).1) hquantify

/-- A quantifier over `n` evaluated elements runs its body on the `n ^ k` choices of places for its
`k` iterators, in lexicographic order, with all iterators bound for each choice. It ends as that
scan does, and from the context in which the scan ends. Without elements it has the truth value with
which it goes on. -/
theorem eval_quantifier (M : ObjectModel) (fuel : Nat) (wanted : Bool) (ctx start : Context)
    (source body : Expr) (iterators : List String) (accumulator : Option (Accumulator Expr))
    (ty elem : Ty) (kind : Kind) (elems : List Value) :
    let loop := Expr.loop (if wanted then .forAll else .exists) source iterators accumulator body ty
    let places := choices (List.finRange elems.length) iterators.length
    let run := fun vals => withBindings (iterators.zip vals) (M.eval fuel body)
    (places.Pairwise (· < ·) ∧ (∀ c, c ∈ places ↔ c.length = iterators.length) ∧
        places.length = elems.length ^ iterators.length) ∧
      ((M.eval fuel source).run.run (ctx.enter loop) = (.ok (.collection kind elem elems), start) →
        ∃ outcome final, Scans wanted run start (places.map (·.map elems.get)) outcome final ∧
          (elems = [] → iterators ≠ [] → outcome = .ok (.boolean wanted)) ∧
          (M.eval (fuel + 1) loop).run.run ctx = match outcome with
            | .ok v => (.ok v, final.exit loop v)
            | .error stop => (.error stop, final.recordFailure.exit loop .undefined)) := by
  intro loop places run
  refine ⟨⟨pairwise_choices (List.pairwise_lt_finRange _) _, ?_, ?_⟩, fun hsource => ?_⟩
  · intro c
    simp [places, mem_choices]
  · simp [places, length_choices]
  · have hchoices : places.map (·.map elems.get) = choices elems iterators.length := by
      rw [map_choices, List.map_get_finRange]
    rcases hrun : (quantified (M.eval fuel) wanted elems iterators body).run.run start with
      ⟨outcome, final⟩
    have hscan := scans_quantified hrun
    refine ⟨outcome, final, hchoices ▸ hscan, ?_, ?_⟩
    · rintro rfl hiterators
      obtain ⟨iterator, rest, rfl⟩ := List.exists_cons_of_ne_nil hiterators
      cases hscan
      rfl
    · have hnode : (M.evalNode fuel (M.eval fuel) loop).run.run (ctx.enter loop) =
          (outcome, final) := by
        rw [run_loopNode hsource, ← hrun]
        exact congrArg (fun act => act.run.run start) (loop_quantifying ..)
      show (EvalM.observed loop (M.evalNode fuel (M.eval fuel) loop)).run.run ctx = _
      rw [EvalM.run_observed, hnode]
      cases outcome <;> rfl

/-- With two iterators of one name, the body sees the second one: of the four choices from `1` and
`2`, the second one makes `x = 2` true. -/
theorem eval_quantifier_repeated :
    let M := Snapshot.empty.toModel
    let source := Expr.var "xs" (.collection .sequence .integer)
    let body :=
      Expr.call "=" (.standard .eq) (.var "x" .integer) [.const (.integer 2)] .boolean
    let loop := Expr.loop .exists source ["x", "x"] none body .boolean
    let elems := [Value.integer 1, .integer 2]
    let ctx := Context.empty.bind "xs" (.collection .sequence .integer elems)
    let start := ((M.eval 2 source).run.run (ctx.enter loop)).2
    let places := choices (List.finRange elems.length) 2
    let run := fun vals => withBindings (["x", "x"].zip vals) (M.eval 2 body)
    (M.eval 2 source).run.run (ctx.enter loop) =
        (.ok (.collection .sequence .integer elems), start) ∧
      places = [[0, 0], [0, 1], [1, 0], [1, 1]] ∧
      ((M.eval 3 loop).run.run ctx).1 = .ok (.boolean true) ∧
      ∃ outcome final, Scans false run start (places.map (·.map elems.get)) outcome final ∧
        (elems = [] → ["x", "x"] ≠ [] → outcome = .ok (.boolean false)) ∧
        (M.eval 3 loop).run.run ctx = match outcome with
          | .ok v => (.ok v, final.exit loop v)
          | .error stop => (.error stop, final.recordFailure.exit loop .undefined) := by
  intro M source body loop elems ctx start places run
  have hsource : (M.eval 2 source).run.run (ctx.enter loop) =
      (.ok (.collection .sequence .integer elems), start) := rfl
  exact ⟨hsource, by decide, rfl, (eval_quantifier M 2 false ctx start source body ["x", "x"] none
    .boolean .integer .sequence elems).2 hsource⟩

end ObjectModel

end ObjectConstraint
