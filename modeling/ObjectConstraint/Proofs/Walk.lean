import ObjectConstraint.Proofs.FreeVariables
import ObjectConstraint.Proofs.ValueInvariant

/-!
# Evaluation in lockstep

The evaluation of a tree runs in lockstep with itself, from any two contexts that may stand beside
each other where the free variables of the tree are in sight. One traversal of the evaluator shows
this for all locksteps; what the contexts and values have to do with each other comes in only where
a variable is read, a value is made, or the body of a query operation begins.

* `Lockstep.Follows` — what a lockstep needs for this.
* `Lockstep.Follows.alike_eval` — the evaluation in lockstep.
* `ObjectModel.watched` — the evaluation with a test before and after each node, which is given up
  where a test fails.
* `Lockstep.Follows.alike_watched` — in lockstep with it, the plain evaluation passes the tests.
-/

namespace ObjectConstraint

/-! ### Several trees -/

namespace ObjectModel

variable {ι : Type} {L : Lockstep ι} {i : ι} {E : EvalError → Prop}
  {eval eval' : Expr → EvalM Value}

theorem alike_evalAll {es : List Expr} {R : Expr → Value → Prop}
    (h : ∀ e ∈ es, L.Alike i (eval e) (eval' e) (R e) E) :
    L.Alike i (evalAll eval es) (evalAll eval' es) (List.Forall₂ R es) E := by
  induction es with
  | nil => exact .pure .nil
  | cons e es ih =>
    obtain ⟨he, hes⟩ := List.forall_mem_cons.mp h
    refine he.bind ?_
    intro v hv
    refine (ih hes).bind ?_
    intro vs hvs
    exact .pure (.cons hv hvs)

theorem alike_evalParts {parts : List (String × Expr)} {R : Expr → Value → Prop}
    (h : ∀ p ∈ parts, L.Alike i (eval p.2) (eval' p.2) (R p.2) E) :
    L.Alike i (evalParts eval parts) (evalParts eval' parts)
      (List.Forall₂ (fun p q => p.1 = q.1 ∧ R p.2 q.2) parts) E := by
  induction parts with
  | nil => exact .pure .nil
  | cons p parts ih =>
    obtain ⟨name, e⟩ := p
    obtain ⟨he, hparts⟩ := List.forall_mem_cons.mp h
    refine he.bind ?_
    intro v hv
    refine (ih hparts).bind ?_
    intro vs hvs
    exact .pure (.cons ⟨rfl, hv⟩ hvs)

/-- The elements of a collection literal are the values of its items and the integers of its
ranges. -/
theorem alike_partElements {parts : List (Part Expr)} {P : Value → Prop}
    (hitem : ∀ e, .item e ∈ parts → L.Alike i (eval e) (eval' e) P E)
    (hrange : ∀ first last, .range first last ∈ parts →
      L.Alike i (eval first) (eval' first) (fun _ => True) E ∧
        L.Alike i (eval last) (eval' last) (fun _ => True) E ∧ ∀ n, P (.ofInt n)) :
    L.Alike i (partElements eval parts) (partElements eval' parts)
      (fun elems => ∀ xs ∈ elems, ∀ x ∈ xs, P x) E := by
  induction parts with
  | nil => exact .pure (by simp)
  | cons part parts ih =>
    have hrest := ih (fun e he => hitem e (List.mem_cons_of_mem _ he))
      fun first last h => hrange first last (List.mem_cons_of_mem _ h)
    cases part with
    | item e =>
      refine (hitem e List.mem_cons_self).bind ?_
      intro v hv
      refine hrest.bind ?_
      intro elems helems
      refine .pure ?_
      rintro xs hxs x hx
      obtain ⟨ys, hys, rfl⟩ := Option.mem_map.mp hxs
      rcases List.mem_cons.mp hx with rfl | hx
      · exact hv
      · exact helems ys hys x hx
    | range first last =>
      obtain ⟨hfirst, hlast, hint⟩ := hrange first last List.mem_cons_self
      refine hfirst.bind ?_
      intro lo _
      refine hlast.bind ?_
      intro hi _
      split
      · refine hrest.bind ?_
        intro elems helems
        refine .pure ?_
        rintro xs hxs x hx
        obtain ⟨ys, hys, rfl⟩ := Option.mem_map.mp hxs
        rcases List.mem_append.mp hx with hx | hx
        · obtain ⟨i, -, rfl⟩ := List.mem_map.mp hx
          exact hint _
        · exact helems ys hys x hx
      · exact .pure (by simp)

end ObjectModel

/-! ### A tree in sight -/

/-- All free variables of a tree are in sight at a point; `sees` says which variables are. -/
def Lockstep.InSight {ι : Type} (sees : ι → String → Prop) (i : ι) (e : Expr) : Prop :=
  ∀ x, e.Free LoopKind.binders x → sees i x

/-- What evaluation in lockstep needs: values that may be bound are closed under what is computed,
the data of the model among them; a variable in sight has the same such value on both sides, or the
same error as described; and variables come into sight by being bound, as those of a query operation
do when its body begins. -/
structure Lockstep.Follows {ι : Type} (L : Lockstep ι) (M : ObjectModel) (sees : ι → String → Prop)
    (E : EvalError → Prop) : Prop where
  values : Value.Invariant L.good
  attributeOf (o : ObjectRef) (name : String) : L.good (M.attributeOf o name)
  linked (o : ObjectRef) (role : String) : L.good (M.linked o role)
  malformed (detail : Malformed) : E (.malformed detail)
  lookup {i : ι} {x : String} {ctx ctx' : Context} (hx : sees i x) (h : L.rel i ctx ctx') :
    ctx.lookup x = ctx'.lookup x ∧ (∀ v, ctx.lookup x = .ok v → L.good v) ∧
      ∀ err, ctx.lookup x = .error err → E err
  enter {i : ι} {x : String} (e : Expr) (hx : sees i x) : sees (L.enter i e) x
  bind {i : ι} {x : String} (name : String) (v : Value) (hx : x = name ∨ sees i x) :
    sees (L.bind i name v) x
  body {i : ι} {x : String} {o : ObjectRef} {name : String} {body : Expr} {signature : Signature}
    {args : List Value} (hbody : M.definition o.cls name = some (body, signature))
    (hargs : signature.params.length = args.length) (hx : body.Free LoopKind.binders x) :
    sees (L.bindAll (L.frame i)
      (("self", .object o) :: (signature.params.map Prod.fst).zip args)) x

namespace Lockstep.Follows

variable {ι : Type} {L : Lockstep ι} {M : ObjectModel} {sees : ι → String → Prop}
  {E : EvalError → Prop} {i : ι}

theorem bindAll (h : L.Follows M sees E) {x : String} {vars : List (String × Value)}
    (hx : x ∈ vars.map Prod.fst ∨ sees i x) : sees (L.bindAll i vars) x := by
  induction vars generalizing i with
  | nil => exact hx.resolve_left (nomatch ·)
  | cons var vars ih =>
    rw [List.map_cons, List.mem_cons, or_assoc] at hx
    apply ih
    rcases hx with hx | hx | hx
    · exact .inr (h.bind _ _ (.inl hx))
    · exact .inl hx
    · exact .inr (h.bind _ _ (.inr hx))

end Lockstep.Follows

namespace Lockstep.InSight

variable {ι : Type} {L : Lockstep ι} {M : ObjectModel} {sees : ι → String → Prop}
  {E : EvalError → Prop} {i : ι} {e child : Expr}

theorem unscoped (he : InSight sees i e)
    (hchild : ([], child) ∈ e.scopedChildren LoopKind.binders) : InSight sees i child :=
  fun x hx => he x (.inside hchild List.not_mem_nil hx)

/-- A child is in sight once the names around it are bound. -/
theorem inBinder {names : List String} {vals : List Value} (he : InSight sees i e)
    (h : L.Follows M sees E) (hchild : (names, child) ∈ e.scopedChildren LoopKind.binders)
    (hlength : vals.length = names.length) :
    InSight sees (L.bindAll i (names.zip vals)) child := by
  intro x hx
  apply h.bindAll
  rw [List.map_fst_zip hlength.ge]
  by_cases hbound : x ∈ names
  · exact .inl hbound
  · exact .inr (he x (.inside hchild hbound hx))

end Lockstep.InSight

/-! ### The evaluation of a node -/

theorem ObjectModel.run_var {M : ObjectModel} (fuel : Nat) (eval : Expr → EvalM Value)
    (name : String) (ty : Ty) (ctx : Context) :
    (M.evalNode fuel eval (.var name ty)).run.run ctx = match ctx.lookup name with
      | .ok v => (.ok v, ctx)
      | .error err => (.error (.error err), ctx) := by
  have hget : (getThe Context : EvalM Context).run.run ctx = (.ok ctx, ctx) := rfl
  rw [evalNode, EvalM.run_bind, hget]
  dsimp only
  cases ctx.lookup name <;> rfl

namespace Lockstep.Follows

open ObjectModel

variable {ι : Type} {L : Lockstep ι} {M : ObjectModel} {sees : ι → String → Prop}
  {E : EvalError → Prop} {i : ι} {eval eval' : Expr → EvalM Value} (h : L.Follows M sees E)

include h

theorem alike_read {v : Value} (property : Property) (hv : L.good v) :
    L.Alike i (M.read v property) (M.read v property) L.good E := by
  unfold ObjectModel.read
  split
  · exact .pure h.values.undefined
  · exact .pure (h.attributeOf _ _)
  · exact .pure (h.linked _ _)
  · next parts name =>
    apply Alike.pure
    cases hpart : parts.lookup name with
    | none => exact h.values.undefined
    | some part => exact h.values.member hv (List.mem_map_of_mem (Parts.mem_of_lookup hpart))
  · exact .fail (h.malformed _)

theorem alike_var (fuel : Nat) {name : String} (hname : sees i name) (ty : Ty) :
    L.Alike i (M.evalNode fuel eval (.var name ty)) (M.evalNode fuel eval' (.var name ty))
      L.good E := by
  intro ctx ctx' hrel
  obtain ⟨heq, hgood, herror⟩ := h.lookup hname hrel
  rw [run_var, run_var, ← heq]
  cases hlookup : ctx.lookup name with
  | ok v => exact ⟨rfl, hgood v hlookup, hrel⟩
  | error err => exact ⟨rfl, herror err hlookup, hrel⟩

variable (heval : ∀ i e, InSight sees i e → L.Alike i (eval e) (eval' e) L.good E)

include heval

theorem alike_callQuery (name : String) {receiver : Value} {args : List Value}
    (hreceiver : L.good receiver) (hargs : ∀ arg ∈ args, L.good arg) :
    L.Alike i (M.callQuery eval name receiver args) (M.callQuery eval' name receiver args)
      L.good E := by
  unfold callQuery
  split
  · exact .pure h.values.undefined
  · next o =>
    split
    · exact (Alike.write _).bind fun _ _ => .pure h.values.undefined
    · next body signature hbody =>
      split
      · exact .fail (h.malformed _)
      · next hlength =>
        refine .inFrame ?_ (heval _ _ fun x hx => h.body hbody (not_not.mp hlength) hx)
        intro var hvar
        rcases List.mem_cons.mp hvar with rfl | hvar
        · exact hreceiver
        · exact hargs _ (List.of_mem_zip hvar).2
  · exact .fail (h.malformed _)

theorem alike_callStandard {name : String} {op : Operation} {source : Expr} {args : List Expr}
    {ty : Ty} (he : InSight sees i (.call name (.standard op) source args ty)) :
    L.Alike i (callStandard eval name op source args ty)
      (callStandard eval' name op source args ty) L.good E := by
  have hsource : L.Alike i (eval source) (eval' source) L.good E :=
    heval i source (he.unscoped List.mem_cons_self)
  have hargs : ∀ arg ∈ args, L.Alike i (eval arg) (eval' arg) L.good E := fun arg harg =>
    heval i arg (he.unscoped (List.mem_cons_of_mem _ (List.mem_map_of_mem harg)))
  unfold callStandard
  split
  · refine hsource.bind ?_
    intro left hleft
    split
    · exact .pure (h.values.plain rfl)
    · split
      · exact .fail (h.malformed _)
      · next arg rest =>
        refine (hargs arg List.mem_cons_self).bind ?_
        intro right hright
        exact .pure (h.values.apply op hleft (List.forall_mem_singleton.mpr hright) ty)
  · refine hsource.bind ?_
    intro receiver hreceiver
    refine (alike_evalAll hargs).bind ?_
    intro vals hvals
    exact .pure (h.values.apply op hreceiver (forall_of_forall₂ hvals) ty)

theorem alike_loopNode {kind : LoopKind} {source body : Expr} {iterators : List String}
    {accumulator : Option (Accumulator Expr)} {ty : Ty}
    (he : InSight sees i (.loop kind source iterators accumulator body ty)) (fuel : Nat)
    (sourceKind : Kind) {elems : List Value} (helems : ∀ x ∈ elems, L.good x) :
    L.Alike i (loop fuel eval kind sourceKind ty.elemOrAny elems iterators accumulator body)
      (loop fuel eval' kind sourceKind ty.elemOrAny elems iterators accumulator body)
      L.good E := by
  have hbody : ∀ vals : List Value,
      vals.length = (LoopKind.binders kind iterators accumulator).length →
      L.Alike (L.bindAll i ((LoopKind.binders kind iterators accumulator).zip vals)) (eval body)
        (eval' body) L.good E := fun vals hlength =>
    heval _ body (he.inBinder h (List.mem_append_right _ List.mem_cons_self) hlength)
  by_cases hkind : kind = .iterate
  · subst hkind
    rcases accumulator with _ | accumulator
    · exact .fail (h.malformed _)
    rcases iterators with _ | ⟨iterator, rest⟩
    · exact .fail (h.malformed _)
    have hinit : L.Alike i (eval accumulator.init) (eval' accumulator.init) L.good E :=
      heval i _ (he.unscoped (List.mem_cons_of_mem _ List.mem_cons_self))
    exact alike_iterate (fun _ hacc => hacc) helems hinit fun x _ acc _ => hbody [x, acc] rfl
  · rw [LoopKind.binders_of_ne hkind] at hbody
    have hloop := alike_loop (P := L.good) (R := L.good) fuel sourceKind ty.elemOrAny accumulator
      hkind (fun _ => h.malformed _) (fun _ hx => hx) helems
      (fun vals hlength _ => hbody vals hlength) fun _ _ hr => h.values.stepTargets hr
    exact hloop.mono fun v hv => h.values.loopResult hv

theorem alike_evalNode (fuel : Nat) {e : Expr} (he : InSight sees i e) :
    L.Alike i (M.evalNode fuel eval e) (M.evalNode fuel eval' e) L.good E := by
  have hchild : ∀ child, ([], child) ∈ e.scopedChildren LoopKind.binders →
      L.Alike i (eval child) (eval' child) L.good E :=
    fun child hmem => heval i child (he.unscoped hmem)
  cases e with
  | literal lit ty => exact .pure (h.values.plain lit.isPlain_value)
  | var name ty => exact h.alike_var fuel (he name (.here ty)) ty
  | navigate source property shorthand ty =>
    have hsource := hchild source List.mem_cons_self
    cases shorthand with
    | false => exact hsource.bind fun v hv => h.alike_read property hv
    | true =>
      refine hsource.bind ?_
      rintro v hv
      split
      · next kind elem elems =>
        refine (Lockstep.alike_forEach fun x hx =>
          h.alike_read property (h.values.member hv hx)).bind ?_
        rintro vs hvs
        have hspread := h.values.flatMap_spread (forall_of_forall₂ hvs)
        exact .pure (h.values.collectionOf _ _ hspread)
      · exact .pure h.values.undefined
  | call name callee source args ty =>
    cases callee with
    | standard op => exact h.alike_callStandard heval he
    | query =>
      refine (hchild source List.mem_cons_self).bind ?_
      rintro receiver hreceiver
      refine (alike_evalAll fun arg harg =>
        hchild arg (List.mem_cons_of_mem _ (List.mem_map_of_mem harg))).bind ?_
      rintro vals hvals
      exact h.alike_callQuery heval name hreceiver (forall_of_forall₂ hvals)
  | ifThenElse condition onTrue onFalse ty =>
    refine (hchild condition List.mem_cons_self).bind ?_
    rintro v -
    split
    · exact hchild onTrue (List.mem_cons_of_mem _ List.mem_cons_self)
    · exact hchild onFalse (by simp [Expr.scopedChildren, Expr.children])
    · exact .pure h.values.undefined
  | letIn name value body ty =>
    refine (hchild value List.mem_cons_self).bind ?_
    rintro v hv
    have hbody : ([name], body) ∈
        (Expr.letIn name value body ty).scopedChildren LoopKind.binders :=
      List.mem_cons_of_mem _ List.mem_cons_self
    have hsight : InSight sees (L.bindAll i ([name].zip [v])) body := he.inBinder h hbody rfl
    exact .withBinding hv (heval _ body hsight)
  | loop kind source iterators accumulator body ty =>
    refine (hchild source List.mem_cons_self).bind ?_
    rintro v hv
    split
    · exact h.alike_loopNode heval he fuel _ fun x hx => h.values.member hv hx
    · exact .pure h.values.undefined
  | allInstances cls ty =>
    refine .pure (h.values.collectionOf _ _ ?_)
    rintro x hx
    obtain ⟨o, -, rfl⟩ := List.mem_map.mp hx
    exact h.values.plain rfl
  | typeTest test source target ty =>
    refine (hchild source List.mem_cons_self).bind ?_
    rintro v hv
    exact .pure (h.values.testType M test hv target)
  | collection kind parts ty =>
    have hparts : ∀ part ∈ parts, ∀ child ∈ part.children,
        L.Alike i (eval child) (eval' child) L.good E := fun part hpart child hmem =>
      hchild child (List.mem_map_of_mem (List.mem_flatMap.mpr ⟨part, hpart, hmem⟩))
    refine (alike_partElements (fun e hmem => hparts _ hmem e List.mem_cons_self)
      fun first last hmem => ⟨(hparts _ hmem first List.mem_cons_self).mono fun _ _ => trivial,
        (hparts _ hmem last (List.mem_cons_of_mem _ List.mem_cons_self)).mono fun _ _ => trivial,
        fun n => h.values.plain (Value.isPlain_ofInt n)⟩).bind ?_
    rintro elems helems
    split
    · next xs => exact .pure (h.values.collectionOf _ _ (helems xs rfl))
    · exact .pure h.values.undefined
  | tuple parts ty =>
    refine (alike_evalParts (R := fun _ => L.good) fun part hpart =>
      hchild part.2 (List.mem_map_of_mem (List.mem_map_of_mem hpart))).bind ?_
    rintro vals hvals
    refine .pure (h.values.tupleOf ?_)
    rintro part hpart
    exact forall_of_forall₂ (hvals.imp fun _ _ hpair => hpair.2) part hpart

end Lockstep.Follows

/-! ### Any tree -/

/-- A computation with a test of the context before it and of its value after it. It is given up
with `alarm` where a test fails. -/
def EvalM.guarded (before : Context → Bool) (after : Value → Bool) (alarm : Stop)
    (act : EvalM Value) : EvalM Value :=
  ExceptT.mk fun ctx =>
    if before ctx then
      match act.run.run ctx with
      | (.ok v, inner) => (if after v then .ok v else .error alarm, inner)
      | (.error stop, inner) => (.error stop, inner)
    else (.error alarm, ctx)

/-- The value of a tree, with a test before the evaluation of each node, of the node and its
context, and a test of the value of each node after it. -/
def ObjectModel.watched (M : ObjectModel) (before : Expr → Context → Bool) (after : Value → Bool)
    (alarm : Stop) : (fuel : Nat) → Expr → EvalM Value
  | 0, _ => throw .outOfFuel
  | fuel + 1, e =>
    EvalM.guarded (before e) after alarm
      (EvalM.observed e (M.evalNode fuel (M.watched before after alarm fuel) e))

namespace Lockstep

variable {ι : Type} {L : Lockstep ι} {M : ObjectModel} {sees : ι → String → Prop}
  {E : EvalError → Prop} {i : ι} {e : Expr} {before : Expr → Context → Bool}
  {after : Value → Bool}

/-- A computation stands beside its guarded form if the tests pass. -/
theorem Alike.guarded {act act' : EvalM Value} {Q : Value → Prop} {before : Context → Bool}
    (h : L.Alike i act act' Q E) (alarm : Stop)
    (hbefore : ∀ ctx ctx', L.rel i ctx ctx' → before ctx') (hafter : ∀ v, Q v → after v) :
    L.Alike i act (EvalM.guarded before after alarm act') Q E := by
  intro ctx ctx' hrel
  have hacts := h ctx ctx' hrel
  have hrun : (EvalM.guarded before after alarm act').run.run ctx' = act'.run.run ctx' := by
    obtain ⟨heq, hmeets, -⟩ := hacts
    rw [heq] at hmeets
    show (if before ctx' then _ else _) = _
    rw [if_pos (hbefore ctx ctx' hrel)]
    revert hmeets
    rcases act'.run.run ctx' with ⟨stop | v, inner⟩
    · exact fun _ => rfl
    · intro hv
      dsimp only
      rw [if_pos (hafter v hv)]
  rw [hrun]
  exact hacts

/-- A tree whose free variables are in sight is evaluated in lockstep. -/
theorem Follows.alike_eval (h : L.Follows M sees E) (fuel : Nat) (he : InSight sees i e) :
    L.Alike i (M.eval fuel e) (M.eval fuel e) L.good E := by
  induction fuel generalizing i e with
  | zero => exact .outOfFuel
  | succ fuel ih =>
    have henter : InSight sees (L.enter i e) e := fun x hx => h.enter e (he x hx)
    exact .observed e (h.alike_evalNode (fun _ _ => ih) fuel henter) fun _ hv => hv

/-- Tests that hold of every tree in sight, and of every good value, are passed all along. -/
theorem Follows.alike_watched (h : L.Follows M sees E) (alarm : Stop)
    (hbefore : ∀ i e ctx ctx', InSight sees i e → L.rel i ctx ctx' → before e ctx')
    (hafter : ∀ v, L.good v → after v) (fuel : Nat) (he : InSight sees i e) :
    L.Alike i (M.eval fuel e) (M.watched before after alarm fuel e) L.good E := by
  induction fuel generalizing i e with
  | zero => exact .outOfFuel
  | succ fuel ih =>
    have henter : InSight sees (L.enter i e) e := fun x hx => h.enter e (he x hx)
    have hnode := h.alike_evalNode (fun _ _ => ih) fuel henter
    exact (Alike.observed e hnode fun _ hv => hv).guarded alarm
      (fun ctx ctx' => hbefore i e ctx ctx' he) hafter

end Lockstep

/-- A run has the outcome of the evaluation in its middle. -/
theorem ObjectModel.outcome_run {M : ObjectModel} {fuel : Nat} (e : Expr)
    (bindings : List (String × Value)) (ctx : Context) :
    (M.run fuel e bindings ctx).outcome =
      ((M.eval fuel e).run.run ((ctx.bindAll bindings).write (.evaluating e))).1 := by
  unfold run
  dsimp only
  generalize (ctx.bindAll bindings).write (.evaluating e) = start
  rcases (M.eval fuel e).run.run start with ⟨stop | v, final⟩
  · cases stop <;> rfl
  · rfl

end ObjectConstraint
