import ObjectConstraint.Proofs.SnapshotSoundness
import ObjectConstraint.Proofs.Walk

/-!
# Variables of built trees are bound

The scopes that a tree is built in and the bindings that it is evaluated with are kept apart, by two
recursions of their own. They fit each other: each variable that construction has found in scope is
bound when evaluation comes to it, whatever value it has.

* `Built.isSome_of_free` — the free variables of a built tree are in its scope.
* `ObjectModel.run_never_unbound` — evaluation finds each of them bound.
-/

namespace ObjectConstraint

theorem Scope.isSome_lookup_bindAll {scope : Scope} {vars : List (String × Ty)} {x : String} :
    ((scope.bindAll vars).lookup x).isSome ↔
      x ∈ vars.map Prod.fst ∨ (scope.lookup x).isSome := by
  induction vars generalizing scope with
  | nil => simp [bindAll]
  | cons var vars ih =>
    refine ih.trans ?_
    rw [lookup_bind]
    by_cases hx : x = var.1 <;> simp [hx]

/-! ### Free variables of built trees -/

theorem Scope.mem_or_isSome_lookup {scope : Scope} {vars : List (String × Ty)} {x : String}
    (h : ((scope.opened.bindAll vars).lookup x).isSome) :
    x ∈ vars.map Prod.fst ∨ (scope.lookup x).isSome := by
  rwa [isSome_lookup_bindAll, lookup_opened] at h

/-- A variable that is free in a built tree is in the scope it is built in. -/
theorem Built.isSome_of_free {S : Schema} {scope : Scope} {e : Expr} (hbuilt : Built S scope e)
    {x : String} (hx : e.Free LoopKind.binders x) : (scope.lookup x).isSome := by
  induction hbuilt with
  | const lit => exact absurd hx (Expr.not_free_literal lit _)
  | undefinedOf ty => exact absurd hx (Expr.not_free_literal _ ty)
  | «variable» h =>
    obtain ⟨ty, hname, rfl⟩ := variableRef_eq_ok h
    obtain rfl := Expr.free_var_iff.mp hx
    exact hname ▸ rfl
  | navigate _ h ih =>
    rcases Schema.navigate_eq_ok h with ⟨_, _, _, -, -, rfl⟩ | ⟨_, _, -, -, rfl⟩ |
      ⟨_, _, _, _, -, -, rfl⟩
    all_goals exact hx.elim_children rfl (fun _ h => nomatch h) (List.forall_mem_singleton.mpr ih)
  | call _ _ h ihsource ihargs =>
    rcases Schema.call_eq_ok h with ⟨_, _, -, -, -, rfl⟩ | ⟨_, _, -, rfl⟩
    all_goals
      exact hx.elim_children rfl (fun _ h => nomatch h)
        (List.forall_mem_cons.mpr ⟨ihsource, ihargs⟩)
  | ifThenElse _ _ _ h ihcondition ihtrue ihfalse =>
    obtain ⟨-, rfl⟩ := Schema.ifThenElse_eq_ok h
    exact hx.elim_children rfl (fun _ h => nomatch h) (List.forall_mem_cons.mpr ⟨ihcondition,
      List.forall_mem_cons.mpr ⟨ihtrue, List.forall_mem_singleton.mpr ihfalse⟩⟩)
  | letIn _ _ h ihvalue ihbody =>
    obtain ⟨-, body, inner, hconstruct, rfl⟩ := Schema.letIn_eq_ok h
    refine hx.elim (fun _ h => nomatch h) ?_
    refine List.forall_mem_cons.mpr ⟨fun h => .inr (ihvalue h), List.forall_mem_singleton.mpr ?_⟩
    exact fun h => Scope.mem_or_isSome_lookup (ihbody body inner hconstruct h)
  | loop _ _ h ihsource ihbody =>
    obtain ⟨haccepts, k, elem, body, inner, ty, hty, hconstruct, -, rfl⟩ := Schema.loop_eq_ok h
    rw [hty] at ihbody
    refine hx.elim (fun _ h => nomatch h) ?_
    refine List.forall_mem_cons.mpr ⟨fun h => .inr (ihsource h), List.forall_mem_singleton.mpr ?_⟩
    intro h
    have hscope := Scope.mem_or_isSome_lookup (ihbody body inner hconstruct h)
    rw [LoopKind.binders_none, ObjectModel.bound_of_acceptsIterators haccepts]
    simpa using hscope
  | iterate _ _ _ h ihsource ihinit ihbody =>
    obtain ⟨k, elem, body, inner, hty, -, hconstruct, -, rfl⟩ := Schema.iterate_eq_ok h
    rw [hty] at ihbody
    refine hx.elim (fun _ h => nomatch h) ?_
    refine List.forall_mem_cons.mpr ⟨fun h => .inr (ihsource h), List.forall_mem_cons.mpr
      ⟨fun h => .inr (ihinit h), List.forall_mem_singleton.mpr ?_⟩⟩
    exact fun h => Scope.mem_or_isSome_lookup (ihbody body inner hconstruct h)
  | allInstances h =>
    obtain ⟨cls, rfl⟩ := Schema.allInstances_eq_ok h
    exact hx.elim_children rfl (fun _ h => nomatch h) (fun _ h => nomatch h)
  | typeTest _ h ih =>
    obtain ⟨target, rfl⟩ := Schema.typeTest_eq_ok h
    exact hx.elim_children rfl (fun _ h => nomatch h) (List.forall_mem_singleton.mpr ih)
  | collection _ h ih =>
    obtain ⟨types, elem, -, -, rfl⟩ := Schema.collection_eq_ok h
    refine hx.elim_children rfl (fun _ h => nomatch h) ?_
    intro child hchild
    obtain ⟨part, hpart, hchild⟩ := List.mem_flatMap.mp hchild
    exact ih part hpart child hchild
  | tuple _ h ih =>
    obtain rfl := Expr.tupleOf_eq_ok h
    refine hx.elim_children rfl (fun _ h => nomatch h) ?_
    intro child hchild
    obtain ⟨part, hpart, rfl⟩ := List.mem_map.mp hchild
    exact ih part hpart

/-! ### Bound variables -/

/-- The bodies of the query operations are built, in the rules of some schema, from the receiver and
the parameters alone. -/
def ObjectModel.BodiesScoped (M : ObjectModel) : Prop :=
  ∀ {cls name : String} {body : Expr} {signature : Signature}, M.body cls name = some body →
    M.operation cls name = some signature →
      ∃ (S : Schema) (vars : List (String × Ty)),
        vars.map Prod.fst = "self" :: signature.params.map Prod.fst ∧
          Built S (Scope.empty.bindAll vars) body

theorem Snapshot.Consistent.bodiesScoped {s : Snapshot} {casts : Prop} (hs : s.Consistent casts) :
    s.toModel.BodiesScoped :=
  fun hbody hsignature => ⟨s.schema, _, rfl, (hs.bodies hbody hsignature).1⟩

/-- A variable has a value in the newest frame. -/
def Stack.Binds (s : Stack) (x : String) : Prop := x ∈ s.visible.map Prod.fst

theorem Context.exists_lookup {ctx : Context} {x : String} (h : ctx.stack.Binds x) :
    ∃ v, ctx.lookup x = .ok v := by
  obtain ⟨var, hvar, rfl⟩ := List.mem_map.mp h
  have hfound : (ctx.visible.lookup var.1).isSome :=
    List.lookup_isSome_iff.mpr ⟨var, hvar, beq_self_eq_true _⟩
  obtain ⟨v, hv⟩ := Option.isSome_iff_exists.mp hfound
  exact ⟨v, by rw [lookup, hv]⟩

/-- A node is no variable, or one that has a value in the context. -/
def Expr.isResolvedIn : Expr → Context → Bool
  | var name _, ctx => (ctx.lookup name).isOk
  | _, _ => true

namespace ObjectModel

open Lockstep (alone)

variable {M : ObjectModel}

theorem alone_follows_binds (hM : M.BodiesScoped) :
    alone.Follows M Stack.Binds (fun err => ∀ name, err ≠ .unbound name) where
  values := Value.invariant_true
  attributeOf _ _ := trivial
  linked _ _ := trivial
  malformed _ _ h := nomatch h
  lookup := by
    rintro s x ctx _ hx ⟨rfl, rfl⟩
    obtain ⟨v, hv⟩ := Context.exists_lookup hx
    refine ⟨rfl, fun _ _ => trivial, ?_⟩
    rw [hv]
    exact fun _ h => nomatch h
  enter _ hx := hx
  bind _ _ hx := List.mem_cons.mpr hx
  body {s x o name body signature args} hbody hlength hx := by
    obtain ⟨cls, -, hdeclared, hsignature⟩ := exists_of_definition hbody
    obtain ⟨S, vars, hvars, hbuilt⟩ := hM hdeclared hsignature
    have hscope := Scope.isSome_lookup_bindAll.mp (hbuilt.isSome_of_free hx)
    rw [hvars] at hscope
    show x ∈ ((s.framed.bindAll _).visible).map Prod.fst
    have hnames : ((signature.params.map Prod.fst).zip args).map Prod.fst =
        signature.params.map Prod.fst := List.map_fst_zip (by simp [hlength])
    rw [Stack.visible_bindAll, List.map_append, List.map_reverse, List.map_cons, hnames]
    exact List.mem_append_left _ (List.mem_reverse.mpr (hscope.resolve_right (nomatch ·)))

/-- A built tree is evaluated without coming upon a variable that is not bound, at any depth, if the
bindings have a value for each variable of its scope. -/
theorem run_never_unbound (hM : M.BodiesScoped) {S : Schema} {scope : Scope} {e : Expr}
    (hbuilt : Built S scope e) {bindings : List (String × Value)}
    (hbindings : ∀ x, (scope.lookup x).isSome → ∃ v, (x, v) ∈ bindings) (fuel : Nat)
    (ctx : Context) :
    (∀ name, (M.run fuel e bindings ctx).outcome ≠ .error (.error (.unbound name))) ∧
      ∀ alarm, (M.watched Expr.isResolvedIn (fun _ => true) alarm fuel e).run.run
          ((ctx.bindAll bindings).write (.evaluating e)) =
        (M.eval fuel e).run.run ((ctx.bindAll bindings).write (.evaluating e)) := by
  have hsight : Lockstep.InSight Stack.Binds (ctx.stack.bindAll bindings) e := by
    intro x hx
    obtain ⟨v, hv⟩ := hbindings x (hbuilt.isSome_of_free hx)
    rw [Stack.Binds, Stack.visible_bindAll, List.map_append]
    exact List.mem_append_left _ (List.mem_map_of_mem (List.mem_reverse.mpr hv))
  have hstack : ((ctx.bindAll bindings).write (.evaluating e)).stack =
      ctx.stack.bindAll bindings := ctx.stack_bindAll bindings
  constructor
  · intro name hname
    obtain ⟨-, hmeets, -⟩ := (alone_follows_binds hM).alike_eval fuel hsight _ _ ⟨rfl, hstack⟩
    rw [← outcome_run, hname] at hmeets
    exact hmeets name rfl
  · intro alarm
    have hresolved : ∀ s e ctx ctx', Lockstep.InSight Stack.Binds s e → alone.rel s ctx ctx' →
        e.isResolvedIn ctx' := by
      rintro s e ctx _ hsees ⟨rfl, rfl⟩
      cases e with
      | var name ty =>
        obtain ⟨v, hv⟩ := Context.exists_lookup (hsees name (.here ty))
        rw [Expr.isResolvedIn, hv]
        rfl
      | _ => rfl
    have halike := (alone_follows_binds hM).alike_watched alarm hresolved (fun _ _ => rfl) fuel
      hsight
    obtain ⟨houtcome, -, hcontext, -⟩ := halike _ _ ⟨rfl, hstack⟩
    exact (Prod.ext houtcome hcontext).symm

/-- Two iterators of one name hide a free variable of that name. -/
theorem run_never_unbound_repeated :
    let b := Expr.var "b" .boolean
    let source := Expr.collection .sequence [.item b] (.collection .sequence .boolean)
    let e := Expr.loop .forAll source ["b", "b"] none b .boolean
    let outcome := (Snapshot.census.toModel.run 4 e [("b", .boolean true)] Context.empty).outcome
    outcome = .ok (.boolean true) ∧ ∀ name, outcome ≠ .error (.error (.unbound name)) := by
  intro b source e outcome
  have hcollection : Snapshot.census.schema.collection .sequence [.item b] none = .ok source := rfl
  have hloop : Build.outcome (Snapshot.census.schema.loop .forAll source ["b", "b"] (pure b))
      (Scope.empty.bind "b" .boolean) = (.ok e, Scope.empty.bind "b" .boolean) := rfl
  have hbuilt : Built Snapshot.census.schema (Scope.empty.bind "b" .boolean) e := by
    refine .loop (.collection ?_ hcollection) ?_ hloop
    · rintro part hpart child hchild
      obtain rfl := List.mem_singleton.mp hpart
      obtain rfl := List.mem_singleton.mp hchild
      exact Snapshot.built_var rfl
    · rintro body inner hconstruct
      obtain ⟨rfl, -⟩ := Build.pure_eq_ok hconstruct
      exact Snapshot.built_var rfl
  have hcensus : Snapshot.census.Consistent True := Snapshot.consistent_census
  have hbindings : ∀ x, ((Scope.empty.bind "b" .boolean).lookup x).isSome →
      ∃ v, (x, v) ∈ [("b", Value.boolean true)] := by
    rintro x hx
    obtain ⟨t, ht⟩ := Option.isSome_iff_exists.mp hx
    obtain ⟨rfl, -⟩ := Snapshot.eq_of_lookup_singleton ht
    exact ⟨_, List.mem_cons_self⟩
  exact ⟨rfl,
    (run_never_unbound hcensus.bodiesScoped hbuilt hbindings 4 Context.empty).1⟩

end ObjectModel

end ObjectConstraint
