import ObjectConstraint.Proofs.Built
import ObjectConstraint.Proofs.Dispatch
import ObjectConstraint.Proofs.Typings

/-!
# Evaluation keeps to a typing

A built tree evaluates without an error, and to a value that a typing admits for its type, wherever
its variables have such values of their types and the model answers with such values.

* `Typing.Follows` — what is asked of the nodes, `ObjectModel.Answers` of the model.
* `ObjectModel.Keeps` — a way to evaluate trees of which the above is true.
* `ObjectModel.keeps_evalNode` — one node, given such a way to evaluate trees; by the constructor
  that made it.
* `ObjectModel.keeps_eval` — the evaluation with any fuel; `ObjectModel.run_delivers`,
  `ObjectModel.evaluate_delivers` — a run.
-/

namespace ObjectConstraint

/-- A node that a typing can follow: it is steady and of a type that the typing admits. -/
def Typing.Follows {H : Hierarchy} (T : Typing H) (e : Expr) : Prop :=
  e.Steady T.casts ∧ T.admits e.ty

namespace ObjectModel

open EvalM (Ensures)

variable {M : ObjectModel}

/-- A model in which what is declared on a class holds of the objects of the class and of its
subclasses: attributes and association ends have values fit for their types, the operations have
one signature, and their bodies are built from the receiver and the parameters alone, at a type that
conforms to the result's. -/
structure Answers (M : ObjectModel) (T : Typing M.toHierarchy) : Prop where
  attributes {o : ObjectRef} {cls name : String} {t : Ty} (ho : T.known o)
    (hcls : M.conformsTo o.cls cls) (ht : M.attributeType cls name = some t) :
    T.rel (M.attributeOf o name) t
  links {o : ObjectRef} {cls role : String} {e : AssociationEnd} (ho : T.known o)
    (hcls : M.conformsTo o.cls cls) (he : M.associationEnd cls role = some e) :
    T.rel (M.linked o role) e.ty
  instances {o : ObjectRef} {cls : String} (ho : o ∈ M.instances cls) :
    T.known o ∧ M.conformsTo o.cls cls
  operations {sub sup name : String} {signature : Signature} (hcls : M.conformsTo sub sup)
    (h : M.operation sup name = some signature) : M.operation sub name = some signature
  bodies {cls name : String} {body : Expr} {signature : Signature} (h : M.body cls name = some body)
    (hsignature : M.operation cls name = some signature) :
    Built M.toSchema (Scope.empty.bindAll (("self", .object cls) :: signature.params)) body ∧
      body.Everywhere T.Follows ∧ M.conforms body.ty signature.result

/-- A computation ends without an error, and with a value fit for a type if with a value. -/
abbrev Delivers (M : ObjectModel) (T : Typing M.toHierarchy) (s : Stack) (act : EvalM Value)
    (t : Ty) : Prop :=
  Ensures s act (T.rel · t) fun _ => False

/-- A way to evaluate trees gives every built tree that the typing can follow a value fit for its
type, or none but without an error, where the bindings provide for the scope of the tree. -/
def Keeps (M : ObjectModel) (T : Typing M.toHierarchy) (eval : Expr → EvalM Value) : Prop :=
  ∀ {s : Stack} {scope : Scope} {e : Expr}, Built M.toSchema scope e → e.Everywhere T.Follows →
    s.Provides T.rel scope → M.Delivers T s (eval e) e.ty

variable {T : Typing M.toHierarchy} {s : Stack} {scope : Scope} {eval : Expr → EvalM Value}
  {fuel : Nat}

/-! ### Properties and calls -/

theorem delivers_read {v : Value} {cls name : String} {property : Property} {ty : Ty}
    (hM : M.Answers T) (hv : T.rel v (.object cls))
    (h : M.resolveProperty cls name = .ok (property, ty)) :
    M.Delivers T s (M.read v property) ty := by
  have hbelongs := T.belongs hv
  cases hbelongs with
  | undefined => exact .pure (T.undefined ty)
  | object o hcls =>
    have ho := T.known_object hv
    rcases Schema.resolveProperty_eq_ok h with ⟨ht, rfl⟩ | ⟨e, he, rfl, rfl⟩
    · exact .pure (hM.attributes ho hcls ht)
    · exact .pure (hM.links ho hcls he)

theorem delivers_readPart {v : Value} {parts : List (String × Ty)} {name : String} {ty : Ty}
    (hv : T.rel v (.tuple parts)) (h : parts.lookup name = some ty) :
    M.Delivers T s (M.read v (.tuplePart name)) ty := by
  have hbelongs := T.belongs hv
  cases hbelongs with
  | undefined => exact .pure (T.undefined ty)
  | @tuple ps =>
    refine .pure ?_
    cases hpart : ps.lookup name with
    | none => exact T.undefined ty
    | some x => exact T.part hv (Parts.mem_of_lookup hpart) h

/-- The body that an object runs is declared on a class that its own class conforms to. -/
theorem exists_of_definition {cls name : String} {body : Expr} {signature : Signature}
    (h : M.definition cls name = some (body, signature)) :
    ∃ c, M.conformsTo cls c ∧ M.body c name = some body ∧ M.operation c name = some signature := by
  rw [definition_eq_bind] at h
  obtain ⟨c, hc, hoffered⟩ := Option.bind_eq_some_iff.mp h
  exact ⟨c, (definer_eq_some_iff.mp hc).2.1, offered_eq_some_iff.mp hoffered⟩

theorem delivers_callQuery {name cls : String} {receiver : Value} {args : List Value}
    {signature : Signature} (hM : M.Answers T) (heval : M.Keeps T eval)
    (hreceiver : T.rel receiver (.object cls)) (hsignature : M.operation cls name = some signature)
    (hargs : List.Forall₂ (fun (param : String × Ty) v => T.rel v param.2) signature.params args) :
    M.Delivers T s (M.callQuery eval name receiver args) signature.result := by
  have hbelongs := T.belongs hreceiver
  cases hbelongs with
  | undefined => exact .pure (T.undefined _)
  | object o hcls =>
    rw [callQuery]
    cases hdefinition : M.definition o.cls name with
    | none => exact (Ensures.write _).bind fun _ _ => .pure (T.undefined _)
    | some definition =>
      obtain ⟨body, declared⟩ := definition
      obtain ⟨c, hc, hbody, hdeclared⟩ := exists_of_definition hdefinition
      -- The class of the object sees the signature of both classes, so they are the same.
      obtain rfl : declared = signature :=
        Option.some.inj ((hM.operations hc hdeclared).symm.trans (hM.operations hcls hsignature))
      obtain ⟨hbuilt, hfollows, hresult⟩ := hM.bodies hbody hdeclared
      have hself : T.rel (.object o) (.object c) := T.object (T.known_object hreceiver) hc
      have hvars : (s.framed.bindAll
          (("self", .object o) :: (declared.params.map Prod.fst).zip args)).Provides T.rel
            (Scope.empty.bindAll (("self", .object c) :: declared.params)) :=
        Stack.Provides.empty.bindAll (.cons ⟨rfl, hself⟩ (Stack.paired_zip hargs))
      dsimp only
      rw [if_neg (not_not.mpr hargs.length_eq)]
      exact .inFrame ((heval hbuilt hfollows hvars).mono fun v hv => T.conforms hv hresult)

theorem delivers_callStandard {name : String} {op : Operation} {source : Expr} {args : List Expr}
    {ty : Ty} (hsource : M.Delivers T s (eval source) source.ty)
    (hargs : ∀ arg ∈ args, M.Delivers T s (eval arg) arg.ty)
    (hadmits : T.admits source.ty) (hadmitsArgs : ∀ arg ∈ args, T.admits arg.ty)
    (h : M.resolve source.ty name (args.map Expr.ty) = .ok (ty, op))
    (hop : op ≠ .symmetricDifference) :
    M.Delivers T s (callStandard eval name op source args ty) ty := by
  have hsig := Hierarchy.hasSignature_of_resolve h
  have hargTypes : ∀ a ∈ args.map Expr.ty, T.admits a := List.forall_mem_map.mpr hadmitsArgs
  have htable := T.admits_table hadmits name hargTypes
  unfold callStandard
  split
  · next hconnective =>
    obtain ⟨hlength, rfl⟩ := Hierarchy.eq_of_isConnective hsig hconnective
    obtain ⟨arg, rfl⟩ := List.length_eq_one_iff.mp ((List.length_map ..).symm.trans hlength)
    refine hsource.bind ?_
    intro left hleft
    split
    · exact .pure (T.scalar rfl (.boolean _))
    · refine (hargs arg List.mem_cons_self).bind fun right hright => .pure ?_
      exact T.apply hsig (T.rel_table hleft _ _) (.cons hright .nil) htable hargTypes hop
  · refine hsource.bind ?_
    intro receiver hreceiver
    refine (ensures_evalAll hargs).bind fun vals hvals => .pure ?_
    have hfit : List.Forall₂ T.rel vals (args.map Expr.ty) :=
      List.forall₂_map_right_iff.mpr hvals.flip
    exact T.apply hsig (T.rel_table hreceiver _ _) hfit htable hargTypes hop

/-! ### The forms of node -/

theorem delivers_var {name : String} {ty : Ty} (hs : s.Provides T.rel scope)
    (hname : scope.lookup name = some ty) :
    M.Delivers T s (M.evalNode fuel eval (.var name ty)) ty := by
  obtain ⟨v, hlookup, hv⟩ := hs name ty hname
  have hcontext : ∀ ctx : Context, ctx.stack = s → ctx.lookup name = .ok v := by
    intro ctx hctx
    rw [Context.lookup, ← Context.visible_stack, hctx, hlookup]
  refine (Ensures.getContext hcontext).bind ?_
  intro ctx hctx
  rw [hctx]
  exact .pure hv

theorem delivers_navigate {source e : Expr} {name : String} (hM : M.Answers T)
    (hsource : M.Delivers T s (eval source) source.ty) (h : M.navigate source name = .ok e) :
    M.Delivers T s (M.evalNode fuel eval e) e.ty := by
  rcases Schema.navigate_eq_ok h with ⟨cls, property, ty, hty, hproperty, rfl⟩ |
    ⟨parts, ty, hty, hpart, rfl⟩ | ⟨kind, cls, property, ty, hty, hproperty, rfl⟩
  · rw [hty] at hsource
    exact hsource.bind fun v hv => delivers_read hM hv hproperty
  · rw [hty] at hsource
    exact hsource.bind fun v hv => delivers_readPart hv hpart
  · rw [hty] at hsource
    refine hsource.bind ?_
    intro v hv
    have hbelongs := T.belongs hv
    cases hbelongs with
    | undefined => exact .pure (T.undefined _)
    | @collection k _ made _ elems =>
      have hread : ∀ x ∈ elems, M.Delivers T s (M.read x property) ty := fun x hx =>
        delivers_read hM (T.element hv x hx) hproperty
      refine (EvalM.ensures_forEach hread).bind fun values hvalues => .pure ?_
      refine T.collectionOf (.inl ?_) (T.flatMap_spread (forall_of_forall₂ hvalues))
      show (if kind.isOrdered then Kind.sequence else .bag).concrete = _
      split <;> rfl

theorem delivers_call {source e : Expr} {name : String} {args : List Expr} (hM : M.Answers T)
    (heval : M.Keeps T eval) (hsource : M.Delivers T s (eval source) source.ty)
    (hargs : ∀ arg ∈ args, M.Delivers T s (eval arg) arg.ty)
    (hadmits : T.admits source.ty) (hadmitsArgs : ∀ arg ∈ args, T.admits arg.ty)
    (h : M.call source name args = .ok e) (hsteady : e.Steady T.casts) :
    M.Delivers T s (M.evalNode fuel eval e) e.ty := by
  rcases Schema.call_eq_ok h with ⟨cls, signature, hty, hsignature, hconforms, rfl⟩ |
    ⟨ty, op, hresolve, rfl⟩
  · rw [hty] at hsource
    refine hsource.bind ?_
    intro receiver hreceiver
    refine (ensures_evalAll hargs).bind ?_
    intro vals hvals
    refine delivers_callQuery hM heval hreceiver hsignature ?_
    generalize signature.params = params at hconforms
    clear h hargs hadmitsArgs hsteady
    induction hconforms generalizing vals with
    | nil =>
      cases hvals
      exact .nil
    | cons hconf _ ih =>
      obtain ⟨v, rest, hv, hrest, rfl⟩ := List.forall₂_cons_left_iff.mp hvals
      exact .cons (T.conforms hv hconf) (ih rest hrest)
  · refine delivers_callStandard hsource hargs hadmits hadmitsArgs hresolve ?_
    rintro rfl
    exact hsteady rfl

theorem delivers_ifThenElse {condition onTrue onFalse : Expr}
    (hcondition : M.Delivers T s (eval condition) condition.ty)
    (htrue : M.Delivers T s (eval onTrue) onTrue.ty)
    (hfalse : M.Delivers T s (eval onFalse) onFalse.ty)
    (hadmitsTrue : T.admits onTrue.ty) (hadmitsFalse : T.admits onFalse.ty) :
    M.Delivers T s
      (M.evalNode fuel eval (.ifThenElse condition onTrue onFalse (M.join onTrue.ty onFalse.ty)))
      (M.join onTrue.ty onFalse.ty) := by
  refine hcondition.bind ?_
  intro v _
  split
  · exact htrue.mono fun v hv => T.join_left hv hadmitsTrue hadmitsFalse
  · exact hfalse.mono fun v hv => T.join_right hv hadmitsTrue hadmitsFalse
  · exact .pure (T.undefined _)

theorem delivers_loopNode {kind : LoopKind} {source body : Expr} {iterators : List String}
    {k : Kind} {elem ty : Ty} (hsource : M.Delivers T s (eval source) (.collection k elem))
    (hbody : ∀ vals : List Value, vals.length = iterators.length → (∀ x ∈ vals, T.rel x elem) →
      M.Delivers T (s.bindAll (iterators.zip vals)) (eval body) body.ty)
    (haccepts : Schema.acceptsIterators kind iterators.length)
    (htype : M.loopType kind k elem body.ty = .ok ty)
    (hsteady : kind = .sortedBy ∨ kind = .closure → k ≠ .collection) :
    M.Delivers T s (M.evalNode fuel eval (.loop kind source iterators none body ty)) ty := by
  have hsig := Schema.loopSignature_of_loopType htype
  refine hsource.bind ?_
  intro v hv
  have hbelongs := T.belongs hv
  cases hbelongs with
  | undefined => exact .pure (T.undefined ty)
  | @collection l _ made _ elems hkind =>
    have hstrays : ¬ Strays kind k l := by
      rintro ⟨rfl, ⟨rfl, -⟩ | ⟨rfl, -⟩⟩
      · exact hsteady (.inl rfl) rfl
      · exact hsteady (.inr rfl) rfl
    refine (ensures_loop fuel l ty.elemOrAny none ?_ ?_ (T.element hv) ?_ ?_).mono fun v hv =>
      T.loopResult hv hsig hkind hstrays
    · rintro rfl
      cases haccepts
    · rintro rfl
      simp [Schema.acceptsIterators] at haccepts
    · rw [bound_of_acceptsIterators haccepts]
      exact hbody
    · rintro rfl r hr x hx
      exact T.conforms (T.spread hr x (mem_spread_of_mem_stepTargets hx)) (hsig.2 rfl)

theorem delivers_iterateNode {source body : Expr} {iterator : String}
    {accumulator : Accumulator Expr} {k : Kind} {elem : Ty}
    (hsource : M.Delivers T s (eval source) (.collection k elem))
    (hinit : M.Delivers T s (eval accumulator.init) accumulator.ty)
    (hbody : ∀ x acc, T.rel x elem → T.rel acc accumulator.ty →
      M.Delivers T (s.bindAll [(iterator, x), (accumulator.name, acc)]) (eval body)
        accumulator.ty) :
    M.Delivers T s
      (M.evalNode fuel eval
        (.loop .iterate source [iterator] (some accumulator) body accumulator.ty))
      accumulator.ty := by
  refine hsource.bind ?_
  intro v hv
  have hbelongs := T.belongs hv
  cases hbelongs with
  | undefined => exact .pure (T.undefined _)
  | collection =>
    exact ensures_iterate hinit fun x hx acc hacc => hbody x acc (T.element hv x hx) hacc

theorem delivers_collection (kind : Kind) {parts : List (Part Expr)} {types : List Ty} {elem : Ty}
    (hparts : ∀ part ∈ parts, ∀ child ∈ part.children, M.Delivers T s (eval child) child.ty)
    (htypes : M.partTypes parts = .ok types)
    (hcovers : ∀ ty ∈ types, ∀ v, T.rel v ty → T.rel v elem) :
    M.Delivers T s
      (M.evalNode fuel eval (.collection kind.concrete parts (.collection kind.concrete elem)))
      (.collection kind.concrete elem) := by
  obtain ⟨hitems, hranges⟩ := Schema.partTypes_eq_ok htypes
  have helems : Ensures s (partElements eval parts)
      (fun elems => ∀ xs ∈ elems, ∀ x ∈ xs, T.rel x elem) fun _ => False := by
    refine ensures_partElements ?_ ?_
    · intro e he
      exact (hparts _ he e List.mem_cons_self).mono fun v hv => hcovers e.ty (hitems e he) v hv
    · intro first last he
      obtain ⟨-, -, hinteger⟩ := hranges first last he
      refine ⟨(hparts _ he first List.mem_cons_self).mono fun _ _ => trivial,
        (hparts _ he last (List.mem_cons_of_mem _ List.mem_cons_self)).mono fun _ _ => trivial,
        ?_⟩
      exact fun n => hcovers .integer hinteger _ (T.scalar rfl (Value.belongs_ofInt (.inr rfl) n))
  refine helems.bind ?_
  intro elems helems
  cases elems with
  | none => exact .pure (T.undefined _)
  | some xs =>
    refine .pure (T.collectionOf (.inl ?_) (helems xs rfl))
    exact Kind.concrete_of_ne kind.concrete_ne_collection

theorem delivers_tuple {parts : List (String × Expr)}
    (hparts : ∀ part ∈ parts, M.Delivers T s (eval part.2) part.2.ty) :
    M.Delivers T s
      (M.evalNode fuel eval (.tuple parts (.tupleOf (parts.map fun part => (part.1, part.2.ty)))))
      (.tupleOf (parts.map fun part => (part.1, part.2.ty))) := by
  refine (ensures_evalParts (R := fun e v => T.rel v e.ty) hparts).bind
    fun vals hvals => .pure (T.tupleOf ?_)
  exact List.forall₂_map_right_iff.mpr (hvals.flip.imp fun _ _ h => ⟨h.1.symm, h.2⟩)

/-! ### All trees -/

/-- One node keeps to the typing, given a way to evaluate trees that does. -/
theorem keeps_evalNode (hM : M.Answers T) (heval : M.Keeps T eval) :
    M.Keeps T (M.evalNode fuel eval) := by
  intro s scope e hbuilt hfollows hs
  have hadmits : ∀ child ∈ e.children, T.admits child.ty := fun child hchild =>
    (hfollows.inside hchild).here.2
  cases hbuilt with
  | const lit => exact .pure (T.literal lit)
  | undefinedOf ty => exact .pure (T.undefined ty)
  | «variable» h =>
    obtain ⟨ty, hname, rfl⟩ := variableRef_eq_ok h
    exact delivers_var hs hname
  | navigate hsource h =>
    have hchildren := Schema.children_of_navigate h
    refine delivers_navigate hM (heval hsource (hfollows.inside ?_) hs) h
    exact hchildren ▸ List.mem_cons_self
  | call hsource hargs h =>
    have hchildren := Schema.children_of_call h
    rw [hchildren] at hadmits
    obtain ⟨hadmitsSource, hadmitsArgs⟩ := List.forall_mem_cons.mp hadmits
    refine delivers_call hM heval (heval hsource (hfollows.inside ?_) hs)
      (fun arg harg => heval (hargs arg harg) (hfollows.inside ?_) hs) hadmitsSource hadmitsArgs h
      hfollows.here.1
    · exact hchildren ▸ List.mem_cons_self
    · exact hchildren ▸ List.mem_cons_of_mem _ harg
  | @ifThenElse _ condition onTrue onFalse _ hcondition htrue hfalse h =>
    obtain ⟨-, rfl⟩ := Schema.ifThenElse_eq_ok h
    have honTrue : onTrue ∈ [condition, onTrue, onFalse] :=
      List.mem_cons_of_mem _ List.mem_cons_self
    have honFalse : onFalse ∈ [condition, onTrue, onFalse] :=
      List.mem_cons_of_mem _ (List.mem_cons_of_mem _ List.mem_cons_self)
    exact delivers_ifThenElse (heval hcondition (hfollows.inside List.mem_cons_self) hs)
      (heval htrue (hfollows.inside honTrue) hs) (heval hfalse (hfollows.inside honFalse) hs)
      (hadmits _ honTrue) (hadmits _ honFalse)
  | letIn hvalue hbody h =>
    obtain ⟨hconf, body, inner, hconstruct, rfl⟩ := Schema.letIn_eq_ok h
    refine (heval hvalue (hfollows.inside List.mem_cons_self) hs).bind fun v hv => .withBinding ?_
    refine heval (hbody body inner hconstruct) (hfollows.inside ?_) (hs.opened.bind _ ?_)
    · exact List.mem_cons_of_mem _ List.mem_cons_self
    · exact T.conforms hv hconf
  | loop hsource hbody h =>
    obtain ⟨haccepts, k, elem, body, inner, ty, hty, hconstruct, htype, rfl⟩ :=
      Schema.loop_eq_ok h
    rw [hty] at hbody
    have hsourceEval := heval hsource (hfollows.inside List.mem_cons_self) hs
    rw [hty] at hsourceEval
    refine delivers_loopNode hsourceEval ?_ haccepts htype ?_
    · intro vals hlength hvals
      refine heval (hbody body inner hconstruct) (hfollows.inside ?_)
        (hs.opened.bindAll (Stack.paired_iterators hlength hvals))
      exact List.mem_cons_of_mem _ List.mem_cons_self
    · intro hkind hk
      have habstract := hfollows.here.1 hkind
      rw [hty] at habstract
      exact habstract (congrArg some hk)
  | iterate hsource hinit hbody h =>
    obtain ⟨k, elem, body, inner, hty, hinitial, hconstruct, hresult, rfl⟩ :=
      Schema.iterate_eq_ok h
    rw [hty] at hbody
    have hsourceEval := heval hsource (hfollows.inside List.mem_cons_self) hs
    rw [hty] at hsourceEval
    have hinitEval :=
      heval hinit (hfollows.inside (List.mem_cons_of_mem _ List.mem_cons_self)) hs
    refine delivers_iterateNode hsourceEval (hinitEval.mono fun v hv => T.conforms hv hinitial) ?_
    intro x acc hx hacc
    refine (heval (hbody body inner hconstruct) (hfollows.inside ?_)
      (hs.opened.bindAll ?_)).mono fun v hv => T.conforms hv hresult
    · exact List.mem_cons_of_mem _ (List.mem_cons_of_mem _ List.mem_cons_self)
    · exact .cons ⟨rfl, hx⟩ (.cons ⟨rfl, hacc⟩ .nil)
  | allInstances h =>
    obtain ⟨cls, rfl⟩ := Schema.allInstances_eq_ok h
    refine .pure (T.collectionOf (.inl rfl) ?_)
    intro x hx
    obtain ⟨o, ho, rfl⟩ := List.mem_map.mp hx
    exact T.object (hM.instances ho).1 (hM.instances ho).2
  | typeTest hsource h =>
    obtain ⟨target, rfl⟩ := Schema.typeTest_eq_ok h
    refine (heval hsource (hfollows.inside List.mem_cons_self) hs).bind fun v hv => .pure ?_
    exact T.testType hv hfollows.here.1 target
  | @collection _ kind parts _ _ hparts h =>
    obtain ⟨types, elem, htypes, helem, rfl⟩ := Schema.collection_eq_ok h
    have hchild {part : Part Expr} (hpart : part ∈ parts) {child : Expr}
        (hmem : child ∈ part.children) : child ∈ parts.flatMap Part.children :=
      List.mem_flatMap.mpr ⟨part, hpart, hmem⟩
    refine delivers_collection kind ?_ htypes ?_
    · intro part hpart child hmem
      exact heval (hparts part hpart child hmem) (hfollows.inside (hchild hpart hmem)) hs
    · intro ty hty v hv
      rcases helem with helem | rfl
      · exact T.conforms hv (helem ty hty)
      · refine T.joinAll ?_ hv hty
        intro u hu
        rcases Schema.mem_partTypes htypes u hu with rfl | ⟨item, hitem, rfl⟩
        · exact T.admits_integer
        · exact hadmits item (hchild hitem List.mem_cons_self)
  | tuple hparts h =>
    obtain rfl := Expr.tupleOf_eq_ok h
    refine delivers_tuple ?_
    intro part hpart
    exact heval (hparts part hpart) (hfollows.inside (List.mem_map_of_mem hpart)) hs

/-- The evaluation of built trees keeps to a typing, whatever the fuel. -/
theorem keeps_eval (hM : M.Answers T) (fuel : Nat) : M.Keeps T (M.eval fuel) := by
  induction fuel with
  | zero => exact fun _ _ _ => .outOfFuel
  | succ fuel ih =>
    intro s scope e hbuilt hfollows hs
    exact .observed e (keeps_evalNode hM ih hbuilt hfollows hs)

/-- A run from bindings that provide for the scope of the tree ends without an error, and with a
value fit for the tree's type if it ends with a value. -/
theorem run_delivers (hM : M.Answers T) {e : Expr} (hbuilt : Built M.toSchema scope e)
    (hfollows : e.Everywhere T.Follows) (fuel : Nat) {bindings : List (String × Value)}
    {ctx : Context} (hbindings : (ctx.stack.bindAll bindings).Provides T.rel scope) :
    EvalM.Meets (T.rel · e.ty) (fun _ => False) (M.run fuel e bindings ctx).outcome := by
  have hstack : ((ctx.bindAll bindings).write (.evaluating e)).stack = ctx.stack.bindAll bindings :=
    ctx.stack_bindAll bindings
  rw [outcome_run]
  exact (keeps_eval hM fuel hbuilt hfollows hbindings _ hstack).1

/-- An evaluation starts from its bindings alone. -/
theorem evaluate_delivers (hM : M.Answers T) {e : Expr} {bindings : List (String × Value)}
    (hbuilt : Built M.toSchema scope e) (hfollows : e.Everywhere T.Follows)
    (hbindings : ∀ name t, scope.lookup name = some t →
      ∃ v, bindings.reverse.lookup name = some v ∧ T.rel v t)
    (fuel : Nat) (settings : Settings) :
    EvalM.Meets (T.rel · e.ty) (fun _ => False) (M.evaluate fuel settings e bindings).outcome := by
  refine run_delivers hM hbuilt hfollows fuel ?_
  intro name t ht
  rw [Stack.visible_bindAll, Context.visible_stack, settings.visible_context, List.append_nil]
  exact hbindings name t ht

end ObjectModel

end ObjectConstraint
