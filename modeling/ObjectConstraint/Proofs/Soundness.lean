import ObjectConstraint.Proofs.TypedEvaluation

/-!
# Types are sound

A built tree evaluates without an error, and to a faithful value of its type, wherever its variables
have faithful values of their types and the model answers with such values.

* `Typing.faithful` — that a faithful value belongs to a type is a typing.
* `ObjectModel.Typed` — what is asked of the model.
* `ObjectModel.Sound` — a way to evaluate trees of which the above is true.
* `ObjectModel.sound_eval` — the evaluation is sound with any fuel.
-/

namespace ObjectConstraint

/-! ### Faithful values -/

section Values

variable {H : Hierarchy} {known : ObjectRef → Prop} {casts : Prop} {v : Value} {t : Ty}

theorem faithful_promote (h : Faithful H known casts v) (t : Ty) :
    Faithful H known casts (v.promote t) := by
  unfold Value.promote
  split
  · exact .intro trivial fun _ hw => nomatch hw
  · exact h

/-- The values inside all levels of a faithful collection belong to the innermost type of the one
that it carries. -/
theorem faithful_flatten {kind : Kind} {made : Ty} {elems : List Value}
    (hmade : casts → ∀ x ∈ elems, Belongs H x made) (h : ∀ x ∈ elems, Faithful H known casts x) :
    Faithful H known casts
      (.collectionOf kind made.innermost (Collection.leavesOfAll elems)) := by
  refine faithful_collectionOf ?_ ?_
  · intro hcasts x hx
    obtain ⟨v, hv, hx⟩ := Collection.mem_leavesOfAll.mp hx
    exact Collection.belongs_leaves (hmade hcasts v hv) x hx
  · intro x hx
    obtain ⟨v, hv, hx⟩ := Collection.mem_leavesOfAll.mp hx
    exact Collection.forall_leaves (fun hv hw => hv.inside hw) (h v hv) x hx

/-- To be a faithful value of a type is a typing: an operation that makes a collection gives it the
element type of its own result or the one that the receiver carries, and both are right. -/
def Typing.faithful (H : Hierarchy) (known : ObjectRef → Prop) (casts : Prop) : Typing H where
  rel := Fits H known casts
  known := known
  casts := casts
  admits _ := True
  belongs h := h.belongs
  scalar := .scalar
  undefined := .undefined
  object ho hcls := ⟨.object _ hcls, .object ho⟩
  known_object h := h.faithful.here
  conforms h hconf := h.conforms hconf
  join_left h _ _ := h.join_left _
  join_right h _ _ := h.join_right _
  member h hw := ⟨.any _, h.faithful.inside hw⟩
  element h := by
    intro x hx
    obtain ⟨hbelongs, hfaithful⟩ := h
    cases hbelongs with
    | collection _ helems => exact ⟨helems x hx, hfaithful.inside hx⟩
  part h := by
    intro name x t hx ht
    obtain ⟨hbelongs, hfaithful⟩ := h
    cases hbelongs with
    | tuple _ _ hparts => exact ⟨hparts _ hx t ht, hfaithful.inside (List.mem_map_of_mem hx)⟩
  collectionOf := fits_collectionOf
  keep h hkind hxs := by
    obtain ⟨hbelongs, hfaithful⟩ := h
    cases hbelongs with
    | collection _ helems =>
      exact ⟨Hierarchy.belongs_collectionOf _ hkind fun x hx => helems x (hxs x hx),
        faithful_collectionOf (fun hcasts x hx => hfaithful.here hcasts x (hxs x hx))
          fun x hx => hfaithful.inside (hxs x hx)⟩
  flatten h hkind := by
    obtain ⟨hbelongs, hfaithful⟩ := h
    cases hbelongs with
    | collection _ helems =>
      refine ⟨Hierarchy.belongs_collectionOf _ hkind ?_,
        faithful_flatten hfaithful.here fun _ hx => hfaithful.inside hx⟩
      intro x hx
      obtain ⟨v, hv, hx⟩ := Collection.mem_leavesOfAll.mp hx
      exact Collection.belongs_leaves (helems v hv) x hx
  tupleOf := fits_tupleOf
  cast hcasts h hconf :=
    ⟨Value.belongs_promote
      (Hierarchy.belongs_of_conforms (belongs_dynamicType hcasts h.faithful) hconf),
      faithful_promote h.faithful _⟩
  admits_boolean := trivial
  admits_integer := trivial
  admits_elem _ := trivial
  admits_join _ _ := trivial
  admits_void := trivial

end Values

/-! ### Evaluation -/

namespace ObjectModel

open EvalM (Ensures)

/-- A model in which what is declared on a class holds of the objects of the class and of its
subclasses: attributes and association ends have faithful values of their types, the operations have
one signature, and their bodies are built from the receiver and the parameters alone, at a type that
conforms to the result's. -/
structure Typed (M : ObjectModel) (known : ObjectRef → Prop) (casts : Prop) : Prop where
  attributes {o : ObjectRef} {cls name : String} {t : Ty} (ho : known o)
    (hcls : M.conformsTo o.cls cls) (ht : M.attributeType cls name = some t) :
    Fits M.toHierarchy known casts (M.attributeOf o name) t
  links {o : ObjectRef} {cls role : String} {e : AssociationEnd} (ho : known o)
    (hcls : M.conformsTo o.cls cls) (he : M.associationEnd cls role = some e) :
    Fits M.toHierarchy known casts (M.linked o role) e.ty
  instances {o : ObjectRef} {cls : String} (ho : o ∈ M.instances cls) :
    known o ∧ M.conformsTo o.cls cls
  operations {sub sup name : String} {signature : Signature} (hcls : M.conformsTo sub sup)
    (h : M.operation sup name = some signature) : M.operation sub name = some signature
  bodies {cls name : String} {body : Expr} {signature : Signature} (h : M.body cls name = some body)
    (hsignature : M.operation cls name = some signature) :
    Built M.toSchema (Scope.empty.bindAll (("self", .object cls) :: signature.params)) body ∧
      body.Everywhere (Expr.Steady casts) ∧ M.conforms body.ty signature.result

/-- A computation ends without an error, and with a faithful value of a type if with a value. -/
abbrev Yields (M : ObjectModel) (known : ObjectRef → Prop) (casts : Prop) (s : Stack)
    (act : EvalM Value) (t : Ty) : Prop :=
  Ensures s act (Fits M.toHierarchy known casts · t) fun _ => False

/-- A way to evaluate trees gives every built tree a faithful value of its type, or none but without
an error, where the bindings supply the scope of the tree. -/
def Sound (M : ObjectModel) (known : ObjectRef → Prop) (casts : Prop)
    (eval : Expr → EvalM Value) : Prop :=
  ∀ {s : Stack} {scope : Scope} {e : Expr}, Built M.toSchema scope e →
    e.Everywhere (Expr.Steady casts) → s.Supplies M.toHierarchy known casts scope →
    M.Yields known casts s (eval e) e.ty

variable {M : ObjectModel} {known : ObjectRef → Prop} {casts : Prop} {scope : Scope}

theorem follows_faithful {H : Hierarchy} {e : Expr} (h : e.Everywhere (Expr.Steady casts)) :
    e.Everywhere (Typing.faithful H known casts).Follows :=
  h.mono fun _ hsteady => ⟨hsteady, trivial⟩

theorem Typed.answers (hM : M.Typed known casts) :
    M.Answers (Typing.faithful M.toHierarchy known casts) where
  attributes := hM.attributes
  links := hM.links
  instances := hM.instances
  operations := hM.operations
  bodies h hsignature :=
    (hM.bodies h hsignature).imp_right fun hbody => hbody.imp_left follows_faithful

/-- The evaluation of built trees is sound, whatever the fuel. -/
theorem sound_eval (hM : M.Typed known casts) (fuel : Nat) : M.Sound known casts (M.eval fuel) :=
  fun hbuilt hsteady hs => keeps_eval hM.answers fuel hbuilt (follows_faithful hsteady) hs

/-- A run from bindings that supply the scope of the tree ends without an error, and with a faithful
value of the tree's type if it ends with a value. -/
theorem meets_run (hM : M.Typed known casts) {e : Expr} (hbuilt : Built M.toSchema scope e)
    (hsteady : e.Everywhere (Expr.Steady casts)) (fuel : Nat) {bindings : List (String × Value)}
    {ctx : Context}
    (hbindings : (ctx.stack.bindAll bindings).Supplies M.toHierarchy known casts scope) :
    EvalM.Meets (Fits M.toHierarchy known casts · e.ty) (fun _ => False)
      (M.run fuel e bindings ctx).outcome :=
  run_delivers hM.answers hbuilt (follows_faithful hsteady) fuel hbindings

end ObjectModel

end ObjectConstraint
