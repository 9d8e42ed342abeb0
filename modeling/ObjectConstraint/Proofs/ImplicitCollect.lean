import ObjectConstraint.Proofs.Construction
import ObjectConstraint.Proofs.NormalForms
import ObjectConstraint.Proofs.Operands

/-!
# The implicit collect

A property of a collection of objects stands for the collection of the property's values. As a bag
it is the `collect` loop whose body reads the property of the iterator: the one reads it from each
element at once, the other one binds the element and evaluates the body, and both spread what is
read and bring it into the normal form of a kind.

* `ObjectModel.gathered` — what the elements of a source lead to, spread into one collection.
* `ObjectModel.dependsOn_shorthand`, `ObjectModel.dependsOn_collect` — the two trees.
* `ObjectModel.DependsOn.asBag` — a sequence or bag of what is gathered, converted to a bag.
* `Schema.navigate_eq_collect` — the two trees as they are built.
-/

namespace ObjectConstraint

open EvalM (Returns)

/-- Elements that come from a bag or a sequence make the bag that they make themselves. -/
theorem Value.asBag_collectionOf {kind : Kind} (hkind : kind = .bag ∨ kind = .sequence)
    (elem ty : Ty) (elems : List Value) :
    Operation.asBag.apply (collectionOf kind elem elems) [] ty = collectionOf .bag elem elems := by
  rcases hkind with rfl | rfl
  · show collection .bag elem (ascending (ascending elems)) = _
    rw [ascending_eq_self (pairwise_ascending elems)]
    rfl
  · rfl

namespace ObjectModel

variable {M : ObjectModel} {source : Expr} {property : Property}
  {outcomes : Value → Except EvalError Value}

/-! ### Reading a property -/

/-- What a property of a value is does not depend on the context. -/
theorem exists_yields_read (M : ObjectModel) (property : Property) :
    ∃ outcomes : Value → Except EvalError Value,
      ∀ s v, EvalM.Yields s (M.read v property) (outcomes v) := by
  have hread : ∀ v, ∃ outcome, ∀ s, EvalM.Yields s (M.read v property) outcome := by
    intro v
    unfold read
    split
    · exact ⟨_, fun _ => .pure _⟩
    · exact ⟨_, fun _ => .pure _⟩
    · exact ⟨_, fun _ => .pure _⟩
    · exact ⟨_, fun _ => .pure _⟩
    · exact ⟨_, fun _ => .fail _⟩
  choose outcomes houtcomes using hread
  exact ⟨outcomes, fun s v => houtcomes v s⟩

/-- The collection of what the elements lead to, one level of collections spread; an error if one of
them has one. -/
def gathered (kind : Kind) (elem : Ty) (outcomes : Value → Except EvalError Value)
    (elems : List Value) : Except EvalError Value :=
  (elems.mapM outcomes).map fun values => .collectionOf kind elem (values.flatMap spread)

theorem gathered_eq_ok (kind : Kind) (elem : Ty) {elems : List Value} {values : Value → Value}
    (h : ∀ v ∈ elems, outcomes v = .ok (values v)) :
    gathered kind elem outcomes elems =
      .ok (.collectionOf kind elem (elems.flatMap fun v => spread (values v))) := by
  rw [gathered, mapM_eq_ok h, ← List.flatMap_map values spread elems]
  rfl

theorem yields_gathered {s : Stack} {act : Value → EvalM Value}
    (h : ∀ v, EvalM.Yields s (act v) (outcomes v)) (kind : Kind) (elem : Ty) (elems : List Value) :
    EvalM.Yields s (do return .collectionOf kind elem ((← EvalM.forEach act elems).flatMap spread))
      (gathered kind elem outcomes elems) := by
  have hall : EvalM.Yields s (EvalM.forEach act elems) _ := EvalM.yields_forEach fun v _ => h v
  unfold gathered
  cases hresults : elems.mapM outcomes with
  | error err => exact (hresults ▸ hall).bind_error
  | ok values => exact (hresults ▸ hall).bind (.pure _)

/-! ### The two trees -/

section Read

variable (hread : ∀ s v, EvalM.Yields s (M.read v property) (outcomes v))

include hread

/-- A property of every element of the source. -/
theorem dependsOn_shorthand (ty : Ty) :
    M.DependsOn source (ofElements (gathered (ty.kind?.getD .bag) ty.elemOrAny outcomes))
      (.navigate source property true ty) := by
  refine .of_node 0 (fun _ => overElements fun _ elems => do
    let values ← EvalM.forEach (M.read · property) elems
    return .collectionOf (ty.kind?.getD .bag) ty.elemOrAny (values.flatMap spread))
      (fun _ => rfl) ?_
  exact fun _ _ s => yields_overElements fun _ elems => yields_gathered (hread s) _ _ elems

/-- A property of a variable. -/
theorem yields_property {fuel : Nat} (hfuel : 1 < fuel) (s : Stack) (x : String) (v : Value)
    (t ty : Ty) :
    EvalM.Yields (s.bind x v) (M.eval fuel (.navigate (.var x t) property false ty))
      (outcomes v) := by
  obtain ⟨fuel, rfl⟩ : ∃ n, fuel = n + 1 := ⟨fuel - 1, by omega⟩
  have hvar : Returns (s.bind x v) (M.eval fuel (.var x t)) v :=
    returns_var (by omega) List.lookup_cons_self t
  exact .observed _ (hvar.bind (hread _ v))

/-- The value that the body of the loop has on an element is the property of that. -/
theorem outcome_of_property {x : String} {v w : Value} {t ty : Ty} {ctx : Context}
    (h : M.EvaluatesTo (.navigate (.var x t) property false ty) (ctx.bind x v) w) :
    outcomes v = .ok w := by
  obtain ⟨enough, henough⟩ := h.exists_fuel
  have hproperty := yields_property hread (lt_of_lt_of_le one_lt_two (le_max_right enough 2))
    ctx.stack x v t ty
  have hvalue := Returns.eval (henough _ (le_max_left enough 2))
  exact hproperty.unique hvalue (show (ctx.bind x v).stack = _ from rfl)

/-- The loop that reads a property of its iterator. -/
theorem dependsOn_collect (x : String) (t propertyTy ty : Ty) :
    M.DependsOn source (ofElements (gathered .bag ty.elemOrAny outcomes))
      (.loop .collect source [x] none (.navigate (.var x t) property false propertyTy) ty) :=
  dependsOn_loop 2 fun _ hfuel s _ elems =>
    yields_gathered (fun v => .withBinding (yields_property hread hfuel s x v t propertyTy)) _ _
      elems

end Read

/-- As a bag, a bag or a sequence of what is gathered is the bag of it. -/
theorem DependsOn.asBag {kind : Kind} {elem : Ty} {e : Expr}
    (h : M.DependsOn source (ofElements (gathered kind elem outcomes)) e)
    (hkind : kind = .bag ∨ kind = .sequence) (ty : Ty) :
    M.DependsOn source (ofElements (gathered .bag elem outcomes))
      (.call "asBag" (.standard .asBag) e [] ty) := by
  refine (h.trans (dependsOn_call rfl "asBag" ty)).congr fun v => ?_
  cases v with
  | collection k made elems =>
    show (gathered kind elem outcomes elems).bind _ = gathered .bag elem outcomes elems
    unfold gathered
    cases elems.mapM outcomes with
    | error err => rfl
    | ok values => exact congrArg _ (Value.asBag_collectionOf hkind elem ty _)
  | _ => rfl

end ObjectModel

/-! ### Construction -/

namespace Schema

variable {S : Schema} {source : Expr} {cls name : String} {property : Property} {k : Kind}
  {elem ty : Ty}

theorem exists_resolveProperty
    (h : (S.attributeType cls name).isSome ∨ (S.associationEnd cls name).isSome) :
    ∃ property ty, S.resolveProperty cls name = .ok (property, ty) := by
  unfold resolveProperty
  cases hattribute : S.attributeType cls name with
  | some ty => exact ⟨_, _, rfl⟩
  | none =>
    rw [hattribute] at h
    obtain ⟨e, he⟩ := Option.isSome_iff_exists.mp (h.resolve_left Bool.false_ne_true)
    rw [he]
    exact ⟨_, _, rfl⟩

theorem navigate_object (hsource : source.ty = .object cls)
    (h : S.resolveProperty cls name = .ok (property, ty)) :
    S.navigate source name = .ok (.navigate source property false ty) := by
  unfold navigate
  rw [hsource]
  dsimp only
  rw [h]
  rfl

theorem navigate_collection (hsource : source.ty = .collection k (.object cls))
    (h : S.resolveProperty cls name = .ok (property, ty)) :
    S.navigate source name = .ok (.navigate source property true (shorthandType k ty)) := by
  unfold navigate
  rw [hsource]
  dsimp only
  rw [h]
  rfl

theorem call_asBag (hsource : source.ty = .collection k elem) :
    S.call source "asBag" [] =
      .ok (.call "asBag" (.standard .asBag) source [] (.collection .bag elem)) := by
  refine call_of_resolve (by rw [hsource]; exact nofun) ?_
  rw [hsource]
  rfl

theorem outcome_read (h : S.resolveProperty cls name = .ok (property, ty)) (x : String)
    (scope : Scope) :
    let inner := scope.opened.bindAll [(x, .object cls)]
    Build.outcome (do check (S.navigate (← variableRef x) name)) inner =
      (.ok (.navigate (.var x (.object cls)) property false ty), inner) := by
  intro inner
  have hx : inner.lookup x = some (.object cls) := by
    show (scope.opened.bind x (.object cls)).lookup x = _
    rw [Scope.lookup_bind, if_pos rfl]
  have hread : S.navigate (.var x (.object cls)) name = _ := navigate_object rfl h
  simp only [Build.outcome_bind, outcome_variableRef hx, Build.outcome_check, hread]

/-- The loop that reads a property of its iterator, as it is built. -/
theorem outcome_collect (hsource : source.ty = .collection k (.object cls))
    (h : S.resolveProperty cls name = .ok (property, ty)) (x : String) (scope : Scope) :
    Build.outcome
        (S.loop .collect source [x] do check (S.navigate (← variableRef x) name)) scope =
      (.ok (.loop .collect source [x] none (.navigate (.var x (.object cls)) property false ty)
        (.collection .bag (ty.elem?.getD ty))), scope) := by
  have hbody : Build.outcome (do check (S.navigate (← variableRef x) name))
      (scope.opened.bindAll ([x].map (·, .object cls))) = _ := outcome_read h x scope
  rw [outcome_loop rfl hsource hbody rfl, Scope.closed_bindAll_opened]
  rfl

/-- Over a source that is a collection of objects of a class, and for each attribute and association
end of the class, both `source.name` and `source->collect(x | x.name)` are accepted. Their types
have the same element type, and `source.name->asBag()` has the type of the loop. In any model and
from any bindings that bag and the loop end alike, with the same value or the same error, and they
end wherever the source does. If `x.name` has a value on each element of the source, they hold these
values, one level of collections spread, and if the source is ordered, `source.name` lists them in
the order of the elements. -/
theorem navigate_eq_collect (S : Schema) (M : ObjectModel) (source : Expr) (k : Kind)
    (cls name x : String) (scope : Scope) (hsource : source.ty = .collection k (.object cls))
    (hname : (S.attributeType cls name).isSome ∨ (S.associationEnd cls name).isSome) :
    ∃ short bag collect read,
      S.navigate source name = .ok short ∧ S.call short "asBag" [] = .ok bag ∧
      Build.outcome
          (S.loop .collect source [x] do check (S.navigate (← variableRef x) name)) scope =
        (.ok collect, scope) ∧
      S.navigate (.var x (.object cls)) name = .ok read ∧
      short.ty.elem? = collect.ty.elem? ∧ bag.ty = collect.ty ∧
      (∀ ctx outcome, M.EndsIn bag ctx outcome ↔ M.EndsIn collect ctx outcome) ∧
      (∀ ctx result, M.EndsIn source ctx result →
        ∃ outcome, M.EndsIn bag ctx outcome ∧ M.EndsIn collect ctx outcome) ∧
      ∀ ctx kind made elems (values : Value → Value),
        M.EvaluatesTo source ctx (.collection kind made elems) →
        (∀ v ∈ elems, M.EvaluatesTo read (ctx.bind x v) (values v)) →
        let collected := elems.flatMap fun v => ObjectModel.spread (values v)
        M.EvaluatesTo bag ctx (.collectionOf .bag bag.ty.elemOrAny collected) ∧
          (k.isOrdered →
            M.EvaluatesTo short ctx (.collection .sequence short.ty.elemOrAny collected)) := by
  obtain ⟨property, ty, hproperty⟩ := exists_resolveProperty hname
  obtain ⟨outcomes, hread⟩ := M.exists_yields_read property
  have hshort : M.DependsOn source _ _ :=
    ObjectModel.dependsOn_shorthand hread (shorthandType k ty)
  have hkind : (shorthandType k ty).kind?.getD .bag = .bag ∨
      (shorthandType k ty).kind?.getD .bag = .sequence := by
    show (if k.isOrdered then Kind.sequence else .bag) = .bag ∨
      (if k.isOrdered then Kind.sequence else .bag) = .sequence
    split
    · exact .inr rfl
    · exact .inl rfl
  have hbag := hshort.asBag hkind (.collection .bag (ty.elem?.getD ty))
  have hcollect : M.DependsOn source _ _ :=
    ObjectModel.dependsOn_collect hread x (.object cls) ty (.collection .bag (ty.elem?.getD ty))
  refine ⟨_, _, _, _, navigate_collection hsource hproperty, call_asBag rfl,
    outcome_collect hsource hproperty x scope, navigate_object rfl hproperty, rfl, rfl,
    hbag.endsIn_iff hcollect, fun ctx result h => ?_, ?_⟩
  · exact ⟨_, (hbag ctx _).mpr ⟨result, h, rfl⟩, (hcollect ctx _).mpr ⟨result, h, rfl⟩⟩
  · intro ctx kind made elems values hsource hvalues collected
    have houtcomes : ∀ v ∈ elems, outcomes v = .ok (values v) := fun v hv =>
      ObjectModel.outcome_of_property hread (hvalues v hv)
    refine ⟨hbag.evaluatesTo hsource (ObjectModel.gathered_eq_ok _ _ houtcomes),
      fun hordered => ?_⟩
    refine hshort.evaluatesTo hsource ((ObjectModel.gathered_eq_ok _ _ houtcomes).trans ?_)
    show Except.ok (Value.collectionOf (if k.isOrdered then .sequence else .bag) _ _) = _
    rw [if_pos hordered]
    rfl

end Schema

/-- A school in which one of two pupils has marks. -/
def Snapshot.school : Snapshot :=
  empty.addClass "Pupil" []
    |>.addAttribute "Pupil" "marks" (.collection .sequence .integer)
    |>.createObject "Pupil" "first"
    |>.createObject "Pupil" "second"
    |>.setAttribute ⟨0, "Pupil", "first"⟩ "marks"
      (.collection .sequence .integer [.integer 2, .integer 1])

/-- Marks that are not set, and the marks of an undefined pupil, are one undefined element each. -/
theorem Schema.navigate_eq_collect_unset :
    let S := Snapshot.school.schema
    let M := Snapshot.school.toModel
    let source := Expr.var "pupils" (.collection .sequence (.object "Pupil"))
    let short := Expr.navigate source (.attr "marks") true (.collection .sequence .integer)
    let bag := Expr.call "asBag" (.standard .asBag) short [] (.collection .bag .integer)
    let elems :=
      [Value.object ⟨1, "Pupil", "second"⟩, .undefined, .object ⟨0, "Pupil", "first"⟩]
    let ctx := Context.empty.bind "pupils" (.collection .sequence (.object "Pupil") elems)
    let bagged := Value.collection .bag .integer [.undefined, .undefined, .integer 1, .integer 2]
    source.ty = .collection .sequence (.object "Pupil") ∧
      ((S.attributeType "Pupil" "marks").isSome ∨ (S.associationEnd "Pupil" "marks").isSome) ∧
      S.navigate source "marks" = .ok short ∧ S.call short "asBag" [] = .ok bag ∧
      M.EvaluatesTo short ctx
        (.collection .sequence .integer [.undefined, .undefined, .integer 2, .integer 1]) ∧
      M.EvaluatesTo bag ctx bagged ∧
      ∃ collect,
        Build.outcome (S.loop .collect source ["x"] do
          check (S.navigate (← variableRef "x") "marks")) .empty = (.ok collect, .empty) ∧
        M.EvaluatesTo collect ctx bagged := by
  intro S M source short bag elems ctx bagged
  have hname : (S.attributeType "Pupil" "marks").isSome ∨
      (S.associationEnd "Pupil" "marks").isSome := .inl rfl
  obtain ⟨short', bag', collect, read, hshort, hbag, hcollect, hread, -, -, hsame, -, hvalues⟩ :=
    navigate_eq_collect S M source .sequence "Pupil" "marks" "x" .empty rfl hname
  obtain rfl : short = short' := Except.ok.inj (hshort.symm.trans rfl).symm
  obtain rfl : bag = bag' := Except.ok.inj (hbag.symm.trans rfl).symm
  obtain rfl := Except.ok.inj hread
  obtain ⟨hbagged, hlisted⟩ := hvalues ctx .sequence (.object "Pupil") elems
    (fun v => v.object?.elim .undefined (M.attributeOf · "marks")) ⟨1, rfl⟩ (by
      refine List.forall_mem_cons.mpr ⟨⟨2, rfl⟩, ?_⟩
      refine List.forall_mem_cons.mpr ⟨⟨2, rfl⟩, ?_⟩
      exact List.forall_mem_singleton.mpr ⟨2, rfl⟩)
  have hsorted : Value.ascending [.undefined, .undefined, .integer 2, .integer 1] =
      [.undefined, .undefined, .integer 1, .integer 2] := by
    have hundefined : Value.le .undefined .undefined = true := rfl
    have htwo : Value.le .undefined (.integer 2) = true := rfl
    have hone : Value.le .undefined (.integer 1) = true := rfl
    have hlast : Value.le (.integer 2) (.integer 1) = false := rfl
    simp [Value.ascending, Value.isAscending, List.mergeSort, hundefined, htwo, hone, hlast]
  have hvalue : M.EvaluatesTo bag ctx bagged := by
    have hascending : M.EvaluatesTo bag ctx (.collection .bag .integer
      (Value.ascending [.undefined, .undefined, .integer 2, .integer 1])) := hbagged
    rwa [hsorted] at hascending
  exact ⟨rfl, hname, hshort, hbag, hlisted rfl, hvalue, collect, hcollect,
    (hsame ctx (.ok bagged)).mp hvalue⟩

end ObjectConstraint
