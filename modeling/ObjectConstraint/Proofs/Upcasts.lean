import ObjectConstraint.Proofs.LeastTypes
import ObjectConstraint.Proofs.Scoping
import ObjectConstraint.Proofs.SnapshotSoundness
import ObjectConstraint.Proofs.TypedEvaluation

/-!
# Upcasts

A tree whose type conforms to another passes the type test for it, and its value is kept by a cast
to it, unless a finite number stands where the other type has `UnlimitedNatural`. Finite natural
numbers are integers among the values, and an integer does not conform to the type. Only the type
itself and the parts of tuples are looked at that closely; the elements of collections are not,
since a collection carries its element type.

* `Value.hidesNatural` — a finite number stands at `UnlimitedNatural`.
* `Carries.conforms_dynamicType_iff` — a value has its type as its own just if that is not so.
* `ObjectModel.evaluate_upcast` — what the tests and casts of a tree give.
-/

namespace ObjectConstraint

namespace Value

mutual

/-- A finite number stands where a type has `UnlimitedNatural`: as the value itself, or under a name
of a tuple. -/
def hidesNatural : Value → Ty → Bool
  | integer _, .unlimitedNatural => true
  | tuple parts, .tuple types => hidesNaturalIn parts types
  | _, _ => false
  termination_by structural v => v

def hidesNaturalIn : List (String × Value) → List (String × Ty) → Bool
  | [], _ => false
  | (name, v) :: parts, types =>
    (types.lookup name).any v.hidesNatural || hidesNaturalIn parts types
  termination_by structural parts => parts

end

theorem isUndefined_promote (v : Value) (t : Ty) :
    (v.promote t).isUndefined = v.isUndefined := by
  unfold promote
  split <;> rfl

theorem isUndefined_eq_false {v : Value} (h : v ≠ .undefined) : v.isUndefined = false := by
  cases v <;> first | rfl | exact absurd rfl h

theorem hidesNaturalIn_iff {parts : List (String × Value)} {types : List (String × Ty)} :
    hidesNaturalIn parts types ↔
      ∃ p ∈ parts, ∃ t, types.lookup p.1 = some t ∧ p.2.hidesNatural t := by
  induction parts with
  | nil => simp [hidesNaturalIn]
  | cons p parts ih =>
    rw [hidesNaturalIn, Bool.or_eq_true, Option.any_eq_true, ih, List.exists_mem_cons_iff]

end Value

section Values

variable {H : Hierarchy} {known : ObjectRef → Prop} {v : Value} {t : Ty}

theorem Value.hidesNatural_integer {n : Int64} (ht : t ≠ .unlimitedNatural) :
    (Value.integer n).hidesNatural t = false := by
  cases t <;> first | rfl | exact absurd rfl ht

/-- The type that an exact value has by itself conforms to a type of the value, unless the value has
a finite number where that type has `UnlimitedNatural`. -/
theorem Carries.conforms_dynamicType_iff (h : Carries H known v t) :
    H.conforms v.dynamicType t ↔ v.hidesNatural t = false := by
  induction v using Value.memberInduction generalizing t with
  | step v ih =>
    cases v with
    | integer n =>
      by_cases ht : t = .unlimitedNatural
      · subst ht
        exact iff_of_false (fun hconf => nomatch Conforms.of_conforms hconf) (nomatch ·)
      · refine iff_of_true ?_ (Value.hidesNatural_integer ht)
        -- A natural number conforms to nothing above its own type that integers do not conform to.
        have hconf := Conforms.of_conforms h.conforms_least
        rcases Value.leastType_integer n with ⟨hleast, -⟩ | hleast
        · rw [hleast] at hconf
          cases hconf with
          | refl => exact absurd rfl ht
          | any => exact (Conforms.any _).conforms
          | naturalInteger => exact H.conforms_refl _
          | naturalReal => exact Conforms.integerReal.conforms
        · exact (hleast ▸ hconf).conforms
    | tuple parts =>
      have hconf : Conforms H (.tuple (Value.leastTypes parts)) t := .of_conforms h.conforms_least
      cases t with
      | any => exact iff_of_true (Conforms.any _).conforms rfl
      | tuple types =>
        obtain ⟨hlength, hparts⟩ := h.parts
        show H.conforms (.tuple (Value.dynamicTypes parts)) (.tuple types) ↔
          Value.hidesNaturalIn parts types = false
        rw [Value.dynamicTypes_eq_map, Hierarchy.conforms_tuple_types h.exact.here,
          ← Bool.not_eq_true, Value.hidesNaturalIn_iff]
        constructor
        · rintro ⟨-, hfound⟩ ⟨p, hp, u, hu, hhides⟩
          obtain ⟨u', hu', hdynamic⟩ := hfound p hp
          obtain rfl := Option.some.inj (hu'.symm.trans hu)
          have hshows := (ih p.2 (List.mem_map_of_mem hp) (h.part hp hu)).mp hdynamic
          exact Bool.false_ne_true (hshows.symm.trans hhides)
        · intro hshows
          refine ⟨hlength, fun p hp => ?_⟩
          obtain ⟨u, hu, hcarries⟩ := hparts p hp
          refine ⟨u, hu, (ih p.2 (List.mem_map_of_mem hp) hcarries).mpr ?_⟩
          exact Bool.eq_false_iff.mpr fun hhides => hshows ⟨p, hp, u, hu, hhides⟩
      | _ => cases hconf
    | _ => exact iff_of_true h.conforms_least rfl

end Values

namespace ObjectModel

variable {M : ObjectModel} {known : ObjectRef → Prop}

/-! ### Type tests of exact values -/

section Tests

variable {v : Value} {t : Ty}

theorem conforms_dynamicType_eq (h : Carries M.toHierarchy known v t) :
    M.conforms v.dynamicType t = !v.hidesNatural t := by
  rw [Bool.eq_iff_iff, h.conforms_dynamicType_iff, Bool.not_eq_true']

theorem testType_isKindOf (h : Carries M.toHierarchy known v t) (hdefined : v.isUndefined = false) :
    M.testType .isKindOf v t = .boolean !v.hidesNatural t := by
  rw [testType, hdefined, conforms_dynamicType_eq h]
  rfl

theorem isUndefined_testType_asType (h : Carries M.toHierarchy known v t)
    (hdefined : v.isUndefined = false) :
    (M.testType .asType v t).isUndefined = v.hidesNatural t := by
  rw [testType, hdefined]
  show (if M.conforms v.dynamicType t then v.promote t else .undefined).isUndefined = _
  rw [conforms_dynamicType_eq h]
  cases v.hidesNatural t with
  | true => rfl
  | false => exact (v.isUndefined_promote t).trans hdefined

end Tests

/-! ### Trees -/

/-- A type test of a tree that has a value tests the value. -/
theorem outcome_evaluate_typeTest {fuel : Nat} {settings : Settings} {e : Expr}
    {bindings : List (String × Value)} {v : Value}
    (hv : (M.evaluate fuel settings e bindings).outcome = .ok v) (test : TypeTest)
    (target ty : Ty) :
    (M.evaluate (fuel + 1) settings (.typeTest test e target ty) bindings).outcome =
      .ok (M.testType test v target) := by
  rw [evaluate, outcome_run] at hv ⊢
  generalize settings.context.bindAll bindings = ctx at hv ⊢
  generalize hstart : (ctx.write (.evaluating (.typeTest test e target ty))).enter
    (.typeTest test e target ty) = start
  have hsource : ((M.eval fuel e).run.run start).1 = .ok v := by
    rw [← hv]
    refine outcome_eq_of_agree fuel fun x _ => Stack.agree_iff_lookup.mp ?_
    rw [Stack.Agree, ← hstart, Context.stack_enter]
    rfl
  rw [eval, EvalM.run_observed, hstart, evalNode, EvalM.run_bind]
  rcases hrun : (M.eval fuel e).run.run start with ⟨outcome, inner⟩
  rw [hrun] at hsource
  obtain rfl : outcome = .ok v := hsource
  rfl

/-- A tree whose type conforms to another has values that pass the type test for it and are kept by
the cast to it, but for those that have a finite number where it has `UnlimitedNatural`. -/
theorem evaluate_upcast (hM : M.Answers (.exact M.toHierarchy known)) {scope : Scope} {e : Expr}
    {T target : Ty} {bindings : List (String × Value)} (hbuilt : Built M.toSchema scope e)
    (hfollows : e.Everywhere (Typing.exact M.toHierarchy known).Follows)
    (hbindings : ∀ name t, scope.lookup name = some t →
      ∃ v, bindings.reverse.lookup name = some v ∧ Carries M.toHierarchy known v t)
    (htarget : M.testTarget T = .ok target) (hconf : M.conforms e.ty target) (fuel : Nat)
    (settings : Settings) {v : Value}
    (hv : (M.evaluate fuel settings e bindings).outcome = .ok v) (hdefined : v ≠ .undefined) :
    ∃ test cast w, M.typeTest .isKindOf e T = .ok test ∧ M.typeTest .asType e T = .ok cast ∧
      (M.evaluate (fuel + 1) settings test bindings).outcome =
        .ok (.boolean !v.hidesNatural target) ∧
      (M.evaluate (fuel + 1) settings cast bindings).outcome = .ok w ∧
      w.isUndefined = v.hidesNatural target := by
  have hmeets := evaluate_delivers hM hbuilt hfollows hbindings fuel settings
  rw [hv] at hmeets
  have hcarries : Carries M.toHierarchy known v target := Carries.conforms hmeets hconf
  have hcast : M.conforms target e.ty || M.conforms e.ty target := by rw [hconf, Bool.or_true]
  refine ⟨.typeTest .isKindOf e target .boolean, .typeTest .asType e target target, _, ?_, ?_, ?_,
    outcome_evaluate_typeTest hv .asType target target,
    isUndefined_testType_asType hcarries (Value.isUndefined_eq_false hdefined)⟩
  · rw [Schema.typeTest, htarget]
    rfl
  · rw [Schema.typeTest, htarget]
    exact if_pos hcast
  · rw [outcome_evaluate_typeTest hv,
      testType_isKindOf hcarries (Value.isUndefined_eq_false hdefined)]

end ObjectModel

/-! ### The census -/

namespace Snapshot

theorem follows_var {H : Hierarchy} {known : ObjectRef → Prop} (name : String) {ty : Ty}
    (hty : ty.Canonical) : (Expr.var name ty).Everywhere (Typing.exact H known).Follows :=
  .intro ⟨trivial, hty⟩ fun _ h => nomatch h

theorem follows_olderBody {H : Hierarchy} {known : ObjectRef → Prop} :
    olderBody.Everywhere (Typing.exact H known).Follows := by
  refine .intro ⟨(nomatch ·), trivial⟩ ?_
  intro child hchild
  rcases List.mem_cons.mp hchild with rfl | hchild
  · refine .intro ⟨trivial, trivial⟩ ?_
    intro child hchild
    exact List.mem_singleton.mp hchild ▸ follows_var _ trivial
  · exact List.mem_singleton.mp hchild ▸ follows_var _ trivial

/-- The census answers with exact values. -/
theorem answers_census : census.toModel.Answers (.exact census.hierarchy census.Knows) := by
  have hconsistent : census.Consistent True := consistent_census
  have htyped := hconsistent.typed made_census
  refine ⟨?_, ?_, htyped.instances, htyped.operations, ?_⟩
  · intro o cls name t ho hcls ht
    obtain ⟨rfl, hage⟩ := attribute_census ho (hconsistent.inheritsAttributes hcls ht)
    show Carries _ _ (census.attributeOf o name) _
    rw [hage]
    exact .scalar rfl (.integer 41)
  · intro o cls role e ho hcls he
    have hend := hconsistent.inheritsEnds hcls he
    rw [(eq_of_knows_census ho).2] at hend
    obtain ⟨w, hw, hfound⟩ := List.exists_of_findSome?_eq_some hend
    obtain rfl : w = "Person" := List.mem_singleton.mp hw
    cases hfound
  · intro cls name body signature h hsignature
    obtain ⟨hbuilt, -, hresult⟩ := htyped.bodies h hsignature
    obtain ⟨-, rfl⟩ := eq_of_lookup_singleton h
    exact ⟨hbuilt, follows_olderBody, hresult⟩

/-- A set of natural numbers is a collection of integers, although its elements are natural numbers
above it. -/
theorem evaluate_upcast_ages :
    let ages := Expr.var "ages" (.collection .set .unlimitedNatural)
    let v := Value.collection .set .unlimitedNatural [.integer 41]
    (census.toModel.evaluate 1 .standard ages [("ages", v)]).outcome = .ok v ∧
      ∃ test cast w,
        census.schema.typeTest .isKindOf ages (.collection .collection .integer) = .ok test ∧
        census.schema.typeTest .asType ages (.collection .collection .integer) = .ok cast ∧
        (census.toModel.evaluate 2 .standard test [("ages", v)]).outcome = .ok (.boolean true) ∧
        (census.toModel.evaluate 2 .standard cast [("ages", v)]).outcome = .ok w ∧
        w.isUndefined = false := by
  intro ages v
  have hbuilt : Built census.schema (Scope.empty.bind "ages" (.collection .set .unlimitedNatural))
      ages := built_var rfl
  have hv : (census.toModel.evaluate 1 .standard ages [("ages", v)]).outcome = .ok v := rfl
  refine ⟨hv, ObjectModel.evaluate_upcast answers_census hbuilt (follows_var _ trivial) ?_ rfl rfl 1
    .standard hv (fun h => nomatch h)⟩
  intro name t ht
  obtain ⟨rfl, rfl⟩ := eq_of_lookup_singleton ht
  refine ⟨v, rfl, rfl, .intro ?_ ?_⟩
  · exact fun x hx => List.mem_singleton.mp hx ▸ rfl
  · exact fun x hx => List.mem_singleton.mp hx ▸ .of_isScalar rfl (.integer 41)

/-- A finite natural number is an integer among the values, so it does not pass the test for its own
type. -/
theorem evaluate_not_upcast :
    let five := Expr.const (.unlimitedNatural (some 5))
    let M := census.toModel
    M.Answers (.exact census.hierarchy census.Knows) ∧ Built census.schema .empty five ∧
      five.Everywhere (Typing.exact census.hierarchy census.Knows).Follows ∧
      M.conforms five.ty .unlimitedNatural ∧
      (M.evaluate 1 .standard five []).outcome = .ok (.integer 5) ∧
      ∃ test cast, M.typeTest .isKindOf five .unlimitedNatural = .ok test ∧
        M.typeTest .asType five .unlimitedNatural = .ok cast ∧
        (M.evaluate 2 .standard test []).outcome = .ok (.boolean false) ∧
        (M.evaluate 2 .standard cast []).outcome = .ok .undefined := by
  intro five M
  exact ⟨answers_census, .const _, .intro ⟨trivial, trivial⟩ fun _ h => (nomatch h), rfl, rfl,
    _, _, rfl, rfl, rfl, rfl⟩

end Snapshot

end ObjectConstraint
