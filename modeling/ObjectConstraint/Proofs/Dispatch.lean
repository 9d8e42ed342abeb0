import ObjectConstraint.Evaluation
import ObjectConstraint.Expr.Build
import ObjectConstraint.Snapshot
import ObjectConstraint.Proofs.Distance

/-!
# Which body a call runs

The classes above the receiver's own are asked for a body in the order in which they are listed,
and the first that has one, and sees a signature for it, provides it. The order is by distance, so
a class next to the receiver's comes before one further away even where the one further away
overrides it.

* `ObjectModel.offered` — what a class has to run; `ObjectModel.definer` — the class that provides
  the body.
* `ObjectModel.noFurther_of_definer` — no class with a body is nearer.
* `Snapshot.call_mostSpecific_iff` — the body of a call, and when it is not overridden.
* `Snapshot.call_mostSpecific_of_graded` — it never is where the ways up from one class to another
  are of one length.
-/

namespace ObjectConstraint

/-- The first element to pass a test is the one no other that does stands before. -/
theorem find?_eq_some_iff_idxOf {names : List String} {p : String → Bool} {name : String} :
    names.find? p = some name ↔
      p name ∧ name ∈ names ∧ ∀ other, p other → ¬ names.idxOf other < names.idxOf name := by
  constructor
  · intro h
    obtain ⟨hp, before, after, rfl, hbefore⟩ := List.find?_eq_some_iff_append.mp h
    have hnot : ∀ other, p other → other ∉ before := by
      intro other hother hmem
      simpa [hother] using hbefore other hmem
    refine ⟨hp, by simp, ?_⟩
    intro other hother
    rw [List.idxOf_append_of_notMem (hnot name hp), List.idxOf_append_of_notMem (hnot other hother),
      List.idxOf_cons_self]
    omega
  · rintro ⟨hp, hmem, hfirst⟩
    obtain ⟨before, after, rfl, hnot⟩ := List.eq_append_cons_of_mem hmem
    refine List.find?_eq_some_iff_append.mpr ⟨hp, before, after, rfl, ?_⟩
    intro other hother
    have hless : (before ++ name :: after).idxOf other < (before ++ name :: after).idxOf name := by
      rw [List.idxOf_append_of_mem hother, List.idxOf_append_of_notMem hnot]
      exact Nat.lt_add_right _ (List.idxOf_lt_length_of_mem hother)
    simpa using fun h => hfirst other h hless

namespace ObjectModel

variable (M : ObjectModel)

/-! ### The class that provides the body -/

/-- What a class has to run for a query operation: a body of its own, with the signature it sees. -/
def offered (cls name : String) : Option (Expr × Signature) := do
  let body ← M.body cls name
  let signature ← M.operation cls name
  return (body, signature)

/-- The class whose body an object of a class runs. -/
def definer (cls name : String) : Option String :=
  (M.ancestors cls).find? fun c => (M.offered c name).isSome

/-- One class has a body of its own for a query operation of another that is properly above it. -/
def Overrides (name sub sup : String) : Prop :=
  sub ≠ sup ∧ M.conformsTo sub sup ∧ (M.body sub name).isSome

variable {M} {cls name c d : String}

theorem offered_eq_some_iff {body : Expr} {signature : Signature} :
    M.offered c name = some (body, signature) ↔
      M.body c name = some body ∧ M.operation c name = some signature := by
  cases hbody : M.body c name <;> cases hsignature : M.operation c name <;>
    simp [offered, hbody, hsignature]

theorem isSome_offered_iff :
    (M.offered c name).isSome ↔ (M.body c name).isSome ∧ (M.operation c name).isSome := by
  cases hbody : M.body c name <;> cases hsignature : M.operation c name <;>
    simp [offered, hbody, hsignature]

theorem definition_eq_bind : M.definition cls name = (M.definer cls name).bind (M.offered · name) := by
  change (M.ancestors cls).findSome? (M.offered · name) = _
  rw [definer]
  induction M.ancestors cls with
  | nil => rfl
  | cons c rest ih =>
    cases hoffered : M.offered c name with
    | none => simp [hoffered, ih]
    | some _ => simp [hoffered]

theorem definer_eq_some_iff :
    M.definer cls name = some c ↔
      (M.offered c name).isSome ∧ M.conformsTo cls c ∧
        ∀ e, (M.offered e name).isSome →
          ¬ (M.ancestors cls).idxOf e < (M.ancestors cls).idxOf c := by
  rw [definer, find?_eq_some_iff_idxOf, Hierarchy.conformsTo, List.contains_iff_mem]

/-- No class with a body that can run is nearer than the one that provides it. -/
theorem noFurther_of_definer (h : M.definer cls name = some c) (hd : M.conformsTo cls d)
    (hoffered : (M.offered d name).isSome) : M.NoFurther cls c d :=
  Hierarchy.noFurther_of_find? h (M.conformsTo_iff.mp hd) hoffered

/-- The class that provides the body is never overridden exactly if each class that is overridden
comes after another that has a body to run. -/
theorem not_overrides_definer_iff :
    (∀ c, M.definer cls name = some c → ∀ d, M.conformsTo cls d → ¬ M.Overrides name d c) ↔
      ∀ c d, (M.offered c name).isSome → M.conformsTo cls d → M.Overrides name d c →
        ∃ e, (M.offered e name).isSome ∧ (M.ancestors cls).idxOf e < (M.ancestors cls).idxOf c := by
  constructor
  · intro h c d hoffered hd hoverrides
    by_contra hfirst
    have hc : M.conformsTo cls c := Hierarchy.conformsTo_trans hd hoverrides.2.1
    refine h c (definer_eq_some_iff.mpr ⟨hoffered, hc, ?_⟩) d hd hoverrides
    exact fun e he hless => hfirst ⟨e, he, hless⟩
  · intro h c hc d hd hoverrides
    obtain ⟨hoffered, -, hfirst⟩ := definer_eq_some_iff.mp hc
    obtain ⟨e, he, hless⟩ := h c d hoffered hd hoverrides
    exact hfirst e he hless

/-! ### Calls -/

variable {eval : Expr → EvalM Value} {o : ObjectRef} {args : List Value}

theorem callQuery_of_definer_none (h : M.definer o.cls name = none) :
    M.callQuery eval name (.object o) args =
      (do modifyThe Context (·.write (.noBody o.cls name)); return .undefined) := by
  rw [callQuery, definition_eq_bind, h]
  rfl

theorem callQuery_of_definer {body : Expr} {signature : Signature}
    (h : M.definer o.cls name = some c) (hbody : M.body c name = some body)
    (hsignature : M.operation c name = some signature) :
    M.callQuery eval name (.object o) args =
      if signature.params.length ≠ args.length then
        .malformed (.wrongArguments o.cls name signature.params.length args.length)
      else
        EvalM.bracket
          (fun ctx =>
            ctx.pushFrame.bindAll (("self", .object o) :: (signature.params.map Prod.fst).zip args))
          Context.popFrame (eval body) := by
  have hdefinition : M.definition o.cls name = some (body, signature) := by
    rw [definition_eq_bind, h]
    exact offered_eq_some_iff.mpr ⟨hbody, hsignature⟩
  rw [callQuery, hdefinition]

end ObjectModel

namespace Snapshot

variable {s : Snapshot} {cls name c d : String}

/-- Where a class sees a signature, so do the classes below it. -/
theorem isSome_operation_of_conformsTo (hdc : s.hierarchy.conformsTo d c)
    (h : (s.toModel.operation c name).isSome) : (s.toModel.operation d name).isSome := by
  obtain ⟨e, he, hdeclared⟩ := List.findSome?_isSome_iff.mp h
  refine List.findSome?_isSome_iff.mpr ⟨e, ?_, hdeclared⟩
  exact s.hierarchy.mem_ancestors_iff.mpr
    ((s.hierarchy.conformsTo_iff.mp hdc).trans (s.hierarchy.mem_ancestors_iff.mp he))

/-- The body of an override can run wherever that of the class it overrides can. -/
theorem isSome_offered_of_overrides (h : s.toModel.Overrides name d c)
    (hc : (s.toModel.offered c name).isSome) : (s.toModel.offered d name).isSome := by
  obtain ⟨-, hdc, hbody⟩ := h
  rw [ObjectModel.isSome_offered_iff] at hc ⊢
  exact ⟨hbody, isSome_operation_of_conformsTo hdc hc.2⟩

/-- A call on an object runs the body of a class to which the object's class conforms, and no class
with a body to run is nearer; if there is no such class, it runs none. No override is passed over
exactly if each class that is overridden comes after another that has a body to run. -/
theorem call_mostSpecific_iff (s : Snapshot) (o : ObjectRef) (name : String) :
    let M := s.toModel
    (M.definer o.cls name = none → ∀ eval args, M.callQuery eval name (.object o) args =
      (do modifyThe Context (·.write (.noBody o.cls name)); return .undefined)) ∧
    (∀ c, M.definer o.cls name = some c →
      M.conformsTo o.cls c ∧
      (∀ d, M.conformsTo o.cls d → (M.offered d name).isSome → M.NoFurther o.cls c d) ∧
      ∃ body signature, M.body c name = some body ∧ M.operation c name = some signature ∧
        ∀ eval args, M.callQuery eval name (.object o) args =
          if signature.params.length ≠ args.length then
            .malformed (.wrongArguments o.cls name signature.params.length args.length)
          else
            EvalM.bracket
              (fun ctx => ctx.pushFrame.bindAll
                (("self", .object o) :: (signature.params.map Prod.fst).zip args))
              Context.popFrame (eval body)) ∧
    ((∀ c, M.definer o.cls name = some c → ∀ d, M.conformsTo o.cls d → ¬ M.Overrides name d c) ↔
      ∀ c d, (M.offered c name).isSome → M.conformsTo o.cls d → M.Overrides name d c →
        ∃ e, (M.offered e name).isSome ∧
          (M.ancestors o.cls).idxOf e < (M.ancestors o.cls).idxOf c) := by
  intro M
  refine ⟨fun h eval args => ObjectModel.callQuery_of_definer_none h, ?_,
    ObjectModel.not_overrides_definer_iff⟩
  intro c hc
  obtain ⟨hoffered, hconf, -⟩ := ObjectModel.definer_eq_some_iff.mp hc
  obtain ⟨⟨body, signature⟩, hfound⟩ := Option.isSome_iff_exists.mp hoffered
  obtain ⟨hbody, hsignature⟩ := ObjectModel.offered_eq_some_iff.mp hfound
  exact ⟨hconf, fun d hd hoffered => ObjectModel.noFurther_of_definer hc hd hoffered, body,
    signature, hbody, hsignature, fun eval args =>
      ObjectModel.callQuery_of_definer hc hbody hsignature⟩

/-- Where all ways up from one class to another are of one length, no override is passed over. -/
theorem call_mostSpecific_of_graded (hs : s.hierarchy.Graded)
    (h : s.toModel.definer cls name = some c) (hd : s.toModel.conformsTo cls d) :
    ¬ s.toModel.Overrides name d c := by
  intro hoverrides
  have hoffered := isSome_offered_of_overrides hoverrides (ObjectModel.definer_eq_some_iff.mp h).1
  have hnear := ObjectModel.noFurther_of_definer h hd hoffered
  exact hoverrides.1 (hnear.eq_of_graded hs (s.hierarchy.conformsTo_iff.mp hd)
    (s.hierarchy.conformsTo_iff.mp hoverrides.2.1))

/-- Assets have no wheels and vehicles have four. A car is a vehicle, and an asset in its own
right as well. -/
def garage : Snapshot :=
  ((((((empty.addClass "Asset" []).addClass "Vehicle" ["Asset"]).addClass "Car"
    ["Asset", "Vehicle"]).addOperation "Asset" "wheels" ⟨[], .integer⟩).setBody "Asset" "wheels"
    (.const (.integer 0))).setBody "Vehicle" "wheels" (.const (.integer 4))).createObject "Car"
    "car"

/-- A car has no wheels, though vehicles, which it is, override what assets say. -/
theorem call_not_mostSpecific :
    let M := garage.toModel
    let car := Value.object ⟨0, "Car", "car"⟩
    let e := Expr.call "wheels" .query (.var "car" (.object "Car")) [] .integer
    garage.hierarchy.Acyclic ∧ M.definer "Car" "wheels" = some "Asset" ∧
      M.body "Asset" "wheels" = some (.const (.integer 0)) ∧ M.conformsTo "Car" "Vehicle" ∧
      M.Overrides "wheels" "Vehicle" "Asset" ∧
      M.body "Vehicle" "wheels" = some (.const (.integer 4)) ∧
      (M.evaluate 3 .standard e [("car", car)]).outcome = .ok (.integer 0) := by
  intro M car e
  have hacyclic : garage.hierarchy.Acyclic :=
    Hierarchy.acyclic_ofList
      (fun cls => if cls = "Asset" then 0 else if cls = "Vehicle" then 1 else 2) (by decide)
  exact ⟨hacyclic, by decide, rfl, by decide, ⟨by decide, by decide, by decide⟩, rfl, rfl⟩

end Snapshot

end ObjectConstraint
