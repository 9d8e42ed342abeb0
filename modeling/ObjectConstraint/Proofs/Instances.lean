import ObjectConstraint.Proofs.Ancestry
import ObjectConstraint.Proofs.ConformanceOrder
import ObjectConstraint.Proofs.NormalForms
import ObjectConstraint.Proofs.Operands
import ObjectConstraint.Proofs.SnapshotSoundness

/-!
# The objects of a class

A snapshot is made by a history of steps, in any order. Classes may be declared after their objects,
and their superclasses may change at any time. Whatever the history, the objects of the snapshot are
those that its steps have created, each with its place as identity. `allInstances` has those of them
for which `oclIsKindOf` is true: the snapshot and the type test both ask the class hierarchy as it
is in the end, and the order of creation is the order of the set.

* `Step`, `Snapshot.after`, `Snapshot.ofSteps` — the steps and what they make.
* `Snapshot.created` — the objects that a history has created.
* `Snapshot.objects_ofSteps` — the objects of a snapshot are those.
* `Snapshot.allInstances_exact` — the objects of a class.
-/

namespace ObjectConstraint

/-- A step in the making of a snapshot. -/
inductive Step where
  | addClass (name : String) (superclasses : List String)
  | addAttribute (cls name : String) (ty : Ty)
  | addEnd (cls role : String) (e : AssociationEnd)
  | addOperation (cls name : String) (signature : Signature)
  | setBody (cls name : String) (body : Expr)
  | createObject (cls name : String)
  | setAttribute (object : ObjectRef) (name : String) (v : Value)
  | link (source : ObjectRef) (role : String) (target : ObjectRef)

namespace Snapshot

variable {s : Snapshot} {steps : List Step}

/-! ### Histories -/

/-- The snapshot after a step. -/
def after (s : Snapshot) : Step → Snapshot
  | .addClass name superclasses => s.addClass name superclasses
  | .addAttribute cls name ty => s.addAttribute cls name ty
  | .addEnd cls role e => s.addEnd cls role e
  | .addOperation cls name signature => s.addOperation cls name signature
  | .setBody cls name body => s.setBody cls name body
  | .createObject cls name => s.createObject cls name
  | .setAttribute object name v => s.setAttribute object name v
  | .link source role target => s.link source role target

/-- The snapshot that a history makes. -/
def ofSteps (steps : List Step) : Snapshot := steps.foldl after .empty

/-- The object that a step creates, if it creates one. -/
def creates (s : Snapshot) : Step → Option ObjectRef
  | .createObject cls name => some (s.nextObject cls name)
  | _ => none

/-- The objects that are created when a history goes on from a snapshot. -/
def createdFrom (s : Snapshot) : List Step → List ObjectRef
  | [] => []
  | step :: steps => (s.creates step).toList ++ (s.after step).createdFrom steps

/-- The objects that a history creates. -/
def created (steps : List Step) : List ObjectRef := empty.createdFrom steps

theorem Made.after (h : s.Made) (step : Step) : (s.after step).Made := by
  cases step with
  | addClass name superclasses => exact h.addClass name superclasses
  | addAttribute cls name ty => exact h.addAttribute cls name ty
  | addEnd cls role e => exact h.addEnd cls role e
  | addOperation cls name signature => exact h.addOperation cls name signature
  | setBody cls name body => exact h.setBody cls name body
  | createObject cls name => exact h.createObject cls name
  | setAttribute object name v => exact h.setAttribute object name v
  | link source role target => exact h.link source role target

theorem made_ofSteps (steps : List Step) : (ofSteps steps).Made := by
  have hfrom : ∀ s : Snapshot, s.Made → (steps.foldl Snapshot.after s).Made := by
    induction steps with
    | nil => exact fun _ h => h
    | cons step steps ih => exact fun s h => ih _ (h.after step)
  exact hfrom _ .empty

/-- A step adds the object that it creates at the end, and keeps the others. -/
theorem objects_after (s : Snapshot) (step : Step) :
    (s.after step).objects.map (·.object) =
      s.objects.map (·.object) ++ (s.creates step).toList := by
  cases step with
  | createObject cls name => simp [after, createObject, creates]
  | setAttribute object name v =>
    refine List.ext_getElem? fun i => ?_
    simp only [after, setAttribute, creates, Option.toList_none, List.append_nil, List.getElem?_map,
      List.getElem?_modify]
    cases s.objects[i]? with
    | none => rfl
    | some record => split <;> rfl
  | _ => exact (List.append_nil _).symm

theorem objects_foldl_after (s : Snapshot) (steps : List Step) :
    (steps.foldl after s).objects.map (·.object) =
      s.objects.map (·.object) ++ s.createdFrom steps := by
  induction steps generalizing s with
  | nil => exact (List.append_nil _).symm
  | cons step steps ih =>
    rw [List.foldl_cons, ih, objects_after, List.append_assoc, createdFrom]

theorem objects_ofSteps (steps : List Step) :
    (ofSteps steps).objects.map (·.object) = created steps :=
  objects_foldl_after .empty steps

/-! ### Identities -/

/-- The objects stand in the order of their identities. -/
theorem Made.pairwise_id (h : s.Made) : (s.objects.map (·.object)).Pairwise (·.id < ·.id) := by
  have hid : ∀ i (o : ObjectRef), (s.objects.map (·.object))[i]? = some o → o.id = i :=
    fun i o ho => h.id_eq (by rwa [List.getElem?_map] at ho)
  rw [List.pairwise_iff_getElem]
  intro i j hi hj hij
  rwa [hid i _ (List.getElem?_eq_getElem hi), hid j _ (List.getElem?_eq_getElem hj)]

variable {cls : String}

theorem Made.pairwise_instances (h : s.Made) (cls : String) :
    (s.instances cls).Pairwise (·.id < ·.id) :=
  h.pairwise_id.filter _

/-- The objects of a class are a set in the order of their identities. -/
theorem Made.isNormal_instances (h : s.Made) (cls : String) :
    Value.isNormal .set ((s.instances cls).map .object) := by
  refine decide_eq_true (List.pairwise_map.mpr ((h.pairwise_instances cls).imp fun hlt => ?_))
  exact compare_lt_iff_lt.mpr hlt

theorem mem_instances {o : ObjectRef} :
    o ∈ s.instances cls ↔ o ∈ s.objects.map (·.object) ∧ s.hierarchy.conformsTo o.cls cls :=
  List.mem_filter

end Snapshot

namespace ObjectModel

variable {M : ObjectModel} {ctx : Context} {source : Expr}

theorem evaluatesTo_allInstances {cls : String} {ty : Ty}
    (h : Value.isNormal .set ((M.instances cls).map .object)) :
    M.EvaluatesTo (.allInstances cls ty) ctx
      (.collection .set (.object cls) ((M.instances cls).map .object)) := by
  have hnode : EvalM.Returns ctx.stack (M.evalNode 0 (M.eval 0) (.allInstances cls ty))
      (.collectionOf .set (.object cls) ((M.instances cls).map .object)) := .pure _
  rw [← Value.collectionOf_eq_self (.object cls) h]
  exact .of_returns hnode

theorem dependsOn_typeTest (test : TypeTest) (target ty : Ty) :
    M.DependsOn source (fun v => .ok (M.testType test v target))
      (.typeTest test source target ty) :=
  .of_node 0 (fun _ v => pure (M.testType test v target)) (fun _ => rfl) fun _ _ _ _ => .pure _

end ObjectModel

namespace Snapshot

variable {s : Snapshot} {cls : String}

/-- Whether an object is of a class is whether it is one of the objects of the class. -/
theorem testType_isKindOf {o : ObjectRef} (ho : o ∈ s.objects.map (·.object)) :
    s.toModel.testType .isKindOf (.object o) (.object cls) =
      .boolean (decide (o ∈ s.instances cls)) := by
  have hconforms : s.hierarchy.conforms (.object o.cls) (.object cls) =
      decide (o ∈ s.instances cls) := by
    rw [Bool.eq_iff_iff, Hierarchy.conforms_object, decide_eq_true_iff, mem_instances,
      and_iff_right ho]
  exact congrArg Value.boolean hconforms

/-- After any history, `allInstances` of a class that the model resolves is accepted, and it
evaluates to the set of the objects of the class, each once and ascending by identity. These are the
created objects for which `oclIsKindOf` the class evaluates to true. The objects of a class that
conforms to another are objects of the other one. -/
theorem allInstances_exact (steps : List Step) (cls : String)
    (hcls : ((ofSteps steps).schema.resolveClass cls).isSome) :
    let s := ofSteps steps
    let M := s.toModel
    ∃ all, M.allInstances cls = .ok all ∧
      (∀ ctx, M.EvaluatesTo all ctx
        (.collection .set (.object cls) ((s.instances cls).map .object))) ∧
      (s.instances cls).Pairwise (·.id < ·.id) ∧ s.instances cls ⊆ created steps ∧
      (∀ o ∈ created steps, ∀ source ctx, M.EvaluatesTo source ctx (.object o) →
        ∃ test, M.typeTest .isKindOf source (.object cls) = .ok test ∧
          M.EvaluatesTo test ctx (.boolean (decide (o ∈ s.instances cls)))) ∧
      ∀ sub, M.conforms (.object sub) (.object cls) → s.instances sub ⊆ s.instances cls := by
  intro s M
  have hmade := made_ofSteps steps
  have hresolve : M.resolveClass cls = some cls := by
    obtain ⟨canonical, hcanonical⟩ := Option.isSome_iff_exists.mp hcls
    obtain ⟨d, -, rfl⟩ := Option.map_eq_some_iff.mp hcanonical
    exact hcanonical
  refine ⟨.allInstances cls (.collection .set (.object cls)), ?_, fun ctx => ?_,
    hmade.pairwise_instances cls, fun o ho => ?_, fun o ho source ctx hsource => ?_,
    fun sub hsub o ho => ?_⟩
  · rw [Schema.allInstances, hresolve]
  · exact ObjectModel.evaluatesTo_allInstances (hmade.isNormal_instances cls)
  · rw [← objects_ofSteps]
    exact (mem_instances.mp ho).1
  · refine ⟨.typeTest .isKindOf source (.object cls) .boolean, ?_, ?_⟩
    · rw [Schema.typeTest, Schema.testTarget, Schema.classType, hresolve]
      rfl
    · rw [← objects_ofSteps] at ho
      exact (ObjectModel.dependsOn_typeTest _ _ _).evaluatesTo hsource
        (congrArg Except.ok (testType_isKindOf ho))
  · obtain ⟨hmem, hle⟩ := mem_instances.mp ho
    exact mem_instances.mpr
      ⟨hmem, s.hierarchy.conformsTo_trans hle (Hierarchy.conforms_object.mp hsub)⟩

/-- A dog that is older than its class, and a cycle that makes a dog of every animal. -/
theorem allInstances_exact_cycle :
    let steps : List Step :=
      [.createObject "Dog" "Rex", .addClass "Animal" [], .addClass "Dog" ["Animal"],
        .createObject "Animal" "Ann", .createObject "Cat" "Tom", .addClass "Animal" ["Dog"]]
    let s := ofSteps steps
    (s.schema.resolveClass "Dog").isSome ∧
      ∃ all, s.toModel.allInstances "Dog" = .ok all ∧
        s.toModel.EvaluatesTo all .empty (.collection .set (.object "Dog")
          [.object ⟨0, "Dog", "Rex"⟩, .object ⟨1, "Animal", "Ann"⟩]) := by
  intro steps s
  have hresolves : (s.schema.resolveClass "Dog").isSome := by decide
  have hinstances : s.instances "Dog" = [⟨0, "Dog", "Rex"⟩, ⟨1, "Animal", "Ann"⟩] := by decide
  obtain ⟨all, hall, heval, -⟩ := allInstances_exact steps "Dog" hresolves
  have hvalue := heval .empty
  rw [hinstances] at hvalue
  exact ⟨hresolves, all, hall, hvalue⟩

end Snapshot

end ObjectConstraint
