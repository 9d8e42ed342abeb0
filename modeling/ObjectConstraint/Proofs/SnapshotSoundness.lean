import ObjectConstraint.Snapshot
import ObjectConstraint.Proofs.Soundness

/-!
# Types are sound over snapshots

A snapshot is made step by step, and then its objects stand at the places that identify them. A
consistent snapshot answers as its declarations say, so trees that are built over it evaluate
without errors to values of their types.

* `Snapshot.Made` — the snapshots that can be made; `Snapshot.Made.id_eq` — where objects stand.
* `Snapshot.Consistent` — what is asked of a snapshot.
* `Snapshot.Consistent.typed` — the model of such a snapshot is typed.
* `Snapshot.evaluate_meets` — evaluations in it.
-/

namespace ObjectConstraint

namespace Snapshot

/-- The snapshots that can be made. -/
inductive Made : Snapshot → Prop
  | empty : Made .empty
  | addClass {s : Snapshot} (h : Made s) (name : String) (superclasses : List String) :
    Made (s.addClass name superclasses)
  | addAttribute {s : Snapshot} (h : Made s) (cls name : String) (ty : Ty) :
    Made (s.addAttribute cls name ty)
  | addEnd {s : Snapshot} (h : Made s) (cls role : String) (e : AssociationEnd) :
    Made (s.addEnd cls role e)
  | addOperation {s : Snapshot} (h : Made s) (cls name : String) (signature : Signature) :
    Made (s.addOperation cls name signature)
  | setBody {s : Snapshot} (h : Made s) (cls name : String) (body : Expr) :
    Made (s.setBody cls name body)
  | createObject {s : Snapshot} (h : Made s) (cls name : String) : Made (s.createObject cls name)
  | setAttribute {s : Snapshot} (h : Made s) (object : ObjectRef) (name : String) (v : Value) :
    Made (s.setAttribute object name v)
  | link {s : Snapshot} (h : Made s) (source : ObjectRef) (role : String) (target : ObjectRef) :
    Made (s.link source role target)

variable {s : Snapshot} {casts : Prop}

/-- The snapshot has the object that a reference identifies, and it is of the class that the
reference says. -/
def Knows (s : Snapshot) (o : ObjectRef) : Prop :=
  s.objects[o.id]?.map (·.object.cls) = some o.cls

/-- The identity of an object is its place. -/
theorem Made.id_eq (h : s.Made) {i : Nat} {o : ObjectRef}
    (ho : s.objects[i]?.map (·.object) = some o) : o.id = i := by
  induction h generalizing i o with
  | empty => cases ho
  | @createObject s _ cls name ih =>
    obtain ⟨record, hrecord, rfl⟩ := Option.map_eq_some_iff.mp ho
    rcases Nat.lt_or_ge i s.objects.length with hi | hi
    · rw [Snapshot.createObject, List.getElem?_append_left hi] at hrecord
      exact ih (by rw [hrecord]; rfl)
    · rw [Snapshot.createObject, List.getElem?_append_right hi] at hrecord
      obtain ⟨hlt, rfl⟩ := List.getElem?_eq_some_iff.mp hrecord
      have hlast : i = s.objects.length := by
        rw [List.length_singleton] at hlt
        omega
      simp [nextObject, hlast]
  | @setAttribute s _ object name v ih =>
    refine ih ?_
    rw [← ho]
    simp only [Snapshot.setAttribute, List.getElem?_modify]
    split
    · cases s.objects[i]? <;> rfl
    · cases s.objects[i]? <;> rfl
  | addClass _ _ _ ih => exact ih ho
  | addAttribute _ _ _ _ ih => exact ih ho
  | addEnd _ _ _ _ ih => exact ih ho
  | addOperation _ _ _ _ ih => exact ih ho
  | setBody _ _ _ _ ih => exact ih ho
  | link _ _ _ _ ih => exact ih ho

theorem Made.knows (h : s.Made) {i : Nat} {o : ObjectRef}
    (ho : s.objects[i]?.map (·.object) = some o) : s.Knows o := by
  obtain ⟨record, hrecord, rfl⟩ := Option.map_eq_some_iff.mp ho
  rw [Knows, h.id_eq ho, hrecord]
  rfl

/-- A snapshot in which subclasses see the attributes, association ends and operations of their
superclasses as these do, attributes have faithful values of their types, links lead to objects of
the classes at the ends, and the bodies of operations are built from the receiver and the parameters
alone, at a type that conforms to the result's. -/
structure Consistent (s : Snapshot) (casts : Prop) : Prop where
  inheritsAttributes {sub sup name : String} {t : Ty} (hcls : s.hierarchy.conformsTo sub sup)
    (h : s.schema.attributeType sup name = some t) : s.schema.attributeType sub name = some t
  inheritsEnds {sub sup role : String} {e : AssociationEnd} (hcls : s.hierarchy.conformsTo sub sup)
    (h : s.schema.associationEnd sup role = some e) : s.schema.associationEnd sub role = some e
  inheritsOperations {sub sup name : String} {signature : Signature}
    (hcls : s.hierarchy.conformsTo sub sup) (h : s.schema.operation sup name = some signature) :
    s.schema.operation sub name = some signature
  attributes {o : ObjectRef} {name : String} {t : Ty} (ho : s.Knows o)
    (ht : s.schema.attributeType o.cls name = some t) :
    Fits s.hierarchy s.Knows casts (s.attributeOf o name) t
  links {o target : ObjectRef} {role : String} {e : AssociationEnd} (ho : s.Knows o)
    (he : s.schema.associationEnd o.cls role = some e) (htarget : target ∈ s.targets o role) :
    s.hierarchy.conformsTo target.cls e.target
  bodies {cls name : String} {body : Expr} {signature : Signature}
    (h : s.bodies.lookup (cls, name) = some body)
    (hsignature : s.schema.operation cls name = some signature) :
    Built s.schema (Scope.empty.bindAll (("self", .object cls) :: signature.params)) body ∧
      body.Everywhere (Expr.Steady casts) ∧ s.schema.conforms body.ty signature.result

theorem Made.knows_of_mem_targets (h : s.Made) {o target : ObjectRef} {role : String}
    (htarget : target ∈ s.targets o role) : s.Knows target := by
  obtain ⟨l, -, hl⟩ := List.mem_filterMap.mp htarget
  split at hl
  · exact h.knows hl
  · cases hl

/-- What an object is linked to fits the type of the association end. -/
theorem Consistent.fits_linked (hs : s.Consistent casts) (hmade : s.Made) {o : ObjectRef}
    {role : String} {e : AssociationEnd} (ho : s.Knows o)
    (he : s.schema.associationEnd o.cls role = some e) :
    Fits s.hierarchy s.Knows casts (s.linked o role) e.ty := by
  have hvalues : ∀ x ∈ (s.targets o role).map Value.object,
      Fits s.hierarchy s.Knows casts x (.object e.target) := by
    intro x hx
    obtain ⟨target, htarget, rfl⟩ := List.mem_map.mp hx
    exact ⟨.object target (hs.links ho he htarget), .object (hmade.knows_of_mem_targets htarget)⟩
  obtain ⟨cls, many, ordered⟩ := e
  rw [linked, he]
  cases many with
  | false =>
    show Fits s.hierarchy s.Knows casts
      (((s.targets o role).map Value.object).head?.getD .undefined) (.object cls)
    cases hhead : ((s.targets o role).map Value.object).head? with
    | none => exact .undefined _
    | some x => exact hvalues x (List.mem_of_mem_head? hhead)
  | true =>
    cases ordered with
    | false => exact fits_collectionOf (.inl rfl) hvalues
    | true => exact fits_collectionOf (.inl rfl) hvalues

/-- The model of a consistent snapshot answers with faithful values of the declared types. -/
theorem Consistent.typed (hs : s.Consistent casts) (hmade : s.Made) :
    s.toModel.Typed s.Knows casts where
  attributes ho hcls ht := hs.attributes ho (hs.inheritsAttributes hcls ht)
  links ho hcls he := hs.fits_linked hmade ho (hs.inheritsEnds hcls he)
  instances {o cls} ho := by
    obtain ⟨hmem, hcls⟩ := List.mem_filter.mp ho
    obtain ⟨record, hrecord, rfl⟩ := List.mem_map.mp hmem
    obtain ⟨i, hi⟩ := List.mem_iff_getElem?.mp hrecord
    exact ⟨hmade.knows (i := i) (by rw [hi]; rfl), hcls⟩
  operations hcls h := hs.inheritsOperations hcls h
  bodies h hsignature := hs.bodies h hsignature

/-- A built tree evaluates without an error, and if to a value then to one of its type, in a
consistent snapshot and from bindings that give each variable of its scope a faithful value of the
variable's type. -/
theorem evaluate_meets {scope : Scope} {e : Expr} {bindings : List (String × Value)}
    (hmade : s.Made) (hs : s.Consistent casts) (hbuilt : Built s.schema scope e)
    (hsteady : e.Everywhere (Expr.Steady casts))
    (hbindings : ∀ name t, scope.lookup name = some t →
      ∃ v, bindings.reverse.lookup name = some v ∧ Fits s.hierarchy s.Knows casts v t)
    (fuel : Nat) (settings : Settings) :
    EvalM.Meets (Belongs s.hierarchy · e.ty) (fun _ => False)
      (s.toModel.evaluate fuel settings e bindings).outcome := by
  have hstack : settings.context.stack = ⟨[], 0, []⟩ := by
    unfold Settings.context
    dsimp only
    split <;> rfl
  have hsupplies : (settings.context.stack.bindAll bindings).Supplies s.hierarchy s.Knows casts
      scope := by
    intro name t ht
    rw [hstack, Stack.visible_bindAll, show (Stack.mk [] 0 []).visible = [] from rfl,
      List.append_nil]
    exact hbindings name t ht
  have hmeets := ObjectModel.meets_run (hs.typed hmade) hbuilt hsteady fuel hsupplies
  revert hmeets
  rw [ObjectModel.evaluate]
  cases (s.toModel.run fuel e bindings settings.context).outcome with
  | ok v => exact fun hmeets => hmeets.belongs
  | error stop => cases stop <;> exact id

/-- The body of an operation that adds years to an age. -/
def olderBody : Expr :=
  .call "+" (.standard .add)
    (.navigate (.var "self" (.object "Person")) (.attr "age") false .integer)
    [.var "years" .integer] .integer

/-- Two classes with an attribute of the same name, and one person. -/
def census : Snapshot :=
  (((((((empty.addClass "Person" []).addAttribute "Person" "age" .integer).addClass "Pet"
    []).addAttribute "Pet" "age" .string).addOperation "Person" "older"
    ⟨[("years", .integer)], .integer⟩).setBody "Person" "older" olderBody).createObject "Person"
    "Ann").setAttribute ⟨0, "Person", "Ann"⟩ "age" (.integer 41)

theorem made_census : census.Made :=
  .setAttribute (.createObject (.setBody (.addOperation (.addAttribute (.addClass (.addAttribute
    (.addClass .empty _ _) _ _ _) _ _) _ _ _) _ _ _) _ _ _) _ _) _ _ _

/-- A variable is built in a scope that has it. -/
theorem built_var {S : Schema} {scope : Scope} {name : String} {ty : Ty}
    (h : scope.lookup name = some ty) : Built S scope (.var name ty) := by
  have hrun : Build.outcome (variableRef name) scope = (.ok (.var name ty), scope) := by
    unfold variableRef
    rw [Build.outcome_get_bind, h]
    rfl
  exact .variable hrun

theorem built_olderBody :
    Built census.schema (Scope.empty.bindAll [("self", .object "Person"), ("years", .integer)])
      olderBody := by
  have hnavigate : census.schema.navigate (.var "self" (.object "Person")) "age" =
      .ok (.navigate (.var "self" (.object "Person")) (.attr "age") false .integer) := rfl
  have hcall : census.schema.call
      (.navigate (.var "self" (.object "Person")) (.attr "age") false .integer) "+"
      [.var "years" .integer] = .ok olderBody := rfl
  refine .call (.navigate (built_var rfl) hnavigate) ?_ hcall
  intro arg harg
  exact List.mem_singleton.mp harg ▸ built_var rfl

theorem steady_var (name : String) (ty : Ty) : (Expr.var name ty).Everywhere (Expr.Steady casts) :=
  .intro trivial fun _ h => nomatch h

theorem steady_olderBody : olderBody.Everywhere (Expr.Steady casts) := by
  refine .intro (fun h => nomatch h) ?_
  intro child hchild
  rcases List.mem_cons.mp hchild with rfl | hchild
  · exact .intro trivial fun child hchild => List.mem_singleton.mp hchild ▸ steady_var _ _
  · exact List.mem_singleton.mp hchild ▸ steady_var _ _

theorem eq_of_conformsTo_census {sub sup : String} (h : census.hierarchy.conformsTo sub sup) :
    sub = sup := by
  refine Hierarchy.eq_of_conformsTo ?_ h
  intro cls
  show (List.lookup cls [("Person", []), ("Pet", [])]).getD [] = []
  cases hfound : List.lookup cls [("Person", []), ("Pet", [])] with
  | none => rfl
  | some superclasses =>
    have hmem := Parts.mem_of_lookup hfound
    simp only [List.mem_cons, Prod.mk.injEq, List.not_mem_nil, or_false] at hmem
    rcases hmem with ⟨-, rfl⟩ | ⟨-, rfl⟩
    · rfl
    · rfl

theorem eq_of_knows_census {o : ObjectRef} (h : census.Knows o) : o.id = 0 ∧ o.cls = "Person" := by
  obtain ⟨record, hrecord, hcls⟩ := Option.map_eq_some_iff.mp h
  obtain ⟨hlt, hget⟩ := List.getElem?_eq_some_iff.mp hrecord
  have hid : o.id = 0 := Nat.lt_one_iff.mp hlt
  simp only [hid] at hget
  exact ⟨hid, hcls.symm.trans (congrArg (·.object.cls) hget.symm)⟩

theorem eq_of_lookup_singleton {α β : Type} [BEq α] [LawfulBEq α] {k k' : α} {x y : β}
    (h : List.lookup k [(k', x)] = some y) : k = k' ∧ x = y := by
  rw [List.lookup_cons] at h
  split at h
  · next heq => exact ⟨eq_of_beq heq, Option.some.inj h⟩
  · cases h

/-- All that is declared and known of Ann is her age. -/
theorem attribute_census {o : ObjectRef} {name : String} {t : Ty} (ho : census.Knows o)
    (ht : census.schema.attributeType o.cls name = some t) :
    t = .integer ∧ census.attributeOf o name = .integer 41 := by
  obtain ⟨hid, hcls⟩ := eq_of_knows_census ho
  rw [hcls] at ht
  obtain ⟨cls, hmem, hlookup⟩ := List.exists_of_findSome?_eq_some ht
  obtain rfl : cls = "Person" := List.mem_singleton.mp hmem
  obtain ⟨rfl, rfl⟩ := eq_of_lookup_singleton hlookup
  refine ⟨rfl, ?_⟩
  rw [attributeOf, hid]
  rfl

theorem consistent_census : census.Consistent casts where
  inheritsAttributes hcls h := eq_of_conformsTo_census hcls ▸ h
  inheritsEnds hcls h := eq_of_conformsTo_census hcls ▸ h
  inheritsOperations hcls h := eq_of_conformsTo_census hcls ▸ h
  attributes ho ht := by
    obtain ⟨rfl, hage⟩ := attribute_census ho ht
    rw [hage]
    exact .scalar rfl (.integer 41)
  links ho he htarget := by
    cases htarget
  bodies h hsignature := by
    obtain ⟨hname, rfl⟩ := eq_of_lookup_singleton h
    obtain ⟨rfl, rfl⟩ := Prod.mk.inj hname
    obtain rfl : (⟨[("years", .integer)], .integer⟩ : Signature) = _ := Option.some.inj hsignature
    exact ⟨built_olderBody, steady_olderBody, rfl⟩

/-- A year later Ann is 42, even if all that is known of her at first is that she is something. -/
theorem evaluate_meets_older :
    let person := Expr.typeTest .asType (.var "p" .any) (.object "Person") (.object "Person")
    let e := Expr.call "older" .query person [.const (.integer 1)] .integer
    let outcome := (census.toModel.evaluate 4 .standard e
      [("p", .object ⟨0, "Person", "Ann"⟩)]).outcome
    outcome = .ok (.integer 42) ∧
      EvalM.Meets (Belongs census.hierarchy · .integer) (fun _ => False) outcome := by
  intro person e outcome
  have hcast : census.schema.typeTest .asType (.var "p" .any) (.object "Person") = .ok person := rfl
  have hcall : census.schema.call person "older" [.const (.integer 1)] = .ok e := rfl
  have hscope : (Scope.empty.bind "p" .any).lookup "p" = some .any := rfl
  have hbuilt : Built census.schema (Scope.empty.bind "p" .any) e :=
    .call (.typeTest (built_var hscope) hcast)
      (fun arg harg => List.mem_singleton.mp harg ▸ .const _) hcall
  have hsteady : e.Everywhere (Expr.Steady True) := by
    refine .intro (fun h => nomatch h) ?_
    intro child hchild
    rcases List.mem_cons.mp hchild with rfl | hchild
    · exact .intro (fun _ => trivial) fun _ h => List.mem_singleton.mp h ▸ steady_var _ _
    · exact List.mem_singleton.mp hchild ▸ .intro trivial fun _ h => nomatch h
  refine ⟨rfl,
    evaluate_meets made_census consistent_census hbuilt hsteady ?_ 4 .standard⟩
  intro name t ht
  obtain ⟨rfl, rfl⟩ := eq_of_lookup_singleton ht
  exact ⟨_, rfl, .any _, .object rfl⟩

/-- What a value says of itself is trusted. A set of a string that says it was made for integers
belongs to `OclAny`, and a cast makes a set of integers of it; a reference to Ann that says she is a
pet belongs to `Pet`, and has an integer where pets have strings. -/
theorem evaluate_not_meets :
    let cast := Expr.typeTest .asType (.var "y" .any) (.collection .set .integer)
      (.collection .set .integer)
    let y := Value.collection .set .integer [.string "a"]
    let age := Expr.navigate (.var "p" (.object "Pet")) (.attr "age") false .string
    let p := Value.object ⟨0, "Pet", "Ann"⟩
    census.Made ∧ (∀ casts, census.Consistent casts) ∧
      (Built census.schema (Scope.empty.bind "y" .any) cast ∧
        cast.Everywhere (Expr.Steady True) ∧ Belongs census.hierarchy y .any ∧
        (census.toModel.evaluate 2 .standard cast [("y", y)]).outcome = .ok y ∧
        ¬ Belongs census.hierarchy y cast.ty) ∧
      Built census.schema (Scope.empty.bind "p" (.object "Pet")) age ∧
      age.Everywhere (Expr.Steady False) ∧ Belongs census.hierarchy p (.object "Pet") ∧
      (census.toModel.evaluate 2 .standard age [("p", p)]).outcome = .ok (.integer 41) ∧
      ¬ Belongs census.hierarchy (.integer 41) age.ty := by
  intro cast y age p
  have hcast : census.schema.typeTest .asType (.var "y" .any) (.collection .set .integer) =
      .ok cast := rfl
  have hage : census.schema.navigate (.var "p" (.object "Pet")) "age" = .ok age := rfl
  refine ⟨made_census, fun _ => consistent_census,
    ⟨.typeTest (built_var rfl) hcast, ?_, .any _, rfl, ?_⟩, .navigate (built_var rfl) hage, ?_,
    .object _ rfl, rfl, ?_⟩
  · exact .intro (fun _ => trivial) fun child h => List.mem_singleton.mp h ▸ steady_var _ _
  · intro h
    have helem : Belongs census.hierarchy (.string "a") .integer :=
      (Operation.fits_of_collection? h rfl).2 _ List.mem_cons_self
    cases helem
  · exact .intro trivial fun child h => List.mem_singleton.mp h ▸ steady_var _ _
  · intro h
    cases h

end Snapshot

end ObjectConstraint
