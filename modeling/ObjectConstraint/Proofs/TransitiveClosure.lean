import ObjectConstraint.Proofs.KnownValues
import ObjectConstraint.Proofs.NormalForms
import ObjectConstraint.Proofs.SnapshotSoundness

/-!
# Closure loops

A `closure` loop over objects of a snapshot ends, however these are linked: a level of the search
that finds nothing new is the last one, and there are finitely many objects to find. What it finds
are the objects that the body leads to from the source by one step or more.

* `EvalM.returns_closureFrom` — a closure is a breadth-first search.
* `Snapshot.eval_closure` — what a closure loop gives.
-/

namespace ObjectConstraint

/-! ### Closures -/

namespace EvalM

variable {s : Stack} {act : Value → EvalM Value} {results : Value → Value}

/-- The values other than undefined that a step leads to, given the value of the step. -/
def definedTargets (v : Value) : List Value := (stepTargets v).filter (!·.isUndefined)

/-- The steps of a level newly reach the first occurrences of what they lead to. -/
theorem returns_discover (known : Value.Known) {level : List Value}
    (h : ∀ x ∈ level, Returns s (act x) (results x)) :
    Returns s (discover act known level)
      (Value.firstOccurrences known (level.flatMap fun x => definedTargets (results x))) := by
  induction level generalizing known with
  | nil => exact .pure _
  | cons x level ih =>
    obtain ⟨hx, hlevel⟩ := List.forall_mem_cons.mp h
    rw [List.flatMap_cons, Value.firstOccurrences_append]
    exact hx.bind ((ih _ hlevel).bind (.pure _))

/-- A closure is a breadth-first search along the values of its steps. -/
theorem returns_closureFrom {good : Value → Prop} {levels : Nat} {known : Value.Known}
    {level found : List Value} (h : ∀ x, good x → Returns s (act x) (results x))
    (hstep : ∀ x, good x → ∀ y ∈ definedTargets (results x), good y)
    (hlevel : ∀ x ∈ level, good x)
    (hfound : Value.breadthFirst (fun x => definedTargets (results x)) levels known level =
      some found) : Returns s (closureFrom act levels known level) found := by
  induction levels generalizing known level found with
  | zero =>
    cases level with
    | nil =>
      cases hfound
      exact .pure _
    | cons x level => cases hfound
  | succ levels ih =>
    cases level with
    | nil =>
      cases hfound
      exact .pure _
    | cons x level =>
      obtain ⟨others, hothers, rfl⟩ := Option.map_eq_some_iff.mp hfound
      refine (returns_discover known fun y hy => h y (hlevel y hy)).bind ?_
      refine (ih ?_ hothers).bind (.pure _)
      intro y hy
      obtain ⟨z, hz, hy⟩ := List.mem_flatMap.mp (Value.mem_of_mem_firstOccurrences hy)
      exact hstep z (hlevel z hz) y hy

end EvalM

/-! ### Collections of objects -/

namespace Snapshot

variable {s : Snapshot}

/-- The objects that were created, as values. -/
def objectValues (s : Snapshot) : List Value := s.objects.map fun record => .object record.object

/-- An object that was created, or the undefined value. -/
def Holds (s : Snapshot) (v : Value) : Prop := v = .undefined ∨ v ∈ s.objectValues

/-- No two objects of a snapshot are equal. -/
theorem Made.eq_of_beq (hs : s.Made) {x y : Value} (hx : x ∈ s.objectValues)
    (hy : y ∈ s.objectValues) (h : x == y) : x = y := by
  obtain ⟨record, hrecord, rfl⟩ := List.mem_map.mp hx
  obtain ⟨record', hrecord', rfl⟩ := List.mem_map.mp hy
  obtain ⟨i, hi⟩ := List.mem_iff_getElem?.mp hrecord
  obtain ⟨j, hj⟩ := List.mem_iff_getElem?.mp hrecord'
  have hid : record.object.id = record'.object.id := by
    rw [Value.beq_iff_cmp_eq, Value.cmp] at h
    simpa using h
  have hij : i = j := by
    rw [← hs.id_eq (i := i) (by rw [hi]; rfl), hid, hs.id_eq (i := j) (by rw [hj]; rfl)]
  rw [hij, hj] at hi
  rw [Option.some.inj hi]

end Snapshot

namespace Value

/-- Different values, equal only to themselves, are the elements of a set of them and, in this
order, of an ordered set. -/
theorem normalForm_of_nodup {xs : List Value} (hdistinct : xs.Nodup)
    (heq : ∀ x ∈ xs, ∀ y ∈ xs, x == y → x = y) :
    normalForm .orderedSet xs = xs ∧ (normalForm .set xs).Nodup ∧
      ∀ y, y ∈ normalForm .set xs ↔ y ∈ xs := by
  refine ⟨firstOccurrences_eq_self (fun _ _ => by simp) ?_, ?_, fun y => ⟨?_, fun hy => ?_⟩⟩
  · exact hdistinct.imp_of_mem fun hx hy hne h => hne (heq _ hx _ hy h)
  · refine (pairwise_dropRepeats (pairwise_ascending xs)).imp ?_
    rintro x _ hlt rfl
    rw [cmp_self] at hlt
    cases hlt
  · exact fun hy => mem_ascending.mp (mem_of_mem_dropRepeats hy)
  · have hany : (dropRepeats (ascending xs)).any (· == y) := by
      rw [any_dropRepeats]
      exact List.any_eq_true.mpr ⟨y, mem_ascending.mpr hy, BEq.refl y⟩
    obtain ⟨z, hz, hzy⟩ := List.any_eq_true.mp hany
    have hmem : z ∈ xs := mem_ascending.mp (mem_of_mem_dropRepeats hz)
    exact heq z hmem y hy hzy ▸ hz

end Value

/-! ### Closure loops -/

namespace ObjectModel

open EvalM (definedTargets Returns Yields)

/-- With fuel for the source, for each body and for the levels of the search, a closure loop has the
values that a breadth-first search finds. -/
theorem outcome_closure {M : ObjectModel} {fuel : Nat} {ctx : Context} {source body : Expr}
    {iterator : String} {others : List String} {accumulator : Option (Accumulator Expr)}
    {ty elem : Ty} {kind : Kind} {elems found : List Value} {results : Value → Value}
    {good : Value → Prop}
    (hsource : ((M.eval fuel source).run.run ctx).1 = .ok (.collection kind elem elems))
    (helems : ∀ x ∈ elems, good x)
    (hbody : ∀ x, good x →
      ((M.eval fuel body).run.run (ctx.bind iterator x)).1 = .ok (results x))
    (hstep : ∀ x, good x → ∀ y ∈ definedTargets (results x), good y)
    (hfound : Value.breadthFirst (fun x => definedTargets (results x)) fuel ∅ elems = some found) :
    ((M.eval (fuel + 1) (.loop .closure source (iterator :: others) accumulator body ty)).run.run
      ctx).1 =
        .ok (.collectionOf (if kind.isOrdered then .orderedSet else .set) ty.elemOrAny found) := by
  have hact : ∀ x, good x →
      Returns ctx.stack (EvalM.withBinding iterator x (M.eval fuel body)) (results x) :=
    fun x hx => .withBinding (Returns.eval (hbody x hx))
  have hclosure : Returns ctx.stack (EvalM.closureFrom
      (fun x => EvalM.withBinding iterator x (M.eval fuel body)) fuel ∅ elems) found :=
    EvalM.returns_closureFrom hact hstep helems hfound
  have hnode : Returns ctx.stack (M.evalNode fuel (M.eval fuel)
      (.loop .closure source (iterator :: others) accumulator body ty))
      (.collectionOf (if kind.isOrdered then .orderedSet else .set) ty.elemOrAny found) :=
    (Returns.eval hsource).bind (hclosure.bind (.pure _))
  exact (hnode.observed _ ctx rfl).1

end ObjectModel

namespace Snapshot

open EvalM (definedTargets Returns Yields)
open Value (ReachedIn NoFurther)

variable {s : Snapshot}

/-- A closure loop over objects of a snapshot, with a body that gives objects of it, ends, however
the objects are linked. Its result has the objects that the body leads to from an element of the
source by one step or more, each once. Over an ordered source the nearer ones come first, and each
stands where the steps from the source, and then from the result itself, lead to it first. -/
theorem eval_closure (hs : s.Made) {ctx : Context} {source body : Expr} {iterator : String}
    {others : List String} {accumulator : Option (Accumulator Expr)} {ty elem : Ty} {kind : Kind}
    {elems : List Value} {results : Value → Value}
    (hsource : s.toModel.EvaluatesTo source ctx (.collection kind elem elems))
    (helems : ∀ x ∈ elems, s.Holds x)
    (hbody : ∀ x, s.Holds x → s.toModel.EvaluatesTo body (ctx.bind iterator x) (results x) ∧
      ∀ y ∈ EvalM.stepTargets (results x), s.Holds y) :
    let next := fun x => definedTargets (results x)
    ∃ reached, s.toModel.EvaluatesTo
        (.loop .closure source (iterator :: others) accumulator body ty) ctx
        (.collection (if kind.isOrdered then .orderedSet else .set) ty.elemOrAny reached) ∧
      reached.Nodup ∧ (∀ y, y ∈ reached ↔ ∃ n, ReachedIn next elems (n + 1) y) ∧
      (kind.isOrdered → reached = ((elems ++ reached).flatMap next).eraseDups ∧
        reached.Pairwise (NoFurther next elems)) := by
  intro next
  have hstep : ∀ x, s.Holds x → ∀ y ∈ next x, y ∈ s.objectValues := by
    intro x hx y hy
    obtain ⟨htarget, hdefined⟩ := List.mem_filter.mp hy
    refine ((hbody x hx).2 y htarget).resolve_left ?_
    rintro rfl
    cases hdefined
  have hall : Value.StaysAmong next elems s.objectValues :=
    ⟨fun {x y} hx hy => hstep x (hx.elim (helems x) .inr) y hy, hs.eq_of_beq⟩
  obtain ⟨enough, henough⟩ := hsource.exists_fuel
  obtain ⟨enoughInside, hinside⟩ := exists_fuel_forall (.undefined :: s.objectValues)
    fun x hx => (hbody x (List.mem_cons.mp hx)).1.exists_fuel
  obtain ⟨fuel, hsourceFuel, hbodyFuel, hlevels⟩ :
      ∃ fuel, enough ≤ fuel ∧ enoughInside ≤ fuel ∧ s.objectValues.length < fuel :=
    ⟨enough + enoughInside + s.objectValues.length + 1, by omega, by omega, by omega⟩
  obtain ⟨found, hfound, hdistinct, hreached, hqueue, hpairwise⟩ :=
    Value.breadthFirst_sources hall hlevels
  have hvalue : s.toModel.EvaluatesTo
      (.loop .closure source (iterator :: others) accumulator body ty) ctx
      (.collectionOf (if kind.isOrdered then .orderedSet else .set) ty.elemOrAny found) :=
    ⟨fuel + 1, ObjectModel.outcome_closure (henough fuel hsourceFuel) helems
      (fun x hx => hinside fuel hbodyFuel x (List.mem_cons.mpr hx))
      (fun x hx y hy => .inr (hstep x hx y hy)) hfound⟩
  have hobjects : ∀ x ∈ found, x ∈ s.objectValues := fun x hx => by
    obtain ⟨n, hn⟩ := (hreached x).mp hx
    exact hn.mem_all hall
  obtain ⟨hordered, hset, hmem⟩ := Value.normalForm_of_nodup hdistinct
    fun x hx y hy => hs.eq_of_beq (hobjects x hx) (hobjects y hy)
  by_cases hkind : kind.isOrdered
  · refine ⟨found, ?_, hdistinct, hreached, fun _ => ⟨hqueue, hpairwise⟩⟩
    simpa [hkind, Value.collectionOf, Kind.concrete, hordered] using hvalue
  · refine ⟨_, ?_, hset, fun y => (hmem y).trans (hreached y), fun h => absurd h hkind⟩
    simpa [hkind, Value.collectionOf, Kind.concrete] using hvalue

/-- What an association end leads to from a value. -/
def along (s : Snapshot) (role : String) : Value → Value
  | .object o => s.linked o role
  | _ => .undefined

/-- Links lead to objects that were created. -/
theorem holds_of_mem_along {role : String} {x y : Value}
    (hy : y ∈ EvalM.stepTargets (s.along role x)) : s.Holds y := by
  have htargets (o : ObjectRef) :
      ∀ z ∈ (s.targets o role).map Value.object, z ∈ s.objectValues := by
    intro z hz
    obtain ⟨target, htarget, rfl⟩ := List.mem_map.mp hz
    obtain ⟨l, -, hl⟩ := List.mem_filterMap.mp htarget
    split at hl
    · obtain ⟨record, hrecord, rfl⟩ := Option.map_eq_some_iff.mp hl
      exact List.mem_map.mpr ⟨record, List.mem_of_getElem? hrecord, rfl⟩
    · cases hl
  cases x with
  | object o =>
    rw [along, linked] at hy
    split at hy
    · cases hy
    · next e he =>
      dsimp only at hy
      split at hy
      · exact .inr (htargets o y (Value.mem_of_mem_normalForm hy))
      · cases htargets' : s.targets o role with
        | nil =>
          rw [htargets'] at hy
          cases hy
        | cons target rest =>
          rw [htargets'] at hy
          obtain rfl := List.mem_singleton.mp hy
          exact .inr (htargets o _ (by rw [htargets']; exact List.mem_cons_self))
  | _ => cases hy

/-- The body of a loop may be the navigation of an association end. -/
theorem evaluatesTo_along {x : Value} (hx : s.Holds x) (ctx : Context) (role : String) (t ty : Ty)
    (many ordered : Bool) :
    s.toModel.EvaluatesTo (.navigate (.var "x" t) (.associationEnd role many ordered) false ty)
      (ctx.bind "x" x) (s.along role x) := by
  have hvar : Returns (ctx.bind "x" x).stack (s.toModel.eval 1 (.var "x" t)) x :=
    ObjectModel.returns_var one_pos List.lookup_cons_self t
  have hread : Returns (ctx.bind "x" x).stack
      (s.toModel.read x (.associationEnd role many ordered)) (s.along role x) := by
    rcases hx with rfl | hx
    · exact .pure _
    · obtain ⟨record, -, rfl⟩ := List.mem_map.mp hx
      exact .pure _
  have hnode : Returns (ctx.bind "x" x).stack
      (s.toModel.eval 1 (.var "x" t) >>= (s.toModel.read · (.associationEnd role many ordered)))
      (s.along role x) := hvar.bind hread
  exact ⟨2, (hnode.observed _ _ rfl).1⟩

/-- Two parts that use each other, and a third one that uses the first of them. -/
def machine : Snapshot :=
  (((((((empty.addClass "Part" []).addEnd "Part" "uses" ⟨"Part", true, true⟩).createObject "Part"
    "top").createObject "Part" "left").createObject "Part" "right").link ⟨0, "Part", "top"⟩ "uses"
    ⟨1, "Part", "left"⟩).link ⟨1, "Part", "left"⟩ "uses" ⟨2, "Part", "right"⟩).link
    ⟨2, "Part", "right"⟩ "uses" ⟨1, "Part", "left"⟩

theorem made_machine : machine.Made :=
  .link (.link (.link (.createObject (.createObject (.createObject (.addEnd (.addClass .empty
    _ _) _ _ _) _ _) _ _) _ _) _ _ _) _ _ _) _ _ _

/-- From the third part, the two are reached. It is not, though it is in the source. -/
theorem eval_closure_machine :
    let body := Expr.navigate (.var "x" (.object "Part")) (.associationEnd "uses" true true) false
      (.collection .orderedSet (.object "Part"))
    let source := Expr.var "parts" (.collection .sequence (.object "Part"))
    let elems := [Value.object ⟨0, "Part", "top"⟩, .undefined]
    let parts := Value.collection .sequence (.object "Part") elems
    let ctx := Context.empty.bind "parts" parts
    let loop := Expr.loop .closure source ["x"] none body (.collection .orderedSet (.object "Part"))
    let next := fun x => definedTargets (machine.along "uses" x)
    machine.Made ∧ machine.toModel.EvaluatesTo source ctx parts ∧
      (∀ x ∈ elems, machine.Holds x) ∧
      (∀ x, machine.Holds x →
        machine.toModel.EvaluatesTo body (ctx.bind "x" x) (machine.along "uses" x) ∧
          ∀ y ∈ EvalM.stepTargets (machine.along "uses" x), machine.Holds y) ∧
      machine.toModel.EvaluatesTo loop ctx (.collection .orderedSet (.object "Part")
        [.object ⟨1, "Part", "left"⟩, .object ⟨2, "Part", "right"⟩]) ∧
      ∃ reached, machine.toModel.EvaluatesTo loop ctx
          (.collection .orderedSet (.object "Part") reached) ∧
        reached.Nodup ∧ (∀ y, y ∈ reached ↔ ∃ n, ReachedIn next elems (n + 1) y) ∧
        (Kind.sequence.isOrdered → reached = ((elems ++ reached).flatMap next).eraseDups ∧
          reached.Pairwise (NoFurther next elems)) := by
  intro body source elems parts ctx loop next
  have hsource : machine.toModel.EvaluatesTo source ctx parts := ⟨1, rfl⟩
  have helems : ∀ x ∈ elems, machine.Holds x := by
    refine List.forall_mem_cons.mpr ⟨.inr List.mem_cons_self, ?_⟩
    exact List.forall_mem_singleton.mpr (.inl rfl)
  have hbody : ∀ x, machine.Holds x →
      machine.toModel.EvaluatesTo body (ctx.bind "x" x) (machine.along "uses" x) ∧
        ∀ y ∈ EvalM.stepTargets (machine.along "uses" x), machine.Holds y :=
    fun x hx => ⟨evaluatesTo_along hx ctx _ _ _ _ _, fun _ => holds_of_mem_along⟩
  have hrun : ∀ x ∈ .undefined :: machine.objectValues,
      ((machine.toModel.eval 3 body).run.run (ctx.bind "x" x)).1 =
        .ok (machine.along "uses" x) := by
    refine List.forall_mem_cons.mpr ⟨rfl, List.forall_mem_cons.mpr ⟨rfl, ?_⟩⟩
    exact List.forall_mem_cons.mpr ⟨rfl, List.forall_mem_singleton.mpr rfl⟩
  have hfound : Value.breadthFirst next 3 ∅ elems =
      some [.object ⟨1, "Part", "left"⟩, .object ⟨2, "Part", "right"⟩] := rfl
  have hstart : ((machine.toModel.eval 3 source).run.run ctx).1 = .ok parts := rfl
  have hvalue : ((machine.toModel.eval 4 loop).run.run ctx).1 =
      .ok (.collection .orderedSet (.object "Part")
        [.object ⟨1, "Part", "left"⟩, .object ⟨2, "Part", "right"⟩]) :=
    ObjectModel.outcome_closure hstart helems (fun x hx => hrun x (List.mem_cons.mpr hx))
      (fun _ _ _ hy => holds_of_mem_along (List.mem_filter.mp hy).1) hfound
  exact ⟨made_machine, hsource, helems, hbody, ⟨4, hvalue⟩,
    eval_closure made_machine hsource helems hbody⟩

end Snapshot

end ObjectConstraint
