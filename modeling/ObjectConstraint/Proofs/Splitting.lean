import ObjectConstraint.Proofs.Mirrors
import ObjectConstraint.Proofs.NormalForms

/-!
# Splitting a collection

A `select` and a `reject` loop with one body split their source between them. The body may tell
equal elements apart, as `oclIsTypeOf` does `1` and `1.0`, so which elements a loop keeps is said of
the elements themselves, and what counts as equal comes in only where they are counted.

* `ObjectModel.returns_filtered` — what a filter keeps is in normal form as it is.
* `ObjectModel.mirrors_filtered` — filters over the same truth values.
* `ObjectModel.eval_split` — the two loops.
-/

namespace ObjectConstraint

/-- The elements that pass and those that do not are all the elements. -/
theorem Collection.count_split (kind : Kind) (elem elem' : Ty) (elems : List Value)
    (passes : Value → Bool) (v : Value) :
    count ⟨kind, elem', elems.filter passes⟩ v +
      count ⟨kind, elem', elems.filter fun x => !passes x⟩ v = count ⟨kind, elem, elems⟩ v :=
  (List.countP_eq_countP_filter_add elems (· == v) passes).symm

namespace ObjectModel

open EvalM (Mirrors Returns)

variable {M : ObjectModel} {s : Stack}

theorem returns_filtered (wanted : Bool) {kind : Kind} (elem : Ty) {elems : List Value}
    {test : Value → EvalM (Option Bool)} {passes : Value → Bool}
    (hnormal : Value.isNormal kind elems) (h : ∀ x ∈ elems, Returns s (test x) (some (passes x))) :
    Returns s (filtered wanted kind elem elems test)
      (.collection kind elem (elems.filter fun x => passes x = wanted)) := by
  refine (EvalM.returns_keep h).bind ?_
  rw [← Value.collectionOf_eq_self elem (Value.isNormal_of_sublist List.filter_sublist hnormal)]
  exact .pure _

/-- Filters for the one and for the other truth value are undefined together, if their tests have
truth values together. If the tests are opposite as well, the filters give the same. -/
theorem mirrors_filtered (wanted : Bool) (kind : Kind) (elem : Ty) {elems : List Value}
    {test test' : Value → EvalM (Option Bool)} (f : Bool → Bool)
    (h : ∀ x ∈ elems, Mirrors s (fun b b' => b' = b.map f) (test x) (test' x)) :
    Mirrors s (fun v w => (v = .undefined ↔ w = .undefined) ∧ (f = (!·) → v = w))
      (filtered wanted kind elem elems test) (filtered (!wanted) kind elem elems test') := by
  refine (EvalM.mirrors_keep wanted (!wanted) f h).bind ?_
  rintro (_ | kept) (_ | kept') ⟨hsome, hsame⟩
  · exact .pure ⟨Iff.rfl, fun _ => rfl⟩
  · cases hsome
  · cases hsome
  · refine .pure ⟨⟨nofun, nofun⟩, fun hf => ?_⟩
    rw [Option.some.inj (hsame fun b => by simp [hf])]

/-! ### The loops -/

/-- The loop that keeps the elements of a truth value. -/
def keeping (wanted : Bool) : LoopKind := if wanted then .select else .reject

theorem loop_keeping (wanted : Bool) (fuel : Nat) (eval : Expr → EvalM Value) (kind : Kind)
    (elem : Ty) (elems : List Value) (iterator : String) (others : List String)
    (accumulator : Option (Accumulator Expr)) (body : Expr) :
    loop fuel eval (keeping wanted) kind elem elems (iterator :: others) accumulator body =
      filtered wanted kind elem elems
        fun x => do return (← EvalM.withBinding iterator x (eval body)).bool? := by
  cases wanted <;> rfl

variable {source body body' : Expr} {iterator : String} {others : List String}
  {accumulator : Option (Accumulator Expr)} {ty : Ty} {ctx : Context}

theorem eval_keeping (wanted : Bool) {kind : Kind} {elem : Ty} {elems : List Value}
    {passes : Value → Bool} (hsource : M.EvaluatesTo source ctx (.collection kind elem elems))
    (hnormal : Value.isNormal kind elems)
    (hbody : ∀ x ∈ elems, M.EvaluatesTo body (ctx.bind iterator x) (.boolean (passes x))) :
    M.EvaluatesTo (.loop (keeping wanted) source (iterator :: others) accumulator body ty) ctx
      (.collection kind ty.elemOrAny (elems.filter fun x => passes x = wanted)) := by
  obtain ⟨fuel, hsource, hbody⟩ := exists_returns hsource hbody
  refine .of_returns (returns_loopNode hsource ?_)
  rw [loop_keeping]
  exact returns_filtered wanted _ hnormal fun x hx => (hbody x hx).bind (.pure _)

theorem mirroredBy_keeping (wanted : Bool) (f : Bool → Bool)
    (hbody : M.MirroredBy (fun v w => w.bool? = v.bool?.map f) body body') :
    M.MirroredBy (fun v w => (v = .undefined ↔ w = .undefined) ∧ (f = (!·) → v = w))
      (.loop (keeping wanted) source (iterator :: others) accumulator body ty)
      (.loop (keeping !wanted) source (iterator :: others) accumulator body' ty) := by
  refine hbody.loop ⟨Iff.rfl, fun _ => rfl⟩ fun s fuel fuel' k elems hbody => ?_
  rw [loop_keeping, loop_keeping]
  refine mirrors_filtered wanted k _ f fun x _ => ?_
  exact (Mirrors.withBinding (hbody _)).bind fun v w hvw => .pure hvw

/-- With any body, a `select` loop and a `reject` loop are undefined together and fail together. -/
theorem endsIn_keeping (wanted : Bool) :
    let loop := fun wanted =>
      Expr.loop (keeping wanted) source (iterator :: others) accumulator body ty
    (M.EndsIn (loop wanted) ctx (.ok .undefined) →
        M.EndsIn (loop !wanted) ctx (.ok .undefined)) ∧
      ∀ err, M.EndsIn (loop wanted) ctx (.error err) →
        M.EndsIn (loop !wanted) ctx (.error err) := by
  intro loop
  have hbody : M.MirroredBy (fun v w => w.bool? = v.bool?.map id) body body := by
    refine (MirroredBy.refl M body).mono ?_
    rintro v _ rfl
    exact Option.map_id'.symm
  have hmirrored : M.MirroredBy (fun v w => v = .undefined ↔ w = .undefined) (loop wanted)
      (loop !wanted) := (mirroredBy_keeping wanted id hbody).mono fun _ _ h => h.1
  constructor
  · intro h
    obtain ⟨outcome, hends, hcorresponds⟩ := h.mirrored hmirrored
    obtain ⟨w, rfl, hw⟩ := hcorresponds.exists_ok
    rwa [hw.mp rfl] at hends
  · intro err h
    obtain ⟨outcome, hends, hcorresponds⟩ := h.mirrored hmirrored
    rwa [hcorresponds.eq_error] at hends

/-- If the body has a truth value on each element of a collection, a `select` loop keeps those with
which it is true and a `reject` loop the others, as collections of the kind of the source and in its
order; so each value is as often in both of them as it is in the source. With any body and source,
the two loops are undefined together and fail together. -/
theorem eval_split (M : ObjectModel) (ctx : Context) (source body : Expr) (iterator : String)
    (others : List String) (accumulator : Option (Accumulator Expr)) (ty : Ty) :
    let select := Expr.loop .select source (iterator :: others) accumulator body ty
    let reject := Expr.loop .reject source (iterator :: others) accumulator body ty
    (∀ kind elem elems (passes : Value → Bool),
        M.EvaluatesTo source ctx (.collection kind elem elems) → Value.isNormal kind elems →
        (∀ x ∈ elems, M.EvaluatesTo body (ctx.bind iterator x) (.boolean (passes x))) →
        let kept := elems.filter passes
        let dropped := elems.filter fun x => !passes x
        M.EvaluatesTo select ctx (.collection kind ty.elemOrAny kept) ∧
          M.EvaluatesTo reject ctx (.collection kind ty.elemOrAny dropped) ∧
          ∀ v, Collection.count ⟨kind, ty.elemOrAny, kept⟩ v +
            Collection.count ⟨kind, ty.elemOrAny, dropped⟩ v =
              Collection.count ⟨kind, elem, elems⟩ v) ∧
      (M.EndsIn select ctx (.ok .undefined) ↔ M.EndsIn reject ctx (.ok .undefined)) ∧
      ∀ err, M.EndsIn select ctx (.error err) ↔ M.EndsIn reject ctx (.error err) := by
  intro select reject
  refine ⟨?_, ⟨(endsIn_keeping true).1, (endsIn_keeping false).1⟩,
    fun err => ⟨(endsIn_keeping true).2 err, (endsIn_keeping false).2 err⟩⟩
  intro kind elem elems passes hsource hnormal hbody kept dropped
  have hselect : M.EvaluatesTo select ctx
      (.collection kind ty.elemOrAny (elems.filter fun x => passes x = true)) :=
    eval_keeping true hsource hnormal hbody
  have hreject : M.EvaluatesTo reject ctx
      (.collection kind ty.elemOrAny (elems.filter fun x => passes x = false)) :=
    eval_keeping false hsource hnormal hbody
  simp only [Bool.decide_eq_true, Bool.decide_eq_false] at hselect hreject
  exact ⟨hselect, hreject, Collection.count_split kind elem _ elems passes⟩

/-- The elements of a bag by their types: `1` and `1.0` are equal, and either loop keeps one of
them. -/
theorem eval_split_isTypeOf :
    let M := Snapshot.empty.toModel
    let elems := [Value.integer 1, .real (.ofInt64 1), .integer 2]
    let source := Expr.var "xs" (.collection .bag .real)
    let body := Expr.typeTest .isTypeOf (.var "x" .real) .integer .boolean
    let ctx := Context.empty.bind "xs" (.collection .bag .real elems)
    let passes := fun x : Value => decide (x.dynamicType = .integer)
    let kept := [Value.integer 1, .integer 2]
    let dropped := [Value.real (.ofInt64 1)]
    M.EvaluatesTo source ctx (.collection .bag .real elems) ∧ Value.isNormal .bag elems ∧
      (∀ x ∈ elems, M.EvaluatesTo body (ctx.bind "x" x) (.boolean (passes x))) ∧
      M.EvaluatesTo (.loop .select source ["x"] none body (.collection .bag .real)) ctx
        (.collection .bag .real kept) ∧
      M.EvaluatesTo (.loop .reject source ["x"] none body (.collection .bag .real)) ctx
        (.collection .bag .real dropped) ∧
      ∀ v, Collection.count ⟨.bag, .real, kept⟩ v + Collection.count ⟨.bag, .real, dropped⟩ v =
        Collection.count ⟨.bag, .real, elems⟩ v := by
  intro M elems source body ctx passes kept dropped
  have hsource : M.EvaluatesTo source ctx (.collection .bag .real elems) := ⟨1, rfl⟩
  have hnormal : Value.isNormal .bag elems := by decide +kernel
  have hbody : ∀ x ∈ elems, M.EvaluatesTo body (ctx.bind "x" x) (.boolean (passes x)) := by
    refine List.forall_mem_cons.mpr ⟨⟨2, rfl⟩, ?_⟩
    refine List.forall_mem_cons.mpr ⟨⟨2, rfl⟩, ?_⟩
    exact List.forall_mem_singleton.mpr ⟨2, rfl⟩
  exact ⟨hsource, hnormal, hbody,
    (eval_split M ctx source body "x" [] none (.collection .bag .real)).1 .bag .real elems passes
      hsource hnormal hbody⟩

end ObjectModel

end ObjectConstraint
