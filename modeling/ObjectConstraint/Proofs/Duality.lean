import ObjectConstraint.Proofs.Construction
import ObjectConstraint.Proofs.Quantifiers
import ObjectConstraint.Proofs.Splitting

/-!
# The duality of loops

An `exists` loop is the negation of the `forAll` loop over the negated body, and a `reject` loop is
the `select` loop over the negated body. The two trees of a pair reach a decisive or an undefined
result of the body at the same choice of elements, and stop there.

* `Schema.negation` — the construction of a negation.
* `MirroredBy.negation`, `MirroredBy.of_negation` — a tree and its negation.
* `ObjectModel.mirroredBy_quantifying` — the two quantifiers over opposite bodies.
* `Schema.loop_duality` — a loop and its dual, as they are constructed and as they end.
-/

namespace ObjectConstraint

theorem Kleene.not_not (b : Option Bool) : not (not b) = b := by
  rcases b with _ | _ | _ <;> rfl

namespace Value

/-- The value that `not` makes of a value. -/
def negated (v : Value) : Value := ofBool? (Kleene.not v.bool?)

@[simp] theorem bool?_ofBool? (b : Option Bool) : (ofBool? b).bool? = b := by
  cases b <;> rfl

theorem bool?_negated (v : Value) : v.negated.bool? = Kleene.not v.bool? := bool?_ofBool? _

theorem negated_ofBool? (b : Option Bool) : (ofBool? b).negated = ofBool? (Kleene.not b) := by
  rw [negated, bool?_ofBool?]

/-- The values have opposite truth values, or both have none. -/
def Opposes (v w : Value) : Prop := w.bool? = Kleene.not v.bool?

end Value

theorem Operation.apply_not (v : Value) (ty : Ty) : apply .not v [] ty = v.negated := by
  cases v <;> rfl

/-- `not e`, for a tree with truth values. -/
def Expr.negation (e : Expr) : Expr := .call "not" (.standard .not) e [] .boolean

/-! ### Evaluation -/

namespace ObjectModel

open EvalM (Mirrors)
open Value (Opposes)

variable {M : ObjectModel} {R : Value → Value → Prop} {e e' source body body' : Expr}
  {iterators : List String} {ty : Ty}

namespace MirroredBy

theorem negationLeft (h : M.MirroredBy R e e') :
    M.MirroredBy (fun v w => ∃ u, R u w ∧ v = u.negated) e.negation e' := by
  intro fuel
  cases fuel with
  | zero => exact ⟨0, fun _ _ _ => .outOfFuel⟩
  | succ fuel =>
    obtain ⟨enough, henough⟩ := h fuel
    refine ⟨enough, fun fuel' hfuel' s => ?_⟩
    refine .observedLeft _ ((henough fuel' hfuel' s).bindLeft fun u w huw => ?_)
    exact .pure ⟨u, huw, Operation.apply_not u _⟩

theorem negationRight (h : M.MirroredBy R e e') :
    M.MirroredBy (fun v w => ∃ u, R v u ∧ w = u.negated) e e'.negation := by
  intro fuel
  obtain ⟨enough, henough⟩ := h fuel
  refine ⟨enough + 1, fun fuel' hfuel' s => ?_⟩
  obtain ⟨fuel', rfl⟩ : ∃ n, fuel' = n + 1 := ⟨fuel' - 1, by omega⟩
  refine .observedRight _ ((henough fuel' (by omega) s).bindRight fun v u hvu => ?_)
  exact .pure ⟨u, hvu, Operation.apply_not u _⟩

theorem negation (M : ObjectModel) (e : Expr) : M.MirroredBy Opposes e e.negation := by
  refine (refl M e).negationRight.mono ?_
  rintro v _ ⟨_, rfl, rfl⟩
  exact v.bool?_negated

theorem of_negation (M : ObjectModel) (e : Expr) : M.MirroredBy Opposes e.negation e := by
  refine (refl M e).negationLeft.mono ?_
  rintro _ w ⟨_, rfl, rfl⟩
  rw [Opposes, Value.bool?_negated, Kleene.not_not]

end MirroredBy

/-- The two quantifiers over opposite bodies have opposite values. -/
theorem mirroredBy_quantifying (wanted : Bool) (hbody : M.MirroredBy Opposes body body') :
    M.MirroredBy (fun v w => ∃ b, v = .ofBool? b ∧ w = .ofBool? (Kleene.not b))
      (.loop (quantifying wanted) source iterators none body ty)
      (.loop (quantifying !wanted) source iterators none body' ty) := by
  refine hbody.loop ⟨none, rfl, rfl⟩ fun s fuel fuel' k elems hbody => ?_
  rw [loop_quantifying, loop_quantifying]
  refine (EvalM.mirrors_quantify wanted (fun s => ?_) iterators).bind ?_
  · exact (hbody s).bind fun v w hvw => .pure hvw
  · rintro b _ rfl
    exact .pure ⟨b, rfl, rfl⟩

/-- An `exists` loop ends as the negation of the `forAll` loop over the negated body. -/
theorem endsIn_exists_iff (ctx : Context) (outcome : Except EvalError Value) :
    M.EndsIn (.loop .exists source iterators none body ty) ctx outcome ↔
      M.EndsIn (Expr.loop .forAll source iterators none body.negation ty).negation ctx outcome := by
  refine endsIn_iff ?_ ?_ outcome
  · refine (mirroredBy_quantifying false (.negation M body)).negationRight.mono ?_
    rintro _ _ ⟨_, ⟨b, rfl, rfl⟩, rfl⟩
    rw [Value.negated_ofBool?, Kleene.not_not]
  · refine (mirroredBy_quantifying true (.of_negation M body)).negationLeft.mono ?_
    rintro _ _ ⟨_, ⟨b, rfl, rfl⟩, rfl⟩
    rw [Value.negated_ofBool?]

/-- A `reject` loop ends as the `select` loop over the negated body. -/
theorem endsIn_reject_iff {iterator : String} {others : List String} (ctx : Context)
    (outcome : Except EvalError Value) :
    M.EndsIn (.loop .reject source (iterator :: others) none body ty) ctx outcome ↔
      M.EndsIn (.loop .select source (iterator :: others) none body.negation ty) ctx outcome := by
  refine endsIn_iff ?_ ?_ outcome
  · exact (mirroredBy_keeping false (!·) (.negation M body)).mono fun _ _ h => h.2 rfl
  · exact (mirroredBy_keeping true (!·) (.of_negation M body)).mono fun _ _ h => h.2 rfl

end ObjectModel

/-! ### Construction -/

namespace Schema

variable {S : Schema} {e : Expr} {construct : Build Expr} {scope inner : Scope}

/-- `not` before a tree that is yet to be constructed. -/
def negation (S : Schema) (construct : Build Expr) : Build Expr := do
  check (S.unary "not" (← construct))

theorem unary_not (h : S.conforms e.ty .boolean) : S.unary "not" e = .ok e.negation := by
  have hty : e.ty = .boolean ∨ e.ty = .void := by
    cases hty : e.ty <;> simp_all [Hierarchy.conforms]
  unfold unary call query? Hierarchy.resolve
  rcases hty with hty | hty
  · rw [hty]
    rfl
  · rw [hty]
    rfl

theorem outcome_negation (hconstruct : construct.outcome scope = (.ok e, inner))
    (h : S.conforms e.ty .boolean) :
    (S.negation construct).outcome scope = (.ok e.negation, inner) := by
  rw [negation, Build.outcome_bind, hconstruct]
  dsimp only
  rw [unary_not h]
  rfl

variable {scope' : Scope} {source : Expr} {iterators : List String}

/-- If a loop with a Boolean body is accepted, so is a loop over the negated body of a kind that
takes as many iterators and has the same type. -/
theorem exists_loop_negation {kind dual : LoopKind}
    (hkind : kind = .exists ∧ dual = .forAll ∨ kind = .reject ∧ dual = .select)
    (h : Build.outcome (S.loop kind source iterators construct) scope = (.ok e, scope')) :
    acceptsIterators kind iterators.length ∧ ∃ k elem body ty,
      S.loopType kind k elem body.ty = .ok ty ∧ e = .loop kind source iterators none body ty ∧
      Build.outcome (S.loop dual source iterators (S.negation construct)) scope =
        (.ok (.loop dual source iterators none body.negation ty), scope') := by
  obtain ⟨haccepts, k, elem, body, inner, ty, hsource, hbody, hty, rfl⟩ := loop_eq_ok h
  obtain rfl : inner.closed = scope' := by
    rw [outcome_loop haccepts hsource hbody hty] at h
    exact (Prod.mk.inj h).2
  have hboolean : S.conforms body.ty .boolean := by
    unfold loopType at hty
    rcases hkind with ⟨rfl, -⟩ | ⟨rfl, -⟩
    · obtain ⟨_, hcheck, -⟩ := Checked.bind_eq_ok hty
      exact Hierarchy.expectBoolean_eq_ok.mp hcheck
    · obtain ⟨_, hcheck, -⟩ := Checked.bind_eq_ok hty
      exact Hierarchy.expectBoolean_eq_ok.mp hcheck
  have hsignature := loopSignature_of_loopType hty
  refine ⟨haccepts, k, elem, body, ty, hty, rfl, outcome_loop ?_ hsource
    (outcome_negation hbody hboolean) ?_⟩
  · rcases hkind with ⟨rfl, rfl⟩ | ⟨rfl, rfl⟩
    · exact haccepts
    · exact haccepts
  · rcases hkind with ⟨rfl, rfl⟩ | ⟨rfl, rfl⟩
    · obtain rfl := hsignature
      rfl
    · obtain ⟨rfl, -⟩ := hsignature
      rfl

/-- Wherever `source->exists(iterators | body)` is accepted, so is
`not source->forAll(iterators | not body)`, and in any model and from any bindings the two end
alike, with the same value or the same error, if at all. So do `source->reject(iterator | body)` and
`source->select(iterator | not body)`. -/
theorem loop_duality (S : Schema) (M : ObjectModel) (source : Expr) (iterators : List String)
    (construct : Build Expr) (scope scope' : Scope) (e : Expr) :
    (Build.outcome (S.loop .exists source iterators construct) scope = (.ok e, scope') →
      ∃ dual,
        Build.outcome (S.negation (S.loop .forAll source iterators (S.negation construct))) scope =
          (.ok dual, scope') ∧
        ∀ ctx outcome, M.EndsIn e ctx outcome ↔ M.EndsIn dual ctx outcome) ∧
      (Build.outcome (S.loop .reject source iterators construct) scope = (.ok e, scope') →
        ∃ dual,
          Build.outcome (S.loop .select source iterators (S.negation construct)) scope =
            (.ok dual, scope') ∧
          ∀ ctx outcome, M.EndsIn e ctx outcome ↔ M.EndsIn dual ctx outcome) := by
  constructor
  · intro h
    obtain ⟨-, k, elem, body, ty, hty, rfl, hdual⟩ :=
      exists_loop_negation (.inl ⟨rfl, rfl⟩) h
    obtain rfl : ty = .boolean := loopSignature_of_loopType hty
    exact ⟨_, outcome_negation hdual (Hierarchy.conforms_refl _), ObjectModel.endsIn_exists_iff⟩
  · intro h
    obtain ⟨haccepts, k, elem, body, ty, -, rfl, hdual⟩ :=
      exists_loop_negation (.inr ⟨rfl, rfl⟩) h
    cases iterators with
    | nil => cases haccepts
    | cons iterator others => exact ⟨_, hdual, ObjectModel.endsIn_reject_iff⟩

/-- The second element stops both loops of each pair; the third one would make `exists` true. -/
theorem loop_duality_undefined :
    let M := Snapshot.empty.toModel
    let source := Expr.var "xs" (.collection .sequence .boolean)
    let construct : Build Expr := variableRef "x"
    let loop := fun kind => Expr.loop kind source ["x"] none (.var "x" .boolean)
    let elems := [Value.boolean false, .undefined, .boolean true]
    let bound := Context.empty.bind "xs" (.collection .sequence .boolean elems)
    Build.outcome (Schema.empty.loop .exists source ["x"] construct) .empty =
        (.ok (loop .exists .boolean), .empty) ∧
      M.EndsIn (loop .exists .boolean) bound (.ok .undefined) ∧
      (∃ dual,
        Build.outcome (Schema.empty.negation (Schema.empty.loop .forAll source ["x"]
          (Schema.empty.negation construct))) .empty = (.ok dual, .empty) ∧
        ∀ ctx outcome,
          M.EndsIn (loop .exists .boolean) ctx outcome ↔ M.EndsIn dual ctx outcome) ∧
      Build.outcome (Schema.empty.loop .reject source ["x"] construct) .empty =
        (.ok (loop .reject source.ty), .empty) ∧
      M.EndsIn (loop .reject source.ty) bound (.ok .undefined) ∧
      ∃ dual,
        Build.outcome (Schema.empty.loop .select source ["x"]
          (Schema.empty.negation construct)) .empty = (.ok dual, .empty) ∧
        ∀ ctx outcome,
          M.EndsIn (loop .reject source.ty) ctx outcome ↔ M.EndsIn dual ctx outcome := by
  intro M source construct loop elems bound
  exact ⟨rfl, ⟨2, rfl⟩, (loop_duality .empty M source ["x"] construct .empty .empty _).1 rfl,
    rfl, ⟨2, rfl⟩, (loop_duality .empty M source ["x"] construct .empty .empty _).2 rfl⟩

end Schema

end ObjectConstraint
