import ObjectConstraint.Proofs.Faithful
import ObjectConstraint.Proofs.LoopValues
import ObjectConstraint.Proofs.OperationValues

/-!
# Properties that values keep

A property of values that holds of all values without members, passes to the members of a value, and
comes back when a collection or a tuple is made of them, holds of whatever an evaluation computes
from values that have it. Nothing but the two functions that make collections and tuples has to be
looked at for such a property.

* `Value.Invariant` — such a property.
* `Operation.apply`, `ObjectModel.testType`, `LoopResult` — what they compute has it.
-/

namespace ObjectConstraint

/-- A value that has no members and cannot have any. -/
def Value.isPlain : Value → Bool
  | collection .. | tuple _ => false
  | _ => true

/-- A property that holds of plain values and passes between a value and its members, both ways. -/
structure Value.Invariant (P : Value → Prop) : Prop where
  plain {v : Value} (h : v.isPlain) : P v
  member {v w : Value} (h : P v) (hw : w ∈ v.members) : P w
  collectionOf (kind : Kind) (elem : Ty) {elems : List Value} (h : ∀ x ∈ elems, P x) :
    P (.collectionOf kind elem elems)
  tupleOf {parts : List (String × Value)} (h : ∀ part ∈ parts, P part.2) : P (.tupleOf parts)

theorem Value.invariant_true : Invariant fun _ => True := by
  constructor <;> intros <;> trivial

/-! ### Result types without members -/

theorem Operation.isScalar_of_ownResult {op : Operation} {t : Ty} (h : op.ownResult = some t) :
    t.isScalar := by
  cases op <;> cases h <;> rfl

theorem Hierarchy.isScalar_promotedType (r s : Ty) : (Hierarchy.promotedType r s).isScalar := by
  rcases Hierarchy.isArithmetic_promotedType r s with h | h
  · rw [h]
    rfl
  · rw [h]
    rfl

/-! ### Plain values -/

namespace Value

variable {v w : Value}

theorem isPlain_of_isScalar {H : Hierarchy} {t : Ty} (ht : t.isScalar) (h : Belongs H v t) :
    v.isPlain := by
  cases h with
  | any => cases ht
  | collection => cases ht
  | tuple => cases ht
  | _ => rfl

theorem isPlain_ofInt (n : Int) : (ofInt n).isPlain :=
  isPlain_of_isScalar (H := .empty) rfl (belongs_ofInt (.inr rfl) n)

theorem isPlain_ofReal? (x : Option Binary64.Finite) : (ofReal? x).isPlain :=
  isPlain_of_isScalar (H := .empty) rfl (belongs_ofReal? x)

theorem isPlain_arithmetic (onInts : Int → Int → Int)
    (onReals : Binary64.Finite → Binary64.Finite → Option Binary64.Finite) (v w : Value) :
    (arithmetic onInts onReals v w).isPlain := by
  unfold arithmetic
  split
  · exact isPlain_ofInt _
  · split
    · exact isPlain_ofReal? _
    · rfl

theorem isPlain_neg (v : Value) : v.neg.isPlain := by
  cases v with
  | integer n => exact isPlain_ofInt _
  | _ => rfl

theorem isPlain_abs (v : Value) : v.abs.isPlain := by
  cases v with
  | integer n => exact isPlain_ofInt _
  | _ => rfl

theorem isPlain_promote (h : v.isPlain) (ty : Ty) : (v.promote ty).isPlain := by
  unfold promote
  split
  · rfl
  · exact h

end Value

theorem Collection.isPlain_sum (c : Collection) (ty : Ty) : (c.sum ty).isPlain := by
  unfold sum
  split
  · next total htotal =>
    refine Value.isPlain_promote ?_ ty
    exact foldl_addTo (P := fun v => v.isPlain) (fun acc _ x _ => Value.isPlain_arithmetic _ _ acc x)
      (Value.isPlain_promote rfl ty) htotal
  · rfl

theorem Literal.isPlain_value (lit : Literal) : lit.value.isPlain := by
  cases lit with
  | unlimitedNatural n =>
    cases n with
    | none => rfl
    | some n => exact Value.isPlain_ofInt _
  | real r => exact Value.isPlain_ofReal? _
  | _ => rfl

/-! ### What is computed from values with the property -/

namespace Value.Invariant

variable {P : Value → Prop} (hP : Value.Invariant P) {v w : Value} {args : List Value} {ty : Ty}

include hP

theorem undefined : P .undefined := hP.plain rfl

theorem promote (h : P v) (ty : Ty) : P (v.promote ty) := by
  unfold Value.promote
  split
  · exact hP.plain rfl
  · exact h

theorem argument (h : ∀ arg ∈ args, P arg) (i : Nat) : P (Operation.argument args i) := by
  unfold Operation.argument
  rw [List.getD_eq_getElem?_getD]
  cases hget : args[i]? with
  | none => exact hP.undefined
  | some arg => exact h arg (List.mem_of_getElem? hget)

theorem elems {c : Collection} (h : P v) (hc : v.collection? = some c) : ∀ x ∈ c.elems, P x := by
  cases v with
  | collection kind elem elems =>
    obtain rfl := Option.some.inj hc
    exact fun x hx => hP.member h hx
  | _ => cases hc

theorem withOther {f : Collection → Value} (h : P v)
    (hf : ∀ c : Collection, (∀ x ∈ c.elems, P x) → P (f c)) : P (Collection.withOther v f) := by
  unfold Collection.withOther
  split
  · next c hc => exact hf c (hP.elems h hc)
  · exact hP.undefined

/-- A collection of some elements of two lists. -/
theorem collectionOf_append {kind : Kind} {xs ys : List Value} (elem : Ty) (hxs : ∀ x ∈ xs, P x)
    (hys : ∀ y ∈ ys, P y) : P (.collectionOf kind elem (xs ++ ys)) := by
  apply hP.collectionOf
  intro x hx
  exact (List.mem_append.mp hx).elim (hxs x) (hys x)

theorem onCollection (op : Operation) {c : Collection} (hc : ∀ x ∈ c.elems, P x)
    (hargs : ∀ arg ∈ args, P arg) (ty : Ty) : P (op.onCollection c args ty) := by
  cases hown : op.ownResult with
  | some t =>
    have hbelongs := Operation.belongs_onCollection_own (H := .empty) hown c args ty
    exact hP.plain (Value.isPlain_of_isScalar (Operation.isScalar_of_ownResult hown) hbelongs)
  | none =>
    have harg := hP.argument hargs
    cases op with
    | sum => exact hP.plain (c.isPlain_sum ty)
    | maxElement => exact (c.gives_extremum .gt).elim hP.undefined hc
    | minElement => exact (c.gives_extremum .lt).elim hP.undefined hc
    | first => exact c.gives_head?.elim hP.undefined hc
    | last => exact c.gives_getLast?.elim hP.undefined hc
    | elementAt => exact (c.gives_elementAt _).elim hP.undefined hc
    | including | append =>
      exact hP.collectionOf_append _ hc fun x hx => List.mem_singleton.mp hx ▸ harg 0
    | prepend => exact hP.collectionOf _ _ (List.forall_mem_cons.mpr ⟨harg 0, hc⟩)
    | excluding => exact hP.collectionOf _ _ fun x hx => hc x (List.mem_of_mem_filter hx)
    | union => exact hP.withOther (harg 0) fun d hd => hP.collectionOf_append _ hc hd
    | intersection =>
      exact hP.withOther (harg 0) fun d _ =>
        hP.collectionOf _ _ fun x hx => hc x (Collection.mem_of_mem_matched hx)
    | difference =>
      exact hP.withOther (harg 0) fun d _ =>
        hP.collectionOf _ _ fun x hx => hc x (Collection.mem_of_mem_outside hx)
    | symmetricDifference =>
      exact hP.withOther (harg 0) fun d hd =>
        hP.collectionOf_append _ (fun x hx => hc x (Collection.mem_of_mem_outside hx))
          fun x hx => hd x (Collection.mem_of_mem_outside hx)
    | flatten =>
      apply hP.collectionOf
      intro x hx
      obtain ⟨v, hv, hx⟩ := Collection.mem_leavesOfAll.mp hx
      exact Collection.forall_leaves hP.member (hc v hv) x hx
    | asSet | asBag | asSequence | asOrderedSet => exact hP.collectionOf _ _ hc
    | subSequence =>
      show P (c.subSequence _ _)
      unfold Collection.subSequence
      split
      · exact hP.collectionOf _ _ fun x hx =>
          hc x (List.mem_of_mem_drop (List.mem_of_mem_take hx))
      · exact hP.undefined
    | add | sub | mul | neg | abs | max | min => exact hP.undefined
    | _ => cases hown

/-- A standard operation gives a value with the property on operands that have it. -/
theorem apply (op : Operation) (hv : P v) (hargs : ∀ arg ∈ args, P arg) (ty : Ty) :
    P (op.apply v args ty) := by
  unfold Operation.apply
  split
  · exact hP.undefined
  cases hown : op.ownResult with
  | some t =>
    have hbelongs := Operation.belongs_compute_own (H := .empty) hown v args ty
    exact hP.plain (Value.isPlain_of_isScalar (Operation.isScalar_of_ownResult hown) hbelongs)
  | none =>
    have honCollection : P (Collection.withOther v fun c => op.onCollection c args ty) :=
      hP.withOther hv fun c hc => hP.onCollection op hc hargs ty
    have harg := hP.argument hargs 0
    cases op with
    | add | sub | mul => exact hP.promote (hP.plain (Value.isPlain_arithmetic _ _ _ _)) ty
    | neg => exact hP.plain v.isPlain_neg
    | abs => exact hP.plain v.isPlain_abs
    | max => exact hP.promote (max_rec hv harg) ty
    | min => exact hP.promote (min_rec hv harg) ty
    | _ => first | cases hown; done | exact honCollection

theorem testType (M : ObjectModel) (test : TypeTest) (h : P v) (target : Ty) :
    P (M.testType test v target) := by
  unfold ObjectModel.testType
  split
  · exact hP.undefined
  · cases test with
    | isKindOf => exact hP.plain rfl
    | isTypeOf => exact hP.plain rfl
    | asType =>
      dsimp only
      split
      · exact hP.promote h target
      · exact hP.undefined

theorem spread (h : P v) : ∀ x ∈ ObjectModel.spread v, P x := by
  cases v with
  | collection kind elem elems => exact fun x hx => hP.member h hx
  | _ => exact fun x hx => List.mem_singleton.mp hx ▸ h

theorem stepTargets (h : P v) : ∀ x ∈ EvalM.stepTargets v, P x :=
  fun x hx => hP.spread h x (ObjectModel.mem_spread_of_mem_stepTargets hx)

theorem flatMap_spread {vs : List Value} (h : ∀ v ∈ vs, P v) :
    ∀ x ∈ vs.flatMap ObjectModel.spread, P x := by
  intro x hx
  obtain ⟨v, hv, hx⟩ := List.mem_flatMap.mp hx
  exact hP.spread (h v hv) x hx

/-- The value of a loop whose elements and whose body's results have the property. -/
theorem loopResult {kind : LoopKind} {source : Kind} (h : LoopResult P P kind source ty v) :
    P v := by
  rcases h with rfl | h
  · exact hP.undefined
  cases hshape : kind.shape with
  | truth =>
    rw [hshape] at h
    obtain ⟨b, rfl⟩ := h
    exact hP.plain rfl
  | element =>
    rw [hshape] at h
    exact h
  | selection =>
    rw [hshape] at h
    obtain ⟨xs, hxs, rfl⟩ := h
    exact hP.collectionOf _ _ hxs
  | image =>
    rw [hshape] at h
    obtain ⟨rs, hrs, rfl⟩ := h
    exact hP.collectionOf _ _ (hP.flatMap_spread hrs)
  | nestedImage =>
    rw [hshape] at h
    obtain ⟨rs, hrs, rfl⟩ := h
    exact hP.collectionOf _ _ hrs
  | accumulation =>
    rw [hshape] at h
    exact h.elim

end Value.Invariant

end ObjectConstraint
