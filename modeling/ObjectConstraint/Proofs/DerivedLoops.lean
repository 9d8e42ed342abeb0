import ObjectConstraint.Proofs.EqualCollections
import ObjectConstraint.Proofs.Operands
import ObjectConstraint.Proofs.Quantifiers
import ObjectConstraint.Proofs.Splitting

/-!
# Loops that others define

`exists`, `forAll`, `one` and `any` are what `select` and `reject` keep, looked at through an
operation on collections; `isUnique` compares the size of the source with that of the set of the
results. The loops themselves stop as soon as they can, and `isUnique` drops repetitions from the
sorted results without making a set of them. On a collection in normal form, and with a body that
has a value on each of its elements, every loop and its definition have the same value.

* `Value.length_dropRepeats_eq_iff` — sorted and without repetitions, as many values are left as
  there were if they all differ.
* `ObjectModel.eval_quantifying`, … — the values of the loops.
* `ObjectModel.eval_definitions` — each loop and its definition.
-/

namespace ObjectConstraint

/-! ### Values -/

namespace Value

/-- The sizes of collections are compared as numbers, as long as one of them has 64 bits. -/
theorem ofNat_beq_integer (n : Nat) (m : Int64) :
    (ofNat n == integer m) = decide ((n : Int) = m.toInt) := by
  rw [Bool.eq_iff_iff, beq_iff_cmp_eq, decide_eq_true_iff, ofNat, ofInt]
  split
  · next hrange =>
    rw [cmp, compare_eq_iff_eq,
      Int64.toInt_ofInt_of_le hrange.1 (Int.lt_of_le_sub_one hrange.2)]
  · next hrange =>
    have hne : (n : Int) ≠ m.toInt := fun heq =>
      hrange ⟨heq ▸ m.minValue_le_toInt, heq ▸ m.toInt_le⟩
    have hlt : cmp undefined (integer m) = .lt := rfl
    simp [hlt, hne]

theorem ofNat_beq_ofNat {m n : Nat} (hn : n ≤ Int64.maxValue.toInt) :
    (ofNat m == ofNat n) = decide (m = n) := by
  have hvalue := ofNat_eq_integer hn
  rw [hvalue, ofNat_beq_integer, ← ofInt_eq_integer_iff.mp hvalue]
  exact decide_eq_decide.mpr Int.natCast_inj

theorem dropRepeatsAfter_sublist (last : Value) (xs : List Value) :
    (dropRepeatsAfter last xs).Sublist xs := by
  induction xs generalizing last with
  | nil => exact .slnil
  | cons x xs ih =>
    rw [dropRepeatsAfter]
    split
    · exact (ih last).cons x
    · exact (ih x).cons_cons x

theorem dropRepeats_sublist (xs : List Value) : (dropRepeats xs).Sublist xs := by
  cases xs with
  | nil => exact .slnil
  | cons x xs => exact (dropRepeatsAfter_sublist x xs).cons_cons x

/-- Sorted and without repetitions, as many values are left as there were if no two of them are
equal, and only then. -/
theorem length_dropRepeats_eq_iff (xs : List Value) :
    (dropRepeats (ascending xs)).length = xs.length ↔ xs.Pairwise fun x y => ¬ x == y := by
  have hperm := ascending_perm xs
  have hsymm : ∀ {x y : Value}, ¬ x == y → ¬ y == x := fun h heq => h (BEq.symm heq)
  -- of elements that are sorted already, as many are left only if all are
  rw [← hperm.length_eq, ← hperm.pairwise_iff hsymm]
  constructor
  · intro hlength
    have hstrict := pairwise_dropRepeats (pairwise_ascending xs)
    rw [(dropRepeats_sublist _).eq_of_length hlength] at hstrict
    exact hstrict.imp fun hlt => not_beq_iff_cmp_ne.mpr (by simp [hlt])
  · intro hdiffer
    have hstrict : (ascending xs).Pairwise fun x y => cmp x y = .lt :=
      ((pairwise_ascending xs).and hdiffer).imp fun h => cmp_eq_lt_of_le h.1 (hsymm h.2)
    rw [dropRepeats_eq_self hstrict]

end Value

/-! ### Loops -/

namespace ObjectModel

open EvalM (Returns)

variable {M : ObjectModel} {ctx : Context} {source body : Expr} {x : String} {kind : Kind}
  {made : Ty} {elems : List Value} {passes : Value → Bool} {results : Value → Value}

section Tests

variable (hsource : M.EvaluatesTo source ctx (.collection kind made elems))
  (hbody : ∀ v ∈ elems, M.EvaluatesTo body (ctx.bind x v) (.boolean (passes v)))

include hsource hbody

theorem eval_quantifying (wanted : Bool) (ty : Ty) :
    M.EvaluatesTo (.loop (quantifying wanted) source [x] none body ty) ctx
      (.boolean (elems.all (passes · == wanted) == wanted)) := by
  obtain ⟨fuel, hsource, hinside⟩ := exists_returns_inside hsource hbody
  refine .of_returns (returns_loopNode hsource ?_)
  rw [loop_quantifying]
  refine (EvalM.returns_scan wanted fun v hv => ?_).bind (.pure _)
  exact .withBinding ((hinside v hv).bind (.pure _))

theorem eval_one (ty : Ty) :
    M.EvaluatesTo (.loop .one source [x] none body ty) ctx
      (.boolean (elems.countP passes = 1)) := by
  obtain ⟨fuel, hsource, hbody⟩ := exists_returns hsource hbody
  refine .of_returns (returns_loopNode hsource ?_)
  exact (EvalM.returns_exactlyOne false fun v hv => (hbody v hv).bind (.pure _)).bind (.pure _)

theorem eval_any (ty : Ty) :
    M.EvaluatesTo (.loop .any source [x] none body ty) ctx
      ((elems.find? passes).getD .undefined) := by
  obtain ⟨fuel, hsource, hbody⟩ := exists_returns hsource hbody
  refine .of_returns (returns_loopNode hsource ?_)
  exact EvalM.returns_firstPassing fun v hv => (hbody v hv).bind (.pure _)

variable (hnormal : Value.isNormal kind elems)

include hnormal

theorem eval_select (ty : Ty) :
    M.EvaluatesTo (.loop .select source [x] none body ty) ctx
      (.collection kind ty.elemOrAny (elems.filter passes)) := by
  have hkept : (elems.filter fun v => passes v = true) = elems.filter passes := by simp
  exact hkept ▸ eval_keeping true hsource hnormal hbody

theorem eval_reject (ty : Ty) :
    M.EvaluatesTo (.loop .reject source [x] none body ty) ctx
      (.collection kind ty.elemOrAny (elems.filter fun v => !passes v)) := by
  have hkept : (elems.filter fun v => passes v = false) = elems.filter fun v => !passes v := by
    simp
  exact hkept ▸ eval_keeping false hsource hnormal hbody

end Tests

section Results

variable (hsource : M.EvaluatesTo source ctx (.collection kind made elems))
  (hbody : ∀ v ∈ elems, M.EvaluatesTo body (ctx.bind x v) (results v))

include hsource hbody

theorem eval_collectNested (ty : Ty) :
    M.EvaluatesTo (.loop .collectNested source [x] none body ty) ctx
      (.collection .bag ty.elemOrAny (Value.ascending (elems.map results))) := by
  obtain ⟨fuel, hsource, hbody⟩ := exists_returns hsource hbody
  refine .of_returns (returns_loopNode hsource ?_)
  exact (EvalM.returns_forEach hbody).bind (.pure _)

theorem eval_isUnique (ty : Ty) :
    M.EvaluatesTo (.loop .isUnique source [x] none body ty) ctx (.boolean
      ((Value.dropRepeats (Value.ascending (elems.map results))).length = elems.length)) := by
  obtain ⟨fuel, hsource, hbody⟩ := exists_returns hsource hbody
  refine .of_returns (returns_loopNode hsource ?_)
  refine (EvalM.returns_forEach hbody).bind ?_
  have hlength : (elems.map results).length = elems.length := List.length_map results
  rw [← hlength]
  exact .pure _

end Results

/-! ### Definitions -/

/-- On a collection in normal form, let `body` have a truth value on each element. Then
`source->exists(x | body)` has the value of `source->select(x | body)->notEmpty()`, `forAll` that of
`source->reject(x | body)->isEmpty()`, `one` that of `source->select(x | body)->size() = 1` and
`any` that of `source->select(x | body)->asSequence()->first()`.

Let `body` have any values on the elements, the undefined one included. Then `isUnique` is whether
`source->collectNested(x | body)->asSet()` has as many elements as the source, which is the case if
no two elements have equal values. So it has the value of
`source->collectNested(x | body)->asSet()->size() = source->size()`, as long as the size of the
source is an integer of 64 bits. Here `loopTy` and `callTy` are the types that the nodes bear. -/
theorem eval_definitions (M : ObjectModel) (ctx : Context) (source body : Expr) (x : String)
    (kind : Kind) (made : Ty) (elems : List Value) (loopTy : LoopKind → Ty)
    (callTy : Operation → Ty)
    (hsource : M.EvaluatesTo source ctx (.collection kind made elems))
    (hnormal : Value.isNormal kind elems) :
    let loop := fun kind => Expr.loop kind source [x] none body (loopTy kind)
    let call := fun name op e => Expr.call name (.standard op) e [] (callTy op)
    let equal := fun e e' => Expr.call "=" (.standard .eq) e [e'] .boolean
    let bothAre := fun e e' v => M.EvaluatesTo e ctx v ∧ M.EvaluatesTo e' ctx v
    (∀ passes : Value → Bool,
        (∀ v ∈ elems, M.EvaluatesTo body (ctx.bind x v) (.boolean (passes v))) →
        bothAre (loop .exists) (call "notEmpty" .notEmpty (loop .select))
            (.boolean (elems.any passes)) ∧
          bothAre (loop .forAll) (call "isEmpty" .isEmpty (loop .reject))
            (.boolean (elems.all passes)) ∧
          bothAre (loop .one)
            (equal (call "size" .size (loop .select)) (.const (.integer 1)))
            (.boolean (elems.countP passes = 1)) ∧
          bothAre (loop .any)
            (call "first" .first (call "asSequence" .asSequence (loop .select)))
            ((elems.find? passes).getD .undefined)) ∧
      ∀ results : Value → Value,
        (∀ v ∈ elems, M.EvaluatesTo body (ctx.bind x v) (results v)) →
        let asSet := call "asSet" .asSet (loop .collectNested)
        ∃ distinct,
          M.EvaluatesTo asSet ctx (.collection .set (loopTy .collectNested).elemOrAny distinct) ∧
          M.EvaluatesTo (loop .isUnique) ctx (.boolean (distinct.length = elems.length)) ∧
          (distinct.length = elems.length ↔
            elems.Pairwise fun v w => ¬ results v == results w) ∧
          (elems.length ≤ Int64.maxValue.toInt →
            bothAre (loop .isUnique) (equal (call "size" .size asSet) (call "size" .size source))
              (.boolean (distinct.length = elems.length))) := by
  intro loop call equal bothAre
  constructor
  · intro passes hbody
    have hselect := eval_select hsource hbody hnormal (loopTy .select)
    have hreject := eval_reject hsource hbody hnormal (loopTy .reject)
    refine ⟨⟨?_, ?_⟩, ⟨?_, ?_⟩, ⟨eval_one hsource hbody _, ?_⟩, eval_any hsource hbody _, ?_⟩
    · have hvalue : (elems.all (passes · == false) == false) = elems.any passes := by
        simp [List.any_eq_not_all_not]
      exact hvalue ▸ eval_quantifying hsource hbody false _
    · have hvalue : (!(elems.filter passes).isEmpty) = elems.any passes := by
        rw [Bool.eq_iff_iff]
        simp
      exact hvalue ▸ hselect.call rfl "notEmpty" _
    · have hvalue : (elems.all (passes · == true) == true) = elems.all passes := by simp
      exact hvalue ▸ eval_quantifying hsource hbody true _
    · have hvalue : (elems.filter fun v => !passes v).isEmpty = elems.all passes := by
        rw [Bool.eq_iff_iff]
        simp
      exact hvalue ▸ hreject.call rfl "isEmpty" _
    · have hvalue : (Value.ofNat (elems.filter passes).length == .integer 1) =
          decide (elems.countP passes = 1) := by
        rw [Value.ofNat_beq_integer, List.countP_eq_length_filter]
        exact decide_eq_decide.mpr Nat.cast_eq_one
      exact hvalue ▸ (hselect.call rfl "size" _).binary rfl "=" _ ⟨1, rfl⟩
    · have hlisted : M.EvaluatesTo (call "asSequence" .asSequence (loop .select)) ctx _ :=
        hselect.call rfl "asSequence" _
      exact List.head?_filter ▸ hlisted.call rfl "first" _
  · intro results hbody asSet
    have hasSet : M.EvaluatesTo asSet ctx (.collection .set (loopTy .collectNested).elemOrAny
        (Value.dropRepeats (Value.ascending (elems.map results)))) := by
      have hset : M.EvaluatesTo asSet ctx _ :=
        (eval_collectNested hsource hbody (loopTy .collectNested)).call rfl "asSet" _
      have hsorted := Value.ascending_eq_self (Value.pairwise_ascending (elems.map results))
      exact hsorted ▸ hset
    have hunique := eval_isUnique hsource hbody (loopTy .isUnique)
    refine ⟨_, hasSet, hunique, ?_, fun hsize => ⟨hunique, ?_⟩⟩
    · have hlength : (elems.map results).length = elems.length := List.length_map results
      rw [← hlength, Value.length_dropRepeats_eq_iff, List.pairwise_map]
    · have hsetSize : M.EvaluatesTo (call "size" .size asSet) ctx _ := hasSet.call rfl "size" _
      have hsourceSize : M.EvaluatesTo (call "size" .size source) ctx _ :=
        hsource.call rfl "size" _
      have hsizes : M.EvaluatesTo (equal (call "size" .size asSet) (call "size" .size source)) ctx
          _ := hsetSize.binary rfl "=" _ hsourceSize
      exact Value.ofNat_beq_ofNat hsize ▸ hsizes

/-- Two of three integers are greater than one: `one` ends at the second of them, and `isUnique`
meets one truth value twice. -/
theorem eval_definitions_greater :
    let M := Snapshot.empty.toModel
    let elems := [Value.integer 3, .integer 1, .integer 2]
    let source := Expr.var "xs" (.collection .orderedSet .integer)
    let body := Expr.call ">" (.standard .gt) (.var "x" .integer) [.const (.integer 1)] .boolean
    let ctx := Context.empty.bind "xs" (.collection .orderedSet .integer elems)
    let passes := fun v : Value => v.cmp (.integer 1) == .gt
    let loop := fun kind ty => Expr.loop kind source ["x"] none body ty
    let call := fun name op e ty => Expr.call name (.standard op) e [] ty
    let select := loop .select (.collection .orderedSet .integer)
    let isOne := fun e => Expr.call "=" (.standard .eq) e [.const (.integer 1)] .boolean
    let bothAre := fun e e' v => M.EvaluatesTo e ctx v ∧ M.EvaluatesTo e' ctx v
    M.EvaluatesTo source ctx (.collection .orderedSet .integer elems) ∧
      Value.isNormal .orderedSet elems ∧
      (∀ v ∈ elems, M.EvaluatesTo body (ctx.bind "x" v) (.boolean (passes v))) ∧
      bothAre (loop .exists .boolean) (call "notEmpty" .notEmpty select .boolean)
        (.boolean true) ∧
      bothAre (loop .one .boolean) (isOne (call "size" .size select .integer)) (.boolean false) ∧
      bothAre (loop .any .integer)
        (call "first" .first (call "asSequence" .asSequence select (.collection .sequence .integer))
          .integer) (.integer 3) ∧
      M.EvaluatesTo (loop .isUnique .boolean) ctx (.boolean false) := by
  intro M elems source body ctx passes loop call select isOne bothAre
  have hsource : M.EvaluatesTo source ctx (.collection .orderedSet .integer elems) := ⟨1, rfl⟩
  have hnormal : Value.isNormal .orderedSet elems := by decide +kernel
  have hbody : ∀ v ∈ elems, M.EvaluatesTo body (ctx.bind "x" v) (.boolean (passes v)) := by
    refine List.forall_mem_cons.mpr ⟨⟨3, rfl⟩, ?_⟩
    refine List.forall_mem_cons.mpr ⟨⟨3, rfl⟩, ?_⟩
    exact List.forall_mem_singleton.mpr ⟨3, rfl⟩
  obtain ⟨htests, hresults⟩ := eval_definitions M ctx source body "x" .orderedSet .integer elems
    (fun kind => match kind with
      | .select => .collection .orderedSet .integer
      | .any => .integer
      | _ => .boolean)
    (fun op => match op with
      | .asSequence => .collection .sequence .integer
      | .first | .size => .integer
      | _ => .boolean) hsource hnormal
  obtain ⟨hexists, -, hone, hany⟩ := htests passes hbody
  obtain ⟨distinct, -, hunique, hlength, -⟩ := hresults (fun v => .boolean (passes v)) hbody
  have hrepeats : ¬ distinct.length = elems.length := by
    rw [hlength]
    decide +kernel
  exact ⟨hsource, hnormal, hbody, hexists, hone, hany, by simpa [hrepeats] using hunique⟩

end ObjectModel

end ObjectConstraint
