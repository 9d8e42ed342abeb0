import ObjectConstraint.Expr.Build
import ObjectConstraint.Proofs.Ensures

/-!
# The values of loops

A loop over evaluated elements has a value that follows from what its body does on each of them.

* `LoopResult` — what the value of a loop can be, by the shape of what the loop makes.
* `Judgement.loop` — a loop over elements has such a value, and what is judged of its body is so of
  the loop.
* `ObjectModel.alike_loop`, `ObjectModel.ensures_loop` — two loops in lockstep, and one alone.
-/

namespace ObjectConstraint

namespace LoopKind

/-- What loops make: a truth value, one of the elements, a collection of such values as the
elements are, a collection of results of the body, or what is accumulated. -/
inductive Shape where
  | truth
  | element
  | selection
  | image
  | nestedImage
  | accumulation
  deriving DecidableEq

def shape : LoopKind → Shape
  | forAll | «exists» | one | isUnique => .truth
  | any => .element
  | select | reject | sortedBy | closure => .selection
  | collect => .image
  | collectNested => .nestedImage
  | iterate => .accumulation

/-- The kind of the collection that a selecting loop makes over a source of the given kind. -/
def resultKind (kind : LoopKind) (source : Kind) : Kind :=
  match kind with
  | sortedBy => if source.isUnique then .orderedSet else .sequence
  | closure => if source.isOrdered then .orderedSet else .set
  | _ => source

/-- The iterators that are bound while the body of a loop runs: all of them if the loop takes
several, else the first. -/
def bound (kind : LoopKind) (iterators : List String) : List String :=
  if kind.takesSeveral then iterators else iterators.take 1

end LoopKind

/-- What the value of a loop can be, over a source of the given kind whose elements have the
property `P`, and with a body whose results have the property `R`. -/
def LoopResult (P R : Value → Prop) (kind : LoopKind) (source : Kind) (elem : Ty) (v : Value) :
    Prop :=
  v = .undefined ∨
    match kind.shape with
    | .truth => ∃ b, v = .boolean b
    | .element => P v
    | .selection =>
      ∃ xs : List Value, (∀ x ∈ xs, P x) ∧ v = .collectionOf (kind.resultKind source) elem xs
    | .image =>
      ∃ rs : List Value, (∀ r ∈ rs, R r) ∧
        v = .collectionOf .bag elem (rs.flatMap ObjectModel.spread)
    | .nestedImage => ∃ rs : List Value, (∀ r ∈ rs, R r) ∧ v = .collectionOf .bag elem rs
    | .accumulation => False

namespace ObjectModel

variable {P R : Value → Prop}

theorem mem_spread_of_mem_stepTargets {v x : Value} (h : x ∈ EvalM.stepTargets v) :
    x ∈ spread v := by
  cases v with
  | undefined => cases h
  | _ => exact h

theorem loopResult_ofBool? {kind : LoopKind} (source : Kind) (elem : Ty) (b : Option Bool)
    (hkind : kind.shape = .truth) : LoopResult P R kind source elem (.ofBool? b) := by
  rw [LoopResult, hkind]
  cases b with
  | none => exact .inl rfl
  | some b => exact .inr ⟨b, rfl⟩

theorem forall_of_forall₂ {α β : Type} {Q : β → Prop} {xs : List α} {rs : List β}
    (h : List.Forall₂ (fun _ r => Q r) xs rs) : ∀ r ∈ rs, Q r := by
  induction h with
  | nil => exact fun _ hr => nomatch hr
  | cons hr _ ih => exact List.forall_mem_cons.mpr ⟨hr, ih⟩

end ObjectModel

/-! ### Any judgement -/

namespace Judgement

open ObjectModel

variable {ι π : Type} {J : Judgement ι π} {p : π} {P R : Value → Prop}
  {eval : ι → Expr → EvalM Value} {body : Expr} {elems : List Value} {iterators : List String}

theorem quantified {kind : LoopKind} (source : Kind) (elem : Ty) (wanted : Bool)
    (hkind : kind.shape = .truth) (hgood : ∀ x, P x → J.good x) (helems : ∀ x ∈ elems, P x)
    (hbody : ∀ vals : List Value, vals.length = iterators.length → (∀ x ∈ vals, P x) →
      J.holds (J.boundAll p (iterators.zip vals)) (fun i => eval i body) R) :
    J.holds p (fun i => ObjectModel.quantified (eval i) wanted elems iterators body)
      (LoopResult P R kind source elem) := by
  refine J.map (J.quantify (fun x hx => hgood x (helems x hx)) ?_)
    fun b _ => loopResult_ofBool? source elem b hkind
  intro vals hlength hvals
  exact J.map (hbody vals hlength fun x hx => helems x (hvals x hx)) fun _ _ => trivial

theorem filtered {kind : LoopKind} (source : Kind) (elem : Ty) (wanted : Bool)
    {test : ι → Value → EvalM (Option Bool)} (hkind : kind = .select ∨ kind = .reject)
    (helems : ∀ x ∈ elems, P x)
    (htest : ∀ x ∈ elems, J.holds p (fun i => test i x) (fun _ => True)) :
    J.holds p (fun i => ObjectModel.filtered wanted source elem elems (test i))
      (LoopResult P R kind source elem) := by
  refine J.bind (J.keep htest) ?_
  intro kept hkept
  cases kept with
  | none => exact J.pure (.inl rfl)
  | some ys =>
    have hys : ∀ x ∈ ys, P x := fun x hx => helems x ((hkept ys rfl).subset hx)
    rcases hkind with rfl | rfl
    · exact J.pure (.inr ⟨ys, hys, rfl⟩)
    · exact J.pure (.inr ⟨ys, hys, rfl⟩)

theorem sortedBy (source : Kind) (elem : Ty) {key : ι → Value → EvalM Value}
    (helems : ∀ x ∈ elems, P x)
    (hkey : ∀ x ∈ elems, J.holds p (fun i => key i x) (fun _ => True)) :
    J.holds p (fun i => ObjectModel.sortedBy source elem elems (key i))
      (LoopResult P R .sortedBy source elem) := by
  refine J.bind (J.withKeys hkey) ?_
  intro keyed hkeyed
  cases keyed with
  | none => exact J.pure (.inl rfl)
  | some ps =>
    refine J.pure (.inr ⟨_, ?_, rfl⟩)
    intro x hx
    obtain ⟨p, hp, rfl⟩ := List.mem_map.mp hx
    have hmem : p ∈ ps := (List.mergeSort_perm ps _).mem_iff.mp hp
    exact helems p.2 (hkeyed ps rfl ▸ List.mem_map_of_mem hmem)

/-- A loop over elements has a value of its kind, if its body can be run on all of them. -/
theorem loop {kind : LoopKind} (fuel : Nat) (source : Kind) (elem : Ty)
    (accumulator : Option (Accumulator Expr)) (hkind : kind ≠ .iterate)
    (hnone : iterators = [] → J.fails (.malformed (.noIterator kind)))
    (hgood : ∀ x, P x → J.good x) (helems : ∀ x ∈ elems, P x)
    (hbody : ∀ vals : List Value, vals.length = (kind.bound iterators).length →
      (∀ x ∈ vals, P x) →
      J.holds (J.boundAll p ((kind.bound iterators).zip vals)) (fun i => eval i body) R)
    (hstep : kind = .closure → ∀ r, R r → ∀ x ∈ EvalM.stepTargets r, P x) :
    J.holds p
      (fun i => ObjectModel.loop fuel (eval i) kind source elem elems iterators accumulator body)
      (LoopResult P R kind source elem) := by
  by_cases hseveral : kind.takesSeveral
  · rw [LoopKind.bound, if_pos hseveral] at hbody
    cases kind with
    | forAll => exact J.quantified source elem true rfl hgood helems hbody
    | «exists» => exact J.quantified source elem false rfl hgood helems hbody
    | _ => cases hseveral
  · rw [LoopKind.bound, if_neg hseveral] at hbody
    rcases iterators with _ | ⟨iterator, rest⟩
    · have hmalformed : ∀ Q : Value → Prop,
          J.holds p (fun _ => EvalM.malformed (.noIterator kind)) Q := fun Q => J.fail (hnone rfl)
      cases kind with
      | forAll => exact absurd rfl hseveral
      | «exists» => exact absurd rfl hseveral
      | iterate => exact absurd rfl hkind
      | _ => exact hmalformed _
    have hact : ∀ x, P x →
        J.holds p (fun i => EvalM.withBinding iterator x (eval i body)) R :=
      fun x hx => J.withBinding (hgood x hx)
        (hbody [x] rfl fun y hy => List.mem_singleton.mp hy ▸ hx)
    have hrun : ∀ x ∈ elems,
        J.holds p (fun i => EvalM.withBinding iterator x (eval i body)) (fun _ => True) :=
      fun x hx => J.mono (hact x (helems x hx)) fun _ _ => trivial
    have htest : ∀ x ∈ elems, J.holds p
        (fun i => do return (← EvalM.withBinding iterator x (eval i body)).bool?)
        (fun _ => True) :=
      fun x hx => J.map (hrun x hx) fun _ _ => trivial
    have hresults : J.holds p
        (fun i => EvalM.forEach (fun x => EvalM.withBinding iterator x (eval i body)) elems)
        (fun rs => ∀ r ∈ rs, R r) :=
      J.mono (J.forEach fun x hx => hact x (helems x hx)) fun _ h => forall_of_forall₂ h
    cases kind with
    | forAll => exact absurd rfl hseveral
    | «exists» => exact absurd rfl hseveral
    | iterate => exact absurd rfl hkind
    | one => exact J.map (J.exactlyOne htest) fun b _ => loopResult_ofBool? source elem b rfl
    | any =>
      refine J.mono (J.firstPassing htest) ?_
      rintro v (rfl | hv)
      · exact .inl rfl
      · exact .inr (helems v hv)
    | select => exact J.filtered source elem true (.inl rfl) helems htest
    | reject => exact J.filtered source elem false (.inr rfl) helems htest
    | collect => exact J.map hresults fun rs hrs => .inr ⟨rs, hrs, rfl⟩
    | collectNested => exact J.map hresults fun rs hrs => .inr ⟨rs, hrs, rfl⟩
    | isUnique => exact J.map hresults fun rs _ => .inr ⟨_, rfl⟩
    | sortedBy => exact J.sortedBy source elem helems hrun
    | closure =>
      have hreached : J.holds p
          (fun i => EvalM.closureFrom (fun x => EvalM.withBinding iterator x (eval i body)) fuel ∅
            elems) (fun reached => ∀ y ∈ reached, P y) :=
        J.closureFrom helems fun x hx => J.mono (hact x hx) (hstep rfl)
      exact J.map hreached fun reached h => .inr ⟨reached, h, rfl⟩

/-- The accumulator of an `iterate` loop keeps what its start has and its body passes on. -/
theorem iterate {iterator : String} {accumulator : Accumulator Expr} {I : Value → Prop}
    (hI : ∀ acc, I acc → J.good acc) (helems : ∀ x ∈ elems, J.good x)
    (hinit : J.holds p (fun i => eval i accumulator.init) I)
    (hbody : ∀ x ∈ elems, ∀ acc, I acc →
      J.holds (J.boundAll p [(iterator, x), (accumulator.name, acc)]) (fun i => eval i body) I) :
    J.holds p (fun i => ObjectModel.iterate (eval i) iterator accumulator body elems) I :=
  J.bind hinit fun _ hstart => J.foldEach hstart fun acc hacc x hx =>
    J.withBinding (helems x hx) (J.withBinding (hI acc hacc) (hbody x hx acc hacc))

end Judgement

/-! ### Two computations in lockstep -/

namespace ObjectModel

open EvalM (Ensures)

variable {ι : Type} {L : Lockstep ι} {i : ι} {P R : Value → Prop} {E : EvalError → Prop}
  {eval eval' : Expr → EvalM Value} {body : Expr} {elems : List Value} {iterators : List String}

theorem alike_loop {kind : LoopKind} (fuel : Nat) (source : Kind) (elem : Ty)
    (accumulator : Option (Accumulator Expr)) (hkind : kind ≠ .iterate)
    (hnone : iterators = [] → E (.malformed (.noIterator kind)))
    (hgood : ∀ x, P x → L.good x) (helems : ∀ x ∈ elems, P x)
    (hbody : ∀ vals : List Value, vals.length = (kind.bound iterators).length →
      (∀ x ∈ vals, P x) →
      L.Alike (L.bindAll i ((kind.bound iterators).zip vals)) (eval body) (eval' body) R E)
    (hstep : kind = .closure → ∀ r, R r → ∀ x ∈ EvalM.stepTargets r, P x) :
    L.Alike i (loop fuel eval kind source elem elems iterators accumulator body)
      (loop fuel eval' kind source elem elems iterators accumulator body)
      (LoopResult P R kind source elem) E := by
  show (L.judgement E).holds i
    (fun side => loop fuel (bif side then eval else eval') kind source elem elems iterators
      accumulator body) (LoopResult P R kind source elem)
  exact Judgement.loop fuel source elem accumulator hkind hnone hgood helems hbody hstep

theorem alike_iterate {iterator : String} {accumulator : Accumulator Expr} {I : Value → Prop}
    (hI : ∀ acc, I acc → L.good acc) (helems : ∀ x ∈ elems, L.good x)
    (hinit : L.Alike i (eval accumulator.init) (eval' accumulator.init) I E)
    (hbody : ∀ x ∈ elems, ∀ acc, I acc →
      L.Alike (L.bindAll i [(iterator, x), (accumulator.name, acc)]) (eval body) (eval' body) I E) :
    L.Alike i (iterate eval iterator accumulator body elems)
      (iterate eval' iterator accumulator body elems) I E := by
  show (L.judgement E).holds i
    (fun side => iterate (bif side then eval else eval') iterator accumulator body elems) I
  exact Judgement.iterate hI helems hinit hbody

/-! ### One computation alone -/

variable {s : Stack}

/-- A loop over elements has a value of its kind, if its body can be run on all of them. -/
theorem ensures_loop {kind : LoopKind} (fuel : Nat) (source : Kind) (elem : Ty)
    (accumulator : Option (Accumulator Expr)) (hkind : kind ≠ .iterate)
    (hnone : iterators = [] → E (.malformed (.noIterator kind))) (helems : ∀ x ∈ elems, P x)
    (hbody : ∀ vals : List Value, vals.length = (kind.bound iterators).length →
      (∀ x ∈ vals, P x) →
      Ensures (s.bindAll ((kind.bound iterators).zip vals)) (eval body) R E)
    (hstep : kind = .closure → ∀ r, R r → ∀ x ∈ EvalM.stepTargets r, P x) :
    Ensures s (loop fuel eval kind source elem elems iterators accumulator body)
      (LoopResult P R kind source elem) E :=
  .of_alike (alike_loop fuel source elem accumulator hkind hnone (fun _ _ => trivial) helems
    (fun vals hlength hvals => (hbody vals hlength hvals).alike) hstep)

/-- The accumulator of an `iterate` loop keeps what its start has and its body passes on. -/
theorem ensures_iterate {iterator : String} {accumulator : Accumulator Expr} {I : Value → Prop}
    (hinit : Ensures s (eval accumulator.init) I E)
    (hbody : ∀ x ∈ elems, ∀ acc, I acc →
      Ensures (s.bindAll [(iterator, x), (accumulator.name, acc)]) (eval body) I E) :
    Ensures s (iterate eval iterator accumulator body elems) I E :=
  .of_alike (alike_iterate (fun _ _ => trivial) (fun _ _ => trivial) hinit.alike
    fun x hx acc hacc => (hbody x hx acc hacc).alike)

end ObjectModel

end ObjectConstraint
