import ObjectConstraint.Proofs.Construction
import ObjectConstraint.Proofs.StableSorting
import ObjectConstraint.Proofs.StackKept
import ObjectConstraint.Snapshot

/-!
# Loops have values of their types

A loop is typed from the kind of its source's type and evaluated from the kind of the source's
value, by the same rule. The two kinds differ where the type has the abstract kind, and there the
rule can say different things of them.

* `Strays` — the loops of which it does.
* `LoopResult.belongs` — every other loop over elements has a value of its type.
* `LoopResult.eq_undefined_of_strays` — these have none but the undefined value.
* `ObjectModel.loop_belongs_iff` — the same of the evaluation of any loop that was constructed.
-/

namespace ObjectConstraint

/-- A loop whose value has another kind than its type: the type is made for a source that is neither
unique nor ordered, as the abstract kind counts, and the source is. -/
def Strays (kind : LoopKind) (static dynamic : Kind) : Prop :=
  static = .collection ∧
    (kind = .sortedBy ∧ dynamic.isUnique ∨ kind = .closure ∧ dynamic.isOrdered)

namespace Hierarchy

variable {H : Hierarchy} {r : Value} {t : Ty}

/-- The elements that a `collect` takes from a value belong to the element type of its type, or to
the type itself. -/
theorem belongs_spread (h : Belongs H r t) :
    ∀ x ∈ ObjectModel.spread r, Belongs H x (t.elem?.getD t) := by
  cases h with
  | any v => exact fun x _ => .any x
  | collection _ helems => exact helems
  | undefined t => exact fun x hx => List.mem_singleton.mp hx ▸ .undefined _
  | _ =>
    intro x hx
    obtain rfl := List.mem_singleton.mp hx
    constructor <;> assumption

end Hierarchy

/-! ### The value of a loop over elements -/

namespace LoopResult

variable {S : Schema} {kind : LoopKind} {static dynamic : Kind} {elem body result made : Ty}
  {v : Value}

/-- The kind of the value of a loop is the one of its type, unless the loop strays. -/
theorem concrete_resultKind (hkind : dynamic = static ∨ static = .collection)
    (hstrays : ¬ Strays kind static dynamic) :
    (kind.resultKind dynamic).concrete = kind.resultKind static ∨
      kind.resultKind static = .collection := by
  rcases hkind with rfl | rfl
  · by_cases habstract : kind.resultKind dynamic = .collection
    · exact .inr habstract
    · exact .inl (Kind.concrete_of_ne habstract)
  · cases kind with
    | sortedBy =>
      have hunique : dynamic.isUnique = false := by simpa [Strays] using hstrays
      rw [LoopKind.resultKind, hunique]
      exact .inl rfl
    | closure =>
      have hordered : dynamic.isOrdered = false := by simpa [Strays] using hstrays
      rw [LoopKind.resultKind, hordered]
      exact .inl rfl
    | _ => exact .inr rfl

theorem belongs (h : LoopResult (Belongs S.toHierarchy · elem) (Belongs S.toHierarchy · body) kind
      dynamic made v)
    (hsig : S.LoopSignature kind static elem body result)
    (hkind : dynamic = static ∨ static = .collection) (hstrays : ¬ Strays kind static dynamic) :
    Belongs S.toHierarchy v result := by
  rcases h with rfl | h
  · exact .undefined _
  unfold Schema.LoopSignature at hsig
  cases hshape : kind.shape with
  | truth =>
    rw [hshape] at h hsig
    obtain ⟨b, rfl⟩ := h
    exact hsig ▸ .boolean b
  | element =>
    rw [hshape] at h hsig
    exact hsig ▸ h
  | selection =>
    rw [hshape] at h hsig
    obtain ⟨xs, hxs, rfl⟩ := h
    exact hsig.1 ▸ Hierarchy.belongs_collectionOf made (concrete_resultKind hkind hstrays) hxs
  | image =>
    rw [hshape] at h hsig
    obtain ⟨rs, hrs, rfl⟩ := h
    refine hsig ▸ Hierarchy.belongs_collectionOf made (.inl rfl) ?_
    intro x hx
    obtain ⟨r, hr, hx⟩ := List.mem_flatMap.mp hx
    exact Hierarchy.belongs_spread (hrs r hr) x hx
  | nestedImage =>
    rw [hshape] at h hsig
    obtain ⟨rs, hrs, rfl⟩ := h
    exact hsig ▸ Hierarchy.belongs_collectionOf made (.inl rfl) hrs
  | accumulation =>
    rw [hshape] at hsig
    exact hsig.elim

/-- A loop that strays has a value of its type only if it has none. -/
theorem eq_undefined_of_strays {P R : Value → Prop} (h : LoopResult P R kind dynamic made v)
    (hsig : S.LoopSignature kind static elem body result) (hstrays : Strays kind static dynamic)
    (hbelongs : Belongs S.toHierarchy v result) : v = .undefined := by
  rcases h with rfl | h
  · rfl
  obtain ⟨rfl, hstrays⟩ := hstrays
  rcases hstrays with ⟨rfl, hunique⟩ | ⟨rfl, hordered⟩
  · obtain ⟨xs, -, rfl⟩ := h
    obtain ⟨rfl, -⟩ := hsig
    rw [LoopKind.resultKind, hunique] at hbelongs
    cases hbelongs with
    | collection hkind _ => exact absurd hkind (by decide)
  · obtain ⟨xs, -, rfl⟩ := h
    obtain ⟨rfl, -⟩ := hsig
    rw [LoopKind.resultKind, hordered] at hbelongs
    cases hbelongs with
    | collection hkind _ => exact absurd hkind (by decide)

end LoopResult

/-! ### The evaluation of a loop -/

namespace ObjectModel

open EvalM (Ensures)

variable {M : ObjectModel} {fuel : Nat}

theorem bound_of_acceptsIterators {kind : LoopKind} {iterators : List String}
    (h : Schema.acceptsIterators kind iterators.length) : kind.bound iterators = iterators := by
  unfold LoopKind.bound
  split
  · rfl
  · next hseveral =>
    have hlength : iterators.length = 1 := by
      simp_all [Schema.acceptsIterators]
    exact List.take_of_length_le hlength.le

/-- A loop that was constructed, over a source whose value belongs to its type and with a body whose
results belong to its type, has a value of its type, with one exception: a sort of a unique
collection and a closure of an ordered one have values of other types where the source's type has
the abstract kind. -/
theorem loop_belongs_iff {kind : LoopKind} {source body : Expr} {iterators : List String}
    {construct : Build Expr} {scope scope' : Scope} {ty : Ty} {ctx inner final : Context}
    {sourceValue result : Value}
    (hloop : Build.outcome (M.toSchema.loop kind source iterators construct) scope =
      (.ok (.loop kind source iterators none body ty), scope'))
    (hsource : (M.eval fuel source).run.run (ctx.enter (.loop kind source iterators none body ty)) =
      (.ok sourceValue, inner))
    (hbelongs : Belongs M.toHierarchy sourceValue source.ty)
    (hbody : ∀ vals : List Value, vals.length = iterators.length →
      (∀ x ∈ vals, Belongs M.toHierarchy x source.ty.elemOrAny) →
      ∀ before after r, before.stack = ctx.stack.bindAll (iterators.zip vals) →
        (M.eval fuel body).run.run before = (.ok r, after) → Belongs M.toHierarchy r body.ty)
    (hresult : (M.eval (fuel + 1) (.loop kind source iterators none body ty)).run.run ctx =
      (.ok result, final)) :
    Belongs M.toHierarchy result ty ↔
      ∀ k c, source.ty.kind? = some k → sourceValue.collection? = some c →
        Strays kind k c.kind → result = .undefined := by
  obtain ⟨haccepts, k, elem, _, _, _, hsourceTy, -, htype, heq⟩ := Schema.loop_eq_ok hloop
  obtain ⟨-, -, -, -, rfl, rfl⟩ := Expr.loop.inj heq
  have hsig := Schema.loopSignature_of_loopType htype
  have hstack : inner.stack = ctx.stack :=
    (keepsStack_eval fuel source _).stack_eq (ctx.stack_enter _) hsource
  obtain ⟨last, hnode⟩ := EvalM.exists_of_observed_ok hresult
  rw [evalNode, EvalM.run_bind, hsource] at hnode
  rw [hsourceTy] at hbelongs hbody ⊢
  cases hbelongs with
  | undefined =>
    obtain ⟨rfl, -⟩ : Value.undefined = result ∧ inner = last := by simpa using Prod.mk.inj hnode
    exact ⟨fun _ _ _ _ _ _ => rfl, fun _ => .undefined ty⟩
  | @collection l _ made _ elems hkind helems =>
    have hvalue : LoopResult (Belongs M.toHierarchy · elem) (Belongs M.toHierarchy · body.ty) kind l
        ty.elemOrAny result := by
      refine Ensures.of_ok (E := fun _ => True) (ensures_loop fuel l ty.elemOrAny none ?_ ?_ helems
        ?_ ?_) hstack hnode
      · rintro rfl
        cases haccepts
      · rintro rfl
        simp [Schema.acceptsIterators] at haccepts
      · rw [bound_of_acceptsIterators haccepts]
        exact fun vals hlength hvals =>
          (keepsStack_eval fuel body).ensures fun before after r =>
            hbody vals hlength hvals before after r
      · rintro rfl r hr x hx
        have hstep := hsig.2 rfl
        have hspread := Hierarchy.belongs_spread hr x (mem_spread_of_mem_stepTargets hx)
        exact Hierarchy.belongs_of_conforms hspread hstep
    constructor
    · rintro hbelongs k' c hk hc hstrays
      obtain rfl := Option.some.inj hk
      obtain rfl := Option.some.inj hc
      exact hvalue.eq_undefined_of_strays hsig hstrays hbelongs
    · intro hundefined
      by_cases hstrays : Strays kind k l
      · rw [hundefined k _ rfl rfl hstrays]
        exact .undefined ty
      · exact hvalue.belongs hsig hkind hstrays

/-- A sequence of several integers, typed as a collection of the abstract kind, is sorted by the
integers themselves. A sequence is not unique, so the sort is a sequence, as its type says. -/
theorem loop_belongs_iff_sortedBy :
    let M := Snapshot.empty.toModel
    let integer := fun n : Int64 => Part.item (Expr.const (.integer n))
    let source := Expr.ifThenElse (.const (.boolean true))
      (.collection .sequence [integer 3, integer 1, integer 2] (.collection .sequence .integer))
      (.collection .set [] (.collection .set .integer)) (.collection .collection .integer)
    let body := Expr.var "x" .integer
    let node := Expr.loop .sortedBy source ["x"] none body (.collection .sequence .integer)
    let elems := [Value.integer 3, .integer 1, .integer 2]
    M.toSchema.ifThenElse (.const (.boolean true))
        (.collection .sequence [integer 3, integer 1, integer 2] (.collection .sequence .integer))
        (.collection .set [] (.collection .set .integer)) = .ok source ∧
      (Build.outcome (M.toSchema.loop .sortedBy source ["x"] (variableRef "x")) Scope.empty).1 =
        .ok node ∧
      ((M.eval 3 source).run.run (Context.empty.enter node)).1 =
        .ok (.collection .sequence .integer elems) ∧
      Belongs M.toHierarchy (.collection .sequence .integer elems) source.ty ∧
      ((M.eval 4 node).run.run Context.empty).1 =
        .ok (.collection .sequence .integer [.integer 1, .integer 2, .integer 3]) ∧
      Belongs M.toHierarchy (.collection .sequence .integer [.integer 1, .integer 2, .integer 3])
        node.ty := by
  intro M integer source body node elems
  have hloop : Build.outcome (M.toSchema.loop .sortedBy source ["x"] (variableRef "x"))
      Scope.empty = (.ok node, Scope.empty) := rfl
  have hsource : (M.eval 3 source).run.run (Context.empty.enter node) =
      (.ok (.collection .sequence .integer elems),
        ((M.eval 3 source).run.run (Context.empty.enter node)).2) := rfl
  have hstart : ((M.eval 3 source).run.run Context.empty).1 =
      .ok (.collection .sequence .integer elems) := rfl
  have hkeys : ∀ x ∈ elems,
      EvalM.Returns Context.empty.stack (EvalM.withBinding "x" x (M.eval 3 body)) x :=
    fun x _ => (returns_var (by decide) rfl .integer).withBinding
  have hnode : EvalM.Returns Context.empty.stack (M.evalNode 3 (M.eval 3) node)
      (.collectionOf .sequence .integer (elems.mergeSort Value.le)) :=
    returns_loopNode (.eval hstart) (returns_sortedBy .sequence .integer hkeys (by simp [elems]))
  have hsorted : elems.mergeSort Value.le = [.integer 1, .integer 2, .integer 3] := by
    have hone : Value.le (.integer 3) (.integer 1) = false := rfl
    have htwo : Value.le (.integer 1) (.integer 2) = true := rfl
    have hlast : Value.le (.integer 3) (.integer 2) = false := rfl
    simp [elems, List.mergeSort, hone, htwo, hlast]
  have hvalue : ((M.eval 4 node).run.run Context.empty).1 =
      .ok (.collection .sequence .integer [.integer 1, .integer 2, .integer 3]) := by
    rw [hsorted] at hnode
    exact (hnode.observed node Context.empty rfl).1
  have hresult : (M.eval 4 node).run.run Context.empty =
      (.ok (.collection .sequence .integer [.integer 1, .integer 2, .integer 3]),
        ((M.eval 4 node).run.run Context.empty).2) := by rw [← hvalue, Prod.mk.eta]
  have hbelongs : Belongs M.toHierarchy (.collection .sequence .integer elems) source.ty := by
    refine .collection (.inr rfl) ?_
    simp only [elems, List.forall_mem_cons]
    exact ⟨.integer 3, .integer 1, .integer 2, fun _ hx => absurd hx List.not_mem_nil⟩
  refine ⟨rfl, rfl, rfl, hbelongs, hvalue,
    (loop_belongs_iff hloop hsource hbelongs ?_ hresult).mpr ?_⟩
  · -- The body gives the element that is bound.
    intro vals hlength hvals before after r hstack hrun
    obtain ⟨v, rfl⟩ := List.length_eq_one_iff.mp hlength
    obtain ⟨inner, hinner⟩ := EvalM.exists_of_observed_ok hrun
    have hlookup : (before.enter body).lookup "x" = .ok v := by
      rw [Context.lookup, ← Context.visible_stack, Context.stack_enter, hstack]
      rfl
    rw [run_var, hlookup] at hinner
    cases hinner
    exact hvals _ List.mem_cons_self
  · rintro k c - hc (⟨-, ⟨-, hunique⟩ | ⟨hclosure, -⟩⟩)
    · cases hc
      cases hunique
    · cases hclosure

/-- A closure over `Sequence{}`, typed as a collection of the abstract kind, is typed as a set and
gives an ordered set. -/
theorem closure_not_belongs :
    let M := Snapshot.empty.toModel
    let source := Expr.ifThenElse (.const (.boolean true))
      (.collection .sequence [] (.collection .sequence .integer))
      (.collection .set [] (.collection .set .integer)) (.collection .collection .integer)
    let node := Expr.loop .closure source ["x"] none (.var "x" .integer) (.collection .set .integer)
    M.toSchema.ifThenElse (.const (.boolean true))
        (.collection .sequence [] (.collection .sequence .integer))
        (.collection .set [] (.collection .set .integer)) = .ok source ∧
      (Build.outcome (M.toSchema.loop .closure source ["x"] (variableRef "x")) Scope.empty).1 =
        .ok node ∧
      ((M.eval 4 source).run.run (Context.empty.enter node)).1 =
        .ok (.collection .sequence .integer []) ∧
      Belongs M.toHierarchy (.collection .sequence .integer []) source.ty ∧
      ∃ result, ((M.eval 5 node).run.run Context.empty).1 = .ok result ∧
        ¬ Belongs M.toHierarchy result node.ty := by
  refine ⟨rfl, rfl, rfl, .collection (.inr rfl) (fun _ h => nomatch h), _, rfl, fun h => ?_⟩
  cases h with
  | collection hkind _ => exact absurd hkind (by decide)

end ObjectModel

end ObjectConstraint
