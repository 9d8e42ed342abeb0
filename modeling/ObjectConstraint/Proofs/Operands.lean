import ObjectConstraint.Proofs.Mirrors

/-!
# Trees that depend on one operand

Many trees evaluate one sub-tree first, and how they end is a function of how that ends: a call
without arguments, a navigation, a loop whose body has a known outcome on every element. Two trees
over one source that are the same function of it end alike, with whatever fuel each of them takes.

* `ObjectModel.DependsOn` — the outcome of one tree is a function of the outcome of another one.
* `DependsOn.of_node` — from the evaluation of a node.
* `DependsOn.endsIn_iff` — trees that are the same function of one source.
* `ObjectModel.dependsOn_call`, `ObjectModel.dependsOn_loop` — calls and loops.
* `ObjectModel.EvaluatesTo.call`, `ObjectModel.EvaluatesTo.binary` — calls on known operands.
-/

namespace ObjectConstraint

namespace ObjectModel

open EvalM (Returns)

variable {M : ObjectModel} {ctx : Context} {e source : Expr}

/-! ### Outcomes -/

/-- All fuel that is enough gives the same outcome. -/
theorem EndsIn.exists_fuel {outcome : Except EvalError Value} (h : M.EndsIn e ctx outcome) :
    ∃ enough, ∀ fuel, enough ≤ fuel →
      ((M.eval fuel e).run.run ctx).1 = outcome.mapError Stop.error := by
  obtain ⟨enough, hrun⟩ := h
  refine ⟨enough, fun fuel hfuel => ?_⟩
  rw [outlastedBy_eval M hfuel e ctx (by rw [hrun]; cases outcome <;> exact nofun), hrun]

/-! ### Functions of a source -/

/-- A tree fails as the source does, and if the source has a value, ends as the function says. -/
def DependsOn (M : ObjectModel) (source : Expr) (f : Value → Except EvalError Value) (e : Expr) :
    Prop :=
  ∀ ctx outcome, M.EndsIn e ctx outcome ↔
    ∃ result, M.EndsIn source ctx result ∧ outcome = result.bind f

namespace DependsOn

variable {f g : Value → Except EvalError Value}

/-- Where a node that evaluates the source first does not run out of fuel, nor does the source. -/
theorem exists_yields_source {fuel : Nat} {rest : Value → EvalM Value}
    (hnode : M.evalNode fuel (M.eval fuel) e = M.eval fuel source >>= rest)
    (hfinished : ((M.eval (fuel + 1) e).run.run ctx).1 ≠ .error .outOfFuel) :
    ∃ result, EvalM.Yields ctx.stack (M.eval fuel source) result := by
  rw [eval, EvalM.run_observed, hnode, EvalM.run_bind] at hfinished
  rw [← ctx.stack_enter e]
  rcases hrun : (M.eval fuel source).run.run (ctx.enter e) with ⟨stop | v, inner⟩
  · cases stop with
    | outOfFuel =>
      rw [hrun] at hfinished
      exact absurd rfl hfinished
    | error err => exact ⟨.error err, .eval (congrArg Prod.fst hrun)⟩
  · exact ⟨.ok v, .eval (congrArg Prod.fst hrun)⟩

/-- A node that evaluates the source first depends on it if the rest has a known outcome for each
value, with enough fuel. -/
theorem of_node (enough : Nat) (rest : Nat → Value → EvalM Value)
    (hnode : ∀ fuel, M.evalNode fuel (M.eval fuel) e = M.eval fuel source >>= rest fuel)
    (hrest : ∀ fuel, enough ≤ fuel → ∀ s v, EvalM.Yields s (rest fuel v) (f v)) :
    M.DependsOn source f e := by
  have hyields : ∀ {s fuel result}, enough ≤ fuel → EvalM.Yields s (M.eval fuel source) result →
      EvalM.Yields s (M.eval (fuel + 1) e) (result.bind f) := by
    intro s fuel result hfuel hresult
    refine .observed e ?_
    rw [hnode]
    cases result with
    | error err => exact hresult.bind_error
    | ok v => exact hresult.bind (hrest fuel hfuel s v)
  intro ctx outcome
  constructor
  · intro h
    obtain ⟨fuel, hfuel⟩ := h.exists_fuel
    -- fuel that is enough for the rest may be more than the run had
    have hrun := hfuel (max fuel enough + 1) (by omega)
    have hfinished : ((M.eval (max fuel enough + 1) e).run.run ctx).1 ≠ .error .outOfFuel := by
      rw [hrun]
      cases outcome <;> exact nofun
    obtain ⟨result, hresult⟩ := exists_yields_source (hnode (max fuel enough)) hfinished
    have hends := hyields (le_max_right fuel enough) hresult
    exact ⟨result, ⟨_, (hresult ctx rfl).1⟩, (EvalM.Yields.eval hrun).unique hends rfl⟩
  · rintro ⟨result, hresult, rfl⟩
    obtain ⟨fuel, hfuel⟩ := hresult.exists_fuel
    have hends := hyields (le_max_right fuel enough) (.eval (hfuel _ (le_max_left fuel enough)))
    exact ⟨_, (hends ctx rfl).1⟩

theorem congr (h : M.DependsOn source f e) (hfg : ∀ v, f v = g v) : M.DependsOn source g e :=
  funext hfg ▸ h

/-- What depends on what depends on a source depends on the source. -/
theorem trans {e' : Expr} (h : M.DependsOn source f e) (h' : M.DependsOn e g e') :
    M.DependsOn source (fun v => (f v).bind g) e' := by
  intro ctx outcome
  rw [h' ctx outcome]
  constructor
  · rintro ⟨result, hresult, rfl⟩
    obtain ⟨first, hfirst, rfl⟩ := (h ctx result).mp hresult
    refine ⟨first, hfirst, ?_⟩
    cases first <;> rfl
  · rintro ⟨first, hfirst, rfl⟩
    refine ⟨first.bind f, (h ctx _).mpr ⟨first, hfirst, rfl⟩, ?_⟩
    cases first <;> rfl

/-- Trees that are the same function of one source end alike. -/
theorem endsIn_iff {e' : Expr} (h : M.DependsOn source f e) (h' : M.DependsOn source f e')
    (ctx : Context) (outcome : Except EvalError Value) :
    M.EndsIn e ctx outcome ↔ M.EndsIn e' ctx outcome :=
  (h ctx outcome).trans (h' ctx outcome).symm

theorem evaluatesTo (h : M.DependsOn source f e) {v w : Value}
    (hsource : M.EvaluatesTo source ctx v) (hv : f v = .ok w) : M.EvaluatesTo e ctx w :=
  (h ctx (.ok w)).mpr ⟨.ok v, hsource, hv.symm⟩

end DependsOn

/-! ### Nodes -/

/-- What is done with the elements of a source that is a collection; what is none is undefined. -/
def ofElements (f : List Value → Except EvalError Value) (v : Value) : Except EvalError Value :=
  match v with
  | .collection _ _ elems => f elems
  | _ => .ok .undefined

/-- The same of computations, which may depend on the kind of the collection. -/
def overElements (act : Kind → List Value → EvalM Value) (v : Value) : EvalM Value :=
  match v with
  | .collection kind _ elems => act kind elems
  | _ => return .undefined

theorem yields_overElements {s : Stack} {act : Kind → List Value → EvalM Value}
    {f : List Value → Except EvalError Value}
    (h : ∀ k elems, EvalM.Yields s (act k elems) (f elems)) (v : Value) :
    EvalM.Yields s (overElements act v) (ofElements f v) := by
  cases v with
  | collection k elem elems => exact h k elems
  | _ => exact .pure _

/-- A standard operation without arguments is applied to the value of its receiver. -/
theorem dependsOn_call {op : Operation} (hop : op.isConnective = false) (name : String) (ty : Ty) :
    M.DependsOn e (fun v => .ok (op.apply v [] ty)) (.call name (.standard op) e [] ty) := by
  refine .of_node 0 (fun _ v => pure (op.apply v [] ty)) (fun fuel => ?_) fun _ _ _ _ => .pure _
  show callStandard (M.eval fuel) name op e [] ty = _
  rw [callStandard, if_neg (by rw [hop]; exact Bool.false_ne_true)]
  rfl

/-- A loop depends on its source if the loop over elements has a known outcome, with enough fuel,
that does not depend on the kind of the source. -/
theorem dependsOn_loop {kind : LoopKind} {body : Expr} {iterators : List String}
    {accumulator : Option (Accumulator Expr)} {ty : Ty}
    {f : List Value → Except EvalError Value} (enough : Nat)
    (hloop : ∀ fuel, enough ≤ fuel → ∀ s k elems,
      EvalM.Yields s (loop fuel (M.eval fuel) kind k ty.elemOrAny elems iterators accumulator body)
        (f elems)) :
    M.DependsOn source (ofElements f) (.loop kind source iterators accumulator body ty) := by
  refine .of_node enough (fun fuel => overElements fun k elems =>
    loop fuel (M.eval fuel) kind k ty.elemOrAny elems iterators accumulator body) (fun _ => rfl) ?_
  exact fun fuel hfuel s => yields_overElements (hloop fuel hfuel s)

/-! ### Known operands -/

variable {s : Stack} {fuel : Nat} {op : Operation} {left right : Expr} {v w : Value}

theorem returns_binary (hop : op.isConnective = false) (name : String) (ty : Ty)
    (hleft : Returns s (M.eval fuel left) v) (hright : Returns s (M.eval fuel right) w) :
    Returns s (M.eval (fuel + 1) (.call name (.standard op) left [right] ty))
      (op.apply v [w] ty) := by
  refine .observed _ ?_
  show Returns s (callStandard (M.eval fuel) name op left [right] ty) _
  rw [callStandard, if_neg (by rw [hop]; exact Bool.false_ne_true)]
  exact hleft.bind ((hright.bind (.pure [w])).bind (.pure _))

theorem EvaluatesTo.call (hop : op.isConnective = false) (name : String) (ty : Ty)
    (h : M.EvaluatesTo e ctx v) :
    M.EvaluatesTo (.call name (.standard op) e [] ty) ctx (op.apply v [] ty) :=
  (dependsOn_call hop name ty).evaluatesTo h rfl

theorem EvaluatesTo.binary (hop : op.isConnective = false) (name : String) (ty : Ty)
    (hleft : M.EvaluatesTo left ctx v) (hright : M.EvaluatesTo right ctx w) :
    M.EvaluatesTo (.call name (.standard op) left [right] ty) ctx (op.apply v [w] ty) := by
  obtain ⟨enough, henough⟩ := hleft.exists_fuel
  obtain ⟨enough', henough'⟩ := hright.exists_fuel
  refine ⟨max enough enough' + 1, (returns_binary hop name ty ?_ ?_ ctx rfl).1⟩
  · exact .eval (henough _ (le_max_left _ _))
  · exact Returns.eval (henough' _ (le_max_right _ _))

end ObjectModel

end ObjectConstraint
