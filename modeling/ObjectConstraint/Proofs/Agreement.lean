import ObjectConstraint.Proofs.Built
import ObjectConstraint.Proofs.KnownValues

/-!
# Trees with the same meaning

Two trees mean the same if they have one type and evaluate alike under any bindings. Putting one in
the place of the other in a larger tree changes neither the type nor the value of that.

* `EvalM.Agree` — two computations with one outcome under given bindings.
* `ObjectModel.SameMeaning` — trees of one type that evaluate alike.
* `SameMeaning.call`, `SameMeaning.ifThenElse`, `SameMeaning.letIn` — in the place of one another.
-/

namespace ObjectConstraint

namespace EvalM

variable {α β : Type} {s : Stack}

/-- Under these bindings both computations have the same outcome. -/
def Agree (s : Stack) (act act' : EvalM α) : Prop :=
  ∃ outcome, Yields s act outcome ∧ Yields s act' outcome

namespace Agree

variable {act act' : EvalM α}

theorem refl {outcome : Except EvalError α} (h : Yields s act outcome) : Agree s act act :=
  ⟨outcome, h, h⟩

theorem pure (v : α) : Agree s (Pure.pure v : EvalM α) (Pure.pure v : EvalM α) := refl (.pure v)

theorem bind {f f' : α → EvalM β} (h : Agree s act act') (hf : ∀ v, Agree s (f v) (f' v)) :
    Agree s (act >>= f) (act' >>= f') := by
  obtain ⟨err | v, hact, hact'⟩ := h
  · exact ⟨.error err, hact.bind_error, hact'.bind_error⟩
  · obtain ⟨outcome, hv, hv'⟩ := hf v
    exact ⟨outcome, hact.bind hv, hact'.bind hv'⟩

theorem withBinding {name : String} {v : Value} (h : Agree (s.bind name v) act act') :
    Agree s (EvalM.withBinding name v act) (EvalM.withBinding name v act') := by
  obtain ⟨outcome, hact, hact'⟩ := h
  exact ⟨outcome, hact.withBinding, hact'.withBinding⟩

theorem observed {act act' : EvalM Value} (h : Agree s act act') (e e' : Expr) :
    Agree s (EvalM.observed e act) (EvalM.observed e' act') := by
  obtain ⟨outcome, hact, hact'⟩ := h
  exact ⟨outcome, hact.observed e, hact'.observed e'⟩

end Agree

end EvalM

namespace ObjectModel

open EvalM (Agree Yields)

/-- Two trees have the same type and, given the fuel, evaluate alike under any bindings. -/
structure SameMeaning (M : ObjectModel) (e e' : Expr) : Prop where
  ty : e'.ty = e.ty
  agree : ∀ s fuel fuel', e.size ≤ fuel → e'.size ≤ fuel' →
    Agree s (M.eval fuel e) (M.eval fuel' e')

namespace SameMeaning

variable {M : ObjectModel} {source source' : Expr} {args args' : List Expr}

/-- Nodes mean the same if they evaluate alike with any fuel that is enough for what is in them. -/
theorem of_nodes {e e' : Expr} (hty : e'.ty = e.ty)
    (h : ∀ s fuel fuel', Expr.sizes e.children ≤ fuel → Expr.sizes e'.children ≤ fuel' →
      Agree s (M.evalNode fuel (M.eval fuel) e) (M.evalNode fuel' (M.eval fuel') e')) :
    M.SameMeaning e e' := by
  refine ⟨hty, fun s fuel fuel' hfuel hfuel' => ?_⟩
  rw [Expr.size_eq] at hfuel hfuel'
  obtain ⟨fuel, rfl⟩ : ∃ n, fuel = n + 1 := ⟨fuel - 1, by omega⟩
  obtain ⟨fuel', rfl⟩ : ∃ n, fuel' = n + 1 := ⟨fuel' - 1, by omega⟩
  exact (h s fuel fuel' (by omega) (by omega)).observed e e'

theorem literal (lit : Literal) (ty : Ty) : M.SameMeaning (.literal lit ty) (.literal lit ty) :=
  ⟨rfl, fun s _ _ hfuel hfuel' =>
    ⟨_, yields_literal hfuel s lit ty, yields_literal hfuel' s lit ty⟩⟩

theorem var (name : String) (ty : Ty) : M.SameMeaning (.var name ty) (.var name ty) :=
  ⟨rfl, fun s _ _ hfuel hfuel' => ⟨_, yields_var hfuel s name ty, yields_var hfuel' s name ty⟩⟩

theorem map_ty (h : List.Forall₂ M.SameMeaning args args') :
    args'.map Expr.ty = args.map Expr.ty := by
  induction h with
  | nil => rfl
  | cons harg _ ih => rw [List.map_cons, List.map_cons, harg.ty, ih]

theorem agree_evalAll (h : List.Forall₂ M.SameMeaning args args') {s : Stack} {fuel fuel' : Nat}
    (hfuel : Expr.sizes args ≤ fuel) (hfuel' : Expr.sizes args' ≤ fuel') :
    Agree s (evalAll (M.eval fuel) args) (evalAll (M.eval fuel') args') := by
  induction h with
  | nil => exact .pure []
  | cons harg _ ih =>
    rw [Expr.sizes] at hfuel hfuel'
    refine (harg.agree s fuel fuel' (by omega) (by omega)).bind fun v => ?_
    exact (ih (by omega) (by omega)).bind fun vs => .pure (v :: vs)

theorem call (name : String) (op : Operation) (ty : Ty) (hsource : M.SameMeaning source source')
    (hargs : List.Forall₂ M.SameMeaning args args') :
    M.SameMeaning (.call name (.standard op) source args ty)
      (.call name (.standard op) source' args' ty) := by
  refine of_nodes rfl fun s fuel fuel' hfuel hfuel' => ?_
  simp only [Expr.children, Expr.sizes] at hfuel hfuel'
  have hreceiver := hsource.agree s fuel fuel' (by omega) (by omega)
  show Agree s (callStandard _ name op source args ty) (callStandard _ name op source' args' ty)
  unfold callStandard
  split
  · refine hreceiver.bind fun left => ?_
    split
    · exact .pure _
    · cases hargs with
      | nil => exact .refl (.fail _)
      | cons harg _ =>
        simp only [Expr.sizes] at hfuel hfuel'
        exact (harg.agree s fuel fuel' (by omega) (by omega)).bind fun right => .pure _
  · refine hreceiver.bind fun receiver => ?_
    exact (agree_evalAll hargs (by omega) (by omega)).bind fun vals => .pure _

theorem ifThenElse {condition condition' onTrue onTrue' onFalse onFalse' : Expr} (ty : Ty)
    (hcondition : M.SameMeaning condition condition') (htrue : M.SameMeaning onTrue onTrue')
    (hfalse : M.SameMeaning onFalse onFalse') :
    M.SameMeaning (.ifThenElse condition onTrue onFalse ty)
      (.ifThenElse condition' onTrue' onFalse' ty) := by
  refine of_nodes rfl fun s fuel fuel' hfuel hfuel' => ?_
  simp only [Expr.children, Expr.sizes] at hfuel hfuel'
  refine (hcondition.agree s fuel fuel' (by omega) (by omega)).bind fun v => ?_
  split
  · exact htrue.agree s fuel fuel' (by omega) (by omega)
  · exact hfalse.agree s fuel fuel' (by omega) (by omega)
  · exact .pure _

theorem letIn {value value' body body' : Expr} (name : String)
    (hvalue : M.SameMeaning value value') (hbody : M.SameMeaning body body') :
    M.SameMeaning (.letIn name value body body.ty) (.letIn name value' body' body'.ty) := by
  refine of_nodes hbody.ty fun s fuel fuel' hfuel hfuel' => ?_
  simp only [Expr.children, Expr.sizes] at hfuel hfuel'
  refine (hvalue.agree s fuel fuel' (by omega) (by omega)).bind fun v => .withBinding ?_
  exact hbody.agree _ fuel fuel' (by omega) (by omega)

/-- The negation of a constant without a sign is the constant with the sign. -/
theorem negation {k : Int64} (h : 0 ≤ k.toInt) :
    M.SameMeaning (.call "-" (.standard .neg) (.const (.integer k)) [] .integer)
      (.const (.integer (.ofInt (-k.toInt)))) := by
  refine ⟨rfl, fun s fuel fuel' hfuel hfuel' => ⟨_, ?_, yields_literal hfuel' s _ _⟩⟩
  have hvalue : Value.ofInt (-k.toInt) = .integer (.ofInt (-k.toInt)) := by
    have hmin : Int64.minValue.toInt = -2 ^ 63 := Int64.toInt_minValue
    have hmax : Int64.maxValue.toInt = 2 ^ 63 - 1 := Int64.toInt_maxValue
    have hfits := k.toInt_le
    exact if_pos ⟨by omega, by omega⟩
  obtain ⟨fuel, rfl⟩ : ∃ n, fuel = n + 1 := ⟨fuel - 1, by simp [Expr.size] at hfuel; omega⟩
  have hsource : Yields s (M.eval fuel (.const (.integer k))) (.ok (.integer k)) :=
    yields_literal (by simp [Expr.size, Expr.sizes, Expr.const] at hfuel; omega) s _ _
  refine .observed _ (hsource.bind ?_)
  show Yields s (Pure.pure (Value.ofInt (-k.toInt))) _
  rw [hvalue]
  exact .pure _

end SameMeaning

end ObjectModel

end ObjectConstraint
