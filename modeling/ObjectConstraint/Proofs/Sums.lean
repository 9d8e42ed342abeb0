import ObjectConstraint.Proofs.Construction
import ObjectConstraint.Proofs.Operands

/-!
# The sum as a loop

`source->sum()` ends as `source->iterate(x; acc = 0 | acc + x)` does. The one stops adding at the
first failure, and makes a real of an integer at the start and at the end; the other one carries the
undefined value on, and makes reals at every step. An accumulator that is at the type of the sum
stays at it, and addition takes the undefined value to itself, so both are the fold of plain
addition.

* `Value.promote_add` — a sum stays at its type.
* `Collection.sum_eq_foldl` — the sum as the fold of the operation `+`.
* `ObjectModel.dependsOn_iterate` — an `iterate` loop whose step has a known value.
* `Schema.sum_eq_iterate` — the two trees.
-/

namespace ObjectConstraint

/-! ### Folds -/

namespace Value

variable {acc : Value} {ty : Ty}

theorem add_undefined (v : Value) : v.add undefined = undefined := by
  unfold add arithmetic
  cases v <;> rfl

theorem promote_undefined (ty : Ty) : undefined.promote ty = undefined := rfl

/-- A real accumulator makes a real of every sum. -/
theorem promote_add (h : acc.promote ty = acc) (v : Value) :
    (acc.add v).promote ty = acc.add v := by
  by_cases hty : ty = .real
  · subst hty
    have hacc : ∀ n, acc ≠ integer n := by
      rintro n rfl
      cases h
    unfold add arithmetic
    split
    · next m n => exact absurd rfl (hacc m)
    · split
      · next x y _ _ => cases x.add? y <;> rfl
      · rfl
  · unfold promote
    split
    · exact absurd rfl hty
    · rfl

end Value

/-- The operation `+` is addition at the type of its result, with undefined operands too. -/
theorem Operation.apply_add (acc v : Value) (ty : Ty) :
    Operation.add.apply acc [v] ty = (acc.add v).promote ty := by
  unfold apply
  split
  · next hblocked =>
    have hundefined : acc = .undefined ∨ v = .undefined := by
      simpa [blocked, strictness, Value.isUndefined_iff] using hblocked
    rcases hundefined with rfl | rfl
    · rfl
    · rw [Value.add_undefined, Value.promote_undefined]
  · rfl

/-- From an accumulator at the type of the result, adding is the same as the operation `+`. -/
theorem Operation.foldl_apply_add {acc : Value} {ty : Ty} (h : acc.promote ty = acc)
    (elems : List Value) :
    elems.foldl (fun acc v => Operation.add.apply acc [v] ty) acc = elems.foldl Value.add acc ∧
      (elems.foldl Value.add acc).promote ty = elems.foldl Value.add acc := by
  induction elems generalizing acc with
  | nil => exact ⟨rfl, h⟩
  | cons v elems ih =>
    -- the next accumulator is at the type of the result again, so the step does not promote it
    rw [List.foldl_cons, List.foldl_cons, apply_add, Value.promote_add h]
    exact ih (Value.promote_add h v)

/-- The fold of the operation `+` from zero, both at the type of the result. -/
def Value.foldSum (ty : Ty) (elems : List Value) : Value :=
  elems.foldl (fun acc v => Operation.add.apply acc [v] ty) ((Value.integer 0).promote ty)

namespace Collection

/-- A sum that stops is one that is undefined from there on. -/
theorem getD_addTo (total : Option Value) (v : Value) :
    (total.getD .undefined).add v = (addTo total v).getD .undefined := by
  cases total with
  | none => rfl
  | some acc =>
    unfold addTo
    by_cases hv : v = .undefined
    · subst hv
      exact Value.add_undefined acc
    · dsimp only
      rw [if_neg (mt Value.isUndefined_iff.mp hv)]
      show acc.add v = _
      cases acc.add v <;> rfl

theorem getD_foldl_addTo (elems : List Value) (total : Option Value) :
    elems.foldl Value.add (total.getD .undefined) = (elems.foldl addTo total).getD .undefined :=
  List.foldl_hom (fun total : Option Value => total.getD .undefined) getD_addTo

/-- The sum is the fold of the operation `+`. -/
theorem sum_eq_foldl (c : Collection) (ty : Ty) : c.sum ty = Value.foldSum ty c.elems := by
  have hzero : ((Value.integer 0).promote ty).promote ty = (Value.integer 0).promote ty := by
    cases ty <;> rfl
  obtain ⟨hsteps, hpromote⟩ := Operation.foldl_apply_add hzero c.elems
  have htotal := getD_foldl_addTo c.elems (some ((Value.integer 0).promote ty))
  have hsum : c.sum ty =
      ((c.elems.foldl addTo (some ((Value.integer 0).promote ty))).getD .undefined).promote ty := by
    unfold sum
    cases c.elems.foldl addTo (some ((Value.integer 0).promote ty)) <;> rfl
  rw [hsum, ← htotal, Option.getD_some, hpromote, Value.foldSum, hsteps]

end Collection

/-! ### Loops -/

namespace ObjectModel

open EvalM (Returns)

variable {M : ObjectModel} {source body : Expr} {iterator : String} {accumulator : Accumulator Expr}

/-- An `iterate` loop whose start and step have values gives the fold of them. -/
theorem dependsOn_iterate {start : Value} {next : Value → Value → Value} (ty : Ty) (enough : Nat)
    (hstart : ∀ fuel, enough ≤ fuel → ∀ s, Returns s (M.eval fuel accumulator.init) start)
    (hstep : ∀ fuel, enough ≤ fuel → ∀ s acc x,
      Returns ((Stack.bind s iterator x).bind accumulator.name acc) (M.eval fuel body)
        (next acc x)) :
    M.DependsOn source (ofElements fun elems => .ok (elems.foldl next start))
      (.loop .iterate source [iterator] (some accumulator) body ty) := by
  refine dependsOn_loop enough fun fuel hfuel s k elems => ?_
  refine (hstart fuel hfuel s).bind (EvalM.returns_foldEach (fun acc x => ?_) start elems)
  exact .withBinding (.withBinding (hstep fuel hfuel s acc x))

theorem dependsOn_sum (ty : Ty) :
    M.DependsOn source (ofElements fun elems => .ok (Value.foldSum ty elems))
      (.call "sum" (.standard .sum) source [] ty) := by
  refine (dependsOn_call rfl "sum" ty).congr fun v => ?_
  cases v with
  | collection k elem elems => exact congrArg _ (Collection.sum_eq_foldl ⟨k, elem, elems⟩ ty)
  | _ => rfl

/-- The loop that adds up its elements. -/
theorem dependsOn_addition {x acc : String} (hnames : x ≠ acc) (elem : Ty) {zero : Literal}
    {ty : Ty} (hzero : zero.value = (Value.integer 0).promote ty) :
    M.DependsOn source (ofElements fun elems => .ok (Value.foldSum ty elems))
      (.loop .iterate source [x] (some ⟨acc, ty, .const zero⟩)
        (.call "+" (.standard .add) (.var acc ty) [.var x elem] ty) ty) := by
  refine dependsOn_iterate ty 2 (fun fuel hfuel s => ?_) fun fuel hfuel s total v => ?_
  · exact hzero ▸ yields_literal (by omega) s zero zero.ty
  · obtain ⟨fuel, rfl⟩ : ∃ n, fuel = n + 1 := ⟨fuel - 1, by omega⟩
    have hx : ((s.bind x v).bind acc total).visible.lookup x = some v := by
      rw [Stack.visible_bind, Parts.lookup_cons_ne hnames, Stack.visible_bind,
        List.lookup_cons_self]
    exact returns_binary rfl "+" ty (returns_var (by omega) List.lookup_cons_self ty)
      (returns_var (by omega) hx elem)

end ObjectModel

/-! ### Construction -/

namespace Schema

variable {S : Schema}

/-- The type of the sum of elements of a type: `Real` for reals, else `Integer`. -/
def sumType (elem : Ty) : Ty := if elem = .real then .real else .integer

/-- Zero at the type of the sum. -/
def zeroFor (elem : Ty) : Literal := if elem = .real then .real (.finite .zero) else .integer 0

theorem ty_zeroFor (elem : Ty) : (zeroFor elem).ty = sumType elem := by
  unfold zeroFor sumType
  split <;> rfl

theorem value_zeroFor (elem : Ty) :
    (zeroFor elem).value = (Value.integer 0).promote (sumType elem) := by
  unfold zeroFor sumType
  split
  · have hzero : Binary64.Finite.ofInt64 0 = .zero := by decide +kernel
    show Value.real .zero = .real (.ofInt64 0)
    rw [hzero]
  · rfl

/-- `acc + x`. -/
def addition (S : Schema) (acc x : String) : Build Expr := do
  check (S.binary (← variableRef acc) "+" (← variableRef x))

theorem call_sum {source : Expr} {k : Kind} {elem : Ty} (hsource : source.ty = .collection k elem)
    (helem : S.conforms elem .real) :
    S.call source "sum" [] = .ok (.call "sum" (.standard .sum) source [] (sumType elem)) := by
  refine call_of_resolve (by rw [hsource]; exact nofun) ?_
  rw [hsource]
  simp [Hierarchy.resolve, universalOperation, Hierarchy.tableOperation,
    Hierarchy.collectionOperation, Hierarchy.queryOperation, helem, sumType]

theorem binary_addition {acc x : String} {elem : Ty} (helem : S.conforms elem .real) :
    S.binary (.var acc (sumType elem)) "+" (.var x elem) =
      .ok (.call "+" (.standard .add) (.var acc (sumType elem)) [.var x elem] (sumType elem)) := by
  have hpromoted : Hierarchy.promotedType (sumType elem) elem = sumType elem := by
    unfold Hierarchy.promotedType sumType
    by_cases helem : elem = .real <;> simp [helem]
  have hty : sumType elem = .real ∨ sumType elem = .integer := by
    unfold sumType
    split <;> simp
  refine call_of_resolve ?_ ?_
  · rintro cls (hcls : sumType elem = _)
    rcases hty with hty | hty <;> cases hty.symm.trans hcls
  · show S.resolve (sumType elem) "+" [elem] = _
    rcases hty with hty | hty <;>
      simp [hty ▸ hpromoted, hty, Hierarchy.resolve, universalOperation, Hierarchy.tableOperation,
        Hierarchy.numericOperation, helem]

theorem outcome_addition {acc x : String} {elem : Ty} (hnames : x ≠ acc)
    (helem : S.conforms elem .real) (scope : Scope) :
    let inner := scope.opened.bindAll [(x, elem), (acc, sumType elem)]
    (S.addition acc x).outcome inner =
      (.ok (.call "+" (.standard .add) (.var acc (sumType elem)) [.var x elem] (sumType elem)),
        inner) := by
  intro inner
  have hacc : inner.lookup acc = some (sumType elem) := by
    show ((scope.opened.bind x elem).bind acc _).lookup acc = _
    rw [Scope.lookup_bind, if_pos rfl]
  have hx : inner.lookup x = some elem := by
    show ((scope.opened.bind x elem).bind acc _).lookup x = _
    rw [Scope.lookup_bind, if_neg hnames, Scope.lookup_bind, if_pos rfl]
  unfold addition
  simp only [Build.outcome_bind, outcome_variableRef hacc, outcome_variableRef hx,
    Build.outcome_check, binary_addition helem]

/-- Over a source whose element type conforms to `Real`, both `source->sum()` and
`source->iterate(x; acc : T = zero | acc + x)` are accepted, where `T` is `Real` and zero is `0.0`
for reals, and else `T` is `Integer` and zero is `0`. Both have type `T`, and in any model and from
any bindings they end alike, with the same value or the same error. Over elements, whatever these
are, the value is the fold of `+`; over an undefined source it is undefined. -/
theorem sum_eq_iterate (S : Schema) (M : ObjectModel) (source : Expr) (k : Kind) (elem : Ty)
    (x acc : String) (scope : Scope) (hsource : source.ty = .collection k elem)
    (helem : S.conforms elem .real) (hnames : x ≠ acc) :
    let start := ⟨acc, sumType elem, .const (zeroFor elem)⟩
    ∃ sum fold,
      S.call source "sum" [] = .ok sum ∧
      Build.outcome (S.iterate source x start (S.addition acc x)) scope = (.ok fold, scope) ∧
      sum.ty = sumType elem ∧ fold.ty = sumType elem ∧
      (∀ ctx outcome, M.EndsIn sum ctx outcome ↔ M.EndsIn fold ctx outcome) ∧
      (∀ ctx kind made elems, M.EvaluatesTo source ctx (.collection kind made elems) →
        M.EvaluatesTo sum ctx (.foldSum (sumType elem) elems)) ∧
      ∀ ctx, M.EvaluatesTo source ctx .undefined → M.EvaluatesTo sum ctx .undefined := by
  intro start
  have hzero : S.conforms (zeroFor elem).ty (sumType elem) := by
    rw [ty_zeroFor]
    exact Hierarchy.conforms_refl _
  have hfold : Build.outcome (S.iterate source x start (S.addition acc x)) scope = _ :=
    outcome_iterate hsource hzero (outcome_addition hnames helem scope) (Hierarchy.conforms_refl _)
  rw [Scope.closed_bindAll_opened] at hfold
  have hsum : M.DependsOn source _ _ := ObjectModel.dependsOn_sum (sumType elem)
  have hloop : M.DependsOn source _ _ :=
    ObjectModel.dependsOn_addition hnames elem (value_zeroFor elem)
  exact ⟨_, _, call_sum hsource helem, hfold, rfl, rfl, hsum.endsIn_iff hloop,
    fun _ _ _ _ hv => hsum.evaluatesTo hv rfl, fun _ hv => hsum.evaluatesTo hv rfl⟩

/-- The first two integers exceed 64 bits, so the sum is undefined though all three do not. The loop
adds the last one to the undefined value. -/
theorem sum_eq_iterate_overflow :
    let M := Snapshot.empty.toModel
    let source := Expr.var "xs" (.collection .sequence .integer)
    let elems := [Value.integer Int64.maxValue, .integer 1, .integer (-1)]
    let ctx := Context.empty.bind "xs" (.collection .sequence .integer elems)
    let start := ⟨"acc", .integer, .const (.integer 0)⟩
    source.ty = .collection .sequence .integer ∧ Schema.empty.conforms .integer .real ∧
      "x" ≠ "acc" ∧
      ∃ sum fold,
        Schema.empty.call source "sum" [] = .ok sum ∧
        Build.outcome
          (Schema.empty.iterate source "x" start (Schema.empty.addition "acc" "x")) .empty =
            (.ok fold, .empty) ∧
        M.EvaluatesTo sum ctx .undefined ∧ M.EvaluatesTo fold ctx .undefined := by
  intro M source elems ctx start
  have hnames : "x" ≠ "acc" := by decide
  obtain ⟨sum, fold, hsum, hfold, -, -, hsame, hvalues, -⟩ :=
    sum_eq_iterate .empty M source .sequence .integer "x" "acc" .empty rfl rfl hnames
  have htotal : Value.foldSum .integer elems = .undefined := rfl
  have hvalue : M.EvaluatesTo sum ctx .undefined :=
    htotal ▸ hvalues ctx .sequence .integer elems ⟨1, rfl⟩
  exact ⟨rfl, rfl, hnames, sum, fold, hsum, hfold, hvalue, (hsame ctx (.ok .undefined)).mp hvalue⟩

end Schema

end ObjectConstraint
