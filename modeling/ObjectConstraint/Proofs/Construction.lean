import ObjectConstraint.Expr.Build
import ObjectConstraint.Proofs.LoopValues

/-!
# What a construction has checked

A constructor that succeeds has made a node of one form, of a type that follows from its operands,
after checks that have all passed. Each lemma reads this off one constructor.

* `Checked.bind_eq_ok`, `Build.bind_eq_ok` — a construction of several steps has passed each.
* `Build.inScope_eq_ok` — the body of a binder is made with its variables in a scope of their own.
* `Schema.navigate_eq_ok`, `Schema.call_eq_ok`, … — the constructors.
* `Schema.call_of_resolve`, `Schema.outcome_loop`, … — what they make of operands that pass.
-/

namespace ObjectConstraint

/-! ### Steps -/

namespace Checked

variable {α β : Type}

theorem bind_eq_ok {x : Checked α} {f : α → Checked β} {b : β} (h : x >>= f = .ok b) :
    ∃ a, x = .ok a ∧ f a = .ok b := by
  cases x with
  | error e => cases h
  | ok a => exact ⟨a, rfl, h⟩

end Checked

namespace Hierarchy

variable {H : Hierarchy}

theorem expect_eq_ok {found expected : Ty} {place : Place} {u : PUnit} :
    H.expect found expected place = .ok u ↔ H.conforms found expected := by
  unfold expect
  split <;> simp_all

theorem expectBoolean_eq_ok {found : Ty} {place : Place} {u : PUnit} :
    H.expectBoolean found place = .ok u ↔ H.conforms found .boolean := by
  unfold expectBoolean
  split <;> simp_all

end Hierarchy

theorem sourceParts_eq_ok {ty : Ty} {k : Kind} {elem : Ty} :
    sourceParts ty = .ok (k, elem) ↔ ty = .collection k elem := by
  cases ty <;> simp [sourceParts]

namespace Build

variable {α β : Type} {scope scope' : Scope}

/-- How a construction that starts in a scope ends, and the scope that it leaves. -/
abbrev outcome (x : Build α) (scope : Scope) : Checked α × Scope :=
  StateT.run (ExceptT.run x) scope

theorem outcome_bind (x : Build α) (f : α → Build β) (scope : Scope) :
    Build.outcome (x >>= f) scope = match x.outcome scope with
      | (.ok a, inner) => (f a).outcome inner
      | (.error e, inner) => (.error e, inner) := by
  show ExceptT.bindCont f (x.outcome scope).1 (x.outcome scope).2 = _
  rcases x.outcome scope with ⟨_ | a, inner⟩ <;> rfl

theorem bind_eq_ok {x : Build α} {f : α → Build β} {b : β}
    (h : Build.outcome (x >>= f) scope = (.ok b, scope')) :
    ∃ a inner, x.outcome scope = (.ok a, inner) ∧ (f a).outcome inner = (.ok b, scope') := by
  rw [outcome_bind] at h
  rcases hx : x.outcome scope with ⟨e | a, inner⟩
  · rw [hx] at h
    cases h
  · rw [hx] at h
    exact ⟨a, inner, rfl, h⟩

theorem outcome_get_bind (f : Scope → Build α) (scope : Scope) :
    Build.outcome (getThe Scope >>= f) scope = (f scope).outcome scope := rfl

theorem pure_eq_ok {a b : α} (h : Build.outcome (pure a) scope = (.ok b, scope')) :
    a = b ∧ scope = scope' := by
  cases h
  exact ⟨rfl, rfl⟩

theorem outcome_check (checked : Checked α) (scope : Scope) :
    Build.outcome (check checked) scope = (checked, scope) := rfl

theorem check_eq_ok {checked : Checked α} {a : α}
    (h : Build.outcome (check checked) scope = (.ok a, scope')) :
    checked = .ok a ∧ scope = scope' :=
  Prod.mk.inj h

theorem outcome_inScope (vars : List (String × Ty)) (body : Build α) (scope : Scope) :
    Build.outcome (inScope vars body) scope =
      ((body.outcome (scope.opened.bindAll vars)).1,
        (body.outcome (scope.opened.bindAll vars)).2.closed) := rfl

theorem inScope_eq_ok {vars : List (String × Ty)} {body : Build α} {a : α}
    (h : Build.outcome (inScope vars body) scope = (.ok a, scope')) :
    ∃ inner, body.outcome (scope.opened.bindAll vars) = (.ok a, inner) ∧ inner.closed = scope' := by
  rw [outcome_inScope] at h
  obtain ⟨hresult, hscope⟩ := Prod.mk.inj h
  exact ⟨_, Prod.ext hresult rfl, hscope⟩

theorem not_throw_eq_ok {error : TypeError} {a : α} :
    ¬ Build.outcome (throw error) scope = (.ok a, scope') := fun h => nomatch h

end Build

theorem variableRef_eq_ok {name : String} {e : Expr} {scope scope' : Scope}
    (h : Build.outcome (variableRef name) scope = (.ok e, scope')) :
    ∃ ty, scope.lookup name = some ty ∧ e = .var name ty := by
  unfold variableRef at h
  rw [Build.outcome_get_bind] at h
  cases hlookup : scope.lookup name with
  | none =>
    rw [hlookup] at h
    exact absurd h Build.not_throw_eq_ok
  | some ty =>
    rw [hlookup] at h
    exact ⟨ty, rfl, (Build.pure_eq_ok h).1.symm⟩

theorem outcome_variableRef {name : String} {ty : Ty} {scope : Scope}
    (h : scope.lookup name = some ty) :
    Build.outcome (variableRef name) scope = (.ok (.var name ty), scope) := by
  rw [variableRef, Build.outcome_get_bind, h]
  rfl

namespace Schema

variable {S : Schema}

/-! ### Navigation -/

theorem resolveProperty_eq_ok {cls name : String} {property : Property} {ty : Ty}
    (h : S.resolveProperty cls name = .ok (property, ty)) :
    (S.attributeType cls name = some ty ∧ property = .attr name) ∨
      ∃ e, S.associationEnd cls name = some e ∧ property = .associationEnd name e.many e.ordered ∧
        ty = e.ty := by
  unfold resolveProperty at h
  split at h
  · next t ht =>
    cases h
    exact .inl ⟨ht, rfl⟩
  · split at h
    · next e he =>
      cases h
      exact .inr ⟨e, he, rfl, rfl⟩
    · cases h

/-- A navigation reads a property of an object, a part of a tuple, or a property of every object of
a collection. -/
theorem navigate_eq_ok {source e : Expr} {name : String} (h : S.navigate source name = .ok e) :
    (∃ cls property ty, source.ty = .object cls ∧ S.resolveProperty cls name = .ok (property, ty) ∧
      e = .navigate source property false ty) ∨
    (∃ parts ty, source.ty = .tuple parts ∧ parts.lookup name = some ty ∧
      e = .navigate source (.tuplePart name) false ty) ∨
    ∃ kind cls property ty, source.ty = .collection kind (.object cls) ∧
      S.resolveProperty cls name = .ok (property, ty) ∧
      e = .navigate source property true (shorthandType kind ty) := by
  unfold navigate at h
  split at h
  · next cls hsource =>
    obtain ⟨⟨property, ty⟩, hproperty, h⟩ := Checked.bind_eq_ok h
    exact .inl ⟨cls, property, ty, hsource, hproperty, (Except.ok.inj h).symm⟩
  · next parts hsource =>
    split at h
    · next ty hty => exact .inr (.inl ⟨parts, ty, hsource, hty, (Except.ok.inj h).symm⟩)
    · cases h
  · next kind cls hsource =>
    obtain ⟨⟨property, ty⟩, hproperty, h⟩ := Checked.bind_eq_ok h
    exact .inr (.inr ⟨kind, cls, property, ty, hsource, hproperty, (Except.ok.inj h).symm⟩)
  · cases h

theorem children_of_navigate {source e : Expr} {name : String}
    (h : S.navigate source name = .ok e) : e.children = [source] := by
  rcases navigate_eq_ok h with ⟨_, _, _, -, -, rfl⟩ | ⟨_, _, -, -, rfl⟩ | ⟨_, _, _, _, -, -, rfl⟩
  · rfl
  · rfl
  · rfl

/-! ### Calls -/

theorem expectArguments_eq_ok {cls operation : String} {params : List (String × Ty)}
    {args : List Expr} {u : Unit} (hlength : params.length = args.length)
    (h : S.expectArguments cls operation params args = .ok u) :
    List.Forall₂ (fun (param : String × Ty) arg => S.conforms arg.ty param.2) params args := by
  induction params generalizing args with
  | nil =>
    obtain rfl := List.length_eq_zero_iff.mp hlength.symm
    exact .nil
  | cons param params ih =>
    cases args with
    | nil => cases hlength
    | cons arg args =>
      obtain ⟨_, hparam, h⟩ := Checked.bind_eq_ok h
      exact .cons (Hierarchy.expect_eq_ok.mp hparam) (ih (Nat.succ.inj hlength) h)

/-- A call stands for a query operation of the receiver's class, with arguments that conform to its
parameters, or for a standard operation. -/
theorem call_eq_ok {source e : Expr} {name : String} {args : List Expr}
    (h : S.call source name args = .ok e) :
    (∃ cls signature, source.ty = .object cls ∧ S.operation cls name = some signature ∧
      List.Forall₂ (fun (param : String × Ty) arg => S.conforms arg.ty param.2) signature.params
        args ∧
      e = .call name .query source args signature.result) ∨
    ∃ ty op, S.resolve source.ty name (args.map Expr.ty) = .ok (ty, op) ∧
      e = .call name (.standard op) source args ty := by
  unfold call at h
  split at h
  · next cls signature hquery =>
    unfold query? at hquery
    split at hquery
    · next hsource =>
      obtain ⟨_, hsignature, heq⟩ := Option.map_eq_some_iff.mp hquery
      obtain ⟨rfl, rfl⟩ := Prod.mk.inj heq.symm
      by_cases hlength : signature.params.length = args.length
      · rw [if_neg (not_not.mpr hlength)] at h
        obtain ⟨_, hargs, h⟩ := Checked.bind_eq_ok h
        exact .inl ⟨cls, signature, hsource, hsignature, expectArguments_eq_ok hlength hargs,
          (Except.ok.inj h).symm⟩
      · rw [if_pos hlength] at h
        cases h
    · cases hquery
  · obtain ⟨⟨ty, op⟩, hresolve, h⟩ := Checked.bind_eq_ok h
    exact .inr ⟨ty, op, hresolve, (Except.ok.inj h).symm⟩

/-- A receiver that is no object has the standard operations. -/
theorem call_of_resolve {source : Expr} {name : String} {args : List Expr} {ty : Ty}
    {op : Operation} (hsource : ∀ cls, source.ty ≠ .object cls)
    (h : S.resolve source.ty name (args.map Expr.ty) = .ok (ty, op)) :
    S.call source name args = .ok (.call name (.standard op) source args ty) := by
  have hquery : S.query? source name = none := by
    unfold query?
    split
    · next cls hcls => exact absurd hcls (hsource cls)
    · rfl
  unfold call
  rw [hquery, h]
  rfl

theorem children_of_call {source e : Expr} {name : String} {args : List Expr}
    (h : S.call source name args = .ok e) : e.children = source :: args := by
  rcases call_eq_ok h with ⟨_, _, -, -, -, rfl⟩ | ⟨_, _, -, rfl⟩
  · rfl
  · rfl

/-! ### Control -/

theorem ifThenElse_eq_ok {condition onTrue onFalse e : Expr}
    (h : S.ifThenElse condition onTrue onFalse = .ok e) :
    S.conforms condition.ty .boolean ∧
      e = .ifThenElse condition onTrue onFalse (S.join onTrue.ty onFalse.ty) := by
  obtain ⟨_, hcondition, h⟩ := Checked.bind_eq_ok h
  exact ⟨Hierarchy.expectBoolean_eq_ok.mp hcondition, (Except.ok.inj h).symm⟩

theorem letIn_eq_ok {name : String} {declared : Option Ty} {value e : Expr}
    {construct : Build Expr} {scope scope' : Scope}
    (h : Build.outcome (S.letIn name declared value construct) scope = (.ok e, scope')) :
    S.conforms value.ty (declared.getD value.ty) ∧ ∃ body inner,
      construct.outcome (scope.opened.bindAll [(name, declared.getD value.ty)]) =
        (.ok body, inner) ∧
      e = .letIn name value body body.ty := by
  have hrest : ∀ {scope : Scope},
      Build.outcome ((do
        let body ← inScope [(name, declared.getD value.ty)] construct
        return .letIn name value body body.ty : Build Expr)) scope = (.ok e, scope') →
      ∃ body inner,
        construct.outcome (scope.opened.bindAll [(name, declared.getD value.ty)]) =
          (.ok body, inner) ∧
        e = .letIn name value body body.ty := by
    intro scope h
    obtain ⟨body, _, hbody, h⟩ := Build.bind_eq_ok h
    obtain ⟨inner, hbody, -⟩ := Build.inScope_eq_ok hbody
    exact ⟨body, inner, hbody, (Build.pure_eq_ok h).1.symm⟩
  unfold letIn at h
  cases declared with
  | none => exact ⟨Hierarchy.conforms_refl _, hrest h⟩
  | some ty =>
    obtain ⟨_, _, hchecked, h⟩ := Build.bind_eq_ok h
    obtain ⟨hvalue, rfl⟩ := Build.check_eq_ok hchecked
    exact ⟨Hierarchy.expect_eq_ok.mp hvalue, hrest h⟩

/-! ### Loops -/

/-- The type of a loop over a source of the given kind and element type. -/
def LoopSignature (S : Schema) (kind : LoopKind) (source : Kind) (elem body result : Ty) : Prop :=
  match kind.shape with
  | .truth => result = .boolean
  | .element => result = elem
  | .selection => result = .collection (kind.resultKind source) elem ∧
    (kind = .closure → S.conforms (body.elem?.getD body) elem)
  | .image => result = .collection .bag (body.elem?.getD body)
  | .nestedImage => result = .collection .bag body
  | .accumulation => False

variable {kind : LoopKind} {k : Kind} {elem body ty : Ty}

theorem loopSignature_of_loopType (h : S.loopType kind k elem body = .ok ty) :
    S.LoopSignature kind k elem body ty := by
  have hty : ∀ {t : Ty}, (pure t : Checked Ty) = .ok ty → ty = t := fun h => (Except.ok.inj h).symm
  unfold loopType at h
  cases kind with
  | forAll | «exists» | one | any =>
    obtain ⟨_, -, h⟩ := Checked.bind_eq_ok h
    exact hty h
  | select | reject =>
    obtain ⟨_, -, h⟩ := Checked.bind_eq_ok h
    exact ⟨hty h, fun h => nomatch h⟩
  | isUnique | collect | collectNested => exact hty h
  | sortedBy =>
    by_cases horder : body.isOrderable
    · rw [if_neg (by decide), if_pos horder] at h
      exact ⟨hty h, fun h => nomatch h⟩
    · rw [if_neg (by decide), if_neg horder] at h
      cases h
  | closure =>
    obtain ⟨_, hstep, h⟩ := Checked.bind_eq_ok h
    exact ⟨hty h, fun _ => Hierarchy.expect_eq_ok.mp hstep⟩
  | iterate => cases h

/-- What the construction of a loop has checked. -/
theorem loop_eq_ok {source : Expr} {iterators : List String} {construct : Build Expr}
    {scope scope' : Scope} {e : Expr}
    (h : Build.outcome (S.loop kind source iterators construct) scope = (.ok e, scope')) :
    acceptsIterators kind iterators.length ∧ ∃ k elem body inner ty,
      source.ty = .collection k elem ∧
      construct.outcome (scope.opened.bindAll (iterators.map (·, elem))) = (.ok body, inner) ∧
      S.loopType kind k elem body.ty = .ok ty ∧ e = .loop kind source iterators none body ty := by
  unfold loop at h
  by_cases haccepts : acceptsIterators kind iterators.length
  swap
  · rw [if_neg haccepts] at h
    obtain ⟨_, _, h, -⟩ := Build.bind_eq_ok h
    exact absurd h Build.not_throw_eq_ok
  rw [if_pos haccepts] at h
  obtain ⟨⟨k, elem⟩, _, hsource, h⟩ := Build.bind_eq_ok h
  obtain ⟨hparts, rfl⟩ := Build.check_eq_ok hsource
  obtain ⟨body, _, hbody, h⟩ := Build.bind_eq_ok h
  obtain ⟨inner, hbody, -⟩ := Build.inScope_eq_ok hbody
  obtain ⟨ty, _, hty, h⟩ := Build.bind_eq_ok h
  obtain ⟨htype, rfl⟩ := Build.check_eq_ok hty
  obtain ⟨rfl, -⟩ := Build.pure_eq_ok h
  exact ⟨haccepts, k, elem, body, inner, ty, sourceParts_eq_ok.mp hparts, hbody, htype, rfl⟩

/-- The construction of a loop whose parts pass its checks. -/
theorem outcome_loop {source body : Expr} {iterators : List String} {construct : Build Expr}
    {scope inner : Scope} (haccepts : acceptsIterators kind iterators.length)
    (hsource : source.ty = .collection k elem)
    (hbody : construct.outcome (scope.opened.bindAll (iterators.map (·, elem))) = (.ok body, inner))
    (hty : S.loopType kind k elem body.ty = .ok ty) :
    Build.outcome (S.loop kind source iterators construct) scope =
      (.ok (.loop kind source iterators none body ty), inner.closed) := by
  unfold loop
  rw [if_pos haccepts, sourceParts_eq_ok.mpr hsource]
  simp only [Build.outcome_bind, Build.outcome_check, Build.outcome_inScope, hbody, hty]
  rfl

/-- What the construction of an `iterate` loop has checked. -/
theorem iterate_eq_ok {source e : Expr} {iterator : String} {accumulator : Accumulator Expr}
    {construct : Build Expr} {scope scope' : Scope}
    (h : Build.outcome (S.iterate source iterator accumulator construct) scope = (.ok e, scope')) :
    ∃ k elem body inner,
      source.ty = .collection k elem ∧ S.conforms accumulator.init.ty accumulator.ty ∧
      construct.outcome
          (scope.opened.bindAll [(iterator, elem), (accumulator.name, accumulator.ty)]) =
        (.ok body, inner) ∧
      S.conforms body.ty accumulator.ty ∧
      e = .loop .iterate source [iterator] (some accumulator) body accumulator.ty := by
  unfold iterate at h
  obtain ⟨⟨k, elem⟩, _, hsource, h⟩ := Build.bind_eq_ok h
  obtain ⟨hparts, rfl⟩ := Build.check_eq_ok hsource
  obtain ⟨_, _, hstart, h⟩ := Build.bind_eq_ok h
  obtain ⟨hinit, rfl⟩ := Build.check_eq_ok hstart
  obtain ⟨body, _, hbody, h⟩ := Build.bind_eq_ok h
  obtain ⟨inner, hbody, -⟩ := Build.inScope_eq_ok hbody
  obtain ⟨_, _, hend, h⟩ := Build.bind_eq_ok h
  obtain ⟨hconf, rfl⟩ := Build.check_eq_ok hend
  exact ⟨k, elem, body, inner, sourceParts_eq_ok.mp hparts, Hierarchy.expect_eq_ok.mp hinit, hbody,
    Hierarchy.expect_eq_ok.mp hconf, (Build.pure_eq_ok h).1.symm⟩

/-- The construction of an `iterate` loop whose parts pass its checks. -/
theorem outcome_iterate {source body : Expr} {iterator : String} {accumulator : Accumulator Expr}
    {construct : Build Expr} {scope inner : Scope} (hsource : source.ty = .collection k elem)
    (hinit : S.conforms accumulator.init.ty accumulator.ty)
    (hbody : construct.outcome (scope.opened.bindAll
      [(iterator, elem), (accumulator.name, accumulator.ty)]) = (.ok body, inner))
    (hty : S.conforms body.ty accumulator.ty) :
    Build.outcome (S.iterate source iterator accumulator construct) scope =
      (.ok (.loop .iterate source [iterator] (some accumulator) body accumulator.ty),
        inner.closed) := by
  have hstart : S.expect accumulator.init.ty accumulator.ty (.initialValue accumulator.name) =
      .ok () := Hierarchy.expect_eq_ok.mpr hinit
  have hstep : S.expect body.ty accumulator.ty .iterateBody = .ok () :=
    Hierarchy.expect_eq_ok.mpr hty
  unfold iterate
  simp only [Build.outcome_bind, Build.outcome_check, Build.outcome_inScope,
    sourceParts_eq_ok.mpr hsource, hstart, hbody, hstep]
  rfl

/-! ### Objects and types -/

theorem allInstances_eq_ok {cls : String} {e : Expr} (h : S.allInstances cls = .ok e) :
    ∃ canonical, e = .allInstances canonical (.collection .set (.object canonical)) := by
  unfold allInstances at h
  split at h
  · next canonical _ => exact ⟨canonical, (Except.ok.inj h).symm⟩
  · cases h

/-- A type test is a truth value, a cast has the type it casts to. -/
theorem typeTest_eq_ok {test : TypeTest} {source e : Expr} {target : Ty}
    (h : S.typeTest test source target = .ok e) :
    ∃ target',
      e = .typeTest test source target' (if test = .asType then target' else .boolean) := by
  unfold typeTest at h
  obtain ⟨target', -, h⟩ := Checked.bind_eq_ok h
  refine ⟨target', ?_⟩
  cases test with
  | isKindOf => exact (Except.ok.inj h).symm
  | isTypeOf => exact (Except.ok.inj h).symm
  | asType =>
    dsimp only at h
    split at h
    · exact (Except.ok.inj h).symm
    · cases h

/-! ### Collections and tuples -/

/-- The types of the parts of a collection literal: those of its items, and that of integers for its
ranges, whose bounds are integers. -/
theorem partTypes_eq_ok {parts : List (Part Expr)} {types : List Ty}
    (h : S.partTypes parts = .ok types) :
    (∀ e, .item e ∈ parts → e.ty ∈ types) ∧
      ∀ first last, .range first last ∈ parts →
        S.conforms first.ty .integer ∧ S.conforms last.ty .integer ∧ .integer ∈ types := by
  induction parts generalizing types with
  | nil => exact ⟨fun _ hmem => (nomatch hmem), fun _ _ hmem => (nomatch hmem)⟩
  | cons part parts ih =>
    cases part with
    | item e =>
      obtain ⟨rest, hrest, h⟩ := Checked.bind_eq_ok h
      obtain rfl := Except.ok.inj h
      obtain ⟨hitems, hranges⟩ := ih hrest
      constructor
      · intro e' hmem
        rcases List.mem_cons.mp hmem with heq | hmem
        · exact Part.item.inj heq ▸ List.mem_cons_self
        · exact List.mem_cons_of_mem _ (hitems e' hmem)
      · intro first last hmem
        rcases List.mem_cons.mp hmem with heq | hmem
        · cases heq
        · obtain ⟨hfirst, hlast, hinteger⟩ := hranges first last hmem
          exact ⟨hfirst, hlast, List.mem_cons_of_mem _ hinteger⟩
    | range lo hi =>
      obtain ⟨_, hlo, h⟩ := Checked.bind_eq_ok h
      obtain ⟨_, hhi, h⟩ := Checked.bind_eq_ok h
      obtain ⟨rest, hrest, h⟩ := Checked.bind_eq_ok h
      obtain rfl := Except.ok.inj h
      obtain ⟨hitems, hranges⟩ := ih hrest
      constructor
      · intro e' hmem
        rcases List.mem_cons.mp hmem with heq | hmem
        · cases heq
        · exact List.mem_cons_of_mem _ (hitems e' hmem)
      · intro first last hmem
        rcases List.mem_cons.mp hmem with heq | hmem
        · obtain ⟨rfl, rfl⟩ := Part.range.inj heq
          exact ⟨Hierarchy.expect_eq_ok.mp hlo, Hierarchy.expect_eq_ok.mp hhi, List.mem_cons_self⟩
        · obtain ⟨hfirst, hlast, hinteger⟩ := hranges first last hmem
          exact ⟨hfirst, hlast, List.mem_cons_of_mem _ hinteger⟩

theorem forM_expect_eq_ok {types : List Ty} {elem : Ty} {place : Place} {u : Unit}
    (h : (types.forM fun ty => S.expect ty elem place) = .ok u) :
    ∀ ty ∈ types, S.conforms ty elem := by
  induction types with
  | nil => exact fun _ hmem => nomatch hmem
  | cons ty types ih =>
    obtain ⟨_, hty, h⟩ := Checked.bind_eq_ok h
    exact List.forall_mem_cons.mpr ⟨Hierarchy.expect_eq_ok.mp hty, ih h⟩

/-- The types that the parts of a collection literal contribute are those of its items, and the
integers for its ranges. -/
theorem mem_partTypes {parts : List (Part Expr)} {types : List Ty}
    (h : S.partTypes parts = .ok types) :
    ∀ ty ∈ types, ty = .integer ∨ ∃ e, .item e ∈ parts ∧ ty = e.ty := by
  induction parts generalizing types with
  | nil =>
    obtain rfl := Except.ok.inj h
    exact fun _ hty => nomatch hty
  | cons part parts ih =>
    have htail : ∀ {rest : List Ty}, S.partTypes parts = .ok rest → ∀ ty ∈ rest,
        ty = .integer ∨ ∃ e, .item e ∈ part :: parts ∧ ty = e.ty := fun hrest ty hty =>
      (ih hrest ty hty).imp_right fun ⟨e, he, heq⟩ => ⟨e, List.mem_cons_of_mem _ he, heq⟩
    cases part with
    | item e =>
      obtain ⟨rest, hrest, h⟩ := Checked.bind_eq_ok h
      obtain rfl := Except.ok.inj h
      exact List.forall_mem_cons.mpr ⟨.inr ⟨e, List.mem_cons_self, rfl⟩, htail hrest⟩
    | range lo hi =>
      obtain ⟨_, -, h⟩ := Checked.bind_eq_ok h
      obtain ⟨_, -, h⟩ := Checked.bind_eq_ok h
      obtain ⟨rest, hrest, h⟩ := Checked.bind_eq_ok h
      obtain rfl := Except.ok.inj h
      exact List.forall_mem_cons.mpr ⟨.inl rfl, htail hrest⟩

/-- The types of the parts of a collection literal conform to its element type, or this is their
join. -/
theorem collection_eq_ok {kind : Kind} {parts : List (Part Expr)} {declared : Option Ty} {e : Expr}
    (h : S.collection kind parts declared = .ok e) :
    ∃ types elem, S.partTypes parts = .ok types ∧
      ((∀ ty ∈ types, S.conforms ty elem) ∨ elem = S.joinAll types) ∧
      e = .collection kind.concrete parts (.collection kind.concrete elem) := by
  unfold collection at h
  obtain ⟨types, htypes, h⟩ := Checked.bind_eq_ok h
  cases declared with
  | none => exact ⟨types, S.joinAll types, htypes, .inr rfl, (Except.ok.inj h).symm⟩
  | some elem =>
    obtain ⟨_, helem, h⟩ := Checked.bind_eq_ok h
    exact ⟨types, elem, htypes, .inl (forM_expect_eq_ok helem), (Except.ok.inj h).symm⟩

end Schema

theorem Expr.tupleOf_eq_ok {parts : List (String × Expr)} {e : Expr}
    (h : Expr.tupleOf parts = .ok e) :
    e = .tuple parts (.tupleOf (parts.map fun part => (part.1, part.2.ty))) := by
  unfold Expr.tupleOf at h
  split at h
  · cases h
  · exact (Except.ok.inj h).symm

end ObjectConstraint
