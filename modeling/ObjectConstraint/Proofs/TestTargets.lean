import ObjectConstraint.Snapshot
import ObjectConstraint.Proofs.Construction
import ObjectConstraint.Proofs.Operands

/-!
# The targets of type tests

A type test takes its target by the canonical name of its class. It does so for a target that is a
class. A class inside the target, as the elements of a collection or as a part of a tuple, stays
under the name it was given by, and a name that stands for no class is not noticed there. Such a
test is what it would be with canonical names if all names in the target are canonical, and not
otherwise.

* `Ty.classNames` — the names of classes in a type, at any depth.
* `Schema.canonicalTarget` — the type with all of them resolved.
* `Schema.canonicalTest` — the type test that takes its target so.
* `Schema.Renamed` — a name in a type replaced by another name of the same class.
* `Schema.typeTest_eq_canonicalTest_iff` — where the two tests are the same.
-/

namespace ObjectConstraint

theorem Checked.bind_eq_error {α β : Type} {x : Checked α} {f : α → Checked β} {err : TypeError}
    (h : x >>= f = .error err) : x = .error err ∨ ∃ a, x = .ok a ∧ f a = .error err := by
  cases x with
  | error e =>
    cases h
    exact .inl rfl
  | ok a => exact .inr ⟨a, rfl, h⟩

/-! ### Names in a type -/

namespace Ty

mutual

/-- The names of classes in a type. -/
def classNames : Ty → List String
  | object cls => [cls]
  | collection _ elem => elem.classNames
  | tuple parts => partClassNames parts
  | boolean | integer | unlimitedNatural | real | string | date | void | any => []
  termination_by structural t => t

def partClassNames : List (String × Ty) → List String
  | [] => []
  | (_, t) :: parts => t.classNames ++ partClassNames parts
  termination_by structural parts => parts

end

end Ty

namespace Schema

variable (S : Schema)

mutual

/-- The type with each class under its canonical name. -/
def canonicalTarget : Ty → Checked Ty
  | .object cls => S.classType cls
  | .collection kind elem => do return .collection kind (← canonicalTarget elem)
  | .tuple parts => do return .tuple (← canonicalParts parts)
  | t => .ok t
  termination_by structural t => t

def canonicalParts : List (String × Ty) → Checked (List (String × Ty))
  | [] => .ok []
  | (name, t) :: parts => do return (name, ← canonicalTarget t) :: (← canonicalParts parts)
  termination_by structural parts => parts

end

/-- The names that are canonical. -/
def IsCanonical (name : String) : Prop := S.resolveClass name = some name

/-- A type of which one class name, at any depth, is replaced by another name of the class. -/
inductive Renamed : Ty → Ty → Prop
  | object {name other cls : String} (hname : S.resolveClass name = some cls)
    (hother : S.resolveClass other = some cls) : Renamed (.object name) (.object other)
  | elem {kind : Kind} {t u : Ty} (h : Renamed t u) :
    Renamed (.collection kind t) (.collection kind u)
  | part {name : String} {t u : Ty} {before after : List (String × Ty)} (h : Renamed t u) :
    Renamed (.tuple (before ++ (name, t) :: after)) (.tuple (before ++ (name, u) :: after))

variable {S}

/-! ### Resolved types -/

theorem classType_of_resolve {name cls : String} (h : S.resolveClass name = some cls) :
    S.classType name = .ok (.object cls) := by
  rw [classType, h]

theorem classType_of_undefined {name : String} (h : S.resolveClass name = none) :
    S.classType name = .error (.undefinedClass name) := by
  rw [classType, h]

mutual

/-- The names in a resolved type are those of the type, each resolved. -/
theorem map_resolveClass_classNames :
    ∀ {t u : Ty}, S.canonicalTarget t = .ok u →
      t.classNames.map S.resolveClass = u.classNames.map some
  | .object name, u, h => by
    cases hname : S.resolveClass name with
    | none => cases (classType_of_undefined hname).symm.trans h
    | some cls =>
      cases (classType_of_resolve hname).symm.trans h
      exact congrArg (fun cls => [cls]) hname
  | .collection kind elem, u, h => by
    obtain ⟨elem', helem, h⟩ := Checked.bind_eq_ok h
    cases h
    have hnames := map_resolveClass_classNames helem
    exact hnames
  | .tuple parts, u, h => by
    obtain ⟨parts', hparts, h⟩ := Checked.bind_eq_ok h
    cases h
    exact map_resolveClass_partClassNames hparts
  | .boolean, u, h | .integer, u, h | .unlimitedNatural, u, h | .real, u, h | .string, u, h
  | .date, u, h | .void, u, h | .any, u, h => by
    cases h
    rfl

theorem map_resolveClass_partClassNames :
    ∀ {ps qs : List (String × Ty)}, S.canonicalParts ps = .ok qs →
      (Ty.partClassNames ps).map S.resolveClass = (Ty.partClassNames qs).map some
  | [], qs, h => by
    cases h
    rfl
  | (_, t) :: ps, qs, h => by
    obtain ⟨t', ht, h⟩ := Checked.bind_eq_ok h
    obtain ⟨ps', hps, h⟩ := Checked.bind_eq_ok h
    cases h
    rw [Ty.partClassNames, Ty.partClassNames, List.map_append, List.map_append,
      map_resolveClass_classNames ht, map_resolveClass_partClassNames hps]

end

mutual

/-- What cannot be resolved is some name in the type. -/
theorem canonicalTarget_eq_error :
    ∀ {t : Ty} {err : TypeError}, S.canonicalTarget t = .error err →
      ∃ name ∈ t.classNames, S.resolveClass name = none ∧ err = .undefinedClass name
  | .object name, err, h => by
    cases hname : S.resolveClass name with
    | none =>
      cases (classType_of_undefined hname).symm.trans h
      exact ⟨name, List.mem_singleton_self name, hname, rfl⟩
    | some cls => cases (classType_of_resolve hname).symm.trans h
  | .collection kind elem, err, h => by
    rcases Checked.bind_eq_error h with helem | ⟨_, -, h⟩
    · have hname := canonicalTarget_eq_error helem
      exact hname
    · cases h
  | .tuple parts, err, h => by
    rcases Checked.bind_eq_error h with hparts | ⟨_, -, h⟩
    · exact canonicalParts_eq_error hparts
    · cases h

theorem canonicalParts_eq_error :
    ∀ {parts : List (String × Ty)} {err : TypeError}, S.canonicalParts parts = .error err →
      ∃ name ∈ Ty.partClassNames parts, S.resolveClass name = none ∧ err = .undefinedClass name
  | (_, t) :: parts, err, h => by
    rcases Checked.bind_eq_error h with ht | ⟨_, -, h⟩
    · obtain ⟨name, hname, herr⟩ := canonicalTarget_eq_error ht
      exact ⟨name, List.mem_append_left _ hname, herr⟩
    rcases Checked.bind_eq_error h with hparts | ⟨_, -, h⟩
    · obtain ⟨name, hname, herr⟩ := canonicalParts_eq_error hparts
      exact ⟨name, List.mem_append_right _ hname, herr⟩
    · cases h

end

mutual

/-- A type stays as it is if its names are canonical. -/
theorem canonicalTarget_of_isCanonical :
    ∀ t : Ty, (∀ name ∈ t.classNames, S.IsCanonical name) → S.canonicalTarget t = .ok t
  | .object name, h => classType_of_resolve (h name (List.mem_singleton_self name))
  | .collection kind elem, h => by
    rw [canonicalTarget, canonicalTarget_of_isCanonical elem h]
    rfl
  | .tuple parts, h => by
    rw [canonicalTarget, canonicalParts_of_isCanonical parts h]
    rfl
  | .boolean, _ | .integer, _ | .unlimitedNatural, _ | .real, _ | .string, _ | .date, _ | .void, _
  | .any, _ => rfl

theorem canonicalParts_of_isCanonical :
    ∀ parts : List (String × Ty), (∀ name ∈ Ty.partClassNames parts, S.IsCanonical name) →
      S.canonicalParts parts = .ok parts
  | [], _ => rfl
  | (_, t) :: parts, h => by
    rw [canonicalParts,
      canonicalTarget_of_isCanonical t fun name hname => h name (List.mem_append_left _ hname),
      canonicalParts_of_isCanonical parts fun name hname => h name (List.mem_append_right _ hname)]
    rfl

end

theorem canonicalTarget_eq_self_iff {t : Ty} :
    S.canonicalTarget t = .ok t ↔ ∀ name ∈ t.classNames, S.IsCanonical name :=
  ⟨fun h => List.map_inj_left.mp (map_resolveClass_classNames h), canonicalTarget_of_isCanonical t⟩

/-- In a type that is resolved each name stands for a class, and each class has a name. -/
theorem resolved_of_canonicalTarget {t u : Ty} (h : S.canonicalTarget t = .ok u) :
    (∀ name ∈ t.classNames, (S.resolveClass name).isSome) ∧
      ∀ cls ∈ u.classNames, ∃ name, S.resolveClass name = some cls := by
  have hnames := map_resolveClass_classNames h
  constructor
  · intro name hname
    have hmem := List.mem_map_of_mem (f := S.resolveClass) hname
    rw [hnames] at hmem
    obtain ⟨cls, -, hcls⟩ := List.mem_map.mp hmem
    rw [← hcls]
    rfl
  · intro cls hcls
    have hmem := List.mem_map_of_mem (f := some) hcls
    rw [← hnames] at hmem
    obtain ⟨name, -, hname⟩ := List.mem_map.mp hmem
    exact ⟨name, hname⟩

theorem canonicalParts_congr {name : String} {t u : Ty}
    (h : S.canonicalTarget t = S.canonicalTarget u) (before after : List (String × Ty)) :
    S.canonicalParts (before ++ (name, t) :: after) =
      S.canonicalParts (before ++ (name, u) :: after) := by
  induction before with
  | nil => simp only [List.nil_append, canonicalParts, h]
  | cons p before ih => simp only [List.cons_append, canonicalParts, ih]

/-- Another name of the same class makes no difference. -/
theorem Renamed.canonicalTarget_eq {t u : Ty} (h : S.Renamed t u) :
    S.canonicalTarget t = S.canonicalTarget u := by
  induction h with
  | object hname hother =>
    rw [canonicalTarget, canonicalTarget, classType_of_resolve hname, classType_of_resolve hother]
  | elem _ ih => rw [canonicalTarget, canonicalTarget, ih]
  | part _ ih => rw [canonicalTarget, canonicalTarget, canonicalParts_congr ih]

/-! ### The tests -/

/-- A type test for a target as it is. -/
def testAt (S : Schema) (test : TypeTest) (source : Expr) (target : Ty) : Checked Expr :=
  match test with
  | .isKindOf | .isTypeOf => .ok (.typeTest test source target .boolean)
  | .asType =>
    if S.conforms target source.ty || S.conforms source.ty target then
      .ok (.typeTest test source target target)
    else .error (.invalidCast source.ty target)

/-- A type test that takes every class in its target by its canonical name. -/
def canonicalTest (S : Schema) (test : TypeTest) (source : Expr) (target : Ty) : Checked Expr := do
  S.testAt test source (← S.canonicalTarget target)

variable {test : TypeTest} {source : Expr} {target : Ty}

theorem typeTest_eq_testAt :
    S.typeTest test source target = S.testTarget target >>= S.testAt test source := by
  unfold typeTest testAt
  cases test <;> rfl

/-- The outcome tells the target. -/
theorem testAt_injective {t u : Ty} (h : S.testAt test source t = S.testAt test source u) :
    t = u := by
  unfold testAt at h
  cases test with
  | isKindOf =>
    cases h
    rfl
  | isTypeOf =>
    cases h
    rfl
  | asType =>
    dsimp only at h
    split at h <;> split at h <;> cases h <;> rfl

theorem testAt_ne_undefinedClass (name : String) :
    S.testAt test source target ≠ .error (.undefinedClass name) := by
  unfold testAt
  cases test with
  | isKindOf => exact nofun
  | isTypeOf => exact nofun
  | asType =>
    dsimp only
    split <;> exact nofun

theorem canonicalTest_of_error {err : TypeError} (h : S.canonicalTarget target = .error err) :
    S.canonicalTest test source target = .error err := by
  rw [canonicalTest, h]
  rfl

theorem canonicalTest_of_ok {canonical : Ty} (h : S.canonicalTarget target = .ok canonical) :
    S.canonicalTest test source target = S.testAt test source canonical := by
  rw [canonicalTest, h]
  rfl

/-- A target that is not a class is left as it is, so the test is for canonical names only if all
names in it are canonical. -/
theorem testAt_eq_canonicalTest_iff :
    S.testAt test source target = S.canonicalTest test source target ↔
      ∀ name ∈ target.classNames, S.IsCanonical name := by
  rw [← canonicalTarget_eq_self_iff]
  cases h : S.canonicalTarget target with
  | error err =>
    obtain ⟨name, -, -, rfl⟩ := canonicalTarget_eq_error h
    rw [canonicalTest_of_error h]
    exact iff_of_false (testAt_ne_undefinedClass name) nofun
  | ok canonical =>
    rw [canonicalTest_of_ok h]
    constructor
    · intro heq
      rw [testAt_injective heq]
    · intro heq
      rw [Except.ok.inj heq]

/-- A type test that takes every class in its target by its canonical name fails for a name in the
target that stands for no class, and else has a target with canonical names only; another name for
one of the classes, at any depth, makes no difference to it. The type test is that one if the target
is a class, or if all names in the target are canonical, and in no other case. -/
theorem typeTest_eq_canonicalTest_iff
    (hidempotent : ∀ name cls, S.resolveClass name = some cls → S.IsCanonical cls)
    (test : TypeTest) (source : Expr) (target : Ty) :
    ((∃ name ∈ target.classNames, S.resolveClass name = none ∧
          S.canonicalTest test source target = .error (.undefinedClass name)) ∨
        (∀ name ∈ target.classNames, (S.resolveClass name).isSome) ∧
          ∃ canonical, (∀ name ∈ canonical.classNames, S.IsCanonical name) ∧
            S.canonicalTest test source target = S.testAt test source canonical) ∧
      (∀ other, S.Renamed target other →
        S.canonicalTest test source other = S.canonicalTest test source target) ∧
      (S.typeTest test source target = S.canonicalTest test source target ↔
        (∃ cls, target = .object cls) ∨ ∀ name ∈ target.classNames, S.IsCanonical name) := by
  refine ⟨?_, fun other hother => ?_, ?_⟩
  · cases h : S.canonicalTarget target with
    | error err =>
      obtain ⟨name, hname, hnone, rfl⟩ := canonicalTarget_eq_error h
      exact .inl ⟨name, hname, hnone, canonicalTest_of_error h⟩
    | ok canonical =>
      obtain ⟨hdefined, hnames⟩ := resolved_of_canonicalTarget h
      refine .inr ⟨hdefined, canonical, fun cls hcls => ?_, canonicalTest_of_ok h⟩
      obtain ⟨name, hname⟩ := hnames cls hcls
      exact hidempotent name cls hname
  · rw [canonicalTest, canonicalTest, hother.canonicalTarget_eq]
  · rw [typeTest_eq_testAt]
    cases target with
    | object cls => exact iff_of_true rfl (.inl ⟨cls, rfl⟩)
    | _ => exact testAt_eq_canonicalTest_iff.trans (or_iff_right nofun).symm

/-- One class, and an alias for it. -/
def people : Schema :=
  (Snapshot.empty.addClass "Person" []).schema.withAliases [("Human", "Person")]

theorem eq_person_of_resolve {name cls : String} (h : people.resolveClass name = some cls) :
    cls = "Person" := by
  have hresolve : people.resolveClass name = (List.lookup name [("Human", "Person")]).or
      ((List.lookup name [("Person", ClassDef.empty)]).map fun _ => name) := rfl
  rw [hresolve, List.lookup_cons, List.lookup_cons] at h
  split at h <;> split at h <;> simp_all

/-- A set of an alias is no canonical target. -/
theorem typeTest_eq_canonicalTest_iff_alias :
    (∀ name cls, people.resolveClass name = some cls → people.IsCanonical cls) ∧
      people.typeTest .isKindOf (.var "x" .any) (.collection .set (.object "Human")) ≠
        people.canonicalTest .isKindOf (.var "x" .any) (.collection .set (.object "Human")) := by
  have hidempotent : ∀ name cls, people.resolveClass name = some cls → people.IsCanonical cls := by
    intro name cls h
    rw [eq_person_of_resolve h]
    rfl
  obtain ⟨-, -, hiff⟩ := typeTest_eq_canonicalTest_iff hidempotent .isKindOf (.var "x" .any)
    (.collection .set (.object "Human"))
  refine ⟨hidempotent, mt hiff.mp ?_⟩
  rintro (⟨cls, hcls⟩ | hnames)
  · cases hcls
  · have halias := eq_person_of_resolve (hnames "Human" (List.mem_singleton_self _))
    exact absurd halias (by decide)

/-- With `Human` for `Person`, a set of one person is of kind `Set(Person)` and not of kind
`Set(Human)`; and a class that there is not is taken as a target. -/
theorem typeTest_not_canonical :
    let s := (Snapshot.empty.addClass "Person" []).createObject "Person" "Ann"
    let M := s.toModel.withAliases [("Human", "Person")]
    let source := Expr.collection .set [.item (.var "p" (.object "Person"))]
      (.collection .set (.object "Person"))
    let ctx := Context.empty.bind "p" (.object ⟨0, "Person", "Ann"⟩)
    M.Renamed (.collection .set (.object "Person")) (.collection .set (.object "Human")) ∧
      M.resolveClass "Ghost" = none ∧
      ∃ person human ghost,
        M.typeTest .isKindOf source (.collection .set (.object "Person")) = .ok person ∧
        M.typeTest .isKindOf source (.collection .set (.object "Human")) = .ok human ∧
        M.typeTest .isKindOf source (.collection .set (.object "Ghost")) = .ok ghost ∧
        M.EvaluatesTo person ctx (.boolean true) ∧ M.EvaluatesTo human ctx (.boolean false) :=
  ⟨.elem (.object rfl rfl), rfl, _, _, _, rfl, rfl, rfl, ⟨3, rfl⟩, ⟨3, rfl⟩⟩

end Schema

end ObjectConstraint
