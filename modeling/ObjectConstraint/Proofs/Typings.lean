import ObjectConstraint.Proofs.LoopTypes

/-!
# Typings

There is more than one way to say that a value is fit for a type: that it belongs to the type, that
what it carries is right besides, or that what it carries fits the type, too. What evaluation needs
of such a relation is the same each time, so it is stated once, as a structure, and everything that
nodes do with values is shown to keep to it.

* `Typing` — such a relation of values to types, with its laws.
* `Typing.apply` — every standard operation but the symmetric difference keeps to a typing.
* `Typing.loopResult` — so does every loop that does not stray.
* `Typing.testType`, `Typing.literal`, `Typing.joinAll` — so do type tests, constants and the
  literals of collections.
-/

namespace ObjectConstraint

/-- A relation of values to types that evaluation keeps to. -/
structure Typing (H : Hierarchy) where
  /-- The value is fit for the type. -/
  rel : Value → Ty → Prop
  /-- The objects that values refer to. -/
  known : ObjectRef → Prop
  /-- Whether values are cast. -/
  casts : Prop
  /-- The types that nodes have. -/
  admits : Ty → Prop
  belongs {v : Value} {t : Ty} (h : rel v t) : Belongs H v t
  scalar {v : Value} {t : Ty} (ht : t.isScalar) (h : Belongs H v t) : rel v t
  undefined (t : Ty) : rel .undefined t
  object {o : ObjectRef} {cls : String} (ho : known o) (hcls : H.conformsTo o.cls cls) :
    rel (.object o) (.object cls)
  known_object {o : ObjectRef} {t : Ty} (h : rel (.object o) t) : known o
  conforms {v : Value} {t u : Ty} (h : rel v t) (hconf : H.conforms t u) : rel v u
  join_left {v : Value} {t u : Ty} (h : rel v t) (ht : admits t) (hu : admits u) :
    rel v (H.join t u)
  join_right {v : Value} {t u : Ty} (h : rel v u) (ht : admits t) (hu : admits u) :
    rel v (H.join t u)
  member {v w : Value} (h : rel v .any) (hw : w ∈ v.members) : rel w .any
  element {k l : Kind} {made elem : Ty} {elems : List Value}
    (h : rel (.collection k made elems) (.collection l elem)) : ∀ x ∈ elems, rel x elem
  part {ps : List (String × Value)} {ts : List (String × Ty)} (h : rel (.tuple ps) (.tuple ts))
    {name : String} {x : Value} {t : Ty} (hx : (name, x) ∈ ps) (ht : ts.lookup name = some t) :
    rel x t
  /-- Values in a collection made for their type. -/
  collectionOf {kind l : Kind} {elem : Ty} {elems : List Value}
    (hkind : kind.concrete = l ∨ l = .collection) (h : ∀ x ∈ elems, rel x elem) :
    rel (.collectionOf kind elem elems) (.collection l elem)
  /-- Some elements of a collection in another one made for the same type. -/
  keep {k l kind m : Kind} {made elem : Ty} {elems xs : List Value}
    (h : rel (.collection k made elems) (.collection l elem))
    (hkind : kind.concrete = m ∨ m = .collection) (hxs : ∀ x ∈ xs, x ∈ elems) :
    rel (.collectionOf kind made xs) (.collection m elem)
  /-- The values inside all levels of a collection. -/
  flatten {k l kind m : Kind} {made elem : Ty} {elems : List Value}
    (h : rel (.collection k made elems) (.collection l elem))
    (hkind : kind.concrete = m ∨ m = .collection) :
    rel (.collectionOf kind made.innermost (Collection.leavesOfAll elems))
      (.collection m elem.innermost)
  tupleOf {ps : List (String × Value)} {ts : List (String × Ty)} (h : Parts.Paired rel ps ts) :
    rel (.tupleOf ps) (.tupleOf ts)
  /-- A cast looks at the type that the value has by itself. -/
  cast {v : Value} {t target : Ty} (hcasts : casts) (h : rel v t)
    (hconf : H.conforms v.dynamicType target) : rel (v.promote target) target
  admits_boolean : admits .boolean
  admits_integer : admits .integer
  admits_elem {kind : Kind} {elem : Ty} (h : admits (.collection kind elem)) : admits elem
  admits_join {t u : Ty} (ht : admits t) (hu : admits u) : admits (H.join t u)
  admits_void : admits .void

namespace Typing

variable {H : Hierarchy} (T : Typing H) {v : Value} {t u : Ty}

/-! ### Collections -/

/-- The elements that a `collect` takes from a value are fit for the element type of its type, or
for the type itself. -/
theorem spread (h : T.rel v t) : ∀ x ∈ ObjectModel.spread v, T.rel x (t.elem?.getD t) := by
  intro x hx
  have hbelongs := T.belongs h
  cases hbelongs with
  | undefined t =>
    obtain rfl := List.mem_singleton.mp hx
    exact T.undefined _
  | any v =>
    cases v with
    | collection kind made elems => exact T.member h hx
    | _ =>
      obtain rfl := List.mem_singleton.mp hx
      exact h
  | collection _ _ => exact T.element h x hx
  | _ =>
    obtain rfl := List.mem_singleton.mp hx
    exact h

theorem flatMap_spread {rs : List Value} (h : ∀ r ∈ rs, T.rel r t) :
    ∀ x ∈ rs.flatMap ObjectModel.spread, T.rel x (t.elem?.getD t) := by
  intro x hx
  obtain ⟨r, hr, hx⟩ := List.mem_flatMap.mp hx
  exact T.spread (h r hr) x hx

/-- A value fit for a type in a list is fit for the join of the list. -/
theorem joinAll {types : List Ty} (htypes : ∀ u ∈ types, T.admits u) (h : T.rel v t)
    (ht : t ∈ types) : T.rel v (H.joinAll types) := by
  suffices hfold : ∀ acc, T.admits acc → (T.rel v acc ∨ t ∈ types) →
      T.rel v (types.foldl H.join acc) from hfold .void T.admits_void (.inr ht)
  clear ht
  induction types with
  | nil =>
    intro acc _ hacc
    simpa using hacc
  | cons u types ih =>
    intro acc hadmits hacc
    obtain ⟨hu, htypes⟩ := List.forall_mem_cons.mp htypes
    refine ih htypes _ (T.admits_join hadmits hu) ?_
    rcases hacc with hacc | ht
    · exact .inl (T.join_left hacc hadmits hu)
    · rcases List.mem_cons.mp ht with rfl | ht
      · exact .inl (T.join_right h hadmits hu)
      · exact .inr ht

/-- An operation on a collection, which is undefined on the undefined value. -/
theorem withOther {kind : Kind} {elem : Ty} {f : Collection → Value}
    (hv : T.rel v (.collection kind elem))
    (h : ∀ c : Collection, T.rel (.collection c.kind c.elem c.elems) (.collection kind elem) →
      (c.kind = kind ∨ kind = .collection) → T.rel (f c) t) :
    T.rel (Collection.withOther v f) t := by
  have hbelongs := T.belongs hv
  cases hbelongs with
  | undefined => exact T.undefined t
  | collection hkind _ => exact h ⟨_, _, _⟩ hv hkind

/-- The same of an operation that gives an element. -/
theorem withOther_gives {kind : Kind} {elem : Ty} {f : Collection → Value}
    (hv : T.rel v (.collection kind elem)) (h : ∀ c : Collection, c.Gives (f c)) :
    T.rel (Collection.withOther v f) elem :=
  T.withOther hv fun c hc _ => (h c).elim (T.undefined elem) (T.element hc)

/-! ### Operations -/

section Operations

variable {op : Operation} {table result : Ty} {argTypes : List Ty} {receiver : Value}
  {args : List Value}

/-- Every operation but the symmetric difference gives a value fit for the type of its
signature. -/
theorem compute (hsig : H.HasSignature op table argTypes result) (hreceiver : T.rel receiver table)
    (hargs : List.Forall₂ T.rel args argTypes) (htable : T.admits table)
    (hargTypes : ∀ a ∈ argTypes, T.admits a) (hop : op ≠ .symmetricDifference) :
    T.rel (op.compute receiver args result) result := by
  by_cases hscalar : result.isScalar
  · exact T.scalar hscalar (Operation.belongs_compute hsig (T.belongs hreceiver)
      (hargs.imp fun _ _ => T.belongs) hop)
  cases hsig with
  | own _ hown => exact absurd (Operation.isScalar_of_ownResult hown) hscalar
  | sign => exact absurd (Hierarchy.isScalar_promotedType _ _) hscalar
  | arithmetic => exact absurd (Hierarchy.isScalar_promotedType _ _) hscalar
  | sum kind helem =>
    refine absurd ?_ hscalar
    split <;> rfl
  | pick kind elem hpick =>
    simp only [List.mem_cons, List.not_mem_nil, or_false] at hpick
    rcases hpick with rfl | rfl | rfl | rfl
    · exact T.withOther_gives hreceiver fun c => c.gives_extremum .gt
    · exact T.withOther_gives hreceiver fun c => c.gives_extremum .lt
    · exact T.withOther_gives hreceiver fun c => c.gives_head?
    · exact T.withOther_gives hreceiver fun c => c.gives_getLast?
  | elementAt kind elem a => exact T.withOther_gives hreceiver fun c => c.gives_elementAt _
  | convert kind elem hconvert =>
    simp only [List.mem_cons, Prod.mk.injEq, List.not_mem_nil, or_false] at hconvert
    rcases hconvert with ⟨rfl, rfl⟩ | ⟨rfl, rfl⟩ | ⟨rfl, rfl⟩ | ⟨rfl, rfl⟩
    all_goals
      exact T.withOther hreceiver fun c hc _ => T.keep hc (.inl rfl) fun _ hx => hx
  | flatten elem hkind =>
    exact T.withOther hreceiver fun c hc hfits =>
      T.flatten hc (.inl (Operation.concrete_of_fits hfits hkind))
  | @extend _ kind elem a hextend hkind =>
    obtain ⟨arg, rest, harg, hrest, rfl⟩ := List.forall₂_cons_right_iff.mp hargs
    obtain ⟨extended, hcompute, hextended⟩ :=
      Operation.exists_compute_extend hextend receiver arg rest kind (H.join elem a)
    have helem := T.admits_elem htable
    have ha := hargTypes a List.mem_cons_self
    rw [hcompute]
    refine T.withOther hreceiver ?_
    intro c hc hfits
    refine T.collectionOf (.inl (Operation.concrete_of_fits hfits hkind)) ?_
    intro x hx
    rcases hextended c x hx with hx | rfl
    · exact T.join_left (T.element hc x hx) helem ha
    · exact T.join_right harg helem ha
  | excluding elem a hkind =>
    exact T.withOther hreceiver fun c hc hfits =>
      T.keep hc (.inl (Operation.concrete_of_fits hfits hkind))
        fun _ hx => List.mem_of_mem_filter hx
  | subSequence elem a b hkind =>
    refine T.withOther hreceiver ?_
    intro c hc hfits
    show T.rel (c.subSequence _ _) _
    unfold Collection.subSequence
    split
    · exact T.keep hc (.inl (Operation.concrete_of_fits hfits hkind))
        fun _ hx => List.mem_of_mem_drop (List.mem_of_mem_take hx)
    · exact T.undefined _
  | @union _ _ result elem otherElem hkind =>
    obtain ⟨arg, rest, harg, hrest, rfl⟩ := List.forall₂_cons_right_iff.mp hargs
    have helem := T.admits_elem htable
    have hother := T.admits_elem (hargTypes _ List.mem_cons_self)
    refine T.withOther hreceiver ?_
    intro c hc _
    refine T.withOther harg ?_
    intro d hd _
    refine T.collectionOf (.inl (Operation.concrete_of_unionKind hkind)) ?_
    intro x hx
    rcases List.mem_append.mp hx with hx | hx
    · exact T.join_left (T.element hc x hx) helem hother
    · exact T.join_right (T.element hd x hx) helem hother
  | intersection elem otherElem hkind =>
    obtain ⟨arg, rest, harg, hrest, rfl⟩ := List.forall₂_cons_right_iff.mp hargs
    refine T.withOther hreceiver ?_
    intro c hc _
    refine T.withOther harg ?_
    intro d _ _
    exact T.keep hc (.inl (Operation.concrete_of_intersectionKind hkind))
      fun _ hx => Collection.mem_of_mem_matched hx
  | difference other elem otherElem hkind =>
    obtain ⟨arg, rest, harg, hrest, rfl⟩ := List.forall₂_cons_right_iff.mp hargs
    refine T.withOther hreceiver ?_
    intro c hc hfits
    refine T.withOther harg ?_
    intro d _ _
    exact T.keep hc (.inl (Operation.concrete_of_fits hfits hkind))
      fun _ hx => Collection.mem_of_mem_outside hx
  | symmetricDifference => exact absurd rfl hop

theorem apply (hsig : H.HasSignature op table argTypes result) (hreceiver : T.rel receiver table)
    (hargs : List.Forall₂ T.rel args argTypes) (htable : T.admits table)
    (hargTypes : ∀ a ∈ argTypes, T.admits a) (hop : op ≠ .symmetricDifference) :
    T.rel (op.apply receiver args result) result := by
  unfold Operation.apply
  split
  · exact T.undefined _
  · exact T.compute hsig hreceiver hargs htable hargTypes hop

/-- A receiver is fit for the type whose table its operation is found in. -/
theorem rel_table (hv : T.rel v t) (name : String) (argTypes : List Ty) :
    T.rel v (if t = .void then nullReceiver name argTypes else t) := by
  split
  · next hvoid =>
    have hbelongs := T.belongs hv
    rw [hvoid] at hbelongs
    cases hbelongs
    exact T.undefined _
  · exact hv

theorem admits_table (ht : T.admits t) (name : String) {argTypes : List Ty}
    (hargTypes : ∀ a ∈ argTypes, T.admits a) :
    T.admits (if t = .void then nullReceiver name argTypes else t) := by
  split
  · unfold nullReceiver
    split
    all_goals first | exact T.admits_boolean | skip
    split
    · exact T.admits_integer
    · exact T.admits_integer
    · exact hargTypes _ List.mem_cons_self
  · exact ht

end Operations

/-! ### Loops -/

/-- A loop over elements that does not stray has a value fit for its type. -/
theorem loopResult {S : Schema} (T : Typing S.toHierarchy) {kind : LoopKind}
    {static dynamic : Kind} {elem body result : Ty} {v : Value}
    (h : LoopResult (T.rel · elem) (T.rel · body) kind dynamic result.elemOrAny v)
    (hsig : S.LoopSignature kind static elem body result)
    (hkind : dynamic = static ∨ static = .collection) (hstrays : ¬ Strays kind static dynamic) :
    T.rel v result := by
  rcases h with rfl | h
  · exact T.undefined _
  unfold Schema.LoopSignature at hsig
  cases hshape : kind.shape with
  | truth =>
    rw [hshape] at h hsig
    obtain ⟨b, rfl⟩ := h
    exact hsig ▸ T.scalar rfl (.boolean b)
  | element =>
    rw [hshape] at h hsig
    exact hsig ▸ h
  | selection =>
    rw [hshape] at h hsig
    obtain ⟨xs, hxs, rfl⟩ := h
    rw [hsig.1]
    exact T.collectionOf (LoopResult.concrete_resultKind hkind hstrays) hxs
  | image =>
    rw [hshape] at h hsig
    obtain ⟨rs, hrs, rfl⟩ := h
    rw [hsig]
    exact T.collectionOf (.inl rfl) (T.flatMap_spread hrs)
  | nestedImage =>
    rw [hshape] at h hsig
    obtain ⟨rs, hrs, rfl⟩ := h
    rw [hsig]
    exact T.collectionOf (.inl rfl) hrs
  | accumulation =>
    rw [hshape] at hsig
    exact hsig.elim

/-! ### Constants and type tests -/

theorem literal (lit : Literal) : T.rel lit.value lit.ty := by
  cases lit with
  | boolean b => exact T.scalar rfl (.boolean b)
  | integer n => exact T.scalar rfl (.integer n)
  | unlimitedNatural n =>
    refine T.scalar rfl ?_
    cases n with
    | none => exact .unlimited
    | some n =>
      show Belongs H (Value.ofInt n.toNat) .unlimitedNatural
      unfold Value.ofInt
      split
      · next hrange =>
        refine .natural _ ?_
        rw [Int64.toInt_ofInt_of_le hrange.1 (Int.lt_of_le_sub_one hrange.2)]
        omega
      · exact .undefined _
  | real r => exact T.scalar rfl (Value.belongs_ofReal? _)
  | string s => exact T.scalar rfl (.string s)
  | date d => exact T.scalar rfl (.date d)
  | undefined => exact T.undefined _

/-- A test gives a truth value, a cast a value fit for the type that it casts to. -/
theorem testType {M : ObjectModel} (T : Typing M.toHierarchy) {v : Value} {t : Ty}
    {test : TypeTest} (hv : T.rel v t) (hcasts : test = .asType → T.casts) (target : Ty) :
    T.rel (M.testType test v target) (if test = .asType then target else .boolean) := by
  unfold ObjectModel.testType
  split
  · exact T.undefined _
  · cases test with
    | isKindOf => exact T.scalar rfl (.boolean _)
    | isTypeOf => exact T.scalar rfl (.boolean _)
    | asType =>
      dsimp only
      split
      · next hconf => exact T.cast (hcasts rfl) hv hconf
      · exact T.undefined _

end Typing

end ObjectConstraint
