import ObjectConstraint.Proofs.Joins
import ObjectConstraint.Proofs.LeastTypes

/-!
# Operations on narrower operands

A call stays valid when its operands are given narrower types: it means the same operation, and its
result is no wider than before. Each table is read in the same way for narrower operands, a guard
that holds goes on to hold, and a result that widens by a join widens no further.

* `Hierarchy.Narrows` — a lookup finds what another one finds, with a type that conforms.
* `narrows_numeric`, `narrows_element`, … — the tables.
* `resolve_narrows` — the resolution of a name.
-/

namespace ObjectConstraint.Hierarchy

/-- What the first lookup finds the second one finds too: the same operation, with a type that
conforms to the one before. -/
def Narrows (H : Hierarchy) (wide narrow : Option Resolved) : Prop :=
  ∀ result op, wide = some (result, op) →
    ∃ result', narrow = some (result', op) ∧ Conforms H result' result

variable {H : Hierarchy}

namespace Narrows

variable {p q : Prop} [Decidable p] [Decidable q] {wide narrow : Option Resolved}
  {result result' : Ty}

theorem refl (found : Option Resolved) : H.Narrows found found :=
  fun result _ h => ⟨result, h, .refl result⟩

theorem nothing : H.Narrows none narrow := nofun

theorem some (op : Operation) (h : Conforms H result' result) :
    H.Narrows (some (result, op)) (some (result', op)) := by
  intro _ _ heq
  cases heq
  exact ⟨result', rfl, h⟩

/-- A guard that holds goes on to hold. -/
theorem guarded (hpq : p → q) (h : p → H.Narrows wide narrow) :
    H.Narrows (if p then wide else none) (if q then narrow else none) := by
  by_cases hp : p
  · simpa [hp, hpq hp] using h hp
  · simpa [hp] using nothing

/-- A guard that fails goes on to fail. -/
theorem guardedNot (hqp : q → p) (h : ¬ p → H.Narrows wide narrow) :
    H.Narrows (if p then none else wide) (if q then none else narrow) := by
  by_cases hp : p
  · simpa [hp] using nothing
  · simpa [hp, mt hqp hp] using h hp

/-- Two lookups, the second one where the first finds nothing. -/
theorem orElse {wide₂ narrow₂ : Option Resolved} (h : H.Narrows wide narrow)
    (h₂ : H.Narrows wide₂ narrow₂) (hapart : wide = none → wide₂.isSome → narrow = none) :
    H.Narrows (wide.or wide₂) (narrow.or narrow₂) := by
  intro result op hfound
  rcases Option.or_eq_some_iff.mp hfound with hfound | ⟨hnone, hfound⟩
  · obtain ⟨result', hnarrow, hconforms⟩ := h result op hfound
    exact ⟨result', by simp [hnarrow], hconforms⟩
  · obtain ⟨result', hnarrow, hconforms⟩ := h₂ result op hfound
    exact ⟨result', by simp [hapart hnone (by simp [hfound]), hnarrow], hconforms⟩

end Narrows

/-! ### Numbers, texts and dates -/

variable {name : String} {args args' : List Ty} {t t' a a' : Ty}

/-- A type that conforms to `Real` and is above it is `Real`. -/
theorem eq_real_of_conforms (h : Conforms H .real t) (ht : Conforms H t .real) : t = .real := by
  cases h with
  | refl => rfl
  | any => cases ht

theorem conforms_promotedType (ht : Conforms H t .real) (ha : Conforms H a .real)
    (htt : Conforms H t' t) (haa : Conforms H a' a) :
    Conforms H (promotedType t' a') (promotedType t a) := by
  unfold promotedType
  by_cases hreal : t' = .real ∨ a' = .real
  · have hwide : t = .real ∨ a = .real := by
      rcases hreal with rfl | rfl
      · exact .inl (eq_real_of_conforms htt ht)
      · exact .inr (eq_real_of_conforms haa ha)
    simpa [hreal, hwide] using Conforms.refl _
  · by_cases hwide : t = .real ∨ a = .real
    · simpa [hreal, hwide] using Conforms.integerReal
    · simpa [hreal, hwide] using Conforms.refl _

theorem narrows_boolean (hargs : List.Forall₂ (Conforms H) args' args) :
    H.Narrows (H.booleanOperation name args) (H.booleanOperation name args') := by
  rcases hargs with _ | @⟨a', a, _, _, ha, _ | _⟩
  · exact .refl _
  · simp only [booleanOperation]
    exact .guarded (conforms_trans ha.conforms) fun _ => .refl _
  · simp only [booleanOperation]
    exact .refl _

/-- The numbers have one table. Its results are promoted, and it asks whether its operands conform
to `Integer` or to `Real`. -/
theorem narrows_numeric (ht : Conforms H t .real) (htt : Conforms H t' t)
    (hargs : List.Forall₂ (Conforms H) args' args) :
    H.Narrows (H.numericOperation t name args) (H.numericOperation t' name args') := by
  rcases hargs with _ | @⟨a', a, _, _, ha, _ | _⟩
  · have hpromoted (op : Operation) := Narrows.some op (conforms_promotedType ht ht htt htt)
    unfold numericOperation
    split
    · exact hpromoted .neg
    · exact hpromoted .abs
    · exact .refl _
    · exact .refl _
    · contradiction
    · exact .nothing
  · simp only [numericOperation]
    refine .guarded (conforms_trans ha.conforms) fun hreal => ?_
    have hpromoted (op : Operation) := Narrows.some op
      (conforms_promotedType ht (.of_conforms hreal) htt ha)
    have hintegers : H.conforms t .integer && H.conforms a .integer →
        H.conforms t' .integer && H.conforms a' .integer := by
      simp only [Bool.and_eq_true]
      exact And.imp (conforms_trans htt.conforms) (conforms_trans ha.conforms)
    split
    · exact hpromoted .add
    · exact hpromoted .sub
    · exact hpromoted .mul
    · exact .refl _
    · exact hpromoted .max
    · exact hpromoted .min
    · exact .guarded hintegers fun _ => .refl _
    · exact .guarded hintegers fun _ => .refl _
    · exact .refl _
  · simp only [numericOperation]
    exact .refl _

theorem narrows_string (hargs : List.Forall₂ (Conforms H) args' args) :
    H.Narrows (H.stringOperation name args) (H.stringOperation name args') := by
  rcases hargs with _ | @⟨a', a, _, _, ha, _ | @⟨b', b, _, _, hb, _ | _⟩⟩
  · exact .refl _
  · simp only [stringOperation]
    exact .guarded (conforms_trans ha.conforms) fun _ => .refl _
  · by_cases hname : name = "substring"
    · subst hname
      refine .guarded ?_ fun _ => .refl _
      simp only [Bool.and_eq_true]
      exact And.imp (conforms_trans ha.conforms) (conforms_trans hb.conforms)
    · have hnone : H.stringOperation name [a, b] = none := by
        unfold stringOperation
        split <;> simp_all
      rw [hnone]
      exact .nothing
  · simp only [stringOperation]
    exact .refl _

theorem narrows_date (hargs : List.Forall₂ (Conforms H) args' args) :
    H.Narrows (H.dateOperation name args) (H.dateOperation name args') := by
  rcases hargs with _ | @⟨a', a, _, _, ha, _ | _⟩
  · exact .refl _
  · exact .guarded (conforms_trans ha.conforms) fun _ => .refl _
  · exact .refl _

/-! ### Collections -/

variable {kind kind' other other' : Kind} {elem elem' otherElem otherElem' : Ty}

/-- Below a type whose values are ordered there are only such types. -/
theorem isOrderable_of_conforms (ht : t.isOrderable) (h : Conforms H t' t) : t'.isOrderable := by
  cases h with
  | refl => exact ht
  | void => rfl
  | naturalInteger => rfl
  | naturalReal => rfl
  | integerReal => rfl
  | any => cases ht
  | object => cases ht
  | collection => cases ht
  | tuple => cases ht

/-- Below an ordered kind there is only that one. -/
theorem isOrdered_of_kind (hkind : kind' = kind ∨ kind = .collection) (h : kind.isOrdered) :
    kind'.isOrdered :=
  hkind.resolve_right (ne_collection_of_isOrdered h) ▸ h

/-- Only the abstract kind is above it. -/
theorem eq_collection_of_kind (hkind : kind' = kind ∨ kind = .collection)
    (h : kind' = .collection) : kind = .collection :=
  hkind.elim (fun heq => heq ▸ h) id

theorem narrows_query (hkind : kind' = kind ∨ kind = .collection) (helem : Conforms H elem' elem) :
    H.Narrows (H.queryOperation kind elem name) (H.queryOperation kind' elem' name) := by
  have hpick (op : Operation) := Narrows.some op helem
  have hconvert (made : Kind) (op : Operation) :=
    Narrows.some op (Conforms.collection (.inl (rfl : made = made)) helem)
  unfold queryOperation
  split
  · exact .refl _
  · exact .refl _
  · exact .refl _
  · refine .guarded (conforms_trans helem.conforms) fun hreal => .some _ ?_
    by_cases hnarrow : elem' = .real
    · subst hnarrow
      rw [eq_real_of_conforms helem (.of_conforms hreal)]
      exact .refl _
    · by_cases hwide : elem = .real
      · simpa [hnarrow, hwide] using Conforms.integerReal
      · simpa [hnarrow, hwide] using Conforms.refl _
  · exact .guarded (fun h => isOrderable_of_conforms h helem) fun _ => hpick _
  · exact .guarded (fun h => isOrderable_of_conforms h helem) fun _ => hpick _
  · refine .guardedNot (eq_collection_of_kind hkind) fun _ => .some _ ?_
    exact .collection hkind helem.innermost
  · exact hconvert _ _
  · exact hconvert _ _
  · exact hconvert _ _
  · exact hconvert _ _
  · exact .guarded (isOrdered_of_kind hkind) fun _ => hpick _
  · exact .guarded (isOrdered_of_kind hkind) fun _ => hpick _
  · exact .nothing

/-- A canonical type that conforms to another one. -/
structure IsNarrower (H : Hierarchy) (t' t : Ty) : Prop where
  conforms : Conforms H t' t
  narrow : t'.Canonical
  wide : t.Canonical

/-- A join of narrower types is below every type above the wider ones. -/
theorem IsNarrower.join (hH : H.SingleInheritance) (ht : H.IsNarrower t' t)
    (ha : H.IsNarrower a' a) : Conforms H (H.join t' a') (H.join t a) := by
  obtain ⟨hleft, hright⟩ := H.conforms_join ht.wide ha.wide
  exact join_conforms hH ht.narrow ha.narrow (H.canonical_join ht.wide ha.wide)
    (ht.conforms.trans hleft) (ha.conforms.trans hright)

theorem narrows_element (hH : H.SingleInheritance) (hkind : kind' = kind ∨ kind = .collection)
    (helem : H.IsNarrower elem' elem) (ha : H.IsNarrower a' a) :
    H.Narrows (H.elementOperation kind elem name a) (H.elementOperation kind' elem' name a') := by
  have hextend (op : Operation) :=
    Narrows.some op (Conforms.collection hkind (helem.join hH ha))
  unfold elementOperation
  split
  · exact .refl _
  · exact .refl _
  · exact .refl _
  · exact .guardedNot (eq_collection_of_kind hkind) fun _ => hextend _
  · refine .guardedNot (eq_collection_of_kind hkind) fun _ => .some _ ?_
    exact .collection hkind helem.conforms
  · refine .guarded ?_ fun _ => .some _ helem.conforms
    simp only [Bool.and_eq_true]
    exact And.imp (isOrdered_of_kind hkind) (conforms_trans ha.conforms.conforms)
  · exact .guarded (isOrdered_of_kind hkind) fun _ => hextend _
  · exact .guarded (isOrdered_of_kind hkind) fun _ => hextend _
  · exact .guarded (isOrdered_of_kind hkind) fun _ => .refl _
  · exact .nothing

/-- A kind that is found for concrete kinds only is found for those below them. -/
theorem narrows_kinds {find : Kind → Kind → Option Kind} (op : Operation)
    (hleft : ∀ l, find .collection l = none) (hright : ∀ k, find k .collection = none)
    (hkind : kind' = kind ∨ kind = .collection) (hother : other' = other ∨ other = .collection)
    (helem : Conforms H elem' elem) :
    H.Narrows ((find kind other).map fun k => (.collection k elem, op))
      ((find kind' other').map fun k => (.collection k elem', op)) := by
  rcases hkind with rfl | rfl
  · rcases hother with rfl | rfl
    · cases find kind' other' with
      | none => exact .nothing
      | some made => exact .some op (.collection (.inl rfl) helem)
    · rw [hright]
      exact .nothing
  · rw [hleft]
    exact .nothing

theorem narrows_merge (hH : H.SingleInheritance) (hkind : kind' = kind ∨ kind = .collection)
    (hother : other' = other ∨ other = .collection) (helem : H.IsNarrower elem' elem)
    (hotherElem : H.IsNarrower otherElem' otherElem) :
    H.Narrows (H.mergeOperation kind elem name other otherElem)
      (H.mergeOperation kind' elem' name other' otherElem') := by
  have hunique {k k' : Kind} (hk : k' = k ∨ k = .collection) (h : k.isUnique) : k'.isUnique := by
    rcases hk with rfl | rfl
    · exact h
    · cases h
  unfold mergeOperation
  split
  · exact .refl _
  · exact .refl _
  · have helems := helem.join hH hotherElem
    exact narrows_kinds _ (fun _ => rfl) (fun k => by cases k <;> rfl) hkind hother helems
  · exact narrows_kinds _ (fun _ => rfl) (fun k => by cases k <;> rfl) hkind hother helem.conforms
  · refine .guarded ?_ fun _ => .some _ (.collection hkind helem.conforms)
    simp only [Bool.and_eq_true]
    exact And.imp (hunique hkind) (hunique hother)
  · refine .guarded ?_ fun _ => .some _ (.collection (.inl rfl) helem.conforms)
    simp only [Bool.and_eq_true, decide_eq_true_eq]
    rintro ⟨rfl, rfl⟩
    exact ⟨hkind.resolve_right nofun, hother.resolve_right nofun⟩
  · exact .nothing

/-- No name stands for an operation with an element and for one with a collection. -/
theorem elementOperation_eq_none {found : Resolved}
    (h : H.mergeOperation kind elem name other otherElem = some found) :
    H.elementOperation kind' elem' name a = none := by
  unfold mergeOperation at h
  split at h
  · rfl
  · rfl
  · rfl
  · rfl
  · rfl
  · rfl
  · cases h

theorem exists_of_conforms_collection (h : Conforms H t (.collection kind elem))
    (hvoid : t ≠ .void) : ∃ kind' elem', t = .collection kind' elem' ∧
      (kind' = kind ∨ kind = .collection) ∧ Conforms H elem' elem := by
  cases h with
  | refl => exact ⟨kind, elem, rfl, .inl rfl, .refl elem⟩
  | void => exact absurd rfl hvoid
  | collection hkind helem => exact ⟨_, _, rfl, hkind, helem⟩

/-- A collection as an argument stays one, as it is not untyped. -/
theorem narrows_argument (hH : H.SingleInheritance) (hkind : kind' = kind ∨ kind = .collection)
    (helem : H.IsNarrower elem' elem) (ha : H.IsNarrower a' a) (hvoid : a' ≠ .void) :
    H.Narrows (H.collectionOperation kind elem name [a])
      (H.collectionOperation kind' elem' name [a']) := by
  have helement : H.Narrows (H.elementOperation kind elem name a)
      (H.elementOperation kind' elem' name a') := narrows_element hH hkind helem ha
  obtain ⟨hconforms, hnarrow, hwide⟩ := ha
  cases a with
  | collection other otherElem =>
    obtain ⟨other', otherElem', rfl, hother, hotherElem⟩ :=
      exists_of_conforms_collection hconforms hvoid
    refine helement.orElse (narrows_merge hH hkind hother helem ⟨hotherElem, hnarrow, hwide⟩) ?_
    intro _ hfound
    obtain ⟨found, hfound⟩ := Option.isSome_iff_exists.mp hfound
    exact elementOperation_eq_none hfound
  | _ => exact helement.orElse .nothing fun _ => nofun

theorem narrows_collection (hH : H.SingleInheritance) (hkind : kind' = kind ∨ kind = .collection)
    (helem : H.IsNarrower elem' elem) (hargs : List.Forall₂ H.IsNarrower args' args)
    (hvoid : .void ∉ args') :
    H.Narrows (H.collectionOperation kind elem name args)
      (H.collectionOperation kind' elem' name args') := by
  rcases hargs with _ | @⟨a', a, _, _, ha, _ | @⟨b', b, _, _, hb, _ | _⟩⟩
  · exact narrows_query hkind helem.conforms
  · refine narrows_argument hH hkind helem ha ?_
    rintro rfl
    exact hvoid List.mem_cons_self
  · refine .guarded ?_ fun _ => .some _ (.collection hkind helem.conforms)
    simp only [Bool.and_eq_true]
    rintro ⟨⟨⟨hname, hordered⟩, hfirst⟩, hlast⟩
    refine ⟨⟨⟨hname, isOrdered_of_kind hkind hordered⟩, ?_⟩, ?_⟩
    · exact conforms_trans ha.conforms.conforms hfirst
    · exact conforms_trans hb.conforms.conforms hlast
  · exact .nothing

/-! ### Any receiver -/

theorem narrows_table (hH : H.SingleInheritance) (ht : H.IsNarrower t' t) (htvoid : t' ≠ .void)
    (hargs : List.Forall₂ H.IsNarrower args' args) (hvoid : .void ∉ args') :
    H.Narrows (H.tableOperation t name args) (H.tableOperation t' name args') := by
  have hconforms : List.Forall₂ (Conforms H) args' args := hargs.imp fun _ _ h => h.conforms
  obtain ⟨h, hnarrow, hwide⟩ := ht
  cases h with
  | void => exact absurd rfl htvoid
  | any => exact .nothing
  | naturalInteger => exact narrows_numeric .integerReal .naturalInteger hconforms
  | naturalReal => exact narrows_numeric (.refl _) .naturalReal hconforms
  | integerReal => exact narrows_numeric (.refl _) .integerReal hconforms
  | object => exact .nothing
  | tuple => exact .nothing
  | collection hkind helem =>
    exact narrows_collection hH hkind ⟨helem, hnarrow, hwide⟩ hargs hvoid
  | refl =>
    cases t with
    | boolean => exact narrows_boolean hconforms
    | integer => exact narrows_numeric .integerReal (.refl _) hconforms
    | unlimitedNatural => exact narrows_numeric .naturalReal (.refl _) hconforms
    | real => exact narrows_numeric (.refl _) (.refl _) hconforms
    | string => exact narrows_string hconforms
    | date => exact narrows_date hconforms
    | void => exact absurd rfl htvoid
    | any => exact .nothing
    | object cls => exact .nothing
    | collection kind elem =>
      exact narrows_collection hH (.inl rfl) ⟨.refl elem, hnarrow, hwide⟩ hargs hvoid
    | tuple parts => exact .nothing

/-- The operations of every receiver ask for the number of arguments only. -/
theorem universalOperation_congr {R : Ty → Ty → Prop} (hargs : List.Forall₂ R args' args) :
    universalOperation name args' = universalOperation name args := by
  rcases hargs with _ | ⟨_, _ | _⟩
  · rfl
  · unfold universalOperation
    split <;> simp_all
  · simp only [universalOperation]

theorem resolve_eq_ok_iff (ht : t ≠ .void) {found : Resolved} :
    H.resolve t name args = .ok found ↔
      (universalOperation name args).or (H.tableOperation t name args) = some found := by
  rw [resolve]
  simp only [ht, if_false]
  split
  · next hfound => simp [hfound]
  · next hnone => simp [hnone]

/-- Under single inheritance, a call whose operands are given narrower types, none of them `OclVoid`
itself, resolves to the same operation, with a result that conforms to the one before. -/
theorem resolve_narrows (H : Hierarchy) (hH : H.SingleInheritance)
    {receiver receiver' : Ty} {args args' : List Ty}
    (hcanonical : ∀ t ∈ receiver :: receiver' :: (args ++ args'), t.Canonical)
    (hreceiver : H.conforms receiver' receiver)
    (hargs : List.Forall₂ (fun a' a => H.conforms a' a) args' args)
    (hvoid : ∀ t ∈ receiver' :: args', t ≠ .void) {name : String} {result : Ty} {op : Operation}
    (hfound : H.resolve receiver name args = .ok (result, op)) :
    ∃ result', H.resolve receiver' name args' = .ok (result', op) ∧
      H.conforms result' result := by
  simp only [List.forall_mem_cons, List.forall_mem_append] at hcanonical hvoid
  obtain ⟨hwide, hnarrow, hwideArgs, hnarrowArgs⟩ := hcanonical
  obtain ⟨hreceiver', hargs'⟩ := hvoid
  have hconforms : Conforms H receiver' receiver := .of_conforms hreceiver
  have hne : receiver ≠ .void := by
    rintro rfl
    cases hconforms <;> exact hreceiver' rfl
  have htypes : List.Forall₂ H.IsNarrower args' args := by
    rw [List.forall₂_iff_zip] at hargs ⊢
    refine ⟨hargs.1, fun {a' a} hpair => ?_⟩
    obtain ⟨ha', ha⟩ := List.of_mem_zip hpair
    exact ⟨.of_conforms (hargs.2 hpair), hnarrowArgs a' ha', hwideArgs a ha⟩
  have htable : H.Narrows (H.tableOperation receiver name args)
      (H.tableOperation receiver' name args') :=
    narrows_table hH ⟨hconforms, hnarrow, hwide⟩ hreceiver' htypes fun h => hargs' _ h rfl
  rw [resolve_eq_ok_iff hne] at hfound
  obtain ⟨result', hfound', hresult⟩ := (Narrows.refl (universalOperation name args)).orElse htable
    (fun hnone _ => hnone) result op hfound
  refine ⟨result', ?_, hresult.conforms⟩
  rw [resolve_eq_ok_iff hreceiver', universalOperation_congr hargs, hfound']

/-- A van appended to taxis gives cars, which are vehicles, as a vehicle appended to cars gives. -/
theorem resolve_narrows_append :
    let H := Hierarchy.ofList
      [("Vehicle", []), ("Car", ["Vehicle"]), ("Taxi", ["Car"]), ("Van", ["Car"])]
    let sequence := fun cls => Ty.collection .sequence (.object cls)
    let before := H.resolve (sequence "Car") "append" [.object "Vehicle"]
    let after := H.resolve (sequence "Taxi") "append" [.object "Van"]
    H.SingleInheritance ∧ before = .ok (sequence "Vehicle", .append) ∧
      after = .ok (sequence "Car", .append) ∧
      ∃ result', after = .ok (result', .append) ∧ H.conforms result' (sequence "Vehicle") := by
  intro H sequence before after
  have hsingle : H.SingleInheritance := singleInheritance_ofList (by decide)
  have hreceiver : H.conforms (sequence "Taxi") (sequence "Car") := by decide
  have hargument : H.conforms (.object "Van") (.object "Vehicle") := by decide
  refine ⟨hsingle, rfl, rfl, resolve_narrows H hsingle ?_ hreceiver (.cons hargument .nil) ?_ rfl⟩
  · simp [sequence, Ty.Canonical]
  · simp [sequence]

end ObjectConstraint.Hierarchy
