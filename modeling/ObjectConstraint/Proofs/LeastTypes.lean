import ObjectConstraint.Proofs.Typings

/-!
# Least types

Type tests and casts look at the type that a value has by itself, and there a natural number is an
integer like any other, while a collection has the element type that it carries. What a tree of some
type can evaluate to is said by the least type of the value, which tells natural numbers apart: it
conforms to the type of the tree.

* `Value.leastType` — the least type; `belongs_leastType` — the value belongs to it.
* `Exact` — the values that carry right element types at every depth; `Carries` — such values whose
  least type conforms to a type.
* `Typing.exact` — this is a typing.
-/

namespace ObjectConstraint

namespace Value

mutual

/-- The type that a value has by itself, with a natural number for an integer that is none below
zero. -/
def leastType : Value → Ty
  | integer n => if 0 ≤ n.toInt then .unlimitedNatural else .integer
  | tuple parts => .tuple (leastTypes parts)
  | v => v.dynamicType
  termination_by structural v => v

def leastTypes : List (String × Value) → List (String × Ty)
  | [] => []
  | (name, v) :: parts => (name, v.leastType) :: leastTypes parts
  termination_by structural parts => parts

end

theorem leastTypes_eq_map (parts : List (String × Value)) :
    leastTypes parts = parts.map fun p => (p.1, p.2.leastType) := by
  induction parts with
  | nil => rfl
  | cons p ps ih => exact congrArg (_ :: ·) ih

theorem leastType_integer (n : Int64) :
    (integer n).leastType = .unlimitedNatural ∧ 0 ≤ n.toInt ∨ (integer n).leastType = .integer := by
  by_cases hn : 0 ≤ n.toInt
  · exact .inl ⟨if_pos hn, hn⟩
  · exact .inr (if_neg hn)

theorem conforms_leastType_integer (H : Hierarchy) (n : Int64) :
    H.conforms (integer n).leastType .integer := by
  rcases leastType_integer n with ⟨hleast, -⟩ | hleast
  · exact hleast ▸ Conforms.naturalInteger.conforms
  · exact hleast ▸ H.conforms_refl _

end Value

/-! ### Conformance of tuples and of innermost types -/

section Conformance

variable {H : Hierarchy} {a b : Ty}

/-- A tuple type in order conforms to the tuple types that have as many parts, and under each of its
names one to which its own part conforms. -/
theorem Hierarchy.conforms_tuple {ps qs : List (String × Ty)} (hps : Parts.Ascending ps) :
    H.conforms (.tuple ps) (.tuple qs) ↔
      ps.length = qs.length ∧ ∀ p ∈ ps, ∃ u, qs.lookup p.1 = some u ∧ H.conforms p.2 u := by
  rw [conforms_iff]
  constructor
  · intro h
    cases h with
    | refl =>
      exact ⟨rfl, fun p hp => ⟨p.2, Parts.lookup_of_mem hps.nodup hp, conforms_refl p.2⟩⟩
    | tuple hlength hnames hparts =>
      refine ⟨hlength, fun p hp => ?_⟩
      obtain ⟨u, hu⟩ := Option.isSome_iff_exists.mp (hnames p hp)
      exact ⟨u, hu, (hparts p hp u hu).conforms⟩
  · rintro ⟨hlength, hfound⟩
    refine .tuple hlength ?_ ?_
    · intro p hp
      obtain ⟨u, hu, -⟩ := hfound p hp
      exact Option.isSome_iff_exists.mpr ⟨u, hu⟩
    · intro p hp u hu
      obtain ⟨u', hu', hconf⟩ := hfound p hp
      obtain rfl := Option.some.inj (hu'.symm.trans hu)
      exact .of_conforms hconf

/-- The same of the types that the parts of a tuple have in some sense. -/
theorem Hierarchy.conforms_tuple_types {parts : List (String × Value)} {f : Value → Ty}
    (hparts : Parts.Ascending parts) {types : List (String × Ty)} :
    H.conforms (.tuple (parts.map fun p => (p.1, f p.2))) (.tuple types) ↔
      parts.length = types.length ∧
        ∀ p ∈ parts, ∃ u, types.lookup p.1 = some u ∧ H.conforms (f p.2) u := by
  rw [conforms_tuple (Parts.ascending_map hparts f), List.length_map, List.forall_mem_map]

/-- Two types of the same tuple conform if they do so part by part. -/
theorem Hierarchy.conforms_tuple_map {parts : List (String × Value)} {f g : Value → Ty}
    (hparts : Parts.Ascending parts) (h : ∀ p ∈ parts, H.conforms (f p.2) (g p.2)) :
    H.conforms (.tuple (parts.map fun p => (p.1, f p.2)))
      (.tuple (parts.map fun p => (p.1, g p.2))) := by
  rw [conforms_tuple_types hparts, List.length_map]
  refine ⟨rfl, fun p hp => ⟨g p.2, ?_, h p hp⟩⟩
  exact Parts.lookup_of_mem (Parts.ascending_map hparts g).nodup
    (List.mem_map_of_mem (f := fun p => (p.1, g p.2)) hp)

theorem Conforms.innermost (h : Conforms H a b) : Conforms H a.innermost b.innermost := by
  induction h with
  | refl t => exact .refl _
  | void t => exact .void _
  | any t => exact .any _
  | naturalInteger => exact .naturalInteger
  | naturalReal => exact .naturalReal
  | integerReal => exact .integerReal
  | object h => exact .object h
  | collection _ _ ih => exact ih
  | tuple hlength hnames hparts => exact .tuple hlength hnames hparts

theorem Hierarchy.conforms_trans {c : Ty} (hab : H.conforms a b) (hbc : H.conforms b c) :
    H.conforms a c :=
  ((Conforms.of_conforms hab).trans (.of_conforms hbc)).conforms

end Conformance

/-! ### Exact values -/

/-- What a value says of its members is right: an object is known, the parts of a tuple stand in
order, and the least types of the elements of a collection conform to the type it was made with. -/
def Value.Precise (H : Hierarchy) (known : ObjectRef → Prop) : Value → Prop
  | object o => known o
  | collection _ made elems => ∀ x ∈ elems, H.conforms x.leastType made
  | tuple parts => Parts.Ascending parts
  | _ => True

/-- What a value says of its members is right at every depth. -/
inductive Exact (H : Hierarchy) (known : ObjectRef → Prop) : Value → Prop
  | intro {v : Value} (here : v.Precise H known) (inside : ∀ w ∈ v.members, Exact H known w) :
    Exact H known v

/-- An exact value whose least type conforms to a type. -/
structure Carries (H : Hierarchy) (known : ObjectRef → Prop) (v : Value) (t : Ty) : Prop where
  conforms_least : H.conforms v.leastType t
  exact : Exact H known v

variable {H : Hierarchy} {known : ObjectRef → Prop} {v : Value} {t u : Ty}

namespace Exact

theorem here (h : Exact H known v) : v.Precise H known := by
  cases h with
  | intro here inside => exact here

theorem inside (h : Exact H known v) {w : Value} (hw : w ∈ v.members) : Exact H known w := by
  cases h with
  | intro here inside => exact inside w hw

/-- An exact value belongs to its least type. -/
theorem belongs_leastType (h : Exact H known v) : Belongs H v v.leastType := by
  induction v using Value.memberInduction with
  | step v ih =>
    cases v with
    | undefined => exact .undefined _
    | boolean b => exact .boolean b
    | integer n =>
      rcases Value.leastType_integer n with ⟨hleast, hn⟩ | hleast
      · exact hleast ▸ .natural n hn
      · exact hleast ▸ .integer n
    | unlimited => exact .unlimited
    | real x => exact .real x
    | string s => exact .string s
    | date d => exact .date d
    | object o => exact .object o (H.conformsTo_refl o.cls)
    | collection kind made elems =>
      refine .collection (.inl rfl) ?_
      intro x hx
      exact Hierarchy.belongs_of_conforms (ih x hx (h.inside hx)) (h.here x hx)
    | tuple parts =>
      show Belongs H _ (.tuple (Value.leastTypes parts))
      rw [Value.leastTypes_eq_map]
      refine Hierarchy.belongs_tuple_map h.here ?_
      intro p hp
      exact ih p.2 (List.mem_map_of_mem hp) (h.inside (List.mem_map_of_mem hp))

/-- The least type of an exact value conforms to the type that the value has by itself. -/
theorem conforms_dynamicType (h : Exact H known v) : H.conforms v.leastType v.dynamicType := by
  induction v using Value.memberInduction with
  | step v ih =>
    cases v with
    | integer n => exact Value.conforms_leastType_integer H n
    | tuple parts =>
      show H.conforms (.tuple (Value.leastTypes parts)) (.tuple (Value.dynamicTypes parts))
      rw [Value.leastTypes_eq_map, Value.dynamicTypes_eq_map]
      refine Hierarchy.conforms_tuple_map h.here ?_
      intro p hp
      exact ih p.2 (List.mem_map_of_mem hp) (h.inside (List.mem_map_of_mem hp))
    | _ => exact H.conforms_refl _

theorem undefined : Exact H known .undefined := .intro trivial fun _ h => nomatch h

theorem object {o : ObjectRef} (h : known o) : Exact H known (.object o) :=
  .intro h fun _ h => nomatch h

theorem of_isScalar (ht : t.isScalar) (h : Belongs H v t) : Exact H known v := by
  cases h with
  | any => cases ht
  | object => cases ht
  | collection => cases ht
  | tuple => cases ht
  | _ => exact .intro trivial fun _ h => nomatch h

/-- Exact values in a collection that carries a type to which their least types conform. -/
theorem collectionOf {kind : Kind} {made : Ty} {elems : List Value}
    (hmade : ∀ x ∈ elems, H.conforms x.leastType made) (h : ∀ x ∈ elems, Exact H known x) :
    Exact H known (.collectionOf kind made elems) :=
  .intro (fun x hx => hmade x (Value.mem_of_mem_normalForm hx))
    fun x hx => h x (Value.mem_of_mem_normalForm hx)

end Exact

/-! ### Exact values of a type -/

namespace Carries

theorem undefined (t : Ty) : Carries H known .undefined t :=
  ⟨(Conforms.void t).conforms, .undefined⟩

theorem belongs (h : Carries H known v t) : Belongs H v t :=
  Hierarchy.belongs_of_conforms h.exact.belongs_leastType h.conforms_least

theorem conforms (h : Carries H known v t) (hconf : H.conforms t u) : Carries H known v u :=
  ⟨Hierarchy.conforms_trans h.conforms_least hconf, h.exact⟩

theorem scalar (ht : t.isScalar) (h : Belongs H v t) : Carries H known v t := by
  refine ⟨?_, .of_isScalar ht h⟩
  cases h with
  | undefined t => exact (Conforms.void t).conforms
  | any => cases ht
  | object => cases ht
  | collection => cases ht
  | tuple => cases ht
  | natural n hn =>
    rw [Value.leastType, if_pos hn]
    exact H.conforms_refl _
  | integer n => exact Value.conforms_leastType_integer H n
  | integerReal n =>
    have hinteger := Value.conforms_leastType_integer H n
    exact Hierarchy.conforms_trans hinteger Conforms.integerReal.conforms
  | unlimitedInteger => exact Conforms.naturalInteger.conforms
  | unlimitedReal => exact Conforms.naturalReal.conforms
  | _ => exact H.conforms_refl _

/-- The elements of a collection are exact values of every element type that it has. -/
theorem element {k l : Kind} {made elem : Ty} {elems : List Value}
    (h : Carries H known (.collection k made elems) (.collection l elem)) :
    ∀ x ∈ elems, Carries H known x elem := by
  intro x hx
  have hmade : H.conforms made elem := (Hierarchy.conforms_collection.mp h.conforms_least).2
  exact ⟨Hierarchy.conforms_trans (h.exact.here x hx) hmade, h.exact.inside hx⟩

/-- A tuple type has as many parts as a tuple, and under each name a type that the part carries. -/
theorem parts {ps : List (String × Value)} {ts : List (String × Ty)}
    (h : Carries H known (.tuple ps) (.tuple ts)) :
    ps.length = ts.length ∧
      ∀ p ∈ ps, ∃ u, ts.lookup p.1 = some u ∧ Carries H known p.2 u := by
  have hconf : H.conforms (.tuple (Value.leastTypes ps)) (.tuple ts) := h.conforms_least
  rw [Value.leastTypes_eq_map, Hierarchy.conforms_tuple_types h.exact.here] at hconf
  refine ⟨hconf.1, fun p hp => ?_⟩
  obtain ⟨u, hu, hleast⟩ := hconf.2 p hp
  exact ⟨u, hu, hleast, h.exact.inside (List.mem_map_of_mem hp)⟩

/-- The parts of a tuple are exact values of the types under their names. -/
theorem part {ps : List (String × Value)} {ts : List (String × Ty)}
    (h : Carries H known (.tuple ps) (.tuple ts)) {name : String} {x : Value}
    (hx : (name, x) ∈ ps) (ht : ts.lookup name = some t) : Carries H known x t := by
  obtain ⟨u, hu, hcarries⟩ := h.parts.2 _ hx
  obtain rfl := Option.some.inj (hu.symm.trans ht)
  exact hcarries

/-- Exact values of a type in a collection that is made for it. -/
theorem collectionOf {kind l : Kind} {elem : Ty} {elems : List Value}
    (hkind : kind.concrete = l ∨ l = .collection) (h : ∀ x ∈ elems, Carries H known x elem) :
    Carries H known (.collectionOf kind elem elems) (.collection l elem) :=
  ⟨Hierarchy.conforms_collection.mpr ⟨hkind, H.conforms_refl elem⟩,
    .collectionOf (fun x hx => (h x hx).conforms_least) fun x hx => (h x hx).exact⟩

/-- The values inside all levels of an exact value are exact values of the innermost type. -/
theorem leaves (h : Carries H known v t) :
    ∀ x ∈ Collection.leaves v, Carries H known x t.innermost := by
  induction v using Value.memberInduction generalizing t with
  | step v ih =>
    intro x hx
    have hinnermost := (Conforms.of_conforms h.conforms_least).innermost.conforms
    cases v with
    | collection k made elems =>
      obtain ⟨w, hw, hx⟩ := Collection.mem_leavesOfAll.mp hx
      exact (ih w hw ⟨h.exact.here w hw, h.exact.inside hw⟩ x hx).conforms hinnermost
    | integer n =>
      obtain rfl := List.mem_singleton.mp hx
      refine ⟨?_, h.exact⟩
      rcases Value.leastType_integer n with ⟨hleast, -⟩ | hleast
      all_goals
        rw [hleast] at hinnermost ⊢
        exact hinnermost
    | _ =>
      obtain rfl := List.mem_singleton.mp hx
      exact ⟨hinnermost, h.exact⟩

theorem tupleOf {ps : List (String × Value)} {ts : List (String × Ty)}
    (h : Parts.Paired (Carries H known) ps ts) : Carries H known (.tupleOf ps) (.tupleOf ts) := by
  have hpaired := h.ofList
  constructor
  · show H.conforms (.tuple (Value.leastTypes (Parts.ofList ps))) (.tuple (Parts.ofList ts))
    rw [Value.leastTypes_eq_map]
    refine (Conforms.tuple_of_paired (Parts.ascending_ofList ts)
      (List.forall₂_map_left_iff.mpr ?_)).conforms
    exact hpaired.imp fun _ _ h => ⟨h.1, .of_conforms h.2.conforms_least⟩
  · refine .intro (Parts.ascending_ofList ps) ?_
    intro w hw
    obtain ⟨p, hp, rfl⟩ := List.mem_map.mp hw
    obtain ⟨q, -, -, hcarries⟩ := hpaired.exists_right hp
    exact hcarries.exact

theorem promote (h : Carries H known v t) : Carries H known (v.promote t) t := by
  unfold Value.promote
  split
  · exact .scalar rfl (.real _)
  · exact h

end Carries

/-- The values inside all levels of an exact collection, in one that carries the innermost type. -/
theorem Exact.flatten {k kind : Kind} {made : Ty} {elems : List Value}
    (h : Exact H known (.collection k made elems)) :
    Exact H known (.collectionOf kind made.innermost (Collection.leavesOfAll elems)) := by
  have hself : Carries H known (.collection k made elems) (.collection k made) :=
    ⟨H.conforms_refl _, h⟩
  have hleaves : ∀ x ∈ Collection.leavesOfAll elems, Carries H known x made.innermost :=
    hself.leaves
  exact .collectionOf (fun x hx => (hleaves x hx).conforms_least) fun x hx => (hleaves x hx).exact

/-- To be an exact value of a type is a typing. -/
def Typing.exact (H : Hierarchy) (known : ObjectRef → Prop) : Typing H where
  rel := Carries H known
  known := known
  casts := True
  admits := Ty.Canonical
  belongs := Carries.belongs
  scalar := .scalar
  undefined := Carries.undefined
  object ho hcls := ⟨Hierarchy.conforms_object.mpr hcls, .object ho⟩
  known_object h := h.exact.here
  conforms := .conforms
  join_left h ht hu := h.conforms (Hierarchy.conforms_join ht hu).1.conforms
  join_right h ht hu := h.conforms (Hierarchy.conforms_join ht hu).2.conforms
  member h hw := ⟨(Conforms.any _).conforms, h.exact.inside hw⟩
  element := .element
  part h _ _ _ hx ht := h.part hx ht
  collectionOf := .collectionOf
  keep h hkind hxs :=
    have hmade := (Hierarchy.conforms_collection.mp h.conforms_least).2
    ⟨Hierarchy.conforms_collection.mpr ⟨hkind, hmade⟩,
      .collectionOf (fun x hx => h.exact.here x (hxs x hx)) fun x hx => h.exact.inside (hxs x hx)⟩
  flatten h hkind :=
    have hmade := (Hierarchy.conforms_collection.mp h.conforms_least).2
    ⟨Hierarchy.conforms_collection.mpr ⟨hkind, (Conforms.of_conforms hmade).innermost.conforms⟩,
      h.exact.flatten⟩
  tupleOf := .tupleOf
  cast _ h hconf :=
    Carries.promote ⟨Hierarchy.conforms_trans h.exact.conforms_dynamicType hconf, h.exact⟩
  admits_boolean := trivial
  admits_integer := trivial
  admits_elem := id
  admits_join := Hierarchy.canonical_join
  admits_void := trivial

end ObjectConstraint
