import ObjectConstraint.Proofs.Belonging
import ObjectConstraint.Proofs.NamedParts

/-!
# Values that are what they say

A collection carries the element type it was made with, and casts go by it. Belonging to a type
does not look at it, so it can be wrong: a set made for integers may hold a string and belongs to
`OclAny` all the same. A faithful value refers to no object but those of the model and, where there
are casts, carries no wrong type at any depth.

* `Faithful` — such values; `Fits` — such values of a type.
* `belongs_dynamicType` — a faithful value belongs to the type that it has by itself.
* `faithful_collectionOf`, `fits_tupleOf` — collections and tuples made of faithful values.
-/

namespace ObjectConstraint

/-- A tuple belongs to a tuple type in order, to whose types its parts belong one by one. -/
theorem Hierarchy.belongs_tuple_of_paired {H : Hierarchy} {ps : List (String × Value)}
    {ts : List (String × Ty)} (hts : Parts.Ascending ts) (h : Parts.Paired (Belongs H) ps ts) :
    Belongs H (.tuple ps) (.tuple ts) := by
  refine belongs_tuple_of_found h.length_eq ?_
  intro p hp
  obtain ⟨q, hq, hname, hbelongs⟩ := h.exists_right hp
  exact ⟨q.2, hname ▸ Parts.lookup_of_mem hts.nodup hq, hbelongs⟩

/-! ### Faithful values -/

/-- A value is what it says, its members aside: an object is known, the parts of a tuple stand in
order, and if it matters to casts, the elements of a collection belong to the type it was made
with. -/
def Value.Honest (H : Hierarchy) (known : ObjectRef → Prop) (casts : Prop) : Value → Prop
  | object o => known o
  | collection _ made elems => casts → ∀ x ∈ elems, Belongs H x made
  | tuple parts => Parts.Ascending parts
  | _ => True

/-- A value is what it says at every depth. -/
inductive Faithful (H : Hierarchy) (known : ObjectRef → Prop) (casts : Prop) : Value → Prop
  | intro {v : Value} (here : v.Honest H known casts)
    (inside : ∀ w ∈ v.members, Faithful H known casts w) : Faithful H known casts v

/-- A faithful value of a type. -/
structure Fits (H : Hierarchy) (known : ObjectRef → Prop) (casts : Prop) (v : Value) (t : Ty) :
    Prop where
  belongs : Belongs H v t
  faithful : Faithful H known casts v

variable {H : Hierarchy} {known : ObjectRef → Prop} {casts : Prop} {v : Value} {t u : Ty}

namespace Faithful

theorem here (h : Faithful H known casts v) : v.Honest H known casts := by
  cases h with
  | intro here inside => exact here

theorem inside (h : Faithful H known casts v) {w : Value} (hw : w ∈ v.members) :
    Faithful H known casts w := by
  cases h with
  | intro here inside => exact inside w hw

theorem undefined : Faithful H known casts .undefined := .intro trivial fun _ h => nomatch h

theorem object {o : ObjectRef} (h : known o) : Faithful H known casts (.object o) :=
  .intro h fun _ h => nomatch h

end Faithful

/-- The types whose values have no members and name no object. -/
def Ty.isScalar : Ty → Bool
  | boolean | integer | unlimitedNatural | real | string | date | void => true
  | any | object _ | collection _ _ | tuple _ => false

theorem faithful_of_isScalar (ht : t.isScalar) (h : Belongs H v t) : Faithful H known casts v := by
  cases h with
  | any => cases ht
  | object => cases ht
  | collection => cases ht
  | tuple => cases ht
  | _ => exact .intro trivial fun _ h => nomatch h

namespace Fits

theorem undefined (t : Ty) : Fits H known casts .undefined t := ⟨.undefined t, .undefined⟩

theorem scalar (ht : t.isScalar) (h : Belongs H v t) : Fits H known casts v t :=
  ⟨h, faithful_of_isScalar ht h⟩

theorem conforms (h : Fits H known casts v t) (hconf : H.conforms t u) : Fits H known casts v u :=
  ⟨Hierarchy.belongs_of_conforms h.belongs hconf, h.faithful⟩

theorem join_left (h : Fits H known casts v t) (u : Ty) : Fits H known casts v (H.join t u) :=
  ⟨Hierarchy.belongs_join_left h.belongs u, h.faithful⟩

theorem join_right (h : Fits H known casts v u) (t : Ty) : Fits H known casts v (H.join t u) :=
  ⟨Hierarchy.belongs_join_right h.belongs t, h.faithful⟩

end Fits

/-! ### The type of a faithful value -/

theorem Value.dynamicTypes_eq_map (parts : List (String × Value)) :
    dynamicTypes parts = parts.map fun p => (p.1, p.2.dynamicType) := by
  induction parts with
  | nil => rfl
  | cons p ps ih => exact congrArg (_ :: ·) ih

/-- A tuple in order belongs to the tuple type of types that its parts belong to. -/
theorem Hierarchy.belongs_tuple_map {parts : List (String × Value)} {f : Value → Ty}
    (hparts : Parts.Ascending parts) (h : ∀ p ∈ parts, Belongs H p.2 (f p.2)) :
    Belongs H (.tuple parts) (.tuple (parts.map fun p => (p.1, f p.2))) :=
  belongs_tuple_of_paired (Parts.ascending_map hparts f) (Parts.paired_map h)

/-- A faithful value belongs to the type that it has by itself. -/
theorem belongs_dynamicType (hcasts : casts) (h : Faithful H known casts v) :
    Belongs H v v.dynamicType := by
  induction v using Value.memberInduction with
  | step v ih =>
    cases v with
    | undefined => exact .undefined _
    | boolean b => exact .boolean b
    | integer n => exact .integer n
    | unlimited => exact .unlimited
    | real x => exact .real x
    | string s => exact .string s
    | date d => exact .date d
    | object o => exact .object o (H.conformsTo_refl o.cls)
    | collection kind made elems => exact .collection (.inl rfl) (h.here hcasts)
    | tuple parts =>
      show Belongs H _ (.tuple (Value.dynamicTypes parts))
      rw [Value.dynamicTypes_eq_map]
      refine Hierarchy.belongs_tuple_map h.here ?_
      intro p hp
      exact ih p.2 (List.mem_map_of_mem hp) (h.inside (List.mem_map_of_mem hp))

/-! ### Collections and tuples -/

/-- A collection of faithful values is faithful, if what it carries is right where that matters. -/
theorem faithful_collectionOf {kind : Kind} {made : Ty} {elems : List Value}
    (hmade : casts → ∀ x ∈ elems, Belongs H x made) (h : ∀ x ∈ elems, Faithful H known casts x) :
    Faithful H known casts (.collectionOf kind made elems) :=
  .intro (fun hcasts x hx => hmade hcasts x (Value.mem_of_mem_normalForm hx))
    fun x hx => h x (Value.mem_of_mem_normalForm hx)

/-- The collection of some values of a type fits the collection type of its kind, and of the
abstract kind, over that type. -/
theorem fits_collectionOf {kind l : Kind} {elem : Ty} {elems : List Value}
    (hkind : kind.concrete = l ∨ l = .collection) (h : ∀ x ∈ elems, Fits H known casts x elem) :
    Fits H known casts (.collectionOf kind elem elems) (.collection l elem) :=
  ⟨Hierarchy.belongs_collectionOf elem hkind fun x hx => (h x hx).belongs,
    faithful_collectionOf (fun _ x hx => (h x hx).belongs) fun x hx => (h x hx).faithful⟩

theorem fits_tupleOf {ps : List (String × Value)} {ts : List (String × Ty)}
    (h : Parts.Paired (Fits H known casts) ps ts) :
    Fits H known casts (.tupleOf ps) (.tupleOf ts) := by
  constructor
  · have hbelongs : Parts.Paired (Belongs H) ps ts :=
      h.imp fun _ _ hpq => ⟨hpq.1, hpq.2.belongs⟩
    exact Hierarchy.belongs_tuple_of_paired (Parts.ascending_ofList ts) hbelongs.ofList
  · refine .intro (Parts.ascending_ofList ps) ?_
    intro w hw
    obtain ⟨p, hp, rfl⟩ := List.mem_map.mp hw
    obtain ⟨q, -, -, hfits⟩ := h.exists_right (Parts.mem_of_mem_ofList hp)
    exact hfits.faithful

end ObjectConstraint
