import ObjectConstraint.Proofs.Conversions

/-!
# Flattening

Flattening a collection takes the values out of all collections inside it, whatever their kinds, and
makes a collection of the outer kind of them. So the outer kind is the only one that drops or orders
anything, and it may do so before or after the values are taken out: of equal elements, inside which
equal values stand in the same order, it needs only the first.

* `Value.firstOccurrences_flatMap`, `Value.sameContents_flatMap` — elements that a kind drops do not
  matter to what the elements are taken to.
* `Collection.nested` — a collection and those inside it, at every level.
* `Collection.countP_leaves` — a value occurs as often as in all of them together.
* `Collection.flatten_nested` — the laws of flattening.
-/

namespace ObjectConstraint

namespace Value

/-! ### Redundant elements -/

/-- Whatever the values of `outer` are taken to by `f` is in `inner`. -/
def Covers (f : Value → List Value) (outer inner : Known) : Prop :=
  ∀ x, outer.contains x → ∀ z ∈ f x, inner.contains z

theorem firstOccurrences_of_known {known : Known} {xs : List Value}
    (h : ∀ x ∈ xs, known.contains x) : firstOccurrences known xs = ([], known) := by
  induction xs with
  | nil => rfl
  | cons x xs ih =>
    obtain ⟨hx, hxs⟩ := List.forall_mem_cons.mp h
    rw [firstOccurrences, if_pos hx, ih hxs]

/-- Dropping a later equal element drops no first occurrence among what the elements are taken
to. -/
theorem firstOccurrences_flatMap {f : Value → List Value}
    (hf : ∀ x y, x == y → EqEach (f x) (f y)) {outer inner : Known} (h : Covers f outer inner)
    (xs : List Value) :
    firstOccurrences inner ((firstOccurrences outer xs).1.flatMap f) =
      firstOccurrences inner (xs.flatMap f) := by
  induction xs generalizing outer inner with
  | nil => rfl
  | cons x xs ih =>
    rw [List.flatMap_cons, firstOccurrences]
    by_cases hx : outer.contains x
    · rw [if_pos hx, ih h, firstOccurrences_append, firstOccurrences_of_known (h x hx)]
      rfl
    · -- now the values that `x` is taken to are known as well, so `x` itself may become known
      rw [if_neg hx]
      dsimp only
      rw [List.flatMap_cons, firstOccurrences_append, firstOccurrences_append]
      dsimp only
      rw [ih]
      intro y hy z hz
      rw [contains_firstOccurrences, Bool.or_eq_true]
      rw [contains_insert, Bool.or_eq_true] at hy
      rcases hy with hxy | hy
      · right
        rw [(hf x y hxy).any fun a b hab => beq_congr hab (BEq.refl z)]
        exact List.any_eq_true.mpr ⟨z, hz, BEq.refl z⟩
      · exact .inl (h y hy z hz)

/-- What is known to a first list of first occurrences is known to the second. -/
theorem firstOccurrences_firstOccurrences {outer inner : Known}
    (h : ∀ x, outer.contains x → inner.contains x) (xs : List Value) :
    firstOccurrences inner (firstOccurrences outer xs).1 = firstOccurrences inner xs := by
  have hcovers : Covers (fun x => [x]) outer inner := fun x hx z hz =>
    List.mem_singleton.mp hz ▸ h x hx
  have hflat := firstOccurrences_flatMap (fun _ _ hxy => .cons hxy .nil) hcovers xs
  rwa [List.flatMap_singleton', List.flatMap_singleton'] at hflat

/-! ### Contents -/

/-- A test that does not tell equal values apart has the same answer where the same values occur. -/
theorem any_congr_of_any {xs ys : List Value} (h : ∀ v, xs.any (· == v) = ys.any (· == v))
    {p : Value → Bool} (hp : ∀ x y, x == y → p x = p y) : xs.any p = ys.any p := by
  have hsub {us ws : List Value} (hall : ∀ x ∈ us, ∃ y ∈ ws, x == y) : us.any p → ws.any p := by
    intro hany
    obtain ⟨x, hx, hpx⟩ := List.any_eq_true.mp hany
    obtain ⟨y, hy, hxy⟩ := hall x hx
    exact List.any_eq_true.mpr ⟨y, hy, hp x y hxy ▸ hpx⟩
  obtain ⟨hxs, hys⟩ := any_eq_iff.mp h
  exact Bool.eq_iff_iff.mpr ⟨hsub hxs, hsub hys⟩

/-- No kind takes notice of whether its normal form is made before its elements are taken to lists
of others, or only afterwards. -/
theorem sameContents_flatMap {f : Value → List Value}
    (hf : ∀ x y, x == y → EqEach (f x) (f y)) (kind : Kind) (xs : List Value) :
    SameContents kind ((normalForm kind xs).flatMap f) (xs.flatMap f) := by
  have hcount (v : Value) :
      ((ascending xs).flatMap f).countP (· == v) = (xs.flatMap f).countP (· == v) :=
    ((ascending_perm xs).flatMap_right f).countP_eq _
  cases kind with
  | set =>
    refine any_eq_iff.mp fun v => ?_
    rw [List.any_flatMap, List.any_flatMap]
    refine any_congr_of_any (any_normalForm .set xs) fun x y hxy => ?_
    exact (hf x y hxy).any fun a b hab => beq_congr hab (BEq.refl v)
  | bag => exact hcount
  | collection => exact hcount
  | sequence => exact EqEach.refl _
  | orderedSet =>
    refine eqEach_normalForm_iff.mp ?_
    have hcovers : Covers f ∅ ∅ := fun x hx => by simp at hx
    rw [normalForm, normalForm, normalForm, firstOccurrences_flatMap hf hcovers]
    exact EqEach.refl _

/-- Nor of whether two lists are in normal form before they are put together. -/
theorem sameContents_append (kind : Kind) (xs ys : List Value) :
    SameContents kind (normalForm kind xs ++ normalForm kind ys) (xs ++ ys) := by
  have hcount (v : Value) :
      (ascending xs ++ ascending ys).countP (· == v) = (xs ++ ys).countP (· == v) :=
    ((ascending_perm xs).append (ascending_perm ys)).countP_eq _
  cases kind with
  | set =>
    refine any_eq_iff.mp fun v => ?_
    rw [List.any_append, List.any_append, any_normalForm, any_normalForm]
  | bag => exact hcount
  | collection => exact hcount
  | sequence => exact EqEach.refl _
  | orderedSet =>
    refine eqEach_normalForm_iff.mp ?_
    have hnone (known : Known) (x : Value) : (∅ : Known).contains x → known.contains x := by simp
    simp only [normalForm, firstOccurrences_append, firstOccurrences_firstOccurrences (hnone _)]
    exact EqEach.refl _

end Value

namespace Collection

/-! ### Leaves -/

theorem leavesOfAll_eq_flatMap (vs : List Value) : leavesOfAll vs = vs.flatMap leaves := by
  induction vs with
  | nil => rfl
  | cons v vs ih => rw [leavesOfAll, ih, List.flatMap_cons]

theorem leaves_of_leaf {v : Value} (h : v.collection? = none) : leaves v = [v] := by
  cases v <;> first | rfl | cases h

/-- Leaves are no collections. -/
theorem leaf_of_mem_leaves {v x : Value} (h : x ∈ leaves v) : x.collection? = none := by
  induction v using Value.memberInduction with
  | step v ih =>
    cases v with
    | collection kind elem elems =>
      obtain ⟨w, hw, hx⟩ := mem_leavesOfAll.mp h
      exact ih w hw hx
    | _ => rw [List.mem_singleton.mp h]; rfl

/-- Without collections inside there is nothing to take apart. -/
theorem leavesOfAll_eq_self {vs : List Value} (h : ∀ v ∈ vs, v.collection? = none) :
    leavesOfAll vs = vs := by
  induction vs with
  | nil => rfl
  | cons v vs ih =>
    obtain ⟨hv, hvs⟩ := List.forall_mem_cons.mp h
    rw [leavesOfAll, leaves_of_leaf hv, ih hvs]
    rfl

/-! ### Nested collections -/

mutual

/-- The collections in a value at all levels of collection, an outer one before those inside it. -/
def collectionsIn : Value → List Collection
  | .collection kind elem elems => ⟨kind, elem, elems⟩ :: collectionsInAll elems
  | _ => []
  termination_by structural v => v

def collectionsInAll : List Value → List Collection
  | [] => []
  | v :: vs => collectionsIn v ++ collectionsInAll vs
  termination_by structural vs => vs

end

/-- A collection and all collections inside it, at every level. -/
def nested (c : Collection) : List Collection := c :: collectionsInAll c.elems

theorem mem_collectionsInAll {n : Collection} {vs : List Value} :
    n ∈ collectionsInAll vs ↔ ∃ v ∈ vs, n ∈ collectionsIn v := by
  induction vs with
  | nil => simp [collectionsInAll]
  | cons v vs ih => simp [collectionsInAll, ih]

/-- The collections inside a well-formed value are in normal form. -/
theorem isNormal_of_mem_collectionsIn {v : Value} (h : v.isWellFormed) {n : Collection}
    (hn : n ∈ collectionsIn v) : Value.isNormal n.kind n.elems := by
  induction v using Value.memberInduction with
  | step v ih =>
    cases v with
    | collection kind elem elems =>
      rw [Value.isWellFormed, Bool.and_eq_true] at h
      rcases List.mem_cons.mp hn with rfl | hn
      · exact h.1
      · obtain ⟨w, hw, hn⟩ := mem_collectionsInAll.mp hn
        exact ih w hw (Value.areWellFormed_iff.mp h.2 w hw) hn
    | _ => cases hn

theorem countP_leavesOfAll {v : Value} {ws : List Value}
    (h : ∀ w ∈ ws, (leaves w).countP (· == v) =
      [w].countP (· == v) + ((collectionsIn w).map (·.count v)).sum) :
    (leavesOfAll ws).countP (· == v) =
      ws.countP (· == v) + ((collectionsInAll ws).map (·.count v)).sum := by
  induction ws with
  | nil => rfl
  | cons w ws ih =>
    obtain ⟨hw, hws⟩ := List.forall_mem_cons.mp h
    rw [leavesOfAll, collectionsInAll, List.countP_append, hw, ih hws, List.map_append,
      List.sum_append, List.countP_cons (l := ws), List.countP_singleton]
    omega

/-- A leaf occurs as often as it is an element of a collection inside. -/
theorem countP_leaves {v : Value} (hv : v.collection? = none) (w : Value) :
    (leaves w).countP (· == v) =
      [w].countP (· == v) + ((collectionsIn w).map (·.count v)).sum := by
  induction w using Value.memberInduction with
  | step w ih =>
    -- either `w` is a leaf, or it is a collection and not the value that is counted
    cases hw : w.collection? with
    | none =>
      rw [leaves_of_leaf hw]
      cases w <;> first | rfl | cases hw
    | some c =>
      have hne : ¬ w == v := fun heq => by
        rcases Value.collection?_of_beq heq with ⟨hnone, -⟩ | ⟨-, d, -, hd, -⟩
        · rw [hw] at hnone
          cases hnone
        · rw [hv] at hd
          cases hd
      cases w <;> cases hw
      rw [List.countP_singleton, if_neg hne, Nat.zero_add]
      exact countP_leavesOfAll ih

/-! ### Flattening -/

variable {c : Collection}

theorem countP_leavesOfAll_elems {v : Value} (hv : v.collection? = none) (c : Collection) :
    (leavesOfAll c.elems).countP (· == v) = (c.nested.map (·.count v)).sum :=
  countP_leavesOfAll fun w _ => countP_leaves hv w

/-- A value that is no collection occurs in the leaves if one of the nested collections contains
it. -/
theorem any_leavesOfAll_elems {v : Value} (hv : v.collection? = none)
    (hc : (Value.collection c.kind c.elem c.elems).isWellFormed) :
    (leavesOfAll c.elems).any (· == v) ↔ ∃ n ∈ c.nested, n.contains v := by
  have hnormal : ∀ n ∈ c.nested, Value.isNormal n.kind n.elems := fun n =>
    isNormal_of_mem_collectionsIn hc
  calc (leavesOfAll c.elems).any (· == v)
      ↔ 0 < (c.nested.map (·.count v)).sum := by
        rw [← countP_leavesOfAll_elems hv, List.countP_pos_iff, List.any_eq_true]
    _ ↔ ∃ n ∈ c.nested, 0 < n.count v := by
        simp only [List.sum_pos_iff_exists_pos_nat, List.mem_map, exists_exists_and_eq_and]
    _ ↔ ∃ n ∈ c.nested, n.contains v := by
        refine exists_congr fun n => and_congr_right fun hn => ?_
        exact (contains_iff (hnormal n hn) v).symm

/-- The leaves of a union are those of both collections together. -/
theorem collectionOf_leavesOfAll_append {kind : Kind} (hkind : kind.concrete = kind) (t u : Ty)
    (xs ys : List Value) :
    Value.collectionOf kind t (leavesOfAll (Value.normalForm kind (xs ++ ys))) ==
      Value.collectionOf kind u
        (Value.normalForm kind (leavesOfAll xs) ++ Value.normalForm kind (leavesOfAll ys)) := by
  have hinner : Value.collectionOf kind t (leavesOfAll (Value.normalForm kind (xs ++ ys))) ==
      Value.collectionOf kind t (leavesOfAll (xs ++ ys)) := by
    rw [Value.collectionOf_beq_iff, hkind, leavesOfAll_eq_flatMap, leavesOfAll_eq_flatMap]
    exact ⟨rfl, Value.sameContents_flatMap (fun _ _ => eqEach_leaves) kind (xs ++ ys)⟩
  have houter : Value.collectionOf kind u
        (Value.normalForm kind (leavesOfAll xs) ++ Value.normalForm kind (leavesOfAll ys)) ==
      Value.collectionOf kind t (leavesOfAll xs ++ leavesOfAll ys) := by
    rw [Value.collectionOf_beq_iff, hkind]
    exact ⟨rfl, Value.sameContents_append kind (leavesOfAll xs) (leavesOfAll ys)⟩
  have happend : leavesOfAll (xs ++ ys) = leavesOfAll xs ++ leavesOfAll ys := by
    simp only [leavesOfAll_eq_flatMap, List.flatMap_append]
  exact BEq.trans hinner (happend ▸ BEq.symm houter)

/-- Flattening a collection in normal form gives one of its kind, without collections among the
elements, and flattening that gives it again. A value that is no collection is contained in it
exactly if a nested collection contains it; in a bag or a sequence it occurs as often as in all
nested collections together. Flattening a union of two collections of one kind gives the union of
the two flattened ones. -/
theorem flatten_nested (c d : Collection)
    (hc : (Value.collection c.kind c.elem c.elems).isWellFormed) (hkind : d.kind = c.kind) :
    ∃ e f : Collection, c.flatten.collection? = some e ∧ d.flatten.collection? = some f ∧
      e.kind = c.kind ∧ (∀ x ∈ e.elems, x.collection? = none) ∧ e.flatten = c.flatten ∧
      (∀ v : Value, v.collection? = none →
        (e.contains v ↔ ∃ n ∈ c.nested, n.contains v) ∧
          (¬ c.kind.isUnique → e.count v = (c.nested.map (·.count v)).sum)) ∧
      ∀ t u, ∃ both, (c.union d c.kind t).collection? = some both ∧
        both.flatten == e.union f c.kind u := by
  have hnormal : Value.isNormal c.kind c.elems :=
    isNormal_of_mem_collectionsIn hc List.mem_cons_self
  have hconcrete := concrete_of_isNormal hnormal
  have hflat (b : Collection) (hb : b.kind = c.kind) : b.flatten =
      .collection c.kind b.elem.innermost (Value.normalForm c.kind (leavesOfAll b.elems)) := by
    rw [flatten, Value.collectionOf, hb, hconcrete]
  have hleaf : ∀ x ∈ Value.normalForm c.kind (leavesOfAll c.elems), x.collection? = none := by
    intro x hx
    obtain ⟨w, -, hx⟩ := mem_leavesOfAll.mp (Value.mem_of_mem_normalForm hx)
    exact leaf_of_mem_leaves hx
  have helems := Value.isNormal_normalForm (hconcrete ▸ c.kind.concrete_ne_collection)
    (leavesOfAll c.elems)
  refine ⟨_, _, congrArg _ (hflat c rfl), congrArg _ (hflat d hkind), rfl, hleaf, ?_, ?_, ?_⟩
  · rw [flatten, leavesOfAll_eq_self hleaf, hflat c rfl, Ty.innermost_innermost]
    exact Value.collectionOf_eq_self _ helems
  · intro v hv
    constructor
    · rw [contains, has_index helems, Value.any_normalForm]
      exact any_leavesOfAll_elems hv hc
    · intro hrepeats
      rw [← countP_leavesOfAll_elems hv, count, Value.countP_normalForm, if_neg hrepeats]
  · intro t u
    refine ⟨⟨c.kind, t, Value.normalForm c.kind (c.elems ++ d.elems)⟩, ?_, ?_⟩
    · rw [union, Value.collectionOf, hconcrete]
      rfl
    · exact collectionOf_leavesOfAll_append hconcrete _ _ _ _

/-- An ordered set of a sequence with a bag in it, united with one that starts with a sequence equal
to the first: it is dropped from the union, and so are its values. -/
theorem flatten_nested_sequences :
    let inner : List Value := [.collection .bag .integer [.integer 1, .integer 1], .integer 3]
    let inner' : List Value := [.collection .bag .real [.real (.ofInt64 1), .integer 1], .integer 3]
    let c : Collection :=
      ⟨.orderedSet, .any,
        [.collection .sequence .any inner, .collection .set .integer [.integer 2]]⟩
    let d : Collection :=
      ⟨.orderedSet, .any, [.collection .sequence .any inner', .integer 4, .integer 3]⟩
    (Value.collection c.kind c.elem c.elems).isWellFormed ∧ d.kind = c.kind ∧
      Value.collection? (.integer 1) = none ∧ ∃ e f both : Collection,
        c.flatten.collection? = some e ∧ d.flatten.collection? = some f ∧ e.flatten = c.flatten ∧
          (e.contains (.integer 1) ↔ ∃ n ∈ c.nested, n.contains (.integer 1)) ∧
          (c.union d .orderedSet .any).collection? = some both ∧
          both.flatten == e.union f .orderedSet .any := by
  intro inner inner' c d
  have hc : (Value.collection c.kind c.elem c.elems).isWellFormed := by decide +kernel
  obtain ⟨e, f, he, hf, -, -, hagain, hvalues, hunion⟩ := flatten_nested c d hc rfl
  obtain ⟨both, hboth, hflatten⟩ := hunion .any .any
  exact ⟨hc, rfl, rfl, e, f, both, he, hf, hagain, (hvalues (.integer 1) rfl).1, hboth, hflatten⟩

end Collection

end ObjectConstraint
