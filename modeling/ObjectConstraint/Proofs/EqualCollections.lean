import Mathlib.Data.List.Forall2
import ObjectConstraint.Proofs.WellFormed

/-!
# Equal collections

Collections are compared place by place in their normal forms, without regard to the element types
they were made with. The normal form of a kind keeps exactly what the kind is about: a set which
values it holds, a bag how often it holds each, an ordered set in which order they first occur. Here
a value stands for all values equal to it, as `1` does for `1.0`.

* `Value.EqEach` — equality place by place.
* `Value.eqEach_of_countP` — ascending lists with the same counts are equal place by place.
* `Value.SameContents` — what two lists have in common when a kind does not tell them apart.
* `Value.eqEach_normalForm_iff` — the normal forms are equal exactly then.
* `Value.collectionOf_beq_iff` — so are the collections, if their kinds are the same.
-/

namespace ObjectConstraint.Value

/-! ### Equality is an equivalence, and the order respects it -/

instance : EquivBEq Value where
  rfl {a} := beq_iff_cmp_eq.mpr (cmp_self a)
  symm h := beq_iff_cmp_eq.mpr (Std.OrientedCmp.eq_symm (beq_iff_cmp_eq.mp h))
  trans hab hbc :=
    beq_iff_cmp_eq.mpr (Std.TransCmp.eq_trans (beq_iff_cmp_eq.mp hab) (beq_iff_cmp_eq.mp hbc))

theorem cmp_congr {a a' b b' : Value} (ha : a == a') (hb : b == b') : cmp a b = cmp a' b' :=
  (Std.TransCmp.congr_left (beq_iff_cmp_eq.mp ha)).trans
    (Std.TransCmp.congr_right (beq_iff_cmp_eq.mp hb))

theorem beq_congr {a a' b b' : Value} (ha : a == a') (hb : b == b') : (a == b) = (a' == b') :=
  congrArg (· == Ordering.eq) (cmp_congr ha hb)

/-! ### Equality place by place -/

/-- The lists have equal length and equal values place by place. -/
abbrev EqEach (xs ys : List Value) : Prop :=
  List.Forall₂ (fun x y => x == y) xs ys

theorem EqEach.refl (xs : List Value) : EqEach xs xs :=
  List.forall₂_same.mpr fun x _ => BEq.refl x

theorem cmpList_eq_iff {xs ys : List Value} : cmpList xs ys = .eq ↔ EqEach xs ys := by
  induction xs generalizing ys with
  | nil => cases ys <;> simp [cmpList]
  | cons x xs ih =>
    cases ys with
    | nil => simp [cmpList]
    | cons y ys =>
      rw [cmpList, Ordering.then_eq_eq, ih, EqEach, EqEach, List.forall₂_cons, beq_iff_cmp_eq]

/-- Collections are equal by kind and by elements; the element types do not matter. -/
theorem collection_beq_iff {k l : Kind} {t u : Ty} {xs ys : List Value} :
    collection k t xs == collection l u ys ↔ k = l ∧ EqEach xs ys := by
  rw [beq_iff_cmp_eq, cmp, Ordering.then_eq_eq, compare_eq_iff_eq, cmpList_eq_iff]
  exact and_congr_left fun _ => ⟨Kind.rank_injective, congrArg Kind.rank⟩

/-- A test that does not tell equal values apart keeps the same places of equal lists. -/
theorem EqEach.filter {xs ys : List Value} (h : EqEach xs ys) {p q : Value → Bool}
    (hpq : ∀ x y, x == y → p x = q y) : EqEach (xs.filter p) (ys.filter q) :=
  List.rel_filter (fun x y hxy => iff_of_eq (congrArg (· = true) (hpq x y hxy))) h

theorem EqEach.countP {xs ys : List Value} (h : EqEach xs ys) {p q : Value → Bool}
    (hpq : ∀ x y, x == y → p x = q y) : xs.countP p = ys.countP q := by
  rw [List.countP_eq_length_filter, List.countP_eq_length_filter]
  exact (h.filter hpq).length_eq

theorem EqEach.all {xs ys : List Value} (h : EqEach xs ys) {p q : Value → Bool}
    (hpq : ∀ x y, x == y → p x = q y) : xs.all p = ys.all q := by
  induction h with
  | nil => rfl
  | cons hxy _ ih => rw [List.all_cons, List.all_cons, hpq _ _ hxy, ih]

theorem EqEach.any {xs ys : List Value} (h : EqEach xs ys) {p q : Value → Bool}
    (hpq : ∀ x y, x == y → p x = q y) : xs.any p = ys.any q := by
  induction h with
  | nil => rfl
  | cons hxy _ ih => rw [List.any_cons, List.any_cons, hpq _ _ hxy, ih]

/-! ### Ascending lists -/

/-- The first of ascending values comes before each of them. -/
theorem le_of_mem_cons {x z : Value} {xs : List Value}
    (h : (x :: xs).Pairwise fun a b => le a b) (hz : z ∈ x :: xs) : le x z := by
  rcases List.mem_cons.mp hz with rfl | hz
  · unfold le
    rw [cmp_self]
    rfl
  · exact List.rel_of_pairwise_cons h hz

/-- The first of ascending values comes before every value that occurs among them. -/
theorem le_of_countP_pos {x v : Value} {xs : List Value}
    (h : (x :: xs).Pairwise fun a b => le a b) (hv : 0 < (x :: xs).countP (· == v)) : le x v := by
  obtain ⟨z, hz, hzv⟩ := List.countP_pos_iff.mp hv
  have hxz := le_of_mem_cons h hz
  unfold le at hxz ⊢
  rwa [cmp_congr (BEq.refl x) (BEq.symm hzv)]

/-- Ascending lists in which every value occurs equally often are equal place by place. -/
theorem eqEach_of_countP {xs ys : List Value} (hxs : xs.Pairwise fun a b => le a b)
    (hys : ys.Pairwise fun a b => le a b)
    (h : ∀ v, xs.countP (· == v) = ys.countP (· == v)) : EqEach xs ys := by
  induction xs generalizing ys with
  | nil =>
    cases ys with
    | nil => exact .nil
    | cons y ys => simpa using h y
  | cons x xs ih =>
    cases ys with
    | nil => simpa using h x
    | cons y ys =>
      -- each head occurs in the other list, so each comes before the other
      have hxy : le x y := le_of_countP_pos hxs (by rw [h y]; simp)
      have hyx : le y x := le_of_countP_pos hys (by rw [← h x]; simp)
      have heq : x == y := beq_of_le_of_le hxy hyx
      refine .cons heq (ih hxs.of_cons hys.of_cons fun v => ?_)
      have hv := h v
      rw [List.countP_cons, List.countP_cons, beq_congr heq (BEq.refl v)] at hv
      exact Nat.add_right_cancel hv

/-- Among values that all differ each occurs once or not at all. -/
theorem countP_le_one {xs : List Value} (h : xs.Pairwise fun a b => cmp a b ≠ .eq) (v : Value) :
    xs.countP (· == v) ≤ 1 := by
  induction xs with
  | nil => exact Nat.zero_le 1
  | cons x xs ih =>
    obtain ⟨hx, hxs⟩ := List.pairwise_cons.mp h
    rw [List.countP_cons]
    split
    · next hxv =>
      have hnone : xs.countP (· == v) = 0 := by
        rw [List.countP_eq_zero]
        intro y hy hyv
        exact hx y hy (beq_iff_cmp_eq.mp (BEq.trans hxv (BEq.symm hyv)))
      omega
    · exact ih hxs

/-! ### What normal forms keep -/

theorem ascending_perm (xs : List Value) : (ascending xs).Perm xs := by
  unfold ascending
  split
  · exact .refl xs
  · exact List.mergeSort_perm xs le

theorem any_dropRepeatsAfter (last v : Value) (xs : List Value) :
    (last :: dropRepeatsAfter last xs).any (· == v) = (last :: xs).any (· == v) := by
  induction xs generalizing last with
  | nil => rfl
  | cons x xs ih =>
    rw [dropRepeatsAfter]
    split
    · next hx => simp only [ih, List.any_cons, beq_congr hx (BEq.refl v), Bool.or_self_left]
    · rw [List.any_cons, ih, List.any_cons (l := x :: xs)]

/-- Dropping repetitions loses no value. -/
theorem any_dropRepeats (v : Value) (xs : List Value) :
    (dropRepeats xs).any (· == v) = xs.any (· == v) := by
  cases xs with
  | nil => rfl
  | cons x xs => exact any_dropRepeatsAfter x v xs

/-- First occurrences are what is left when each value takes the ones equal to it out of the rest;
values known before take part in this. -/
theorem firstOccurrences_eq_eraseDups (known : Known) (xs : List Value) :
    (firstOccurrences known xs).1 = (xs.filter fun x => !known.contains x).eraseDups := by
  induction xs generalizing known with
  | nil => rfl
  | cons x xs ih =>
    rw [firstOccurrences]
    split
    · next hx => rw [ih, List.filter_cons_of_neg (by simp [hx])]
    · next hx =>
      rw [List.filter_cons_of_pos (by simp [hx]), List.eraseDups_cons, List.filter_filter]
      simp only [ih, Std.TreeSet.contains_insert, Bool.not_or]
      congr 2
      refine List.filter_congr fun y _ => ?_
      rw [BEq.comm (a := y)]
      rfl

/-! ### The contents of a kind -/

/-- What two lists of elements have in common when a kind does not tell them apart. An abstract
collection is made as a bag. -/
def SameContents (kind : Kind) (xs ys : List Value) : Prop :=
  match kind with
  | .set => (∀ x ∈ xs, ∃ y ∈ ys, x == y) ∧ ∀ y ∈ ys, ∃ x ∈ xs, y == x
  | .bag | .collection => ∀ v, xs.countP (· == v) = ys.countP (· == v)
  | .sequence => EqEach xs ys
  | .orderedSet => EqEach xs.eraseDups ys.eraseDups

/-- Lists hold the same values exactly when each value of the one is equal to one of the other. -/
theorem any_eq_iff {xs ys : List Value} :
    (∀ v, xs.any (· == v) = ys.any (· == v)) ↔
      (∀ x ∈ xs, ∃ y ∈ ys, x == y) ∧ ∀ y ∈ ys, ∃ x ∈ xs, y == x := by
  constructor
  · intro h
    constructor
    · intro x hx
      have hfound : ys.any (· == x) := h x ▸ List.any_eq_true.mpr ⟨x, hx, BEq.refl x⟩
      obtain ⟨y, hy, hyx⟩ := List.any_eq_true.mp hfound
      exact ⟨y, hy, BEq.symm hyx⟩
    · intro y hy
      have hfound : xs.any (· == y) := h y ▸ List.any_eq_true.mpr ⟨y, hy, BEq.refl y⟩
      obtain ⟨x, hx, hxy⟩ := List.any_eq_true.mp hfound
      exact ⟨x, hx, BEq.symm hxy⟩
  · rintro ⟨hxs, hys⟩ v
    rw [Bool.eq_iff_iff, List.any_eq_true, List.any_eq_true]
    constructor
    · rintro ⟨x, hx, hxv⟩
      obtain ⟨y, hy, hxy⟩ := hxs x hx
      exact ⟨y, hy, BEq.trans (BEq.symm hxy) hxv⟩
    · rintro ⟨y, hy, hyv⟩
      obtain ⟨x, hx, hyx⟩ := hys y hy
      exact ⟨x, hx, BEq.trans (BEq.symm hyx) hyv⟩

theorem eqEach_ascending_iff {xs ys : List Value} :
    EqEach (ascending xs) (ascending ys) ↔ ∀ v, xs.countP (· == v) = ys.countP (· == v) := by
  have hcount (zs : List Value) (v : Value) :
      (ascending zs).countP (· == v) = zs.countP (· == v) :=
    (ascending_perm zs).countP_eq _
  constructor
  · intro h v
    rw [← hcount xs, ← hcount ys]
    exact h.countP fun x y hxy => beq_congr hxy (BEq.refl v)
  · intro h
    refine eqEach_of_countP (pairwise_ascending xs) (pairwise_ascending ys) fun v => ?_
    rw [hcount, hcount, h]

theorem eqEach_dropRepeats_iff {xs ys : List Value} :
    EqEach (dropRepeats (ascending xs)) (dropRepeats (ascending ys)) ↔
      ∀ v, xs.any (· == v) = ys.any (· == v) := by
  have hany (zs : List Value) (v : Value) :
      (dropRepeats (ascending zs)).any (· == v) = zs.any (· == v) :=
    (any_dropRepeats v _).trans (ascending_perm zs).any_eq
  constructor
  · intro h v
    rw [← hany xs, ← hany ys]
    exact h.any fun x y hxy => beq_congr hxy (BEq.refl v)
  · intro h
    have hstrict (zs : List Value) := pairwise_dropRepeats (pairwise_ascending zs)
    have hle {a b : Value} (hab : cmp a b = .lt) : le a b := by simp [le, hab]
    refine eqEach_of_countP ((hstrict xs).imp hle) ((hstrict ys).imp hle) fun v => ?_
    -- a value occurs once in each or in neither
    have hpos : 0 < (dropRepeats (ascending xs)).countP (· == v) ↔
        0 < (dropRepeats (ascending ys)).countP (· == v) := by
      rw [List.countP_pos_iff, List.countP_pos_iff, ← List.any_eq_true, ← List.any_eq_true, hany,
        hany, h]
    have hne {a b : Value} (hab : cmp a b = .lt) : cmp a b ≠ .eq := by simp [hab]
    have hxs := countP_le_one ((hstrict xs).imp hne) v
    have hys := countP_le_one ((hstrict ys).imp hne) v
    omega

/-- Normal forms are equal place by place exactly when the kind does not tell the lists apart. -/
theorem eqEach_normalForm_iff {kind : Kind} {xs ys : List Value} :
    EqEach (normalForm kind xs) (normalForm kind ys) ↔ SameContents kind xs ys := by
  cases kind with
  | set => exact eqEach_dropRepeats_iff.trans any_eq_iff
  | bag => exact eqEach_ascending_iff
  | collection => exact eqEach_ascending_iff
  | sequence => exact Iff.rfl
  | orderedSet =>
    have hfirst (zs : List Value) : (firstOccurrences ∅ zs).1 = zs.eraseDups := by
      rw [firstOccurrences_eq_eraseDups]
      simp
    simp only [normalForm, hfirst, SameContents]

/-- Two collections are equal exactly when they are of the same concrete kind and their elements
are what the kind does not tell apart, whatever element types they were made with. -/
theorem collectionOf_beq_iff (k l : Kind) (t u : Ty) (xs ys : List Value) :
    collectionOf k t xs == collectionOf l u ys ↔
      k.concrete = l.concrete ∧ SameContents k.concrete xs ys := by
  rw [collectionOf, collectionOf, collection_beq_iff, and_congr_right_iff]
  intro hkind
  rw [← hkind, eqEach_normalForm_iff]

/-- A set takes no notice of repetition and of how a number is represented. -/
example : collectionOf .set .integer [integer 1, integer 2] ==
    collectionOf .set .real [real (.ofInt64 1), integer 1, integer 2] := by
  decide +kernel

end ObjectConstraint.Value
