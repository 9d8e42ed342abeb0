import ObjectConstraint.Proofs.BreadthFirst

/-!
# Elements in normal form

Elements that are in the normal form of a kind stay as they are when a collection of that kind is
made of them, and so do those that are left when some of them are dropped. A loop that keeps
elements of its source therefore has them for the elements of its result.

* `Value.firstOccurrences_eq_self` — values that all differ are their first occurrences.
* `Value.normalForm_eq_self`, `Value.collectionOf_eq_self` — the normal form of normal elements.
* `Value.isNormal_of_sublist`, `Value.isNormal_orderedSet_of_perm` — some of the elements, in their
  order, and all of them in another order.
-/

namespace ObjectConstraint.Value

/-- Values that differ from each other, and from all that is known, are their first occurrences. -/
theorem firstOccurrences_eq_self {known : Known} {xs : List Value}
    (hnew : ∀ x ∈ xs, known.contains x = false) (h : xs.Pairwise fun x y => ¬ x == y) :
    (firstOccurrences known xs).1 = xs := by
  induction xs generalizing known with
  | nil => rfl
  | cons x xs ih =>
    obtain ⟨hx, hxs⟩ := List.forall_mem_cons.mp hnew
    obtain ⟨hfirst, hothers⟩ := List.pairwise_cons.mp h
    rw [firstOccurrences, if_neg (by simp [hx])]
    refine congrArg (x :: ·) (ih ?_ hothers)
    intro y hy
    rw [contains_insert, Bool.or_eq_false_iff]
    exact ⟨Bool.eq_false_iff.mpr (hfirst y hy), hxs y hy⟩

theorem not_beq_iff_cmp_ne {x y : Value} : ¬ x == y ↔ cmp x y ≠ .eq :=
  not_congr beq_iff_cmp_eq

theorem ascending_eq_self {xs : List Value} (h : xs.Pairwise fun a b => le a b) :
    ascending xs = xs := by
  unfold ascending
  split
  · rfl
  · exact List.mergeSort_of_pairwise h

theorem dropRepeatsAfter_eq_self {last : Value} {xs : List Value}
    (h : (last :: xs).Pairwise fun a b => cmp a b = .lt) : dropRepeatsAfter last xs = xs := by
  induction xs generalizing last with
  | nil => rfl
  | cons x xs ih =>
    obtain ⟨hlast, hxs⟩ := List.pairwise_cons.mp h
    have hne : ¬ x == last := by
      rw [not_beq_iff_cmp_ne, ← swap_cmp, hlast x List.mem_cons_self]
      decide
    rw [dropRepeatsAfter, if_neg hne, ih hxs]

/-- Strictly ascending values have no repetitions to drop. -/
theorem dropRepeats_eq_self {xs : List Value} (h : xs.Pairwise fun a b => cmp a b = .lt) :
    dropRepeats xs = xs := by
  cases xs with
  | nil => rfl
  | cons x xs => exact congrArg (x :: ·) (dropRepeatsAfter_eq_self h)

/-- Normal elements are their own normal form. -/
theorem normalForm_eq_self {kind : Kind} {elems : List Value} (h : isNormal kind elems) :
    normalForm kind elems = elems := by
  cases kind with
  | set =>
    have hstrict := of_decide_eq_true h
    have hle : elems.Pairwise fun a b => le a b := hstrict.imp fun hlt => by simp [le, hlt]
    rw [normalForm, ascending_eq_self hle, dropRepeats_eq_self hstrict]
  | bag => exact ascending_eq_self (of_decide_eq_true h)
  | orderedSet =>
    have hdiffer := of_decide_eq_true h
    exact firstOccurrences_eq_self (fun _ _ => by simp)
      (hdiffer.imp fun hne => not_beq_iff_cmp_ne.mpr hne)
  | sequence => rfl
  | collection => cases h

/-- A collection made of normal elements has just these elements. -/
theorem collectionOf_eq_self {kind : Kind} {elems : List Value} (elem : Ty)
    (h : isNormal kind elems) : collectionOf kind elem elems = collection kind elem elems := by
  have hkind : kind ≠ .collection := by
    rintro rfl
    cases h
  rw [collectionOf, Kind.concrete_of_ne hkind, normalForm_eq_self h]

/-- Some of the elements, in their order, are normal if all of them are. -/
theorem isNormal_of_sublist {kind : Kind} {xs ys : List Value} (hsublist : xs.Sublist ys)
    (h : isNormal kind ys) : isNormal kind xs := by
  cases kind with
  | set => exact decide_eq_true ((of_decide_eq_true h).sublist hsublist)
  | bag => exact decide_eq_true ((of_decide_eq_true h).sublist hsublist)
  | orderedSet => exact decide_eq_true ((of_decide_eq_true h).sublist hsublist)
  | sequence => rfl
  | collection => cases h

/-- The elements of a set or an ordered set all differ, so they are normal for an ordered set in any
order. -/
theorem isNormal_orderedSet_of_perm {kind : Kind} (hunique : kind.isUnique) {xs ys : List Value}
    (hperm : xs.Perm ys) (h : isNormal kind ys) : isNormal .orderedSet xs := by
  have hdiffer : ys.Pairwise fun a b => cmp a b ≠ .eq := by
    cases kind with
    | set => exact (of_decide_eq_true h).imp fun hlt => by simp [hlt]
    | orderedSet => exact of_decide_eq_true h
    | _ => cases hunique
  refine decide_eq_true ((hperm.pairwise_iff ?_).mpr hdiffer)
  exact fun hne heq => hne (Std.OrientedCmp.eq_symm heq)

end ObjectConstraint.Value
