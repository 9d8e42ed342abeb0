import ObjectConstraint.Proofs.Multiplicities

/-!
# Conversions

A conversion makes a collection of another kind out of the elements of one, so it loses what the
new kind takes no notice of: the order, the repetitions, or both. A conversion by way of a kind that
loses nothing the last kind takes notice of is the same as the conversion at once.

* `Kind.keeps` — a kind takes notice of all that another one does.
* `Value.sameContents_normalForm` — the normal form of such a kind has the same contents.
* `Collection.convert_convert` — conversions of a collection, one after the other.
-/

namespace ObjectConstraint

namespace Kind

/-- Whatever `needed` takes notice of, the order or the repetitions, `kept` does too. -/
def keeps (kept needed : Kind) : Bool :=
  (kept.isOrdered || !needed.isOrdered) && (needed.isUnique || !kept.isUnique)

/-- A set needs nothing, a sequence keeps everything, and else the kinds have to be the same. -/
theorem keeps_iff {kept needed : Kind} :
    kept.keeps needed ↔ needed = .set ∨ kept = .sequence ∨ kept.concrete = needed.concrete := by
  cases kept <;> cases needed <;> decide

example :
    let ways := fun needed : Kind => [set, bag, sequence, orderedSet].filter (·.keeps needed)
    ways set = [set, bag, sequence, orderedSet] ∧ ways bag = [bag, sequence] ∧
      ways orderedSet = [sequence, orderedSet] ∧ ways sequence = [sequence] := by
  decide

theorem keeps_concrete (kept needed : Kind) :
    kept.concrete.keeps needed.concrete = kept.keeps needed := by
  cases kept <;> cases needed <;> rfl

end Kind

namespace Value

theorem normalForm_concrete (kind : Kind) (xs : List Value) :
    normalForm kind.concrete xs = normalForm kind xs := by
  cases kind <;> rfl

/-- A second normal form of the same kind changes nothing. -/
theorem normalForm_normalForm (kind : Kind) (xs : List Value) :
    normalForm kind (normalForm kind xs) = normalForm kind xs := by
  rw [← normalForm_concrete kind xs, ← normalForm_concrete kind]
  exact normalForm_eq_self (isNormal_normalForm kind.concrete_ne_collection xs)

/-- The normal form of a kind has the contents that another kind needs if it keeps them. -/
theorem sameContents_normalForm {kept needed : Kind} (h : kept.keeps needed) (xs : List Value) :
    SameContents needed (normalForm kept xs) xs := by
  rcases Kind.keeps_iff.mp h with rfl | rfl | hsame
  · exact any_eq_iff.mp (any_normalForm kept xs)
  · exact (EqEach.refl xs).sameContents needed
  · rw [← eqEach_normalForm_iff, ← normalForm_concrete kept, hsame, normalForm_concrete,
      normalForm_normalForm]
    exact EqEach.refl _

end Value

namespace Collection

/-- Conversions of a collection in normal form. By way of a kind that keeps what the last one
needs, a conversion is the same as at once. The conversion to the collection's own kind gives the
collection back, element for element. As a set and then as a sequence it has exactly one of each of
the values that the collection contains, strictly ascending. -/
theorem convert_convert (c : Collection) (hc : Value.isNormal c.kind c.elems) :
    (∀ kept needed : Kind, kept.keeps needed →
        ∃ d, (c.convert kept).collection? = some d ∧ d.convert needed == c.convert needed) ∧
      c.convert c.kind = .collection c.kind c.elem c.elems ∧
      ∃ distinct : List Value,
        (∀ t u, Operation.asSequence.apply
            (Operation.asSet.apply (.collection c.kind c.elem c.elems) [] t) [] u =
          .collection .sequence c.elem distinct) ∧
        distinct.Pairwise (fun a b => a.cmp b = .lt) ∧
        (∀ x ∈ distinct, x ∈ c.elems) ∧
        ∀ v, distinct.countP (· == v) = (c.contains v).toNat := by
  refine ⟨?_, Value.collectionOf_eq_self c.elem hc, Value.normalForm .set c.elems, ?_⟩
  · intro kept needed hkeeps
    rw [← Kind.keeps_concrete] at hkeeps
    have hcontents := Value.sameContents_normalForm hkeeps c.elems
    exact ⟨⟨kept.concrete, c.elem, _⟩, rfl,
      (Value.collectionOf_beq_iff ..).mpr ⟨rfl, hcontents⟩⟩
  · have hset : Kind.set.isUnique := rfl
    refine ⟨fun _ _ => rfl, ?_, fun x => Value.mem_of_mem_normalForm, fun v => ?_⟩
    · exact of_decide_eq_true (@Value.isNormal_normalForm .set nofun c.elems)
    · rw [Value.countP_normalForm, if_pos hset, contains, has_index hc]

/-- Three elements of a sequence, two of them equal: by way of a bag they are the same set as at
once, and as a set and then as a sequence there is one of them for each value. -/
theorem convert_convert_repeated :
    let c : Collection :=
      ⟨.sequence, .real, [.integer 2, .real (.ofInt64 1), .integer 1]⟩
    Value.isNormal c.kind c.elems ∧ Kind.bag.keeps .set ∧
      (∃ d, (c.convert .bag).collection? = some d ∧ d.convert .set == c.convert .set) ∧
      c.convert .sequence = .collection .sequence .real c.elems ∧
      ∃ distinct : List Value,
        Operation.asSequence.apply
            (Operation.asSet.apply (.collection .sequence .real c.elems) [] .any) [] .any =
          .collection .sequence .real distinct ∧
        distinct.countP (· == .integer 1) = (c.contains (.integer 1)).toNat := by
  intro c
  have hc : Value.isNormal c.kind c.elems := rfl
  obtain ⟨hkept, hown, distinct, hsequence, -, -, hcount⟩ := convert_convert c hc
  exact ⟨hc, rfl, hkept .bag .set rfl, hown, distinct, hsequence .any .any, hcount (.integer 1)⟩

end Collection

end ObjectConstraint
