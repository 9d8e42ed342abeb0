import ObjectConstraint.Operation.Typing

/-!
# The signatures of the standard operations

The tables of `Hierarchy.resolve` are read by name. `HasSignature` says the same by operation:
which operand types an operation can have been resolved at, and the type of its result.

* `Operation.ownResult` — the result type of an operation that has the same one at all operands.
* `Hierarchy.HasSignature` — the signatures.
* `Hierarchy.hasSignature_of_resolve` — whatever is resolved has a signature.
-/

namespace ObjectConstraint

/-- The result type of an operation whose result type does not depend on its operands. -/
def Operation.ownResult : Operation → Option Ty
  | and | or | xor | implies | not | eq | ne | isUndefined | isDefined | lt | gt | le | ge
  | isEmpty | notEmpty | includes | excludes | includesAll | excludesAll => some .boolean
  | floor | round | intDiv | mod | length | toInteger | size | count | indexOf => some .integer
  | div | toReal => some .real
  | concat | toUpper | toLower | substring => some .string
  | _ => none

namespace Hierarchy

variable (H : Hierarchy)

/-- The signatures of the operations: the type whose table is read, the types of the arguments, the
type of the result. -/
inductive HasSignature : Operation → (table : Ty) → (args : List Ty) → (result : Ty) → Prop
  | own {op : Operation} (table : Ty) {args : List Ty} {result : Ty}
    (hop : op.ownResult = some result) (hargs : op.isConnective → args.length = 1) :
    HasSignature op table args result
  | sign {op : Operation} {table : Ty} (hop : op = .neg ∨ op = .abs) (htable : table.isNumeric) :
    HasSignature op table [] (promotedType table table)
  | arithmetic {op : Operation} {table a : Ty} (hop : op ∈ [.add, .sub, .mul, .max, .min])
    (htable : table.isNumeric) (ha : H.conforms a .real) :
    HasSignature op table [a] (promotedType table a)
  | sum (kind : Kind) {elem : Ty} (helem : H.conforms elem .real) :
    HasSignature .sum (.collection kind elem) [] (if elem = .real then .real else .integer)
  | pick {op : Operation} (kind : Kind) (elem : Ty)
    (hop : op ∈ [.maxElement, .minElement, .first, .last]) :
    HasSignature op (.collection kind elem) [] elem
  | elementAt (kind : Kind) (elem a : Ty) :
    HasSignature .elementAt (.collection kind elem) [a] elem
  | convert {op : Operation} (kind : Kind) (elem : Ty) {target : Kind}
    (hop : (op, target) ∈ [(.asSet, .set), (.asBag, .bag), (.asSequence, .sequence),
      (.asOrderedSet, .orderedSet)]) :
    HasSignature op (.collection kind elem) [] (.collection target elem)
  | flatten {kind : Kind} (elem : Ty) (hkind : kind ≠ .collection) :
    HasSignature .flatten (.collection kind elem) [] (.collection kind elem.innermost)
  | extend {op : Operation} {kind : Kind} (elem a : Ty) (hop : op ∈ [.including, .append, .prepend])
    (hkind : kind ≠ .collection) :
    HasSignature op (.collection kind elem) [a] (.collection kind (H.join elem a))
  | excluding {kind : Kind} (elem a : Ty) (hkind : kind ≠ .collection) :
    HasSignature .excluding (.collection kind elem) [a] (.collection kind elem)
  | subSequence {kind : Kind} (elem a b : Ty) (hkind : kind ≠ .collection) :
    HasSignature .subSequence (.collection kind elem) [a, b] (.collection kind elem)
  | union {kind other result : Kind} (elem otherElem : Ty)
    (hkind : unionKind kind other = some result) :
    HasSignature .union (.collection kind elem) [.collection other otherElem]
      (.collection result (H.join elem otherElem))
  | intersection {kind other result : Kind} (elem otherElem : Ty)
    (hkind : intersectionKind kind other = some result) :
    HasSignature .intersection (.collection kind elem) [.collection other otherElem]
      (.collection result elem)
  | difference {kind : Kind} (other : Kind) (elem otherElem : Ty) (hkind : kind ≠ .collection) :
    HasSignature .difference (.collection kind elem) [.collection other otherElem]
      (.collection kind elem)
  | symmetricDifference (elem otherElem : Ty) :
    HasSignature .symmetricDifference (.collection .set elem) [.collection .set otherElem]
      (.collection .set elem)

variable {H} {name : String} {args : List Ty} {result : Ty} {op : Operation}

theorem hasSignature_of_universal (h : universalOperation name args = some (result, op))
    (table : Ty) : H.HasSignature op table args result := by
  unfold universalOperation at h
  split at h <;> cases h <;> exact .own table rfl nofun

theorem hasSignature_of_comparison (h : comparison name = some (result, op)) (table : Ty) :
    H.HasSignature op table args result := by
  unfold comparison at h
  split at h <;> cases h <;> exact .own table rfl nofun

theorem hasSignature_of_boolean (h : H.booleanOperation name args = some (result, op)) :
    H.HasSignature op .boolean args result := by
  unfold booleanOperation at h
  split at h
  · cases h
    exact .own _ rfl nofun
  · split at h
    · split at h <;> cases h <;> exact .own _ rfl fun _ => rfl
    · cases h
  · cases h

theorem hasSignature_of_numeric {table : Ty} (htable : table.isNumeric)
    (h : H.numericOperation table name args = some (result, op)) :
    H.HasSignature op table args result := by
  unfold numericOperation at h
  split at h
  · cases h
    exact .sign (.inl rfl) htable
  · cases h
    exact .sign (.inr rfl) htable
  · cases h
    exact .own _ rfl nofun
  · cases h
    exact .own _ rfl nofun
  · split at h
    · next a ha =>
      have harith : ∀ {o : Operation}, o ∈ [.add, .sub, .mul, .max, .min] →
          H.HasSignature o table [a] (promotedType table a) := fun ho => .arithmetic ho htable ha
      split at h
      · cases h
        exact harith (by simp)
      · cases h
        exact harith (by simp)
      · cases h
        exact harith (by simp)
      · cases h
        exact .own _ rfl nofun
      · cases h
        exact harith (by simp)
      · cases h
        exact harith (by simp)
      · split at h <;> cases h
        exact .own _ rfl nofun
      · split at h <;> cases h
        exact .own _ rfl nofun
      · exact hasSignature_of_comparison h _
    · cases h
  · cases h

theorem hasSignature_of_string (h : H.stringOperation name args = some (result, op)) :
    H.HasSignature op .string args result := by
  unfold stringOperation at h
  split at h
  · cases h; exact .own _ rfl nofun
  · cases h; exact .own _ rfl nofun
  · cases h; exact .own _ rfl nofun
  · cases h; exact .own _ rfl nofun
  · cases h; exact .own _ rfl nofun
  · split at h <;> cases h
    exact .own _ rfl nofun
  · split at h
    · split at h
      · cases h; exact .own _ rfl nofun
      · cases h; exact .own _ rfl nofun
      · exact hasSignature_of_comparison h _
    · cases h
  · cases h

theorem hasSignature_of_date (h : H.dateOperation name args = some (result, op)) :
    H.HasSignature op .date args result := by
  unfold dateOperation at h
  split at h
  · split at h
    · exact hasSignature_of_comparison h _
    · cases h
  · cases h

variable {kind : Kind} {elem : Ty}

theorem ne_collection_of_isOrdered (h : kind.isOrdered) : kind ≠ .collection := by
  rintro rfl
  cases h

theorem hasSignature_of_query (h : H.queryOperation kind elem name = some (result, op)) :
    H.HasSignature op (.collection kind elem) [] result := by
  unfold queryOperation at h
  split at h
  · cases h; exact .own _ rfl nofun
  · cases h; exact .own _ rfl nofun
  · cases h; exact .own _ rfl nofun
  · split at h
    · next helem =>
      cases h
      exact .sum kind helem
    · cases h
  · split at h <;> cases h
    exact .pick kind _ (by simp)
  · split at h <;> cases h
    exact .pick kind _ (by simp)
  · split at h
    · cases h
    · next hkind =>
      cases h
      exact .flatten elem hkind
  · cases h; exact .convert kind elem (by simp)
  · cases h; exact .convert kind elem (by simp)
  · cases h; exact .convert kind elem (by simp)
  · cases h; exact .convert kind elem (by simp)
  · split at h <;> cases h
    exact .pick kind _ (by simp)
  · split at h <;> cases h
    exact .pick kind _ (by simp)
  · cases h

theorem hasSignature_of_element {a : Ty}
    (h : H.elementOperation kind elem name a = some (result, op)) :
    H.HasSignature op (.collection kind elem) [a] result := by
  unfold elementOperation at h
  split at h
  · cases h; exact .own _ rfl nofun
  · cases h; exact .own _ rfl nofun
  · cases h; exact .own _ rfl nofun
  · split at h
    · cases h
    · next hkind =>
      cases h
      exact .extend elem a (by simp) hkind
  · split at h
    · cases h
    · next hkind =>
      cases h
      exact .excluding elem a hkind
  · split at h <;> cases h
    exact .elementAt kind _ a
  · split at h
    · next hkind =>
      cases h
      exact .extend elem a (by simp) (ne_collection_of_isOrdered hkind)
    · cases h
  · split at h
    · next hkind =>
      cases h
      exact .extend elem a (by simp) (ne_collection_of_isOrdered hkind)
    · cases h
  · split at h <;> cases h
    exact .own _ rfl nofun
  · cases h

theorem hasSignature_of_merge {other : Kind} {otherElem : Ty}
    (h : H.mergeOperation kind elem name other otherElem = some (result, op)) :
    H.HasSignature op (.collection kind elem) [.collection other otherElem] result := by
  unfold mergeOperation at h
  split at h
  · cases h; exact .own _ rfl nofun
  · cases h; exact .own _ rfl nofun
  · obtain ⟨k, hkind, heq⟩ := Option.map_eq_some_iff.mp h
    cases heq
    exact .union elem otherElem hkind
  · obtain ⟨k, hkind, heq⟩ := Option.map_eq_some_iff.mp h
    cases heq
    exact .intersection elem otherElem hkind
  · split at h
    · next hunique =>
      cases h
      refine .difference other elem otherElem ?_
      rintro rfl
      simp [Kind.isUnique] at hunique
    · cases h
  · split at h
    · next hkind =>
      cases h
      simp only [Bool.and_eq_true, decide_eq_true_eq] at hkind
      obtain ⟨rfl, rfl⟩ := hkind
      exact .symmetricDifference elem otherElem
    · cases h
  · cases h

theorem hasSignature_of_collection
    (h : H.collectionOperation kind elem name args = some (result, op)) :
    H.HasSignature op (.collection kind elem) args result := by
  unfold collectionOperation at h
  split at h
  · exact hasSignature_of_query h
  · rcases Option.or_eq_some_iff.mp h with h | ⟨-, h⟩
    · exact hasSignature_of_element h
    · split at h
      · exact hasSignature_of_merge h
      · cases h
  · split at h
    · next a b hguard =>
      cases h
      simp only [Bool.and_eq_true] at hguard
      exact .subSequence elem a b (ne_collection_of_isOrdered hguard.1.1.2)
    · cases h
  · cases h

theorem hasSignature_of_table {table : Ty}
    (h : H.tableOperation table name args = some (result, op)) :
    H.HasSignature op table args result := by
  cases table with
  | boolean => exact hasSignature_of_boolean h
  | integer => exact hasSignature_of_numeric rfl h
  | unlimitedNatural => exact hasSignature_of_numeric rfl h
  | real => exact hasSignature_of_numeric rfl h
  | string => exact hasSignature_of_string h
  | date => exact hasSignature_of_date h
  | collection kind elem => exact hasSignature_of_collection h
  | void => cases h
  | any => cases h
  | object cls => cases h
  | tuple parts => cases h

/-- Whatever is resolved has a signature, at the receiver's type or, for an untyped `null`, at the
type whose operations it has. -/
theorem hasSignature_of_resolve {receiver : Ty}
    (h : H.resolve receiver name args = .ok (result, op)) :
    H.HasSignature op (if receiver = .void then nullReceiver name args else receiver) args
      result := by
  simp only [resolve] at h
  generalize (if receiver = .void then nullReceiver name args else receiver) = table at h ⊢
  split at h
  · next found hfound =>
    cases h
    rcases Option.or_eq_some_iff.mp hfound with h | ⟨-, h⟩
    · exact hasSignature_of_universal h _
    · exact hasSignature_of_table h
  · cases h

/-- A connective has one argument and gives a truth value. -/
theorem eq_of_isConnective {table : Ty} (h : H.HasSignature op table args result)
    (hop : op.isConnective) : args.length = 1 ∧ result = .boolean := by
  cases h with
  | own _ hown hargs =>
    refine ⟨hargs hop, ?_⟩
    cases op <;> cases hop <;> exact (Option.some.inj hown).symm
  | sign hsign => rcases hsign with rfl | rfl <;> cases hop
  | arithmetic harithmetic =>
    simp only [List.mem_cons, List.not_mem_nil, or_false] at harithmetic
    rcases harithmetic with rfl | rfl | rfl | rfl | rfl <;> cases hop
  | pick _ _ hpick =>
    simp only [List.mem_cons, List.not_mem_nil, or_false] at hpick
    rcases hpick with rfl | rfl | rfl | rfl <;> cases hop
  | convert _ _ hconvert =>
    simp only [List.mem_cons, Prod.mk.injEq, List.not_mem_nil, or_false] at hconvert
    rcases hconvert with ⟨rfl, -⟩ | ⟨rfl, -⟩ | ⟨rfl, -⟩ | ⟨rfl, -⟩ <;> cases hop
  | extend _ _ hextend =>
    simp only [List.mem_cons, List.not_mem_nil, or_false] at hextend
    rcases hextend with rfl | rfl | rfl <;> cases hop
  | _ => cases hop

/-- A symmetric difference is of two sets, and has the element type of the first. -/
theorem eq_of_hasSignature_symmetricDifference {table : Ty}
    (h : H.HasSignature .symmetricDifference table args result) :
    ∃ elem other, table = .collection .set elem ∧ args = [.collection .set other] ∧
      result = .collection .set elem := by
  cases h with
  | symmetricDifference elem other => exact ⟨elem, other, rfl, rfl, rfl⟩
  | own _ hop => cases hop
  | sign hop => simp at hop
  | arithmetic hop => simp at hop
  | pick _ _ hop => simp at hop
  | convert _ _ hop => simp at hop
  | extend _ _ hop => simp at hop

end Hierarchy

end ObjectConstraint
