import ObjectConstraint.Operation.Typing
import ObjectConstraint.Proofs.Tokens

/-!
# The names of the standard operations

Whatever the tables of `Hierarchy.resolve` have under a name, the name is an operator or a word.

* `isOperationName` — operators and words.
* `name_of_universal`, `Hierarchy.name_of_boolean`, … — each table.
* `Hierarchy.name_of_resolve` — all of them.
-/

namespace ObjectConstraint

/-- An operator, which is written between its operands, or a word. -/
def isOperationName (name : String) : Bool := name ∈ infixNames || isWord name

section Names

variable {H : Hierarchy} {name : String} {args : List Ty} {found : Resolved}

theorem name_of_universal (h : universalOperation name args = some found) :
    isOperationName name := by
  unfold universalOperation at h
  split at h
  all_goals first | decide | cases h

theorem name_of_comparison (h : comparison name = some found) : isOperationName name := by
  unfold comparison at h
  split at h
  all_goals first | decide | cases h

end Names

namespace Hierarchy

variable {H : Hierarchy} {name : String} {args : List Ty} {found : Resolved}

theorem name_of_boolean (h : H.booleanOperation name args = some found) : isOperationName name := by
  unfold booleanOperation at h
  split at h
  · decide
  · split at h
    · split at h
      all_goals first | decide | cases h
    · cases h
  · cases h

theorem name_of_numeric {receiver : Ty} (h : H.numericOperation receiver name args = some found) :
    isOperationName name := by
  unfold numericOperation at h
  split at h
  any_goals decide
  · split at h
    · split at h
      all_goals first | decide | exact name_of_comparison h
    · cases h
  · cases h

theorem name_of_string (h : H.stringOperation name args = some found) : isOperationName name := by
  unfold stringOperation at h
  split at h
  any_goals decide
  · split at h
    · split at h
      all_goals first | decide | exact name_of_comparison h
    · cases h
  · cases h

theorem name_of_date (h : H.dateOperation name args = some found) : isOperationName name := by
  unfold dateOperation at h
  split at h
  · split at h
    · exact name_of_comparison h
    · cases h
  · cases h

theorem name_of_query {kind : Kind} {elem : Ty}
    (h : H.queryOperation kind elem name = some found) : isOperationName name := by
  unfold queryOperation at h
  split at h
  all_goals first | decide | cases h

theorem name_of_element {kind : Kind} {elem a : Ty}
    (h : H.elementOperation kind elem name a = some found) : isOperationName name := by
  unfold elementOperation at h
  split at h
  all_goals first | decide | cases h

theorem name_of_merge {kind other : Kind} {elem otherElem : Ty}
    (h : H.mergeOperation kind elem name other otherElem = some found) : isOperationName name := by
  unfold mergeOperation at h
  split at h
  all_goals first | decide | cases h

theorem name_of_collection {kind : Kind} {elem : Ty}
    (h : H.collectionOperation kind elem name args = some found) : isOperationName name := by
  unfold collectionOperation at h
  split at h
  · exact name_of_query h
  · rcases Option.or_eq_some_iff.mp h with h | ⟨-, h⟩
    · exact name_of_element h
    · split at h
      · exact name_of_merge h
      · cases h
  · split at h
    · next hname =>
      simp only [Bool.and_eq_true, Bool.or_eq_true, decide_eq_true_eq] at hname
      rcases hname.1.1.1 with rfl | rfl <;> decide
    · cases h
  · cases h

/-- The name of every standard operation is an operator or a word. -/
theorem name_of_resolve {receiver result : Ty} {op : Operation}
    (h : H.resolve receiver name args = .ok (result, op)) : isOperationName name := by
  unfold resolve at h
  dsimp only at h
  split at h
  · next found hfound =>
    rcases Option.or_eq_some_iff.mp hfound with h | ⟨-, h⟩
    · exact name_of_universal h
    · unfold tableOperation at h
      split at h
      · exact name_of_boolean h
      · exact name_of_numeric h
      · exact name_of_numeric h
      · exact name_of_numeric h
      · exact name_of_string h
      · exact name_of_date h
      · exact name_of_collection h
      all_goals cases h
  · cases h

end Hierarchy

end ObjectConstraint
