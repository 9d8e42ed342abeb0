/-!
# Named parts

A tuple, and a tuple type, hold parts under names. `Parts.ofList` keeps them ascending by name
with every name once, so two tuples with the same parts have the same list.

* `ascending_ofList` — the list is strictly ascending by name.
* `lookup_insert` — an insertion is seen under its own name and under no other.
-/

namespace ObjectConstraint.Parts

variable {α : Type}

/-- Puts a part in its place by name; a part of that name is replaced. -/
def insert (name : String) (part : α) : List (String × α) → List (String × α)
  | [] => [(name, part)]
  | (other, kept) :: rest =>
    match compare name other with
    | .lt => (name, part) :: (other, kept) :: rest
    | .eq => (name, part) :: rest
    | .gt => (other, kept) :: insert name part rest

/-- The parts in ascending order of their names, the last of each name. -/
def ofList (parts : List (String × α)) : List (String × α) :=
  parts.foldl (fun kept part => insert part.1 part.2 kept) []

/-- Every name is smaller than all names after it. -/
def Ascending (parts : List (String × α)) : Prop :=
  parts.Pairwise fun a b => compare a.1 b.1 = .lt

instance (parts : List (String × α)) : Decidable (Ascending parts) :=
  inferInstanceAs (Decidable (List.Pairwise _ _))

/-! ### The order of the names -/

theorem fst_mem_of_mem_insert {name : String} {part : α} {parts : List (String × α)}
    {p : String × α} (h : p ∈ insert name part parts) : p = (name, part) ∨ p ∈ parts := by
  induction parts with
  | nil => simpa [insert] using h
  | cons head rest ih =>
    obtain ⟨other, kept⟩ := head
    simp only [insert] at h
    split at h
    · simpa using h
    · rcases List.mem_cons.mp h with rfl | h
      · exact .inl rfl
      · exact .inr (List.mem_cons_of_mem _ h)
    · rcases List.mem_cons.mp h with rfl | h
      · exact .inr List.mem_cons_self
      · exact (ih h).imp id (List.mem_cons_of_mem _)

theorem ascending_insert (name : String) (part : α) {parts : List (String × α)}
    (h : Ascending parts) : Ascending (insert name part parts) := by
  induction parts with
  | nil => simp [insert, Ascending]
  | cons head rest ih =>
    obtain ⟨other, kept⟩ := head
    have hrest := List.pairwise_cons.mp h
    simp only [insert]
    split
    · next hlt =>
      refine List.pairwise_cons.mpr ⟨fun p hp => ?_, h⟩
      rcases List.mem_cons.mp hp with rfl | hp
      · exact hlt
      · exact Std.TransCmp.lt_trans hlt (hrest.1 p hp)
    · next heq =>
      obtain rfl := Std.LawfulEqCmp.eq_of_compare heq
      exact List.pairwise_cons.mpr ⟨hrest.1, hrest.2⟩
    · next hgt =>
      refine List.pairwise_cons.mpr ⟨fun p hp => ?_, ih hrest.2⟩
      rcases fst_mem_of_mem_insert hp with rfl | hp
      · exact Std.OrientedCmp.lt_of_gt hgt
      · exact hrest.1 p hp

theorem ascending_ofList (parts : List (String × α)) : Ascending (ofList parts) := by
  suffices ∀ kept : List (String × α), Ascending kept →
      Ascending (parts.foldl (fun kept part => insert part.1 part.2 kept) kept) from
    this [] List.Pairwise.nil
  induction parts with
  | nil => exact fun _ h => h
  | cons part rest ih => exact fun kept h => ih _ (ascending_insert _ _ h)

/-! ### What is found under a name -/

theorem lookup_cons_ne {key other : String} (h : key ≠ other) (part : α)
    (rest : List (String × α)) : ((other, part) :: rest).lookup key = rest.lookup key := by
  rw [List.lookup_cons, beq_eq_false_iff_ne.mpr h]

theorem mem_of_lookup {name : String} {part : α} {parts : List (String × α)}
    (h : parts.lookup name = some part) : (name, part) ∈ parts := by
  obtain ⟨before, after, rfl, -⟩ := List.lookup_eq_some_iff.mp h
  exact List.mem_append_right _ List.mem_cons_self

theorem lookup_insert (name key : String) (part : α) (parts : List (String × α)) :
    (insert name part parts).lookup key = if key = name then some part else parts.lookup key := by
  induction parts with
  | nil => by_cases h : key = name <;> simp [insert, lookup_cons_ne, h]
  | cons head rest ih =>
    obtain ⟨other, kept⟩ := head
    simp only [insert]
    split
    · by_cases h : key = name <;> simp [lookup_cons_ne, h]
    · next heq =>
      obtain rfl := Std.LawfulEqCmp.eq_of_compare heq
      by_cases h : key = name <;> simp [lookup_cons_ne, h]
    · next hgt =>
      have hne : other ≠ name := by
        rintro rfl
        simp [Std.ReflCmp.compare_self] at hgt
      by_cases ho : key = other
      · subst ho
        simp [hne]
      · simp [lookup_cons_ne, ho, ih]

end ObjectConstraint.Parts
