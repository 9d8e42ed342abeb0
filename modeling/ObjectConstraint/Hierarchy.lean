/-!
# The class hierarchy

Classes are named, and each has a list of direct superclasses in the order of declaration.
Nothing forbids cycles, diamonds, repeated or unknown names. There may be any number of classes, as
long as each has finitely many above it.

* `visit` — breadth-first search over any successor function, with a bound on its steps.
* `Hierarchy.ancestors` — a class and all classes above it, nearest first. The bound it gives to
  `visit` is the number of names that can ever enter the queue: the start and the entries of the
  superclass lists of all classes above it.
* `Hierarchy.ofList` — the hierarchy of finitely many declared classes.
-/

namespace ObjectConstraint

/-- Breadth-first search from the names in `queue`: every name not in `seen` is listed when it is
first taken from the queue, and its successors join the end. At most `steps` names are taken. -/
def visit (next : String → List String) :
    (steps : Nat) → (seen queue : List String) → List String
  | 0, _, _ => []
  | _ + 1, _, [] => []
  | steps + 1, seen, name :: queue =>
    if name ∈ seen then
      visit next steps seen queue
    else
      name :: visit next steps (name :: seen) (queue ++ next name)

/-- Classes with their direct superclasses, finitely many above each. -/
structure Hierarchy where
  /-- The direct superclasses of a class, in the order of declaration; none for an unknown one. -/
  superclasses : String → List String
  /-- Names that hold a class and, with each class, its superclasses. -/
  above : String → List String
  mem_above : ∀ cls, cls ∈ above cls
  superclass_mem_above : ∀ cls, ∀ c ∈ above cls, ∀ sup ∈ superclasses c, sup ∈ above cls

namespace Hierarchy

variable (H : Hierarchy)

/-- How many names can enter the queue of a search from a class. -/
def searchSteps (cls : String) : Nat :=
  ((H.above cls).flatMap H.superclasses).length + 1

/-- The class itself and then the classes above it, nearest first, each once. -/
def ancestors (cls : String) : List String :=
  visit H.superclasses (H.searchSteps cls) [] [cls]

/-- Whether `sub` is `sup` or below it. -/
def conformsTo (sub sup : String) : Bool :=
  (H.ancestors sub).contains sup

/-- The hierarchy without a class. -/
def empty : Hierarchy where
  superclasses _ := []
  above cls := [cls]
  mem_above _ := List.mem_cons_self
  superclass_mem_above _ _ _ _ h := nomatch h

/-- The hierarchy given by a list of classes with their superclasses; of two entries for one
class the first counts. -/
def ofList (entries : List (String × List String)) : Hierarchy where
  superclasses cls := (entries.lookup cls).getD []
  above cls := cls :: entries.flatMap Prod.snd
  mem_above _ := List.mem_cons_self
  superclass_mem_above _ c _ sup h := by
    cases hfound : entries.lookup c with
    | none => simp [hfound] at h
    | some sups =>
      obtain ⟨before, after, rfl, -⟩ := List.lookup_eq_some_iff.mp hfound
      have hsup : sup ∈ sups := by simpa [hfound] using h
      simp [hsup]

end Hierarchy

end ObjectConstraint
