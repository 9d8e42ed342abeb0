import Mathlib.Data.Set.Finite.List
import Mathlib.Logic.Relation
import ObjectConstraint.Hierarchy

/-!
# Searches that come to an end

`visit` takes at most a given number of names from its queue. A search without that bound goes on
until the queue is empty, if it ever is. Whatever the successors of each name are, a search that
comes to an end has listed the names that steps from its start lead to, each once. The number of its
turns can be read off the list, and `visit` lists the same whenever it may take as many names.

* `SearchEnds` — a search comes to an end after a number of turns, with a list.
* `SearchEnds.visit_eq` — what `visit` lists if its bound suffices.
* `SearchEnds.mem_iff` — what is listed is what is reached from the start.
-/

namespace ObjectConstraint

variable {next : String → List String} {steps turns : Nat} {seen queue found : List String}
  {name start : String}

/-! ### Bounded searches -/

/-- What a search lists is reached from its queue. -/
theorem exists_mem_queue_of_mem_visit (h : name ∈ visit next steps seen queue) :
    ∃ start ∈ queue, Relation.ReflTransGen (fun c d => d ∈ next c) start name := by
  induction steps generalizing seen queue with
  | zero => cases h
  | succ steps ih =>
    cases queue with
    | nil => cases h
    | cons first queue =>
      rw [visit] at h
      split at h
      · obtain ⟨start, hstart, hreach⟩ := ih h
        exact ⟨start, List.mem_cons_of_mem _ hstart, hreach⟩
      · rcases List.mem_cons.mp h with rfl | h
        · exact ⟨name, List.mem_cons_self, .refl⟩
        · obtain ⟨start, hstart, hreach⟩ := ih h
          rcases List.mem_append.mp hstart with hqueue | hnext
          · exact ⟨start, List.mem_cons_of_mem _ hqueue, hreach⟩
          · exact ⟨first, List.mem_cons_self, .head hnext hreach⟩

/-- What a search lists was not seen before. -/
theorem not_mem_of_mem_visit (h : name ∈ visit next steps seen queue) : name ∉ seen := by
  induction steps generalizing seen queue with
  | zero => cases h
  | succ steps ih =>
    cases queue with
    | nil => cases h
    | cons first queue =>
      rw [visit] at h
      split at h
      · exact ih h
      · next hnew =>
        rcases List.mem_cons.mp h with rfl | h
        · exact hnew
        · exact fun hseen => ih h (List.mem_cons_of_mem _ hseen)

/-! ### Searches without a bound -/

/-- A search comes to an end after a number of turns, with a list of what it has found. A turn takes
the first name of the queue; if the name is new, it is listed, and its successors join the end. -/
inductive SearchEnds (next : String → List String) :
    (turns : Nat) → (seen queue found : List String) → Prop
  | done (seen : List String) : SearchEnds next 0 seen [] []
  | skip {turns : Nat} {seen queue found : List String} {name : String} (hseen : name ∈ seen)
    (hrest : SearchEnds next turns seen queue found) :
    SearchEnds next (turns + 1) seen (name :: queue) found
  | take {turns : Nat} {seen queue found : List String} {name : String} (hnew : name ∉ seen)
    (hrest : SearchEnds next turns (name :: seen) (queue ++ next name) found) :
    SearchEnds next (turns + 1) seen (name :: queue) (name :: found)

namespace SearchEnds

theorem visit_eq (h : SearchEnds next turns seen queue found) (hsteps : turns ≤ steps) :
    visit next steps seen queue = found := by
  induction h generalizing steps with
  | done => cases steps <;> rfl
  | skip hseen _ ih =>
    obtain ⟨steps, rfl⟩ := Nat.exists_eq_add_of_le' hsteps
    rw [← Nat.add_assoc, visit, if_pos hseen]
    exact ih (Nat.le_add_left _ steps)
  | take hnew _ ih =>
    obtain ⟨steps, rfl⟩ := Nat.exists_eq_add_of_le' hsteps
    rw [← Nat.add_assoc, visit, if_neg hnew, ih (Nat.le_add_left _ steps)]

theorem unique {turns' : Nat} {found' : List String} (h : SearchEnds next turns seen queue found)
    (h' : SearchEnds next turns' seen queue found') : found = found' :=
  (h.visit_eq (Nat.le_max_left turns turns')).symm.trans (h'.visit_eq (Nat.le_max_right _ _))

/-- A turn is made for each name in the queue and for each successor of a name listed. -/
theorem turns_eq (h : SearchEnds next turns seen queue found) :
    turns = queue.length + (found.flatMap next).length := by
  induction h with
  | done => rfl
  | skip _ _ ih =>
    rw [ih, List.length_cons]
    omega
  | take _ _ ih =>
    rw [ih, List.length_append, List.length_cons, List.flatMap_cons, List.length_append]
    omega

/-- A search asks for the successors of the names that it lists, and of no others. -/
theorem congr {others : String → List String} (h : SearchEnds next turns seen queue found)
    (hsame : ∀ c ∈ found, others c = next c) : SearchEnds others turns seen queue found := by
  induction h with
  | done seen => exact .done seen
  | skip hseen _ ih => exact .skip hseen (ih hsame)
  | take hnew _ ih =>
    obtain ⟨hname, hrest⟩ := List.forall_mem_cons.mp hsame
    exact .take hnew (hname ▸ ih hrest)

theorem nodup (h : SearchEnds next turns seen queue found) : found.Nodup := by
  induction h with
  | done => exact .nil
  | skip _ _ ih => exact ih
  | take _ hrest ih =>
    refine List.nodup_cons.mpr ⟨fun hmem => ?_, ih⟩
    rw [← hrest.visit_eq le_rfl] at hmem
    exact not_mem_of_mem_visit hmem List.mem_cons_self

/-- The names seen and those listed in the end contain the queue and their own successors, as long
as the successors of each name seen are seen or in the queue. -/
theorem closed (h : SearchEnds next turns seen queue found)
    (hseen : ∀ c ∈ seen, ∀ d ∈ next c, d ∈ seen ∨ d ∈ queue) :
    (∀ c ∈ queue, c ∈ seen ∨ c ∈ found) ∧
      ∀ c, c ∈ seen ∨ c ∈ found → ∀ d ∈ next c, d ∈ seen ∨ d ∈ found := by
  induction h with
  | done => simpa using hseen
  | @skip _ seen queue _ name hmem _ ih =>
    obtain ⟨hlisted, hclosed⟩ := ih fun c hc d hd => by
      rcases hseen c hc d hd with h | h
      · exact .inl h
      · rcases List.mem_cons.mp h with rfl | h
        · exact .inl hmem
        · exact .inr h
    refine ⟨?_, hclosed⟩
    intro c hc
    rcases List.mem_cons.mp hc with rfl | hc
    · exact .inl hmem
    · exact hlisted c hc
  | @take _ seen queue _ name _ _ ih =>
    obtain ⟨hlisted, hclosed⟩ := ih fun c hc d hd => by
      rcases List.mem_cons.mp hc with rfl | hc
      · exact .inr (List.mem_append_right _ hd)
      · rcases hseen c hc d hd with h | h
        · exact .inl (List.mem_cons_of_mem _ h)
        · rcases List.mem_cons.mp h with rfl | h
          · exact .inl List.mem_cons_self
          · exact .inr (List.mem_append_left _ h)
    simp only [List.mem_cons] at hlisted hclosed ⊢
    constructor
    · intro c hc
      rcases hc with rfl | hc
      · exact .inr (.inl rfl)
      · have := hlisted c (List.mem_append_left _ hc)
        tauto
    · intro c hc d hd
      have := hclosed c (by tauto) d hd
      tauto

end SearchEnds

/-! ### What is reached -/

/-- The start and the names that steps from it lead to. -/
def reached (next : String → List String) (start : String) : Set String :=
  {name | Relation.ReflTransGen (fun c d => d ∈ next c) start name}

/-- Names that contain the start and their own successors contain all that is reached. -/
theorem mem_of_mem_reached {names : List String} (hstart : start ∈ names)
    (hclosed : ∀ c ∈ names, ∀ d ∈ next c, d ∈ names) (h : name ∈ reached next start) :
    name ∈ names := by
  induction h with
  | refl => exact hstart
  | tail _ hstep ih => exact hclosed _ ih _ hstep

theorem finite_reached {names : List String} (hstart : start ∈ names)
    (hclosed : ∀ c ∈ names, ∀ d ∈ next c, d ∈ names) : (reached next start).Finite :=
  names.finite_toSet.subset fun _ => mem_of_mem_reached hstart hclosed

namespace SearchEnds

theorem mem_iff (h : SearchEnds next turns [] [start] found) :
    name ∈ found ↔ name ∈ reached next start := by
  constructor
  · intro hname
    rw [← h.visit_eq le_rfl] at hname
    obtain ⟨first, hfirst, hreach⟩ := exists_mem_queue_of_mem_visit hname
    obtain rfl := List.mem_singleton.mp hfirst
    exact hreach
  · obtain ⟨hlisted, hclosed⟩ := h.closed (by simp)
    simp only [List.not_mem_nil, false_or] at hlisted hclosed
    exact mem_of_mem_reached (hlisted start List.mem_cons_self) hclosed

/-- The start is listed first. -/
theorem exists_eq_cons (h : SearchEnds next turns [] [start] found) :
    ∃ others, found = start :: others := by
  cases h with
  | skip hseen => cases hseen
  | take => exact ⟨_, rfl⟩

end SearchEnds

end ObjectConstraint
