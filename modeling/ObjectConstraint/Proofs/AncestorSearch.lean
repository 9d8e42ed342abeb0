import Mathlib.Order.Lattice.Nat
import ObjectConstraint.Proofs.Distance

/-!
# The search for the ancestors of one class

A hierarchy has finitely many classes above each class. The search from one class asks for less:
whether it ends, and what it lists, depends on that class and the classes above it alone, and
elsewhere the superclasses may go on without end. As far as the search sees, such superclasses are
those of a hierarchy.

* `reachedIn`, `distance` — how many steps lead from one name to another.
* `Hierarchy.AgreesAbove` — a hierarchy with given superclasses from one class upwards.
* `searchEnds_iff_finite` — a search ends exactly if it reaches finitely many names.
* `ancestors_nearest_first` — what it lists then: the class, and all above it, nearest first.
-/

namespace ObjectConstraint

variable {superclasses : String → List String} {start c d : String} {n : Nat}

/-! ### Distances -/

/-- The names that a number of steps from the start lead to. -/
def reachedIn (next : String → List String) (start : String) : Nat → Set String
  | 0 => {start}
  | n + 1 => {name | ∃ before ∈ reachedIn next start n, name ∈ next before}

/-- The least number of steps from the start to a name; zero if there is none. -/
noncomputable def distance (next : String → List String) (start name : String) : Nat :=
  sInf {n | name ∈ reachedIn next start n}

theorem mem_reached_of_mem_reachedIn (h : c ∈ reachedIn superclasses start n) :
    c ∈ reached superclasses start := by
  induction n generalizing c with
  | zero =>
    obtain rfl : c = start := h
    exact .refl
  | succ n ih =>
    obtain ⟨d, hd, hstep⟩ := h
    exact (ih hd).tail hstep

/-! ### Hierarchies above one class -/

namespace Hierarchy

variable {H : Hierarchy}

/-- The hierarchy has the given superclasses for a class and for all classes above it. -/
def AgreesAbove (H : Hierarchy) (superclasses : String → List String) (start : String) : Prop :=
  ∀ cls ∈ reached superclasses start, H.superclasses cls = superclasses cls

namespace AgreesAbove

theorem climbs_iff (h : H.AgreesAbove superclasses start) :
    H.Climbs n start c ↔ c ∈ reachedIn superclasses start n := by
  constructor
  · intro hc
    induction hc with
    | refl => exact rfl
    | step _ hstep ih =>
      rw [h _ (mem_reached_of_mem_reachedIn (ih h))] at hstep
      exact ⟨_, ih h, hstep⟩
  · intro hc
    induction n generalizing c with
    | zero =>
      obtain rfl : c = start := hc
      exact .refl c
    | succ n ih =>
      obtain ⟨d, hd, hstep⟩ := hc
      rw [← h d (mem_reached_of_mem_reachedIn hd)] at hstep
      exact (ih hd).step hstep

theorem reaches_iff (h : H.AgreesAbove superclasses start) :
    H.Reaches start c ↔ c ∈ reached superclasses start := by
  constructor
  · intro hc
    obtain ⟨n, hn⟩ := hc.exists_climbs
    exact mem_reached_of_mem_reachedIn (h.climbs_iff.mp hn)
  · intro hc
    induction hc with
    | refl => exact .refl
    | tail hd hstep ih =>
      rw [← h _ hd] at hstep
      exact ih.tail hstep

/-- The search through the given superclasses ends with the ancestors in the hierarchy. -/
theorem searchEnds (h : H.AgreesAbove superclasses start) :
    ∃ turns, SearchEnds superclasses turns [] [start] (H.ancestors start) := by
  obtain ⟨turns, hends⟩ := H.searchEnds_ancestors start
  refine ⟨turns, hends.congr fun c hc => ?_⟩
  exact (h c (h.reaches_iff.mp (H.mem_ancestors_iff.mp hc))).symm

theorem distance_le (h : H.AgreesAbove superclasses start) (hnear : H.NoFurther start c d)
    (hd : d ∈ reached superclasses start) :
    distance superclasses start c ≤ distance superclasses start d := by
  obtain ⟨n, hn⟩ := (h.reaches_iff.mpr hd).exists_climbs
  have hleast : d ∈ reachedIn superclasses start (distance superclasses start d) :=
    Nat.sInf_mem (s := {n | d ∈ reachedIn superclasses start n}) ⟨n, h.climbs_iff.mp hn⟩
  obtain ⟨m, hle, hm⟩ := hnear _ (h.climbs_iff.mpr hleast)
  calc distance superclasses start c
      ≤ m := Nat.sInf_le (h.climbs_iff.mp hm)
    _ ≤ distance superclasses start d := hle

theorem pairwise_ancestors (h : H.AgreesAbove superclasses start) :
    (H.ancestors start).Pairwise fun c d =>
      distance superclasses start c ≤ distance superclasses start d :=
  (H.pairwise_ancestors start).imp_of_mem fun _ hd hnear =>
    h.distance_le hnear (h.reaches_iff.mp (H.mem_ancestors_iff.mp hd))

end AgreesAbove

open Classical in
/-- The hierarchy of one class and the finitely many above it; no other class has superclasses. -/
noncomputable def cone (hfinite : (reached superclasses start).Finite) : Hierarchy where
  superclasses cls := if cls ∈ reached superclasses start then superclasses cls else []
  above cls := cls :: hfinite.toFinset.toList
  mem_above _ := List.mem_cons_self
  superclass_mem_above _ c _ sup hsup := by
    split at hsup
    · next hc =>
      have hreached : sup ∈ reached superclasses start := .tail hc hsup
      simp [hreached]
    · cases hsup

theorem agreesAbove_cone (hfinite : (reached superclasses start).Finite) :
    (cone hfinite).AgreesAbove superclasses start :=
  fun _ hcls => if_pos hcls

end Hierarchy

/-! ### The search -/

/-- A search comes to an end exactly if it reaches finitely many names. -/
theorem searchEnds_iff_finite :
    (∃ turns found, SearchEnds superclasses turns [] [start] found) ↔
      (reached superclasses start).Finite := by
  constructor
  · rintro ⟨turns, found, hends⟩
    exact found.finite_toSet.subset fun _ hcls => hends.mem_iff.mpr hcls
  · intro hfinite
    obtain ⟨turns, hends⟩ := (Hierarchy.agreesAbove_cone hfinite).searchEnds
    exact ⟨turns, _, hends⟩

/-- Whatever the superclasses of each class, if finitely many classes are reached from one by going
to superclasses, the search from it ends, after one turn for the class and one for each entry in the
lists of superclasses. It lists the class and then those that one step or more lead to, each once
and none before one at a shorter distance. This is what `visit` lists with any bound that suffices,
and it is the ancestors of the class in every hierarchy with these superclasses from the class
upwards, of which there are some. -/
theorem ancestors_nearest_first (hfinite : (reached superclasses start).Finite) :
    ∃ turns above, SearchEnds superclasses turns [] [start] (start :: above) ∧
      turns = 1 + ((start :: above).flatMap superclasses).length ∧
      (∀ steps ≥ turns, visit superclasses steps [] [start] = start :: above) ∧
      (∃ H : Hierarchy, H.AgreesAbove superclasses start) ∧
      (∀ H : Hierarchy, H.AgreesAbove superclasses start → H.ancestors start = start :: above) ∧
      (start :: above).Nodup ∧
      (∀ cls, cls ∈ start :: above ↔
        cls = start ∨ Relation.TransGen (fun c d => d ∈ superclasses c) start cls) ∧
      (start :: above).Pairwise fun c d =>
        distance superclasses start c ≤ distance superclasses start d := by
  obtain ⟨turns, found, hends⟩ := searchEnds_iff_finite.mpr hfinite
  obtain ⟨above, rfl⟩ := hends.exists_eq_cons
  have hagree := Hierarchy.agreesAbove_cone hfinite
  have hlist : ∀ H : Hierarchy, H.AgreesAbove superclasses start →
      H.ancestors start = start :: above := by
    intro H hH
    obtain ⟨turns', hends'⟩ := hH.searchEnds
    exact hends'.unique hends
  refine ⟨turns, above, hends, hends.turns_eq, ?_, ⟨_, hagree⟩, hlist, hends.nodup, ?_, ?_⟩
  · exact fun steps hsteps => hends.visit_eq hsteps
  · exact fun cls => hends.mem_iff.trans Relation.reflTransGen_iff_eq_or_transGen
  · rw [← hlist _ hagree]
    exact hagree.pairwise_ancestors

/-- A cycle, a diamond, a class above itself, a repeated and an unknown name, and other classes each
with another one above it. -/
theorem ancestors_nearest_first_endless :
    let names := ["Car", "Vehicle", "Asset", "Thing", "Ghost"]
    let H := Hierarchy.ofList [("Car", ["Vehicle", "Asset", "Vehicle"]),
      ("Vehicle", ["Thing", "Car"]), ("Asset", ["Thing", "Asset", "Ghost"])]
    let superclasses : String → List String := fun cls =>
      if cls ∈ names then H.superclasses cls else ["Super" ++ cls]
    (reached superclasses "Car").Finite ∧ H.AgreesAbove superclasses "Car" ∧
      SearchEnds superclasses 9 [] ["Car"] names ∧ names.Pairwise fun c d =>
        distance superclasses "Car" c ≤ distance superclasses "Car" d := by
  intro names H superclasses
  have hstart : "Car" ∈ names := List.mem_cons_self
  have hclosed : ∀ c ∈ names, ∀ d ∈ superclasses c, d ∈ names := by decide
  have hfinite : (reached superclasses "Car").Finite := finite_reached hstart hclosed
  have hagree : H.AgreesAbove superclasses "Car" := fun cls hcls =>
    (if_pos (mem_of_mem_reached hstart hclosed hcls)).symm
  obtain ⟨turns, above, hends, hturns, -, -, hlist, -, -, hpairwise⟩ :=
    ancestors_nearest_first hfinite
  have hnames : H.ancestors "Car" = names := by decide
  rw [← hlist H hagree, hnames] at hends hturns hpairwise
  obtain rfl : turns = 9 := hturns
  exact ⟨hfinite, hagree, hends, hpairwise⟩

end ObjectConstraint
