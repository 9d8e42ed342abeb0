import Mathlib.Algebra.BigOperators.Group.Finset.Basic
import Mathlib.Algebra.Order.BigOperators.Group.Finset
import ObjectConstraint.Proofs.Searches

/-!
# Ancestors are what superclass steps reach

The breadth-first search over superclasses has a bound on its steps. The bound suffices: a step
takes one name from the queue and adds the superclasses of a class only when the class is new, so
what is left to take, `Hierarchy.pending`, falls with every step.

* `Hierarchy.searchEnds_ancestors` — the search for the ancestors of a class comes to its end.
* `Hierarchy.mem_ancestors_iff` — the ancestors of a class are the classes reached from it.
* `Hierarchy.conformsTo_refl`, `Hierarchy.conformsTo_trans` — conformance of classes is a preorder.
* `Hierarchy.Acyclic` — no class is above itself; then the preorder is a partial order.
-/

namespace ObjectConstraint

namespace Hierarchy

variable (H : Hierarchy)

/-! ### The bound suffices -/

/-- How many names a search from `start` has still to take at most: those in the queue, and the
superclasses of all classes above `start` not seen yet. -/
def pending (start : String) (seen queue : List String) : Nat :=
  queue.length + ∑ cls ∈ (H.above start).toFinset \ seen.toFinset, (H.superclasses cls).length

theorem pending_start_le (start : String) : H.pending start [] [start] ≤ H.searchSteps start := by
  have hsum : ∑ c ∈ (H.above start).toFinset, (H.superclasses c).length ≤
      ((H.above start).flatMap H.superclasses).length := by
    rw [List.length_flatMap, Finset.sum_list_map_count]
    refine Finset.sum_le_sum ?_
    intro c hc
    exact Nat.le_mul_of_pos_left _ (List.count_pos_iff.mpr (List.mem_toFinset.mp hc))
  simp only [pending, searchSteps, List.length_singleton, List.toFinset_nil, Finset.sdiff_empty]
  omega

/-- A step of a search that meets a new name leaves less to take. -/
theorem pending_visit_lt {start name : String} {seen : List String}
    (habove : name ∈ H.above start) (hnew : name ∉ seen) (queue : List String) :
    H.pending start (name :: seen) (queue ++ H.superclasses name) <
      H.pending start seen (name :: queue) := by
  have hsum : (H.superclasses name).length
        + ∑ c ∈ (H.above start).toFinset \ (name :: seen).toFinset, (H.superclasses c).length =
      ∑ c ∈ (H.above start).toFinset \ seen.toFinset, (H.superclasses c).length := by
    rw [List.toFinset_cons, Finset.sdiff_insert]
    have hmem : name ∈ (H.above start).toFinset \ seen.toFinset := by simp [habove, hnew]
    exact Finset.add_sum_erase _ (fun c => (H.superclasses c).length) hmem
  simp only [pending, List.length_append, List.length_cons]
  omega

/-- A search that may still take as many names as are pending comes to its end. -/
theorem searchEnds_visit {start : String} {steps : Nat} {seen queue : List String}
    (hsteps : H.pending start seen queue ≤ steps) (habove : ∀ c ∈ queue, c ∈ H.above start) :
    ∃ turns,
      SearchEnds H.superclasses turns seen queue (visit H.superclasses steps seen queue) := by
  induction steps generalizing seen queue with
  | zero =>
    have hqueue : queue = [] := by
      refine List.length_eq_zero_iff.mp ?_
      unfold pending at hsteps
      omega
    subst hqueue
    exact ⟨0, .done seen⟩
  | succ steps ih =>
    cases queue with
    | nil => exact ⟨0, .done seen⟩
    | cons name queue =>
      obtain ⟨hname, hqueue⟩ := List.forall_mem_cons.mp habove
      rw [visit]
      by_cases hmem : name ∈ seen
      · rw [if_pos hmem]
        have hless : H.pending start seen queue ≤ steps := by
          simp only [pending, List.length_cons] at hsteps ⊢
          omega
        obtain ⟨turns, hends⟩ := ih hless hqueue
        exact ⟨turns + 1, .skip hmem hends⟩
      · rw [if_neg hmem]
        have hless : H.pending start (name :: seen) (queue ++ H.superclasses name) ≤ steps := by
          have := H.pending_visit_lt hname hmem queue
          omega
        have hnext : ∀ c ∈ queue ++ H.superclasses name, c ∈ H.above start := by
          intro c hc
          rcases List.mem_append.mp hc with hc | hc
          · exact hqueue c hc
          · exact H.superclass_mem_above start name hname c hc
        obtain ⟨turns, hends⟩ := ih hless hnext
        exact ⟨turns + 1, .take hmem hends⟩

theorem searchEnds_ancestors (cls : String) :
    ∃ turns, SearchEnds H.superclasses turns [] [cls] (H.ancestors cls) :=
  H.searchEnds_visit (H.pending_start_le cls) (by simpa using H.mem_above cls)

/-! ### Ancestors and conformance -/

/-- One class is reached from another by going to a superclass any number of times. -/
def Reaches : String → String → Prop :=
  Relation.ReflTransGen fun c d => d ∈ H.superclasses c

theorem mem_ancestors_iff {sub sup : String} : sup ∈ H.ancestors sub ↔ H.Reaches sub sup := by
  obtain ⟨turns, hends⟩ := H.searchEnds_ancestors sub
  exact hends.mem_iff

theorem conformsTo_iff {sub sup : String} : H.conformsTo sub sup ↔ H.Reaches sub sup := by
  rw [conformsTo, List.contains_iff_mem, mem_ancestors_iff]

theorem conformsTo_refl (cls : String) : H.conformsTo cls cls :=
  H.conformsTo_iff.mpr .refl

variable {H} in
theorem conformsTo_trans {a b c : String} (hab : H.conformsTo a b) (hbc : H.conformsTo b c) :
    H.conformsTo a c :=
  H.conformsTo_iff.mpr ((H.conformsTo_iff.mp hab).trans (H.conformsTo_iff.mp hbc))

variable {H} in
/-- Where no class has a superclass, a class conforms to itself alone. -/
theorem eq_of_conformsTo {sub sup : String} (h : ∀ cls, H.superclasses cls = [])
    (hconf : H.conformsTo sub sup) : sub = sup := by
  cases (H.conformsTo_iff.mp hconf).cases_head with
  | inl heq => exact heq
  | inr hstep =>
    obtain ⟨cls, hmem, -⟩ := hstep
    rw [h] at hmem
    cases hmem

/-! ### Hierarchies without cycles -/

/-- No class is its own proper ancestor. -/
def Acyclic : Prop :=
  ∀ cls, ¬ Relation.TransGen (fun c d => d ∈ H.superclasses c) cls cls

variable {H} in
theorem Acyclic.eq_of_reaches (h : H.Acyclic) {c d : String} (hcd : H.Reaches c d)
    (hdc : H.Reaches d c) : c = d := by
  rcases Relation.reflTransGen_iff_eq_or_transGen.mp hcd with heq | hsteps
  · exact heq.symm
  · exact absurd (hsteps.trans_left hdc) (h c)

/-- A hierarchy is acyclic if each class can be ranked above its superclasses. -/
theorem acyclic_of_rank (rank : String → Nat)
    (h : ∀ c, ∀ d ∈ H.superclasses c, rank d < rank c) : H.Acyclic := by
  intro cls hsteps
  have hless : ∀ d, Relation.TransGen (fun c d => d ∈ H.superclasses c) cls d →
      rank d < rank cls := by
    intro d hd
    induction hd with
    | single hstep => exact h cls _ hstep
    | tail _ hstep ih => exact (h _ _ hstep).trans ih
  exact (hless cls hsteps).false

/-- The superclasses of a class stand beside it in the list of declarations. -/
theorem exists_entry_of_mem_superclasses {entries : List (String × List String)} {c d : String}
    (h : d ∈ (ofList entries).superclasses c) : ∃ sups, (c, sups) ∈ entries ∧ d ∈ sups := by
  cases hfound : entries.lookup c with
  | none => simp [ofList, hfound] at h
  | some sups =>
    obtain ⟨before, after, rfl, -⟩ := List.lookup_eq_some_iff.mp hfound
    exact ⟨sups, by simp, by simpa [ofList, hfound] using h⟩

theorem acyclic_ofList {entries : List (String × List String)} (rank : String → Nat)
    (h : ∀ entry ∈ entries, ∀ sup ∈ entry.2, rank sup < rank entry.1) :
    (ofList entries).Acyclic := by
  refine acyclic_of_rank _ rank ?_
  intro c d hd
  obtain ⟨sups, hentry, hsup⟩ := exists_entry_of_mem_superclasses hd
  exact h (c, sups) hentry d hsup

end Hierarchy

end ObjectConstraint
