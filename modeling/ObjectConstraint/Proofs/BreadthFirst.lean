import ObjectConstraint.Proofs.EqualCollections
import ObjectConstraint.Proofs.WellFormed

/-!
# Breadth-first search among values

A search that takes the values one step away, then those another step away, and so on, each at its
first occurrence only. Among finitely many values it comes to an end, has all values that steps lead
to, and has the nearer ones first.

* `Value.ReachedIn` — a value is so many steps away from the sources.
* `Value.breadthFirst` — the search, level by level.
* `AtLevel` — what is known and what is still to be taken at a level.
* `breadthFirst_sources` — what a search finds, and in which order.
-/

namespace ObjectConstraint.Value

/-! ### First occurrences -/

theorem firstOccurrences_append (known : Known) (xs ys : List Value) :
    firstOccurrences known (xs ++ ys) =
      let (found, known) := firstOccurrences known xs
      let (others, known) := firstOccurrences known ys
      (found ++ others, known) := by
  induction xs generalizing known with
  | nil => rfl
  | cons x xs ih =>
    by_cases hx : known.contains x
    · simp [firstOccurrences, hx, ih]
    · simp [firstOccurrences, hx, ih]

theorem contains_insert (known : Known) (x v : Value) :
    (known.insert x).contains v = (x == v || known.contains v) :=
  Std.TreeSet.contains_insert

theorem contains_firstOccurrences (known : Known) (xs : List Value) (v : Value) :
    (firstOccurrences known xs).2.contains v = (known.contains v || xs.any (· == v)) := by
  induction xs generalizing known with
  | nil => simp [firstOccurrences]
  | cons x xs ih =>
    by_cases hx : known.contains x
    · have hv : x == v → known.contains v := fun heq => by
        rwa [← Std.TreeSet.contains_congr (beq_iff_cmp_eq.mp heq)]
      cases heq : x == v <;> simp_all [firstOccurrences]
    · rw [firstOccurrences, if_neg hx]
      simp only [ih, contains_insert, List.any_cons]
      ac_rfl

/-- A value in a list was known before, or one equal to it is among the first occurrences. -/
theorem exists_mem_firstOccurrences (known : Known) {xs : List Value} {x : Value} (hx : x ∈ xs) :
    known.contains x ∨ ∃ y ∈ (firstOccurrences known xs).1, y == x := by
  induction xs generalizing known with
  | nil => cases hx
  | cons first xs ih =>
    by_cases hfirst : known.contains first
    · rw [firstOccurrences, if_pos hfirst]
      rcases List.mem_cons.mp hx with rfl | hx
      · exact .inl hfirst
      · exact ih known hx
    · rw [firstOccurrences, if_neg hfirst]
      rcases List.mem_cons.mp hx with rfl | hx
      · exact .inr ⟨x, List.mem_cons_self, BEq.refl x⟩
      · rcases ih (known.insert first) hx with hknown | ⟨y, hy, heq⟩
        · rw [contains_insert, Bool.or_eq_true] at hknown
          exact hknown.symm.imp id fun heq => ⟨first, List.mem_cons_self, heq⟩
        · exact .inr ⟨y, List.mem_cons_of_mem _ hy, heq⟩

/-! ### Distances -/

/-- A value is a number of steps away from the sources. -/
inductive ReachedIn (next : Value → List Value) (sources : List Value) : Nat → Value → Prop
  | source {x : Value} (h : x ∈ sources) : ReachedIn next sources 0 x
  | step {n : Nat} {x y : Value} (h : ReachedIn next sources n x) (hstep : y ∈ next x) :
    ReachedIn next sources (n + 1) y

/-- In all ways in which one value is reached by steps, the other is reached by no more of them. -/
def NoFurther (next : Value → List Value) (sources : List Value) (x y : Value) : Prop :=
  ∀ n, ReachedIn next sources (n + 1) y → ∃ m ≤ n, ReachedIn next sources (m + 1) x

/-- Steps from the sources stay among values that are equal only to themselves. -/
structure StaysAmong (next : Value → List Value) (sources all : List Value) : Prop where
  mem_of_step {x y : Value} (hx : x ∈ sources ∨ x ∈ all) (hy : y ∈ next x) : y ∈ all
  eq_of_beq {x y : Value} (hx : x ∈ all) (hy : y ∈ all) (h : x == y) : x = y

variable {next : Value → List Value} {sources all level : List Value} {known : Known} {n : Nat}

theorem ReachedIn.mem (hall : StaysAmong next sources all) {x : Value}
    (h : ReachedIn next sources n x) : x ∈ sources ∨ x ∈ all := by
  induction h with
  | source h => exact .inl h
  | step _ hstep ih => exact .inr (hall.mem_of_step ih hstep)

theorem ReachedIn.mem_all (hall : StaysAmong next sources all) {y : Value}
    (h : ReachedIn next sources (n + 1) y) : y ∈ all := by
  cases h with
  | step h hstep => exact hall.mem_of_step (h.mem hall) hstep

/-! ### Levels -/

/-- The state of a search at a level: `level` are the values to be taken, a number of steps away,
and `known` are those that fewer steps lead to. What is at this distance and not nearer is to be
taken. -/
structure AtLevel (next : Value → List Value) (sources all : List Value) (n : Nat) (known : Known)
    (level : List Value) : Prop where
  reached : ∀ x ∈ level, ReachedIn next sources n x
  known_iff : ∀ y ∈ all, known.contains y ↔ ∃ m < n, ReachedIn next sources (m + 1) y
  held : ∀ x, ReachedIn next sources n x →
    x ∈ level ∨ ∃ m, m + 1 < n ∧ ReachedIn next sources (m + 1) x

theorem atLevel_sources : AtLevel next sources all 0 ∅ sources where
  reached _ hx := .source hx
  known_iff y _ := by simp
  held x hx := by
    cases hx with
    | source h => exact .inl h

namespace AtLevel

theorem reached_targets (h : AtLevel next sources all n known level) {y : Value}
    (hy : y ∈ level.flatMap next) : ReachedIn next sources (n + 1) y := by
  obtain ⟨x, hx, hstep⟩ := List.mem_flatMap.mp hy
  exact (h.reached x hx).step hstep

/-- A value at the next distance comes from this level, or from a nearer one and then it is known. -/
theorem held_targets (h : AtLevel next sources all n known level) {y : Value}
    (hy : ReachedIn next sources (n + 1) y) :
    y ∈ level.flatMap next ∨ ∃ m < n, ReachedIn next sources (m + 1) y := by
  cases hy with
  | @step _ x _ hx hstep =>
    rcases h.held x hx with hlevel | ⟨m, hm, hnear⟩
    · exact .inl (List.mem_flatMap.mpr ⟨x, hlevel, hstep⟩)
    · exact .inr ⟨m + 1, hm, hnear.step hstep⟩

/-- What is not known is no nearer than the next level. -/
theorem le_of_reached (hall : StaysAmong next sources all)
    (h : AtLevel next sources all n known level) {y : Value} {m : Nat}
    (hnew : known.contains y = false) (hy : ReachedIn next sources (m + 1) y) : n ≤ m := by
  by_contra hlt
  have hold := (h.known_iff y (hy.mem_all hall)).mpr ⟨m, Nat.lt_of_not_le hlt, hy⟩
  rw [hnew] at hold
  cases hold

/-- The values that the steps of a level newly reach are the next level. -/
theorem up (hall : StaysAmong next sources all) (h : AtLevel next sources all n known level) :
    AtLevel next sources all (n + 1) (firstOccurrences known (level.flatMap next)).2
      (firstOccurrences known (level.flatMap next)).1 := by
  have hknown : ∀ y ∈ all, (firstOccurrences known (level.flatMap next)).2.contains y ↔
      known.contains y ∨ y ∈ level.flatMap next := by
    intro y hy
    rw [contains_firstOccurrences, Bool.or_eq_true, List.any_eq_true]
    refine or_congr_right ⟨?_, fun hmem => ⟨y, hmem, BEq.refl y⟩⟩
    rintro ⟨z, hz, heq⟩
    rwa [← hall.eq_of_beq ((h.reached_targets hz).mem_all hall) hy heq]
  constructor
  · exact fun y hy => h.reached_targets (mem_of_mem_firstOccurrences hy)
  · intro y hy
    rw [hknown y hy, h.known_iff y hy]
    constructor
    · rintro (⟨m, hm, hreached⟩ | htarget)
      · exact ⟨m, Nat.lt_succ_of_lt hm, hreached⟩
      · exact ⟨n, n.lt_succ_self, h.reached_targets htarget⟩
    · rintro ⟨m, hm, hreached⟩
      rcases Nat.lt_succ_iff_lt_or_eq.mp hm with hm | rfl
      · exact .inl ⟨m, hm, hreached⟩
      · exact (h.held_targets hreached).symm
  · intro y hy
    rcases h.held_targets hy with htarget | ⟨m, hm, hreached⟩
    · rcases exists_mem_firstOccurrences known htarget with hold | ⟨z, hz, heq⟩
      · obtain ⟨m, hm, hreached⟩ := (h.known_iff y (hy.mem_all hall)).mp hold
        exact .inr ⟨m, Nat.succ_lt_succ hm, hreached⟩
      · have hmem := (h.reached_targets (mem_of_mem_firstOccurrences hz)).mem_all hall
        exact .inl (hall.eq_of_beq hmem (hy.mem_all hall) heq ▸ hz)
    · exact .inr ⟨m, Nat.succ_lt_succ hm, hreached⟩

end AtLevel

/-! ### The search -/

/-- Breadth-first search from the values of a level: what it newly finds, level after level; nothing
if there are more levels than allowed. -/
def breadthFirst (next : Value → List Value) :
    (levels : Nat) → (known : Known) → (level : List Value) → Option (List Value)
  | _, _, [] => some []
  | 0, _, _ :: _ => none
  | levels + 1, known, x :: level =>
    let (found, known) := firstOccurrences known ((x :: level).flatMap next)
    (breadthFirst next levels known found).map (found ++ ·)

/-- The values that are not known. -/
def unknown (all : List Value) (known : Known) : List Value := all.filter fun y => !known.contains y

/-- A level that finds something leaves fewer values unknown. -/
theorem length_unknown_lt (hall : StaysAmong next sources all)
    (h : AtLevel next sources all n known level)
    (hfound : (firstOccurrences known (level.flatMap next)).1 ≠ []) :
    (unknown all (firstOccurrences known (level.flatMap next)).2).length <
      (unknown all known).length := by
  obtain ⟨y, hy⟩ := List.exists_mem_of_ne_nil _ hfound
  have hcontains := contains_firstOccurrences known (level.flatMap next)
  have hfewer : unknown all (firstOccurrences known (level.flatMap next)).2 =
      (unknown all known).filter
        fun z => !(firstOccurrences known (level.flatMap next)).2.contains z := by
    rw [unknown, unknown, List.filter_filter]
    refine List.filter_congr fun z _ => ?_
    rw [hcontains]
    cases known.contains z <;> simp
  rw [hfewer, List.length_filter_lt_length_iff_exists]
  refine ⟨y, List.mem_filter.mpr ⟨((h.up hall).reached y hy).mem_all hall, ?_⟩, ?_⟩
  · simp [(pairwise_firstOccurrences _ known).1 y hy]
  · have htarget : (level.flatMap next).any (· == y) :=
      List.any_eq_true.mpr ⟨y, mem_of_mem_firstOccurrences hy, BEq.refl y⟩
    simp [hcontains, htarget]

theorem AtLevel.breadthFirst_spec (hall : StaysAmong next sources all) {levels : Nat}
    (h : AtLevel next sources all n known level)
    (hlevels : level = [] ∨ (unknown all known).length < levels) :
    ∃ found, breadthFirst next levels known level = some found ∧
      found = (firstOccurrences known ((level ++ found).flatMap next)).1 ∧
      (∀ y ∈ found, ∃ m, ReachedIn next sources (m + 1) y) ∧
      (∀ y ∈ found, ∀ m, ReachedIn next sources (m + 1) y → n ≤ m) ∧
      found.Pairwise (NoFurther next sources) := by
  induction levels generalizing n known level with
  | zero =>
    obtain rfl := hlevels.resolve_right (Nat.not_lt_zero _)
    exact ⟨[], rfl, rfl, nofun, nofun, .nil⟩
  | succ levels ih =>
    cases level with
    | nil => exact ⟨[], rfl, rfl, nofun, nofun, .nil⟩
    | cons x level =>
      have hup := h.up hall
      have hfewer := length_unknown_lt hall h
      rw [breadthFirst]
      rcases hsearch : firstOccurrences known ((x :: level).flatMap next) with ⟨found, known'⟩
      simp only [hsearch] at hup hfewer
      have hlevels' : found = [] ∨ (unknown all known').length < levels := by
        rcases hlevels with hnil | hlevels
        · cases hnil
        · by_cases hfound : found = []
          · exact .inl hfound
          · exact .inr (Nat.lt_of_lt_of_le (hfewer hfound) (Nat.le_of_lt_succ hlevels))
      obtain ⟨others, hothers, hqueue, hreached, hnear, hpairwise⟩ := ih hup hlevels'
      have hnearest : ∀ y ∈ found ++ others, ∀ m, ReachedIn next sources (m + 1) y → n ≤ m := by
        intro y hy m hm
        rcases List.mem_append.mp hy with hy | hy
        · have hnew : known.contains y = false :=
            (pairwise_firstOccurrences _ known).1 y (by rwa [hsearch])
          exact h.le_of_reached hall hnew hm
        · exact Nat.le_of_succ_le (hnear y hy m hm)
      have hfirst : ∀ x ∈ found, ∀ y ∈ found ++ others, NoFurther next sources x y :=
        fun x hx y hy m hm => ⟨n, hnearest y hy m hm, hup.reached x hx⟩
      refine ⟨found ++ others, by simp [hothers], ?_, ?_, hnearest, ?_⟩
      · rw [List.flatMap_append, firstOccurrences_append, hsearch]
        exact congrArg (found ++ ·) hqueue
      · intro y hy
        rcases List.mem_append.mp hy with hy | hy
        · exact ⟨n, hup.reached y hy⟩
        · exact hreached y hy
      · refine List.pairwise_append.mpr ⟨?_, hpairwise, ?_⟩
        · exact List.pairwise_of_forall_mem_list fun x hx y hy =>
            hfirst x hx y (List.mem_append_left _ hy)
        · exact fun x hx y hy => hfirst x hx y (List.mem_append_right _ hy)

/-- Among finitely many values a search comes to an end. It has found, each once, the values that
are reached from the sources by one step or more, none further away than one behind it, and each
where the steps from the sources and then from what is found lead to it first. -/
theorem breadthFirst_sources (hall : StaysAmong next sources all) {levels : Nat}
    (hlevels : all.length < levels) :
    ∃ found, breadthFirst next levels ∅ sources = some found ∧ found.Nodup ∧
      (∀ y, y ∈ found ↔ ∃ n, ReachedIn next sources (n + 1) y) ∧
      found = ((sources ++ found).flatMap next).eraseDups ∧
      found.Pairwise (NoFurther next sources) := by
  have hbound : (unknown all ∅).length < levels :=
    Nat.lt_of_le_of_lt (List.length_filter_le _ _) hlevels
  obtain ⟨found, hfound, hqueue, hreached, -, hpairwise⟩ :=
    atLevel_sources.breadthFirst_spec hall (.inr hbound)
  have hclosed : ∀ x ∈ sources ++ found, ∀ y ∈ next x, y ∈ found := by
    intro x hx y hy
    have hsource : x ∈ sources ∨ x ∈ all := by
      rcases List.mem_append.mp hx with hx | hx
      · exact .inl hx
      · obtain ⟨n, hn⟩ := hreached x hx
        exact hn.mem hall
    rcases exists_mem_firstOccurrences ∅ (List.mem_flatMap.mpr ⟨x, hx, hy⟩) with
      hold | ⟨z, hz, heq⟩
    · simp at hold
    · rw [← hqueue] at hz
      obtain ⟨n, hn⟩ := hreached z hz
      exact hall.eq_of_beq (hn.mem_all hall) (hall.mem_of_step hsource hy) heq ▸ hz
  refine ⟨found, hfound, ?_, fun y => ⟨hreached y, ?_⟩, ?_, hpairwise⟩
  · have hdistinct := (pairwise_firstOccurrences ((sources ++ found).flatMap next) ∅).2
    rw [← hqueue] at hdistinct
    refine hdistinct.imp ?_
    rintro x _ hne rfl
    exact hne (cmp_self x)
  · rintro ⟨n, hn⟩
    have hheld : ∀ m x, ReachedIn next sources m x → x ∈ sources ++ found := by
      intro m x hx
      induction hx with
      | source h => exact List.mem_append_left _ h
      | step _ hstep ih => exact List.mem_append_right _ (hclosed _ ih _ hstep)
    cases hn with
    | step hx hstep => exact hclosed _ (hheld n _ hx) y hstep
  · rw [firstOccurrences_eq_eraseDups] at hqueue
    simpa using hqueue

end ObjectConstraint.Value
