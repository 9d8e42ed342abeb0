import ObjectConstraint.Proofs.Ancestry

/-!
# Ancestors are listed nearest first

How far one class is above another is the least number of superclass steps between them. A search
goes through its queue level by level: the queue holds classes some steps away from the start and
then classes one step further, and all nearer ones have been listed.

* `Climbs` — one class reached from another in so many steps; `NoFurther` — comparing distances.
* `pairwise_ancestors` — ancestors are listed in order of their distance.
* `noFurther_of_find?` — the first ancestor that passes a test is a nearest one that does.
* `SingleInheritance`, `Graded` — hierarchies in which nearer ancestors are never above further ones;
  `SingleInheritance.graded` — the first are of the second kind if they have no cycles.
-/

namespace ObjectConstraint

namespace Hierarchy

variable (H : Hierarchy)

/-! ### Distances -/

/-- One class is reached from another in a number of steps, each to a direct superclass. -/
inductive Climbs : Nat → String → String → Prop
  | refl (c : String) : Climbs 0 c c
  | step {n : Nat} {c d e : String} (h : Climbs n c d) (hstep : e ∈ H.superclasses d) :
    Climbs (n + 1) c e

variable {H} {c d start : String} {m n : Nat}

theorem Climbs.reaches (h : H.Climbs n c d) : H.Reaches c d := by
  induction h with
  | refl c => exact .refl
  | step _ hstep ih => exact ih.tail hstep

theorem Reaches.exists_climbs (h : H.Reaches c d) : ∃ n, H.Climbs n c d := by
  induction h with
  | refl => exact ⟨0, .refl c⟩
  | tail _ hstep ih =>
    obtain ⟨n, hn⟩ := ih
    exact ⟨n + 1, hn.step hstep⟩

theorem Climbs.trans {e : String} (hcd : H.Climbs m c d) (hde : H.Climbs n d e) :
    H.Climbs (m + n) c e := by
  induction hde with
  | refl => exact hcd
  | step _ hstep ih => exact (ih hcd).step hstep

variable (H) in
/-- A class is no further above the start than another. -/
def NoFurther (start c d : String) : Prop :=
  ∀ n, H.Climbs n start d → ∃ m ≤ n, H.Climbs m start c

/-! ### The search goes level by level -/

variable (H) in
/-- The state of a search from `start` at a level: the queue holds classes at the level and then
some of the next, every nearer class is seen, and every class of the level is seen or in the
queue. -/
structure AtLevel (start : String) (level : Nat) (seen here next : List String) : Prop where
  climbs_here : ∀ c ∈ here, H.Climbs level start c
  climbs_next : ∀ c ∈ next, H.Climbs (level + 1) start c
  nearer_seen : ∀ n < level, ∀ c, H.Climbs n start c → c ∈ seen
  level_held : ∀ c, H.Climbs level start c → c ∈ seen ∨ c ∈ here
  closed : ∀ c ∈ seen, ∀ d ∈ H.superclasses c, d ∈ seen ∨ d ∈ here ∨ d ∈ next

variable {level : Nat} {seen here next : List String}

variable (H) in
theorem atLevel_start (start : String) : H.AtLevel start 0 [] [start] [] where
  climbs_here c hc := by
    obtain rfl := List.mem_singleton.mp hc
    exact .refl c
  climbs_next _ hc := absurd hc List.not_mem_nil
  nearer_seen n hn := absurd hn n.not_lt_zero
  level_held c hc := by
    cases hc
    exact .inr List.mem_cons_self
  closed _ hc := absurd hc List.not_mem_nil

/-- When a level is done, the search is at the next one. -/
theorem AtLevel.up (h : H.AtLevel start level seen [] next) :
    H.AtLevel start (level + 1) seen next [] := by
  have hlevel : ∀ c, H.Climbs level start c → c ∈ seen := fun c hc =>
    (h.level_held c hc).resolve_right List.not_mem_nil
  refine ⟨h.climbs_next, (fun _ hc => absurd hc List.not_mem_nil), ?_, ?_, ?_⟩
  · intro n hn c hc
    rcases Nat.lt_succ_iff_lt_or_eq.mp hn with hn | rfl
    · exact h.nearer_seen n hn c hc
    · exact hlevel c hc
  · intro c hc
    cases hc with
    | step hd hstep => simpa using h.closed _ (hlevel _ hd) c hstep
  · intro c hc d hd
    simpa using h.closed c hc d hd

/-- A class that was seen before is passed over. -/
theorem AtLevel.skip (h : H.AtLevel start level seen (c :: here) next) (hc : c ∈ seen) :
    H.AtLevel start level seen here next := by
  refine ⟨fun d hd => h.climbs_here d (List.mem_cons_of_mem _ hd), h.climbs_next, h.nearer_seen, ?_, ?_⟩
  · intro d hd
    rcases h.level_held d hd with hseen | hqueue
    · exact .inl hseen
    · rcases List.mem_cons.mp hqueue with rfl | hqueue
      · exact .inl hc
      · exact .inr hqueue
  · intro d hd e he
    rcases h.closed d hd e he with hseen | hqueue | hnext
    · exact .inl hseen
    · rcases List.mem_cons.mp hqueue with rfl | hqueue
      · exact .inl hc
      · exact .inr (.inl hqueue)
    · exact .inr (.inr hnext)

/-- A new class is seen, and its superclasses join the next level. -/
theorem AtLevel.take (h : H.AtLevel start level seen (c :: here) next) :
    H.AtLevel start level (c :: seen) here (next ++ H.superclasses c) := by
  have hqueue : ∀ d, d ∈ c :: here → d ∈ c :: seen ∨ d ∈ here := fun d hd => by
    rcases List.mem_cons.mp hd with rfl | hd
    · exact .inl List.mem_cons_self
    · exact .inr hd
  refine ⟨fun d hd => h.climbs_here d (List.mem_cons_of_mem _ hd), ?_, ?_, ?_, ?_⟩
  · intro d hd
    rcases List.mem_append.mp hd with hd | hd
    · exact h.climbs_next d hd
    · exact (h.climbs_here c List.mem_cons_self).step hd
  · intro n hn d hd
    exact List.mem_cons_of_mem _ (h.nearer_seen n hn d hd)
  · intro d hd
    rcases h.level_held d hd with hseen | hd
    · exact .inl (List.mem_cons_of_mem _ hseen)
    · exact hqueue d hd
  · intro d hd e he
    rcases List.mem_cons.mp hd with rfl | hd
    · exact .inr (.inr (List.mem_append_right _ he))
    · rcases h.closed d hd e he with hseen | hhere | hnext
      · exact .inl (List.mem_cons_of_mem _ hseen)
      · exact (hqueue e hhere).imp id .inl
      · exact .inr (.inr (List.mem_append_left _ hnext))

/-- From a level on, classes are listed in order of their distance from the start. -/
theorem AtLevel.pairwise_visit {steps : Nat} (h : H.AtLevel start level seen here next) :
    (visit H.superclasses steps seen (here ++ next)).Pairwise (H.NoFurther start) := by
  induction steps generalizing level seen here next with
  | zero => exact .nil
  | succ steps ih =>
    -- The next class to take stands at the front of its level, the one begun last if this is done.
    have hfront : ∀ {level c here next}, H.AtLevel start level seen (c :: here) next →
        (visit H.superclasses (steps + 1) seen ((c :: here) ++ next)).Pairwise
          (H.NoFurther start) := by
      intro level c here next h
      rw [List.cons_append, visit]
      split
      · next hc => exact ih (h.skip hc)
      · rw [List.append_assoc]
        refine List.pairwise_cons.mpr ⟨?_, ih h.take⟩
        intro d hd n hn
        refine ⟨level, ?_, h.climbs_here c List.mem_cons_self⟩
        by_contra hless
        have hseen := h.nearer_seen n (Nat.lt_of_not_le hless) d hn
        exact not_mem_of_mem_visit hd (List.mem_cons_of_mem _ hseen)
    cases here with
    | cons c here => exact hfront h
    | nil =>
      cases next with
      | nil => exact .nil
      | cons c next => simpa using hfront h.up

variable (H) in
/-- Ancestors are listed in order of their distance. -/
theorem pairwise_ancestors (start : String) :
    (H.ancestors start).Pairwise (H.NoFurther start) :=
  (H.atLevel_start start).pairwise_visit

/-- The first ancestor that passes a test is no further away than any other that does. -/
theorem noFurther_of_find? {p : String → Bool} (hfind : (H.ancestors start).find? p = some c)
    (hd : H.Reaches start d) (hpd : p d) : H.NoFurther start c d := by
  obtain ⟨-, before, after, hlist, hbefore⟩ := List.find?_eq_some_iff_append.mp hfind
  have hmem : d ∈ before ++ c :: after := hlist ▸ H.mem_ancestors_iff.mpr hd
  have hordered := H.pairwise_ancestors start
  rw [hlist] at hordered
  rcases List.mem_append.mp hmem with hmem | hmem
  · simpa [hpd] using hbefore d hmem
  · rcases List.mem_cons.mp hmem with rfl | hmem
    · exact fun n hn => ⟨n, le_rfl, hn⟩
    · exact (List.pairwise_cons.mp (List.pairwise_append.mp hordered).2.1).1 d hmem

/-! ### Hierarchies in which a class is nearer than those above it -/

variable (H) in
/-- Every class has at most one direct superclass. -/
def SingleInheritance : Prop :=
  ∀ cls, ∀ c ∈ H.superclasses cls, ∀ d ∈ H.superclasses cls, c = d

theorem singleInheritance_ofList {entries : List (String × List String)}
    (h : ∀ entry ∈ entries, entry.2.length ≤ 1) : (ofList entries).SingleInheritance := by
  intro cls c hc d hd
  have hlength : ((ofList entries).superclasses cls).length ≤ 1 := by
    cases hfound : entries.lookup cls with
    | none => simp [ofList, hfound]
    | some sups =>
      obtain ⟨before, after, rfl, -⟩ := List.lookup_eq_some_iff.mp hfound
      simpa [ofList, hfound] using h (cls, sups) (by simp)
  obtain ⟨i, hi, rfl⟩ := List.mem_iff_getElem.mp hc
  obtain ⟨j, hj, rfl⟩ := List.mem_iff_getElem.mp hd
  obtain rfl : i = j := by omega
  rfl

theorem SingleInheritance.eq_of_climbs (h : H.SingleInheritance) (hc : H.Climbs n start c)
    (hd : H.Climbs n start d) : c = d := by
  induction hc generalizing d with
  | refl => cases hd; rfl
  | step _ hstep ih =>
    cases hd with
    | step hd hstep' =>
      obtain rfl := ih hd
      exact h _ _ hstep _ hstep'

/-- Under single inheritance the way to a class leads through all nearer ones. -/
theorem SingleInheritance.climbs (h : H.SingleInheritance) (hc : H.Climbs m start c)
    (hd : H.Climbs n start d) (hle : m ≤ n) : H.Climbs (n - m) c d := by
  induction hd with
  | refl =>
    obtain rfl := Nat.le_zero.mp hle
    cases hc
    exact .refl _
  | @step n _ _ _ hd hstep ih =>
    rcases Nat.le_succ_iff.mp hle with hle | rfl
    · rw [Nat.succ_sub hle]
      exact (ih hc hle).step hstep
    · obtain rfl := h.eq_of_climbs hc (hd.step hstep)
      rw [Nat.sub_self]
      exact .refl c

theorem NoFurther.reaches (hless : H.NoFurther start c d) (h : H.SingleInheritance)
    (hd : H.Reaches start d) : H.Reaches c d := by
  obtain ⟨n, hn⟩ := hd.exists_climbs
  obtain ⟨m, hle, hm⟩ := hless n hn
  exact (h.climbs hm hn hle).reaches

variable (H) in
/-- All ways up from one class to another are of the same length. -/
def Graded : Prop :=
  ∀ c d m n, H.Climbs m c d → H.Climbs n c d → m = n

theorem Graded.acyclic (h : H.Graded) : H.Acyclic := by
  intro cls hloop
  obtain ⟨d, hstep, hrest⟩ := Relation.TransGen.head'_iff.mp hloop
  obtain ⟨n, hn⟩ := Reaches.exists_climbs hrest
  have hlength := h cls cls 0 (0 + 1 + n) (.refl cls) (((Climbs.refl cls).step hstep).trans hn)
  omega

/-- In a graded hierarchy no class is above another that is as far away. -/
theorem NoFurther.eq_of_graded (hless : H.NoFurther start c d) (h : H.Graded)
    (hd : H.Reaches start d) (hdc : H.Reaches d c) : d = c := by
  obtain ⟨n, hn⟩ := hd.exists_climbs
  obtain ⟨k, hk⟩ := hdc.exists_climbs
  obtain ⟨m, hle, hm⟩ := hless n hn
  have heq : m = n + k := h start c m (n + k) hm (hn.trans hk)
  obtain rfl : k = 0 := by omega
  cases hk
  rfl

/-- Without cycles, single inheritance leaves one way up. -/
theorem SingleInheritance.graded (h : H.SingleInheritance) (hacyclic : H.Acyclic) : H.Graded := by
  have hle : ∀ {c d m n}, H.Climbs m c d → H.Climbs n c d → n ≤ m := by
    intro c d m n hm hn
    by_contra hless
    have hloop := h.climbs hm hn (Nat.le_of_not_le hless)
    generalize hk : n - m = k at hloop
    cases hloop with
    | refl => omega
    | step hd hstep => exact hacyclic d (.tail' hd.reaches hstep)
  intro c d m n hm hn
  exact Nat.le_antisymm (hle hn hm) (hle hm hn)

end Hierarchy

end ObjectConstraint
