import ObjectConstraint.Proofs.ConformanceOrder
import ObjectConstraint.Proofs.Distance

/-!
# Joins are common supertypes, and least ones under single inheritance

A join is taken place by place, down to the classes, and there goes to the nearest class above one
that is also above the other. Where a class has one superclass at most, all classes above it stand
on one way up, and the nearest common one is below all others.

* `JoinCase`, `joinCase` — the ways in which a join comes about.
* `conforms_join` — a join is a common supertype.
* `join_conforms` — under single inheritance it is below every other.
* `IsJoin` — the least type above a list of types; `Grouping` — a list joined two at a time.
* `join_isLeast` — the laws together.
-/

namespace ObjectConstraint

namespace Hierarchy

variable {H : Hierarchy}

/-! ### Common superclasses -/

theorem conformsTo_of_commonSuperclass {c d sup : String}
    (h : H.commonSuperclass c d = some sup) : H.conformsTo c sup ∧ H.conformsTo d sup := by
  refine ⟨?_, List.find?_some h⟩
  rw [conformsTo, List.contains_iff_mem]
  exact List.mem_of_find?_eq_some h

theorem reaches_of_commonSuperclass {c d sup : String} (h : H.commonSuperclass c d = some sup) :
    H.Reaches c sup ∧ H.Reaches d sup :=
  (conformsTo_of_commonSuperclass h).imp H.conformsTo_iff.mp H.conformsTo_iff.mp

/-- Classes with a class above both have a common superclass, and it is no further from the first
of them. -/
theorem exists_commonSuperclass {c d cls : String} (hc : H.Reaches c cls) (hd : H.Reaches d cls) :
    ∃ sup, H.commonSuperclass c d = some sup ∧ H.NoFurther c sup cls := by
  have hpass : H.conformsTo d cls := H.conformsTo_iff.mpr hd
  have hfound : (H.commonSuperclass c d).isSome :=
    List.find?_isSome.mpr ⟨cls, H.mem_ancestors_iff.mpr hc, hpass⟩
  obtain ⟨sup, hsup⟩ := Option.isSome_iff_exists.mp hfound
  exact ⟨sup, hsup, noFurther_of_find? hsup hc hpass⟩

/-! ### Joins of kinds -/

theorem kind_joinKind {k l m : Kind} (h : (m = k ∨ k = .collection) ∨ (m = l ∨ l = .collection)) :
    m = joinKind k l ∨ joinKind k l = .collection := by
  unfold joinKind
  split
  · next heq => simpa [heq] using h
  · exact .inr rfl

theorem joinKind_least {k l m : Kind} (hk : k = m ∨ m = .collection)
    (hl : l = m ∨ m = .collection) : joinKind k l = m ∨ m = .collection := by
  unfold joinKind
  split
  · exact hk
  · next hne =>
    rcases hk with rfl | hk
    · exact .inr (hl.resolve_left fun heq => hne heq.symm)
    · exact .inr hk

/-! ### Joins of parts -/

theorem length_joinParts {ps qs : List (String × Ty)}
    (h : ps.map Prod.fst = qs.map Prod.fst) : (H.joinParts ps qs).length = ps.length := by
  induction ps generalizing qs with
  | nil => rfl
  | cons p ps ih =>
    cases qs with
    | nil => cases h
    | cons q qs => simp [joinParts, ih (List.cons.inj h).2]

/-- Under each name, tuples with the same names have no part, or two types and their join. -/
theorem lookup_joinParts {ps qs : List (String × Ty)} (h : ps.map Prod.fst = qs.map Prod.fst)
    (name : String) :
    (ps.lookup name = none ∧ qs.lookup name = none) ∨
      ∃ t u, ps.lookup name = some t ∧ qs.lookup name = some u ∧
        (H.joinParts ps qs).lookup name = some (H.join t u) := by
  induction ps generalizing qs with
  | nil =>
    cases qs with
    | nil => exact .inl ⟨rfl, rfl⟩
    | cons q qs => cases h
  | cons p ps ih =>
    cases qs with
    | nil => cases h
    | cons q qs =>
      obtain ⟨m, t⟩ := p
      obtain ⟨n, u⟩ := q
      obtain ⟨hname, hnames⟩ := List.cons.inj h
      obtain rfl : m = n := hname
      by_cases hm : name = m
      · subst hm
        exact .inr ⟨t, u, by simp [joinParts]⟩
      · simpa only [joinParts, Parts.lookup_cons_ne hm] using ih hnames

section Places

variable {ps qs rs : List (String × Ty)} {R S : Ty → Ty → Prop}

/-- Parts with the same names, place by place. -/
theorem paired_of_names (h : ps.map Prod.fst = qs.map Prod.fst) :
    Parts.Paired (fun _ _ => True) ps qs :=
  Parts.paired_of_names_eq h fun _ _ _ _ => trivial

theorem paired_joinParts_left (h : Parts.Paired (fun _ _ => True) ps qs)
    (hparts : ∀ p ∈ ps, ∀ q ∈ qs, R p.2 (H.join p.2 q.2)) :
    Parts.Paired R ps (H.joinParts ps qs) := by
  induction h with
  | nil => exact .nil
  | @cons p q ps qs hpq _ ih =>
    refine .cons ⟨rfl, hparts p List.mem_cons_self q List.mem_cons_self⟩ (ih ?_)
    intro p' hp' q' hq'
    exact hparts p' (List.mem_cons_of_mem _ hp') q' (List.mem_cons_of_mem _ hq')

theorem paired_joinParts_right (h : Parts.Paired (fun _ _ => True) ps qs)
    (hparts : ∀ p ∈ ps, ∀ q ∈ qs, R q.2 (H.join p.2 q.2)) :
    Parts.Paired R qs (H.joinParts ps qs) := by
  induction h with
  | nil => exact .nil
  | @cons p q ps qs hpq _ ih =>
    refine .cons ⟨hpq.1.symm, hparts p List.mem_cons_self q List.mem_cons_self⟩ (ih ?_)
    intro p' hp' q' hq'
    exact hparts p' (List.mem_cons_of_mem _ hp') q' (List.mem_cons_of_mem _ hq')

/-- What follows for the join of two types from how they are related to a third follows for the
joins of parts. -/
theorem paired_joinParts (hp : Parts.Paired R ps rs) (hq : Parts.Paired R qs rs)
    (hparts : ∀ p ∈ ps, ∀ q ∈ qs, ∀ r ∈ rs, p.1 = q.1 → R p.2 r.2 → R q.2 r.2 →
      S (H.join p.2 q.2) r.2) :
    Parts.Paired S (H.joinParts ps qs) rs := by
  induction hp generalizing qs with
  | nil =>
    cases hq
    exact .nil
  | @cons p r ps rs hpr _ ih =>
    cases hq with
    | @cons q _ qs _ hqr hrest =>
      refine .cons ⟨hpr.1, ?_⟩ (ih hrest ?_)
      · exact hparts p List.mem_cons_self q List.mem_cons_self r List.mem_cons_self
          (hpr.1.trans hqr.1.symm) hpr.2 hqr.2
      · intro p' hp' q' hq' r' hr'
        exact hparts p' (List.mem_cons_of_mem _ hp') q' (List.mem_cons_of_mem _ hq') r'
          (List.mem_cons_of_mem _ hr')

end Places

end Hierarchy

/-! ### How a join comes about -/

namespace Conforms

variable {H : Hierarchy} {a b t : Ty}

theorem of_object {c : String} (h : Conforms H (.object c) t) :
    t = .any ∨ ∃ d, t = .object d ∧ H.Reaches c d := by
  cases h with
  | refl => exact .inr ⟨c, rfl, .refl⟩
  | any => exact .inl rfl
  | object hcd => exact .inr ⟨_, rfl, hcd⟩

theorem of_collection {k : Kind} {e : Ty} (h : Conforms H (.collection k e) t) :
    t = .any ∨ ∃ l f, t = .collection l f ∧ (k = l ∨ l = .collection) ∧ Conforms H e f := by
  cases h with
  | refl => exact .inr ⟨k, e, rfl, .inl rfl, .refl e⟩
  | any => exact .inl rfl
  | collection hkind helem => exact .inr ⟨_, _, rfl, hkind, helem⟩

theorem of_tuple {ps : List (String × Ty)} (hps : Parts.Ascending ps) (ht : t.Canonical)
    (h : Conforms H (.tuple ps) t) :
    t = .any ∨ ∃ qs, t = .tuple qs ∧ Parts.Paired (Conforms H) ps qs := by
  have hpaired : ∀ qs, t = .tuple qs → Parts.Paired (Conforms H) ps qs := by
    rintro qs rfl
    exact h.paired hps (Ty.canonical_tuple.mp ht).1
  cases h with
  | refl => exact .inr ⟨ps, rfl, hpaired ps rfl⟩
  | any => exact .inl rfl
  | tuple => exact .inr ⟨_, rfl, hpaired _ rfl⟩

/-- Types with a common supertype other than the top are related, or of one compound form. -/
theorem related_or_alike (ha : Conforms H a t) (hb : Conforms H b t) :
    t = .any ∨ Conforms H a b ∨ Conforms H b a ∨
      (∃ c d, a = .object c ∧ b = .object d) ∨
      (∃ k l e f, a = .collection k e ∧ b = .collection l f) ∨
      ∃ ps qs, a = .tuple ps ∧ b = .tuple qs := by
  cases ha with
  | refl => exact .inr (.inr (.inl hb))
  | void => exact .inr (.inl (.void b))
  | any => exact .inl rfl
  | naturalInteger =>
    cases hb with
    | refl => exact .inr (.inl .naturalInteger)
    | void => exact .inr (.inr (.inl (.void _)))
    | naturalInteger => exact .inr (.inl (.refl _))
  | naturalReal =>
    cases hb with
    | refl => exact .inr (.inl .naturalReal)
    | void => exact .inr (.inr (.inl (.void _)))
    | naturalReal => exact .inr (.inl (.refl _))
    | integerReal => exact .inr (.inl .naturalInteger)
  | integerReal =>
    cases hb with
    | refl => exact .inr (.inl .integerReal)
    | void => exact .inr (.inr (.inl (.void _)))
    | naturalReal => exact .inr (.inr (.inl .naturalInteger))
    | integerReal => exact .inr (.inl (.refl _))
  | object =>
    cases hb with
    | void => exact .inr (.inr (.inl (.void _)))
    | refl | object => exact .inr (.inr (.inr (.inl ⟨_, _, rfl, rfl⟩)))
  | collection =>
    cases hb with
    | void => exact .inr (.inr (.inl (.void _)))
    | refl | collection => exact .inr (.inr (.inr (.inr (.inl ⟨_, _, _, _, rfl, rfl⟩))))
  | tuple =>
    cases hb with
    | void => exact .inr (.inr (.inl (.void _)))
    | refl | tuple => exact .inr (.inr (.inr (.inr (.inr ⟨_, _, rfl, rfl⟩))))

end Conforms

namespace Hierarchy

/-- The ways in which the join of two types comes about: one is above the other, it is made from
their classes or their components, or they have no common supertype but the top. -/
inductive JoinCase (H : Hierarchy) : Ty → Ty → Ty → Prop
  | upper {a b : Ty} (h : Conforms H a b) : JoinCase H a b b
  | lower {a b : Ty} (h : Conforms H b a) : JoinCase H a b a
  | classes {c d sup : String} (hcd : ¬ H.Reaches c d) (hdc : ¬ H.Reaches d c)
    (hsup : H.commonSuperclass c d = some sup) : JoinCase H (.object c) (.object d) (.object sup)
  | elements (k l : Kind) (e f : Ty) :
    JoinCase H (.collection k e) (.collection l f) (.collection (joinKind k l) (H.join e f))
  | parts {ps qs : List (String × Ty)} (hnames : ps.map Prod.fst = qs.map Prod.fst) :
    JoinCase H (.tuple ps) (.tuple qs) (.tuple (H.joinParts ps qs))
  | apart {a b : Ty}
    (h : ∀ t : Ty, t.Canonical → Conforms H a t → Conforms H b t → t = .any) : JoinCase H a b .any

variable {H : Hierarchy} {a b c : Ty}

theorem joinCase (ha : a.Canonical) (hb : b.Canonical) : JoinCase H a b (H.join a b) := by
  by_cases hab : H.conforms a b
  · rw [join.eq_def, if_pos hab]
    exact .upper (.of_conforms hab)
  · by_cases hba : H.conforms b a
    · rw [join.eq_def, if_neg hab, if_pos hba]
      exact .lower (.of_conforms hba)
    · rw [join.eq_def, if_neg hab, if_neg hba]
      rw [conforms_iff] at hab hba
      split
      · next c d =>
        cases hsup : H.commonSuperclass c d with
        | some sup => exact .classes (fun h => hab (.object h)) (fun h => hba (.object h)) hsup
        | none =>
          refine .apart fun t _ hc hd => ?_
          rcases hc.of_object with rfl | ⟨cls, rfl, hcls⟩
          · rfl
          · obtain ⟨sup, hsup', -⟩ := exists_commonSuperclass hcls hd.reaches
            cases hsup.symm.trans hsup'
      · exact .elements _ _ _ _
      · next ps qs =>
        split
        · next hnames => exact .parts hnames
        · next hnames =>
          rw [Ty.canonical_tuple] at ha hb
          refine .apart fun t ht hp hq => ?_
          rcases hp.of_tuple ha.1 ht with rfl | ⟨rs, rfl, hpaired⟩
          · rfl
          · have hpaired' := hq.paired hb.1 (Ty.canonical_tuple.mp ht).1
            exact absurd (hpaired.names_eq.trans hpaired'.names_eq.symm) hnames
      · next hobjects hcollections htuples =>
        refine .apart fun t _ hat hbt => ?_
        rcases hat.related_or_alike hbt with
          h | h | h | ⟨c, d, rfl, rfl⟩ | ⟨k, l, e, f, rfl, rfl⟩ | ⟨ps, qs, rfl, rfl⟩
        · exact h
        · exact absurd h hab
        · exact absurd h hba
        · exact (hobjects c d rfl rfl).elim
        · exact (hcollections k e l f rfl rfl).elim
        · exact (htuples ps qs rfl rfl).elim

/-! ### Joins are common supertypes -/

theorem canonical_joinParts {ps qs : List (String × Ty)} (hps : Parts.Ascending ps)
    (hnames : ps.map Prod.fst = qs.map Prod.fst)
    (h : ∀ p ∈ ps, ∀ q ∈ qs, (H.join p.2 q.2).Canonical) :
    (Ty.tuple (H.joinParts ps qs)).Canonical := by
  have hjoined : Parts.Paired (fun _ t => t.Canonical) ps (H.joinParts ps qs) :=
    paired_joinParts_left (paired_of_names hnames) h
  refine Ty.canonical_tuple.mpr ⟨hjoined.ascending hps, ?_⟩
  intro r hr
  obtain ⟨p, -, -, hcanonical⟩ := (Parts.Paired.flip hjoined).exists_right hr
  exact hcanonical

theorem canonical_join (ha : a.Canonical) (hb : b.Canonical) : (H.join a b).Canonical := by
  induction a using Ty.componentInduction generalizing b with
  | step a ih =>
    have hcase := H.joinCase ha hb
    generalize H.join a b = t at hcase
    cases hcase with
    | upper => exact hb
    | lower => exact ha
    | classes => trivial
    | elements k l e f => exact ih e List.mem_cons_self ha hb
    | @parts ps qs hnames =>
      rw [Ty.canonical_tuple] at ha hb
      refine canonical_joinParts ha.1 hnames ?_
      intro p hp q hq
      exact ih p.2 (List.mem_map_of_mem hp) (ha.2 p hp) (hb.2 q hq)
    | apart => trivial

theorem conforms_join (ha : a.Canonical) (hb : b.Canonical) :
    Conforms H a (H.join a b) ∧ Conforms H b (H.join a b) := by
  induction a using Ty.componentInduction generalizing b with
  | step a ih =>
    have hcase := H.joinCase ha hb
    have hcanonical := H.canonical_join ha hb
    generalize H.join a b = t at hcase hcanonical
    cases hcase with
    | upper h => exact ⟨h, .refl b⟩
    | lower h => exact ⟨.refl a, h⟩
    | classes _ _ hsup => exact (reaches_of_commonSuperclass hsup).imp .object .object
    | elements k l e f =>
      rw [Ty.canonical_collection] at ha hb
      have helem := ih e List.mem_cons_self ha hb
      exact ⟨.collection (kind_joinKind (.inl (.inl rfl))) helem.1,
        .collection (kind_joinKind (.inr (.inl rfl))) helem.2⟩
    | @parts ps qs hnames =>
      have hascending := (Ty.canonical_tuple.mp hcanonical).1
      rw [Ty.canonical_tuple] at ha hb
      have hparts : ∀ p ∈ ps, ∀ q ∈ qs,
          Conforms H p.2 (H.join p.2 q.2) ∧ Conforms H q.2 (H.join p.2 q.2) :=
        fun p hp q hq => ih p.2 (List.mem_map_of_mem hp) (ha.2 p hp) (hb.2 q hq)
      exact ⟨.tuple_of_paired hascending (paired_joinParts_left (paired_of_names hnames)
          fun p hp q hq => (hparts p hp q hq).1),
        .tuple_of_paired hascending (paired_joinParts_right (paired_of_names hnames)
          fun p hp q hq => (hparts p hp q hq).2)⟩
    | apart => exact ⟨.any a, .any b⟩

/-! ### Joins are least under single inheritance -/

theorem SingleInheritance.reaches_of_common (h : H.SingleInheritance) {c d sup cls : String}
    (hsup : H.commonSuperclass c d = some sup) (hc : H.Reaches c cls) (hd : H.Reaches d cls) :
    H.Reaches sup cls :=
  (noFurther_of_find? hsup hc (H.conformsTo_iff.mpr hd)).reaches h hc

theorem join_conforms (h : H.SingleInheritance) (ha : a.Canonical) (hb : b.Canonical)
    (hc : c.Canonical) (hac : Conforms H a c) (hbc : Conforms H b c) :
    Conforms H (H.join a b) c := by
  induction a using Ty.componentInduction generalizing b c with
  | step a ih =>
    have hcase := H.joinCase ha hb
    generalize H.join a b = t at hcase
    cases hcase with
    | upper => exact hbc
    | lower => exact hac
    | classes _ _ hsup =>
      rcases hac.of_object with rfl | ⟨cls, rfl, hcls⟩
      · exact .any _
      · exact .object (h.reaches_of_common hsup hcls hbc.reaches)
    | elements k l e f =>
      rcases hac.of_collection with rfl | ⟨m, g, rfl, hkind, helem⟩
      · exact .any _
      · obtain ⟨hkind', helem'⟩ := hbc.kinds_and_elements
        exact .collection (joinKind_least hkind hkind')
          (ih e List.mem_cons_self ha hb hc helem helem')
    | @parts ps qs hnames =>
      rw [Ty.canonical_tuple] at ha hb
      rcases hac.of_tuple ha.1 hc with rfl | ⟨rs, rfl, hpaired⟩
      · exact .any _
      · rw [Ty.canonical_tuple] at hc
        refine .tuple_of_paired hc.1 (paired_joinParts hpaired (hbc.paired hb.1 hc.1) ?_)
        intro p hp q hq r hr _ hpr hqr
        exact ih p.2 (List.mem_map_of_mem hp) (ha.2 p hp) (hb.2 q hq) (hc.2 r hr) hpr hqr
    | apart h =>
      obtain rfl := h c hc hac hbc
      exact .any _

/-! ### Joins of lists -/

variable (H) in
/-- The least type above all types of a list. -/
structure IsJoin (types : List Ty) (t : Ty) : Prop where
  canonical : t.Canonical
  above : ∀ u ∈ types, Conforms H u t
  least : ∀ c : Ty, c.Canonical → (∀ u ∈ types, Conforms H u c) → Conforms H t c

theorem isJoin_nil : H.IsJoin [] .void :=
  ⟨trivial, (fun _ h => absurd h List.not_mem_nil), fun c _ _ => .void c⟩

theorem isJoin_singleton {t : Ty} (ht : t.Canonical) : H.IsJoin [t] t :=
  ⟨ht, fun u hu => List.mem_singleton.mp hu ▸ Conforms.refl u,
    fun _ _ h => h t List.mem_cons_self⟩

/-- The least types above two lists have the least one above both as their join. -/
theorem IsJoin.append (h : H.SingleInheritance) {ts us : List Ty} {t u : Ty}
    (ht : H.IsJoin ts t) (hu : H.IsJoin us u) : H.IsJoin (ts ++ us) (H.join t u) := by
  have hupper := H.conforms_join ht.canonical hu.canonical
  refine ⟨H.canonical_join ht.canonical hu.canonical, ?_, ?_⟩
  · intro v hv
    rcases List.mem_append.mp hv with hv | hv
    · exact (ht.above v hv).trans hupper.1
    · exact (hu.above v hv).trans hupper.2
  · intro c hc hall
    refine join_conforms h ht.canonical hu.canonical hc (ht.least c hc ?_) (hu.least c hc ?_)
    · exact fun v hv => hall v (List.mem_append_left _ hv)
    · exact fun v hv => hall v (List.mem_append_right _ hv)

theorem isJoin_joinAll (h : H.SingleInheritance) {types : List Ty}
    (htypes : ∀ t ∈ types, t.Canonical) : H.IsJoin types (H.joinAll types) := by
  suffices hfold : ∀ before acc, H.IsJoin before acc →
      H.IsJoin (before ++ types) (types.foldl H.join acc) from hfold [] .void isJoin_nil
  induction types with
  | nil =>
    intro before acc hacc
    simpa using hacc
  | cons t types ih =>
    intro before acc hacc
    obtain ⟨ht, hrest⟩ := List.forall_mem_cons.mp htypes
    simpa using ih hrest (before ++ [t]) (H.join acc t) (hacc.append h (isJoin_singleton ht))

/-- The order and the grouping of a list of types make no difference to the least type above it. -/
theorem IsJoin.conforms_of_perm {ts us : List Ty} {t u : Ty} (ht : H.IsJoin ts t)
    (hu : H.IsJoin us u) (hperm : ts.Perm us) : Conforms H t u :=
  ht.least u hu.canonical fun v hv => hu.above v (hperm.mem_iff.mp hv)

end Hierarchy

/-- A list of types grouped to be joined two at a time; nothing stands for `OclVoid`. -/
inductive Grouping where
  | nothing
  | one (t : Ty)
  | both (left right : Grouping)

namespace Grouping

/-- The types in a grouping, from left to right. -/
def types : Grouping → List Ty
  | nothing => []
  | one t => [t]
  | both left right => left.types ++ right.types

/-- The join taken as the grouping says. -/
def join (H : Hierarchy) : Grouping → Ty
  | nothing => .void
  | one t => t
  | both left right => H.join (left.join H) (right.join H)

theorem isJoin {H : Hierarchy} (h : H.SingleInheritance) (g : Grouping)
    (hg : ∀ t ∈ g.types, t.Canonical) : H.IsJoin g.types (g.join H) := by
  induction g with
  | nothing => exact Hierarchy.isJoin_nil
  | one t => exact Hierarchy.isJoin_singleton (hg t List.mem_cons_self)
  | both left right hleft hright =>
    refine (hleft ?_).append h (hright ?_)
    · exact fun t ht => hg t (List.mem_append_left _ ht)
    · exact fun t ht => hg t (List.mem_append_right _ ht)

end Grouping

namespace Hierarchy

/-- A join is a common supertype. Under single inheritance it is below all others, and the join of a
list of types is, up to conformance both ways, the same in every order and for every grouping of the
list. -/
theorem join_isLeast (H : Hierarchy) :
    (∀ a b : Ty, a.Canonical → b.Canonical →
      H.conforms a (H.join a b) ∧ H.conforms b (H.join a b)) ∧
    (H.SingleInheritance →
      (∀ a b c : Ty, a.Canonical → b.Canonical → c.Canonical → H.conforms a c → H.conforms b c →
        H.conforms (H.join a b) c) ∧
      ∀ (types : List Ty) (g : Grouping), (∀ t ∈ types, t.Canonical) → g.types.Perm types →
        H.conforms (g.join H) (H.joinAll types) ∧ H.conforms (H.joinAll types) (g.join H)) := by
  simp only [conforms_iff]
  refine ⟨fun a b => conforms_join, fun h => ⟨fun a b c => join_conforms h, ?_⟩⟩
  intro types g htypes hperm
  have hg := g.isJoin h fun t ht => htypes t (hperm.mem_iff.mp ht)
  have hall := isJoin_joinAll h htypes
  exact ⟨hg.conforms_of_perm hall hperm, hall.conforms_of_perm hg hperm.symm⟩

/-- Taxis in a set and bikes in a bag have collections of vehicles as their least common type, and
three types can be joined from the back in another order. -/
theorem join_isLeast_fleet :
    let H := Hierarchy.ofList
      [("Vehicle", []), ("Car", ["Vehicle"]), ("Taxi", ["Car"]), ("Bike", ["Vehicle"])]
    let fleet := fun kind cls => Ty.tupleOf [("at", .string), ("of", .collection kind (.object cls))]
    let grouping := Grouping.both (.one (.object "Car"))
      (.both (.one (.object "Bike")) (.one (.object "Taxi")))
    H.SingleInheritance ∧
      H.conforms (H.join (fleet .set "Taxi") (fleet .bag "Bike")) (fleet .collection "Vehicle") ∧
      H.conforms (grouping.join H)
        (H.joinAll [.object "Taxi", .object "Car", .object "Bike"]) := by
  intro H fleet grouping
  have hsingle : H.SingleInheritance := singleInheritance_ofList (by decide)
  have hcanonical : ∀ kind cls, (fleet kind cls).Canonical := fun kind cls =>
    Ty.canonical_tupleOf (by simp [Ty.Canonical])
  obtain ⟨hleast, hlists⟩ := (join_isLeast H).2 hsingle
  refine ⟨hsingle, hleast _ _ _ (hcanonical _ _) (hcanonical _ _) (hcanonical _ _) (by decide)
    (by decide), (hlists _ grouping ?_ ?_).1⟩
  · simp [Ty.Canonical]
  · decide

end Hierarchy

end ObjectConstraint
