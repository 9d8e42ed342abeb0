import ObjectConstraint.Proofs.Joins

/-!
# When joins are minimal

The nearest common superclass of two classes can have another common superclass below it, one that
more steps lead to. The join of the two then skips the lower class, and so does every join of types
that have the two classes at the same place. There is no other way for a join to be too high.

* `Facing` — classes at the same place in two types.
* `join_minimal_iff` — which joins have no common supertype strictly below them.
* `join_minimal_of_graded` — all of them, where the ways up from one class to another are of one
  length.
-/

namespace ObjectConstraint

/-- Two classes stand at the same place in two types: at the root, as element types of collections,
or under one name in tuples with the same names. -/
inductive Facing : Ty → Ty → String → String → Prop
  | here (c d : String) : Facing (.object c) (.object d) c d
  | elem (k l : Kind) {e f : Ty} {c d : String} (h : Facing e f c d) :
    Facing (.collection k e) (.collection l f) c d
  | part {ps qs : List (String × Ty)} {name : String} {t u : Ty} {c d : String}
    (hnames : ps.map Prod.fst = qs.map Prod.fst) (ht : (name, t) ∈ ps) (hu : (name, u) ∈ qs)
    (h : Facing t u c d) : Facing (.tuple ps) (.tuple qs) c d

namespace Facing

variable {H : Hierarchy} {a b : Ty} {c d : String}

theorem symm (h : Facing a b c d) : Facing b a d c := by
  induction h with
  | here c d => exact .here d c
  | elem k l _ ih => exact .elem l k ih
  | part hnames ht hu _ ih => exact .part hnames.symm hu ht ih

/-- Of types one of which conforms to the other, so do the classes at each place. -/
theorem reaches (h : Facing a b c d) (ha : a.Canonical) (hb : b.Canonical)
    (hab : Conforms H a b) : H.Reaches c d := by
  induction h with
  | here c d => exact hab.reaches
  | elem k l _ ih => exact ih ha hb hab.kinds_and_elements.2
  | @part ps qs name t u c d hnames ht hu _ ih =>
    rw [Ty.canonical_tuple] at ha hb
    obtain ⟨q, hq, hname, hconf⟩ := (hab.paired ha.1 hb.1).exists_right ht
    obtain ⟨other, v⟩ := q
    obtain rfl : name = other := hname
    have heq : some v = some u :=
      (Parts.lookup_of_mem hb.1.nodup hq).symm.trans (Parts.lookup_of_mem hb.1.nodup hu)
    exact ih (ha.2 _ ht) (hb.2 _ hu) (Option.some.inj heq ▸ hconf)

end Facing

namespace Hierarchy

variable {H : Hierarchy} {a b : Ty} {c d : String}

/-! ### Joins of unrelated types of one form -/

theorem join_object (hcd : ¬ H.Reaches c d) (hdc : ¬ H.Reaches d c) {sup : String}
    (hsup : H.commonSuperclass c d = some sup) : H.join (.object c) (.object d) = .object sup := by
  rw [← H.conformsTo_iff, ← conforms_object] at hcd hdc
  rw [join.eq_def, if_neg hcd, if_neg hdc]
  simp [hsup]

theorem join_collection {k l : Kind} {e f : Ty}
    (hab : ¬ Conforms H (.collection k e) (.collection l f))
    (hba : ¬ Conforms H (.collection l f) (.collection k e)) :
    H.join (.collection k e) (.collection l f) = .collection (joinKind k l) (H.join e f) := by
  rw [← conforms_iff] at hab hba
  rw [join.eq_def, if_neg hab, if_neg hba]

theorem join_tuple {ps qs : List (String × Ty)} (hnames : ps.map Prod.fst = qs.map Prod.fst)
    (hab : ¬ Conforms H (.tuple ps) (.tuple qs)) (hba : ¬ Conforms H (.tuple qs) (.tuple ps)) :
    H.join (.tuple ps) (.tuple qs) = .tuple (H.joinParts ps qs) := by
  rw [← conforms_iff] at hab hba
  rw [join.eq_def, if_neg hab, if_neg hba]
  exact if_pos hnames

/-! ### A part of a join replaced -/

section Narrowed

variable {ps qs : List (String × Ty)} {name : String} {t u g : Ty}

theorem lookup_joinParts_of_mem (hps : Parts.Ascending ps) (hqs : Parts.Ascending qs)
    (hnames : ps.map Prod.fst = qs.map Prod.fst) (ht : (name, t) ∈ ps) (hu : (name, u) ∈ qs) :
    (H.joinParts ps qs).lookup name = some (H.join t u) := by
  have htfound := Parts.lookup_of_mem hps.nodup ht
  have hufound := Parts.lookup_of_mem hqs.nodup hu
  rcases lookup_joinParts (H := H) hnames name with ⟨hnone, -⟩ | ⟨t', u', ht', hu', hjoined⟩
  · cases htfound.symm.trans hnone
  · obtain rfl := Option.some.inj (htfound.symm.trans ht')
    obtain rfl := Option.some.inj (hufound.symm.trans hu')
    exact hjoined

/-- A type between two parts and their join gives a tuple between the tuples and their join. -/
theorem conforms_insert_joinParts (hps : (Ty.tuple ps).Canonical) (hqs : (Ty.tuple qs).Canonical)
    (hnames : ps.map Prod.fst = qs.map Prod.fst) (ht : (name, t) ∈ ps) (hu : (name, u) ∈ qs)
    (hg : g.Canonical) (htg : Conforms H t g) (hug : Conforms H u g)
    (hbelow : Conforms H g (H.join t u)) :
    (Ty.tuple (Parts.insert name g (H.joinParts ps qs))).Canonical ∧
      Conforms H (.tuple ps) (.tuple (Parts.insert name g (H.joinParts ps qs))) ∧
      Conforms H (.tuple qs) (.tuple (Parts.insert name g (H.joinParts ps qs))) ∧
      Conforms H (.tuple (Parts.insert name g (H.joinParts ps qs)))
        (.tuple (H.joinParts ps qs)) := by
  rw [Ty.canonical_tuple] at hps hqs
  have hjoined : (Ty.tuple (H.joinParts ps qs)).Canonical :=
    canonical_joinParts hps.1 hnames fun p hp q hq => canonical_join (hps.2 p hp) (hqs.2 q hq)
  rw [Ty.canonical_tuple] at hjoined
  have hascending := Parts.ascending_insert name g hjoined.1
  have hupper : ∀ p ∈ ps, ∀ q ∈ qs,
      Conforms H p.2 (H.join p.2 q.2) ∧ Conforms H q.2 (H.join p.2 q.2) :=
    fun p hp q hq => conforms_join (hps.2 p hp) (hqs.2 q hq)
  have hleft := Parts.Paired.insert (paired_joinParts_left (paired_of_names hnames)
    fun p hp q hq => (hupper p hp q hq).1) name htg
  have hright := Parts.Paired.insert (paired_joinParts_right (paired_of_names hnames)
    fun p hp q hq => (hupper p hp q hq).2) name hug
  have hself : Parts.Paired (Conforms H) (H.joinParts ps qs) (H.joinParts ps qs) :=
    List.forall₂_same.mpr fun p _ => ⟨rfl, .refl p.2⟩
  have htop := hself.insert name hbelow
  rw [Parts.insert_eq_self hps.1 ht] at hleft
  rw [Parts.insert_eq_self hqs.1 hu] at hright
  rw [Parts.insert_eq_self hjoined.1
    (Parts.mem_of_lookup (lookup_joinParts_of_mem hps.1 hqs.1 hnames ht hu))] at htop
  refine ⟨Ty.canonical_tuple.mpr ⟨hascending, ?_⟩, .tuple_of_paired hascending hleft,
    .tuple_of_paired hascending hright, .tuple_of_paired hjoined.1 htop⟩
  intro p hp
  rcases Parts.fst_mem_of_mem_insert hp with rfl | hp
  · exact hg
  · exact hjoined.2 p hp

end Narrowed

/-! ### Minimality, place by place -/

/-- No kind above two is properly below their join. -/
theorem eq_joinKind {k l m : Kind} (hk : k = m ∨ m = .collection) (hl : l = m ∨ m = .collection)
    (hm : m = joinKind k l ∨ joinKind k l = .collection) : m = joinKind k l := by
  rcases hm with hm | hm
  · exact hm
  · rcases joinKind_least hk hl with hleast | hleast
    · exact hleast.symm
    · exact hleast.trans hm.symm

variable (H) in
/-- No common supertype of two types is strictly below their join. -/
def JoinMinimal (a b : Ty) : Prop :=
  ∀ t : Ty, t.Canonical → Conforms H a t → Conforms H b t → Conforms H t (H.join a b) →
    t = H.join a b

variable (H) in
/-- No class above two unrelated classes is properly below their nearest common superclass. -/
def LowestCommon (c d : String) : Prop :=
  ¬ H.Reaches c d → ¬ H.Reaches d c → ∀ sup, H.commonSuperclass c d = some sup →
    ∀ cls, H.Reaches c cls → H.Reaches d cls → H.Reaches cls sup → cls = sup

theorem joinMinimal_of_lowestCommon (hH : H.Acyclic) (ha : a.Canonical) (hb : b.Canonical)
    (h : ∀ c d, Facing a b c d → H.LowestCommon c d) : H.JoinMinimal a b := by
  induction a using Ty.componentInduction generalizing b with
  | step a ih =>
    intro t ht hat hbt htop
    have hcase := H.joinCase ha hb
    generalize H.join a b = j at hcase htop
    cases hcase with
    | upper => exact Conforms.antisymm hH ht hb htop hbt
    | lower => exact Conforms.antisymm hH ht ha htop hat
    | @classes c d sup hcd hdc hsup =>
      rcases hat.of_object with rfl | ⟨cls, rfl, hc⟩
      · exact htop.eq_any.symm
      · exact congrArg Ty.object
          (h c d (.here c d) hcd hdc sup hsup cls hc hbt.reaches htop.reaches)
    | elements k l e f =>
      rcases hat.of_collection with rfl | ⟨m, g, rfl, hk, he⟩
      · exact htop.eq_any.symm
      · obtain ⟨hl, hf⟩ := hbt.kinds_and_elements
        obtain ⟨hm, helem⟩ := htop.kinds_and_elements
        rw [Ty.canonical_collection] at ha hb
        have hg := ih e List.mem_cons_self ha hb (fun c d hcd => h c d (.elem k l hcd)) g ht he hf
          helem
        rw [eq_joinKind hk hl hm, hg]
    | @parts ps qs hnames =>
      rw [Ty.canonical_tuple] at ha hb
      rcases hat.of_tuple ha.1 ht with rfl | ⟨rs, rfl, hps⟩
      · exact htop.eq_any.symm
      · have hsame : Parts.Paired (fun _ _ => True) ps (H.joinParts ps qs) :=
          paired_joinParts_left (paired_of_names hnames) fun _ _ _ _ => trivial
        have hjoined := hsame.ascending ha.1
        rw [Ty.canonical_tuple] at ht
        have hrs := htop.paired ht.1 hjoined
        refine congrArg Ty.tuple (Parts.Paired.eq (paired_joinParts hps (hbt.paired hb.1 ht.1)
          (S := fun j r => Conforms H r j → r = j) ?_) hrs ?_).symm
        · intro p hp q hq r hr hname hpr hqr hrj
          refine ih p.2 (List.mem_map_of_mem hp) (ha.2 p hp) (hb.2 q hq) ?_ r.2 (ht.2 r hr) hpr
            hqr hrj
          intro c d hcd
          exact h c d (.part hnames hp (hname ▸ hq) hcd)
        · intro j _ r _ heq hrj
          exact (heq hrj).symm
    | apart hall => exact hall t ht hat hbt

theorem lowestCommon_of_joinMinimal (ha : a.Canonical) (hb : b.Canonical)
    (h : H.JoinMinimal a b) (hfacing : Facing a b c d) : H.LowestCommon c d := by
  intro hcd hdc sup hsup cls hc hd hcls
  induction hfacing with
  | here c d =>
    have hjoin := join_object hcd hdc hsup
    refine Ty.object.inj ((h (.object cls) trivial (.object hc) (.object hd) ?_).trans hjoin)
    exact hjoin ▸ .object hcls
  | @elem k l e f c d hfacing ih =>
    have hjoin := join_collection (fun hab => hcd ((Facing.elem k l hfacing).reaches ha hb hab))
      fun hba => hdc ((Facing.elem k l hfacing).symm.reaches hb ha hba)
    rw [Ty.canonical_collection] at ha hb
    refine ih ha hb ?_ hcd hdc hsup hc hd
    intro g hg he hf htop
    have heq := h (.collection (joinKind k l) g) hg
      (.collection (kind_joinKind (.inl (.inl rfl))) he)
      (.collection (kind_joinKind (.inr (.inl rfl))) hf) (hjoin ▸ .collection (.inl rfl) htop)
    exact (Ty.collection.inj (heq.trans hjoin)).2
  | @part ps qs name t u c d hnames ht hu hfacing ih =>
    have hpart := Facing.part hnames ht hu hfacing
    have hjoin := join_tuple hnames (fun hab => hcd (hpart.reaches ha hb hab))
      fun hba => hdc (hpart.symm.reaches hb ha hba)
    have hparts := Ty.canonical_tuple.mp ha
    have hparts' := Ty.canonical_tuple.mp hb
    refine ih (hparts.2 _ ht) (hparts'.2 _ hu) ?_ hcd hdc hsup hc hd
    -- A type between the two parts and their join takes the place of the join in the tuple.
    intro g hg htg hug htop
    obtain ⟨hcanonical, hleft, hright, hbelow⟩ :=
      conforms_insert_joinParts ha hb hnames ht hu hg htg hug htop
    have heq := Ty.tuple.inj ((h _ hcanonical hleft hright (hjoin ▸ hbelow)).trans hjoin)
    have hfound := lookup_joinParts_of_mem (H := H) hparts.1 hparts'.1 hnames ht hu
    rw [← heq, Parts.lookup_insert, if_pos rfl] at hfound
    exact Option.some.inj hfound

/-- No common supertype of two types is strictly below their join exactly if, wherever the types have
two unrelated classes at the same place, no class above both is properly below the nearest one. -/
theorem join_minimal_iff (hH : H.Acyclic) (ha : a.Canonical) (hb : b.Canonical) :
    (∀ t : Ty, t.Canonical → H.conforms a t → H.conforms b t → H.conforms t (H.join a b) →
      t = H.join a b) ↔
    ∀ c d, Facing a b c d → ¬ H.conformsTo c d → ¬ H.conformsTo d c →
      ∀ sup, H.commonSuperclass c d = some sup →
        ∀ cls, H.conformsTo c cls → H.conformsTo d cls → H.conformsTo cls sup → cls = sup := by
  simp only [conforms_iff, conformsTo_iff]
  exact ⟨fun h c d hcd => lowestCommon_of_joinMinimal ha hb h hcd,
    joinMinimal_of_lowestCommon hH ha hb⟩

/-- Cars are vehicles, and assets in their own right as well. The join of bikes with cars takes the
bikes' way up and is minimal. -/
theorem join_minimal_iff_assets :
    let H := Hierarchy.ofList
      [("Asset", []), ("Vehicle", ["Asset"]), ("Car", ["Asset", "Vehicle"]), ("Bike", ["Vehicle"])]
    let bikes := Ty.collection .set (.object "Bike")
    let cars := Ty.collection .bag (.object "Car")
    H.Acyclic ∧ H.join bikes cars = .collection .collection (.object "Vehicle") ∧
      ∀ t : Ty, t.Canonical → H.conforms bikes t → H.conforms cars t →
        H.conforms t (H.join bikes cars) → t = H.join bikes cars := by
  intro H bikes cars
  have hacyclic : H.Acyclic :=
    acyclic_ofList (fun cls => if cls = "Asset" then 0 else if cls = "Vehicle" then 1 else 2)
      (by decide)
  refine ⟨hacyclic, by decide, (join_minimal_iff hacyclic (a := bikes) (b := cars) trivial
    trivial).mpr ?_⟩
  rintro c d hfacing - - sup hsup cls hbike hcar habove
  obtain ⟨rfl, rfl⟩ : c = "Bike" ∧ d = "Car" := by
    change Facing (.collection .set (.object "Bike")) (.collection .bag (.object "Car")) c d
      at hfacing
    cases hfacing with
    | elem _ _ h => cases h; exact ⟨rfl, rfl⟩
  obtain rfl : "Vehicle" = sup := Option.some.inj hsup
  have hlisted : cls ∈ ["Bike", "Vehicle", "Asset"] := List.contains_iff_mem.mp hbike
  simp only [List.mem_cons, List.not_mem_nil, or_false] at hlisted
  rcases hlisted with rfl | rfl | rfl
  · exact absurd hcar (by decide)
  · rfl
  · exact absurd habove (by decide)

/-- The join of cars with bikes is of assets. The vehicles, which both are, are strictly below it. -/
theorem join_not_minimal :
    let H := Hierarchy.ofList
      [("Asset", []), ("Vehicle", ["Asset"]), ("Car", ["Asset", "Vehicle"]), ("Bike", ["Vehicle"])]
    H.Acyclic ∧ H.join (.object "Car") (.object "Bike") = .object "Asset" ∧
      H.conforms (.object "Car") (.object "Vehicle") ∧
      H.conforms (.object "Bike") (.object "Vehicle") ∧
      H.conforms (.object "Vehicle") (.object "Asset") ∧
      ¬ H.conforms (.object "Asset") (.object "Vehicle") := by
  intro H
  refine ⟨acyclic_ofList
    (fun cls => if cls = "Asset" then 0 else if cls = "Vehicle" then 1 else 2) (by decide), ?_⟩
  decide

/-- Where all ways up from one class to another are of one length, joins are minimal. -/
theorem join_minimal_of_graded (hH : H.Graded) (ha : a.Canonical) (hb : b.Canonical) {t : Ty}
    (ht : t.Canonical) (hat : H.conforms a t) (hbt : H.conforms b t)
    (htop : H.conforms t (H.join a b)) : t = H.join a b := by
  rw [conforms_iff] at hat hbt htop
  refine joinMinimal_of_lowestCommon hH.acyclic ha hb ?_ t ht hat hbt htop
  intro c d _ _ _ sup hsup cls hc hd hbelow
  have hnear := noFurther_of_find? hsup hc (H.conformsTo_iff.mpr hd)
  exact hnear.eq_of_graded hH hc hbelow

end Hierarchy

end ObjectConstraint
