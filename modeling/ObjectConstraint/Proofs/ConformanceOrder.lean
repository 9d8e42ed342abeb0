import ObjectConstraint.Conformance
import ObjectConstraint.Proofs.Ancestry
import ObjectConstraint.Proofs.NamedParts

/-!
# Conformance is an order

Conformance is computed by a match whose cases overlap. `Conforms` states it by rules instead, one
for each way in which a type can conform to another, and the laws are shown of the rules.

* `conforms_iff` — the computation follows the rules.
* `Conforms.trans`, `Conforms.antisymm` — the rules compose, and without cycles among the classes
  they lead back to where they started only from a type to itself.
* `Conforms.paired`, `Conforms.tuple_of_paired` — tuple types conform place by place.
* `Hierarchy.conforms_isOrder` — the laws together.
-/

namespace ObjectConstraint

/-- A type conforms to another: to itself, from the bottom, to the top, along the numbers, along
the classes, and from collections and tuples to those with more general components. -/
inductive Conforms (H : Hierarchy) : Ty → Ty → Prop
  | refl (t : Ty) : Conforms H t t
  | void (t : Ty) : Conforms H .void t
  | any (t : Ty) : Conforms H t .any
  | naturalInteger : Conforms H .unlimitedNatural .integer
  | naturalReal : Conforms H .unlimitedNatural .real
  | integerReal : Conforms H .integer .real
  | object {c d : String} (h : H.Reaches c d) : Conforms H (.object c) (.object d)
  | collection {k l : Kind} {e f : Ty} (hkind : k = l ∨ l = .collection) (helem : Conforms H e f) :
    Conforms H (.collection k e) (.collection l f)
  | tuple {ps qs : List (String × Ty)} (hlength : ps.length = qs.length)
    (hnames : ∀ p ∈ ps, (qs.lookup p.1).isSome)
    (hparts : ∀ p ∈ ps, ∀ u, qs.lookup p.1 = some u → Conforms H p.2 u) :
    Conforms H (.tuple ps) (.tuple qs)

namespace Hierarchy

variable {H : Hierarchy}

/-! ### The computation, form by form -/

theorem conforms_refl (t : Ty) : H.conforms t t := by
  cases t <;> simp [conforms]

theorem conforms_object {c d : String} :
    H.conforms (.object c) (.object d) ↔ H.conformsTo c d := by
  by_cases h : c = d
  · subst h
    simp [conforms_refl, H.conformsTo_refl]
  · simp [conforms, h]

theorem conforms_collection {k l : Kind} {e f : Ty} :
    H.conforms (.collection k e) (.collection l f) ↔
      (k = l ∨ l = .collection) ∧ H.conforms e f := by
  by_cases h : k = l ∧ e = f
  · obtain ⟨rfl, rfl⟩ := h
    simp [conforms_refl]
  · simp [conforms, h]

/-- The parts of a tuple conform to those of another if each finds one under its name to which it
conforms. -/
theorem conformsParts_iff {ps qs : List (String × Ty)} :
    H.conformsParts ps qs ↔ ∀ p ∈ ps, ∃ u, qs.lookup p.1 = some u ∧ H.conforms p.2 u := by
  induction ps with
  | nil => simp [conformsParts]
  | cons p ps ih =>
    obtain ⟨name, t⟩ := p
    rw [conformsParts, Bool.and_eq_true, ih, List.forall_mem_cons]
    cases qs.lookup name <;> simp

end Hierarchy

namespace Conforms

variable {H : Hierarchy} {a b c : Ty}

/-! ### The computation follows the rules -/

theorem of_conforms (h : H.conforms a b) : Conforms H a b := by
  induction a using Ty.componentInduction generalizing b with
  | step a ih =>
    by_cases hsame : a = b
    · exact hsame ▸ .refl a
    · rw [Hierarchy.conforms.eq_def, decide_eq_false hsame, Bool.false_or] at h
      split at h
      · exact .void b
      · exact .any a
      · exact .naturalInteger
      · exact .naturalReal
      · exact .integerReal
      · exact .object (H.conformsTo_iff.mp h)
      · next k e l f =>
        simp only [Bool.and_eq_true, Bool.or_eq_true, decide_eq_true_eq] at h
        exact .collection h.1 (ih e List.mem_cons_self h.2)
      · next ps qs =>
        rw [Bool.and_eq_true, decide_eq_true_eq] at h
        have hfound := Hierarchy.conformsParts_iff.mp h.2
        refine .tuple h.1 ?_ ?_
        · intro p hp
          obtain ⟨u, hu, -⟩ := hfound p hp
          exact Option.isSome_iff_exists.mpr ⟨u, hu⟩
        · intro p hp u hu
          obtain ⟨u', hu', hconf⟩ := hfound p hp
          obtain rfl := Option.some.inj (hu'.symm.trans hu)
          exact ih p.2 (List.mem_map_of_mem hp) hconf
      · cases h

theorem conforms (h : Conforms H a b) : H.conforms a b := by
  induction h with
  | refl t => exact Hierarchy.conforms_refl t
  | void t => simp [Hierarchy.conforms]
  | any t => cases t <;> simp [Hierarchy.conforms]
  | naturalInteger => simp [Hierarchy.conforms]
  | naturalReal => simp [Hierarchy.conforms]
  | integerReal => simp [Hierarchy.conforms]
  | object h => exact Hierarchy.conforms_object.mpr (H.conformsTo_iff.mpr h)
  | collection hkind _ ih => exact Hierarchy.conforms_collection.mpr ⟨hkind, ih⟩
  | @tuple ps qs hlength hnames _ ih =>
    have hparts : H.conformsParts ps qs := Hierarchy.conformsParts_iff.mpr fun p hp => by
      obtain ⟨u, hu⟩ := Option.isSome_iff_exists.mp (hnames p hp)
      exact ⟨u, hu, ih p hp u hu⟩
    simp [Hierarchy.conforms, hlength, hparts]

end Conforms

theorem Hierarchy.conforms_iff {H : Hierarchy} {a b : Ty} : H.conforms a b ↔ Conforms H a b :=
  ⟨.of_conforms, Conforms.conforms⟩

namespace Conforms

variable {H : Hierarchy} {a b c : Ty}

/-! ### Transitivity -/

theorem eq_any (h : Conforms H .any a) : a = .any := by
  cases h <;> rfl

theorem reaches {c d : String} (h : Conforms H (.object c) (.object d)) : H.Reaches c d := by
  cases h with
  | refl => exact .refl
  | object h => exact h

theorem kinds_and_elements {k l : Kind} {e f : Ty}
    (h : Conforms H (.collection k e) (.collection l f)) :
    (k = l ∨ l = .collection) ∧ Conforms H e f := by
  cases h with
  | refl => exact ⟨.inl rfl, .refl e⟩
  | collection hkind helem => exact ⟨hkind, helem⟩

theorem trans (hab : Conforms H a b) (hbc : Conforms H b c) : Conforms H a c := by
  induction hab generalizing c with
  | refl t => exact hbc
  | void t => exact .void c
  | any t => exact hbc.eq_any ▸ .any t
  | naturalInteger =>
    cases hbc with
    | refl => exact .naturalInteger
    | any => exact .any _
    | integerReal => exact .naturalReal
  | naturalReal =>
    cases hbc with
    | refl => exact .naturalReal
    | any => exact .any _
  | integerReal =>
    cases hbc with
    | refl => exact .integerReal
    | any => exact .any _
  | object hcd =>
    cases hbc with
    | refl => exact .object hcd
    | any => exact .any _
    | object hde => exact .object (hcd.trans hde)
  | @collection k l e f hkind helem ih =>
    cases hbc with
    | refl => exact .collection hkind helem
    | any => exact .any _
    | @collection _ m _ g hkind' helem' =>
      refine .collection ?_ (ih helem')
      rcases hkind' with rfl | rfl
      · exact hkind
      · exact .inr rfl
  | @tuple ps qs hlength hnames hparts ih =>
    cases hbc with
    | refl => exact .tuple hlength hnames hparts
    | any => exact .any _
    | @tuple _ rs hlength' hnames' hparts' =>
      -- The part under a name in the middle is a part there, so it has one under its name in turn.
      have hmiddle : ∀ p ∈ ps, ∃ u, (p.1, u) ∈ qs ∧ qs.lookup p.1 = some u := fun p hp => by
        obtain ⟨u, hu⟩ := Option.isSome_iff_exists.mp (hnames p hp)
        exact ⟨u, Parts.mem_of_lookup hu, hu⟩
      refine .tuple (hlength.trans hlength') ?_ ?_
      · intro p hp
        obtain ⟨u, hmem, -⟩ := hmiddle p hp
        exact hnames' (p.1, u) hmem
      · intro p hp v hv
        obtain ⟨u, hmem, hu⟩ := hmiddle p hp
        exact ih p hp u hu (hparts' (p.1, u) hmem v hv)

/-! ### Tuples place by place -/

theorem paired {ps qs : List (String × Ty)} (hps : Parts.Ascending ps) (hqs : Parts.Ascending qs)
    (h : Conforms H (.tuple ps) (.tuple qs)) : Parts.Paired (Conforms H) ps qs := by
  cases h with
  | refl => exact List.forall₂_same.mpr fun p _ => ⟨rfl, .refl p.2⟩
  | tuple hlength hnames hparts => exact hps.paired hqs hlength hnames hparts

theorem tuple_of_paired {ps qs : List (String × Ty)} (hqs : Parts.Ascending qs)
    (h : Parts.Paired (Conforms H) ps qs) : Conforms H (.tuple ps) (.tuple qs) := by
  have hfound : ∀ p ∈ ps, ∃ u, qs.lookup p.1 = some u ∧ Conforms H p.2 u := fun p hp => by
    obtain ⟨q, hq, hname, hconf⟩ := h.exists_right hp
    exact ⟨q.2, hname ▸ Parts.lookup_of_mem hqs.nodup hq, hconf⟩
  refine .tuple h.length_eq ?_ ?_
  · intro p hp
    obtain ⟨u, hu, -⟩ := hfound p hp
    exact Option.isSome_iff_exists.mpr ⟨u, hu⟩
  · intro p hp u hu
    obtain ⟨u', hu', hconf⟩ := hfound p hp
    obtain rfl := Option.some.inj (hu'.symm.trans hu)
    exact hconf

/-! ### Antisymmetry -/

theorem antisymm (hH : H.Acyclic) (ha : a.Canonical) (hb : b.Canonical) (hab : Conforms H a b)
    (hba : Conforms H b a) : a = b := by
  induction a using Ty.componentInduction generalizing b with
  | step a ih =>
    cases hab with
    | refl => rfl
    | void => cases hba <;> rfl
    | any => exact hba.eq_any
    | naturalInteger => cases hba
    | naturalReal => cases hba
    | integerReal => cases hba
    | object hcd =>
      cases hba with
      | refl => rfl
      | object hdc => exact congrArg Ty.object (hH.eq_of_reaches hcd hdc)
    | @collection k l e f hkind helem =>
      cases hba with
      | refl => rfl
      | collection hkind' helem' =>
        have hk : k = l := by
          rcases hkind with rfl | rfl
          · rfl
          · exact hkind'.elim Eq.symm id
        rw [Ty.canonical_collection] at ha hb
        rw [hk, ih e List.mem_cons_self ha hb helem helem']
    | @tuple ps qs hlength hnames hparts =>
      rw [Ty.canonical_tuple] at ha hb
      have hforth := (Conforms.tuple hlength hnames hparts).paired ha.1 hb.1
      refine congrArg Ty.tuple (hforth.eq (hba.paired hb.1 ha.1) ?_)
      intro p hp q hq hpq hqp
      exact ih p.2 (List.mem_map_of_mem hp) (ha.2 p hp) (hb.2 q hq) hpq hqp

end Conforms

/-- A tuple type made of canonical types is canonical. -/
theorem Ty.canonical_tupleOf {parts : List (String × Ty)} (h : ∀ p ∈ parts, p.2.Canonical) :
    (Ty.tupleOf parts).Canonical :=
  canonical_tuple.mpr ⟨Parts.ascending_ofList parts, fun p hp => h p (Parts.mem_of_mem_ofList hp)⟩

namespace Hierarchy

/-- Conformance is a preorder with `OclVoid` below and `OclAny` above every type, whatever the class
hierarchy. Where no class is its own proper ancestor it is a partial order. -/
theorem conforms_isOrder (H : Hierarchy) :
    (∀ a, H.conforms a a) ∧ (∀ a b c, H.conforms a b → H.conforms b c → H.conforms a c) ∧
      (∀ a, H.conforms .void a) ∧ (∀ a, H.conforms a .any) ∧
      (H.Acyclic → ∀ a b : Ty, a.Canonical → b.Canonical → H.conforms a b → H.conforms b a →
        a = b) := by
  refine ⟨conforms_refl, ?_, fun a => (Conforms.void a).conforms,
    fun a => (Conforms.any a).conforms, ?_⟩
  · intro a b c hab hbc
    exact ((Conforms.of_conforms hab).trans (.of_conforms hbc)).conforms
  · intro hH a b ha hb hab hba
    exact Conforms.antisymm hH ha hb (.of_conforms hab) (.of_conforms hba)

/-- In a diamond of classes, tuples with collections of objects pass up both sides to the top, and
two spellings of one tuple conform to each other because they are the same type. -/
theorem conforms_isOrder_diamond :
    let H := Hierarchy.ofList
      [("Bottom", ["Left", "Right"]), ("Left", ["Top"]), ("Right", ["Top"]), ("Top", [])]
    let objects := fun kind cls => Ty.tupleOf [("b", .collection kind (.object cls)), ("a", .integer)]
    H.Acyclic ∧ H.conforms (objects .set "Bottom") (objects .set "Right") ∧
      H.conforms (objects .set "Right") (objects .collection "Top") ∧
      H.conforms (objects .set "Bottom") (objects .collection "Top") ∧
      objects .bag "Left" =
        Ty.tupleOf [("a", .integer), ("b", .collection .bag (.object "Left"))] := by
  intro H objects
  have hacyclic : H.Acyclic :=
    acyclic_ofList (fun cls => if cls = "Bottom" then 2 else if cls = "Top" then 0 else 1)
      (by decide)
  obtain ⟨-, htrans, -, -, hantisymm⟩ := conforms_isOrder H
  have hlower : H.conforms (objects .set "Bottom") (objects .set "Right") := by decide
  have hupper : H.conforms (objects .set "Right") (objects .collection "Top") := by decide
  refine ⟨hacyclic, hlower, hupper, htrans _ _ _ hlower hupper, ?_⟩
  refine hantisymm hacyclic _ _ (Ty.canonical_tupleOf ?_) (Ty.canonical_tupleOf ?_) (by decide)
    (by decide)
  · simp [Ty.Canonical]
  · simp [Ty.Canonical]

end Hierarchy

end ObjectConstraint
