import Mathlib.Data.List.Forall2
import Mathlib.Data.List.Perm.Subperm
import ObjectConstraint.Parts

/-!
# Parts beside parts

Two lists of named parts compared place by place. Where the names ascend, the names alone decide
the places, so what is said of the parts found under each name holds of the parts at each place.

* `Paired` — the same names at the same places, with related parts under them.
* `Ascending.paired` — lists in ascending order with as many parts, related name by name.
* `Paired.insert`, `insert_eq_self` — a part put in its place.
-/

namespace ObjectConstraint.Parts

variable {α β : Type} {R : α → β → Prop} {xs : List (String × α)} {ys : List (String × β)}

/-- Two lists of parts have the same names place by place, and related parts under them. -/
abbrev Paired (R : α → β → Prop) : List (String × α) → List (String × β) → Prop :=
  List.Forall₂ fun p q => p.1 = q.1 ∧ R p.2 q.2

theorem Paired.insert {x : α} {y : β} (h : Paired R xs ys) (name : String) (hxy : R x y) :
    Paired R (Parts.insert name x xs) (Parts.insert name y ys) := by
  induction h with
  | nil => exact .cons ⟨rfl, hxy⟩ .nil
  | @cons p q ps qs hpq hrest ih =>
    obtain ⟨other, a⟩ := p
    obtain ⟨other', b⟩ := q
    obtain ⟨rfl, hab⟩ : other = other' ∧ R a b := hpq
    simp only [Parts.insert]
    split
    · exact .cons ⟨rfl, hxy⟩ (.cons ⟨rfl, hab⟩ hrest)
    · exact .cons ⟨rfl, hxy⟩ hrest
    · exact .cons ⟨rfl, hab⟩ ih

theorem Paired.ofList (h : Paired R xs ys) : Paired R (Parts.ofList xs) (Parts.ofList ys) := by
  suffices ∀ kept kept', Paired R kept kept' →
      Paired R (xs.foldl (fun kept part => Parts.insert part.1 part.2 kept) kept)
        (ys.foldl (fun kept part => Parts.insert part.1 part.2 kept) kept') from
    this [] [] .nil
  induction h with
  | nil => exact fun _ _ hkept => hkept
  | @cons p q ps qs hpq _ ih =>
    intro kept kept' hkept
    refine ih _ _ ?_
    show Paired R (Parts.insert p.1 p.2 kept) (Parts.insert q.1 q.2 kept')
    rw [hpq.1]
    exact hkept.insert q.1 hpq.2

/-- Parts beside what is made of each of them. -/
theorem paired_map {f : α → β} (h : ∀ p ∈ xs, R p.2 (f p.2)) :
    Paired R xs (xs.map fun p => (p.1, f p.2)) :=
  List.forall₂_map_right_iff.mpr (List.forall₂_same.mpr fun p hp => ⟨rfl, h p hp⟩)

theorem Paired.names_eq (h : Paired R xs ys) : xs.map Prod.fst = ys.map Prod.fst := by
  induction h with
  | nil => rfl
  | cons hpq _ ih => exact congrArg₂ List.cons hpq.1 ih

theorem Paired.exists_right (h : Paired R xs ys) {p : String × α} (hp : p ∈ xs) :
    ∃ q ∈ ys, p.1 = q.1 ∧ R p.2 q.2 := by
  induction h with
  | nil => cases hp
  | cons hpq _ ih =>
    rcases List.mem_cons.mp hp with rfl | hp
    · exact ⟨_, List.mem_cons_self, hpq⟩
    · obtain ⟨q, hq, hpq⟩ := ih hp
      exact ⟨q, List.mem_cons_of_mem _ hq, hpq⟩

theorem Paired.flip (h : Paired R xs ys) : Paired (flip R) ys xs := by
  induction h with
  | nil => exact .nil
  | cons hpq _ ih => exact .cons ⟨hpq.1.symm, hpq.2⟩ ih

theorem Paired.eq {xs ys : List (String × α)} {R S : α → α → Prop} (h : Paired R xs ys)
    (h' : Paired S ys xs)
    (heq : ∀ p ∈ xs, ∀ q ∈ ys, R p.2 q.2 → S q.2 p.2 → p.2 = q.2) : xs = ys := by
  induction h with
  | nil => rfl
  | @cons p q ps qs hpq _ ih =>
    obtain ⟨hqp, hrest⟩ := List.forall₂_cons.mp h'
    have hpart := heq p List.mem_cons_self q List.mem_cons_self hpq.2 hqp.2
    refine congrArg₂ List.cons (Prod.ext hpq.1 hpart) (ih hrest ?_)
    intro p' hp' q' hq'
    exact heq p' (List.mem_cons_of_mem _ hp') q' (List.mem_cons_of_mem _ hq')

/-- Whether the parts stand in order is a matter of their names. -/
theorem ascending_iff_names :
    Ascending xs ↔ (xs.map Prod.fst).Pairwise fun m n => compare m n = .lt := by
  rw [Ascending, List.pairwise_map]

theorem Paired.ascending (h : Paired R xs ys) (hxs : Ascending xs) : Ascending ys := by
  rw [ascending_iff_names] at hxs ⊢
  exact h.names_eq ▸ hxs

theorem ascending_map (h : Ascending xs) (f : α → β) :
    Ascending (xs.map fun p => (p.1, f p.2)) :=
  have hpaired : Paired (fun _ _ => True) xs (xs.map fun p => (p.1, f p.2)) :=
    paired_map fun _ _ => trivial
  hpaired.ascending h

theorem mem_of_mem_ofList {p : String × α} (h : p ∈ ofList xs) : p ∈ xs := by
  suffices ∀ kept : List (String × α),
      p ∈ xs.foldl (fun kept part => insert part.1 part.2 kept) kept → p ∈ kept ∨ p ∈ xs from
    (this [] h).resolve_left (List.not_mem_nil)
  clear h
  induction xs with
  | nil => exact fun _ h => .inl h
  | cons q qs ih =>
    intro kept h
    rcases ih _ h with h | h
    · rcases fst_mem_of_mem_insert h with rfl | h
      · exact .inr List.mem_cons_self
      · exact .inl h
    · exact .inr (List.mem_cons_of_mem _ h)

theorem Ascending.nodup (h : Ascending xs) : (xs.map Prod.fst).Nodup := by
  refine (ascending_iff_names.mp h).imp ?_
  rintro m _ hless rfl
  simp [Std.ReflCmp.compare_self] at hless

/-- Among parts of distinct names, each is the one found under its name. -/
theorem lookup_of_mem {name : String} {part : α} (hxs : (xs.map Prod.fst).Nodup)
    (h : (name, part) ∈ xs) : xs.lookup name = some part := by
  induction xs with
  | nil => cases h
  | cons p ps ih =>
    obtain ⟨other, a⟩ := p
    obtain ⟨hother, hps⟩ := List.nodup_cons.mp hxs
    rcases List.mem_cons.mp h with heq | hmem
    · obtain ⟨rfl, rfl⟩ := Prod.mk.inj heq
      exact List.lookup_cons_self
    · have hne : name ≠ other := by
        rintro rfl
        exact hother (List.mem_map.mpr ⟨_, hmem, rfl⟩)
      rw [lookup_cons_ne hne]
      exact ih hps hmem

/-- A part put in its own place changes nothing. -/
theorem insert_eq_self {name : String} {part : α} (hxs : Ascending xs) (h : (name, part) ∈ xs) :
    insert name part xs = xs := by
  induction xs with
  | nil => cases h
  | cons p ps ih =>
    obtain ⟨other, a⟩ := p
    obtain ⟨hless, hps⟩ := List.pairwise_cons.mp hxs
    rcases List.mem_cons.mp h with heq | hmem
    · obtain ⟨rfl, rfl⟩ := Prod.mk.inj heq
      simp [insert, Std.ReflCmp.compare_self]
    · have hgt : compare name other = .gt := Std.OrientedCmp.gt_of_lt (hless _ hmem)
      simp [insert, hgt, ih hps hmem]

/-- Parts of distinct names that have the same parts under a name are the same to look it up. -/
theorem lookup_eq_of_mem_iff {ys : List (String × α)} {name : String}
    (hxs : (xs.map Prod.fst).Nodup) (hys : (ys.map Prod.fst).Nodup)
    (h : ∀ part, (name, part) ∈ xs ↔ (name, part) ∈ ys) : xs.lookup name = ys.lookup name := by
  cases hfound : xs.lookup name with
  | some part => exact (lookup_of_mem hys ((h part).mp (mem_of_lookup hfound))).symm
  | none =>
    cases hother : ys.lookup name with
    | none => rfl
    | some part =>
      have hmem := (h part).mpr (mem_of_lookup hother)
      rw [lookup_of_mem hxs hmem] at hfound
      cases hfound

/-! ### Places decided by the names -/

/-- Lists with the same names are paired if each part goes with those under its name. -/
theorem paired_of_names_eq (hnames : xs.map Prod.fst = ys.map Prod.fst)
    (h : ∀ p ∈ xs, ∀ part, (p.1, part) ∈ ys → R p.2 part) : Paired R xs ys := by
  induction xs generalizing ys with
  | nil =>
    obtain rfl := List.map_eq_nil_iff.mp hnames.symm
    exact .nil
  | cons p ps ih =>
    cases ys with
    | nil => cases hnames
    | cons q qs =>
      obtain ⟨hname, hrest⟩ := List.cons.inj hnames
      replace hname : p.1 = q.1 := hname
      refine .cons ⟨hname, h p List.mem_cons_self q.2 ?_⟩ (ih hrest ?_)
      · rw [hname]
        exact List.mem_cons_self
      · intro p' hp' part hpart
        exact h p' (List.mem_cons_of_mem _ hp') part (List.mem_cons_of_mem _ hpart)

/-- Ascending lists with as many names have the same names if one has those of the other. -/
theorem Ascending.names_eq (hxs : Ascending xs) (hys : Ascending ys)
    (hlength : xs.length = ys.length) (hnames : ∀ p ∈ xs, (ys.lookup p.1).isSome) :
    xs.map Prod.fst = ys.map Prod.fst := by
  have hsubset : xs.map Prod.fst ⊆ ys.map Prod.fst := by
    intro name hname
    obtain ⟨p, hp, rfl⟩ := List.mem_map.mp hname
    obtain ⟨part, hpart⟩ := Option.isSome_iff_exists.mp (hnames p hp)
    exact List.mem_map_of_mem (mem_of_lookup hpart)
  have hperm : (xs.map Prod.fst).Perm (ys.map Prod.fst) :=
    (hxs.nodup.subperm hsubset).perm_of_length_le (by simp [hlength])
  refine hperm.eq_of_pairwise ?_ (ascending_iff_names.mp hxs) (ascending_iff_names.mp hys)
  intro m n _ _ hmn hnm
  exact absurd (Std.OrientedCmp.gt_of_lt hmn) (by simp [hnm])

/-- Ascending lists with as many parts are paired if each part goes with the one found under its
name. -/
theorem Ascending.paired (hxs : Ascending xs) (hys : Ascending ys)
    (hlength : xs.length = ys.length) (hnames : ∀ p ∈ xs, (ys.lookup p.1).isSome)
    (hparts : ∀ p ∈ xs, ∀ part, ys.lookup p.1 = some part → R p.2 part) : Paired R xs ys := by
  refine paired_of_names_eq (hxs.names_eq hys hlength hnames) ?_
  intro p hp part hpart
  exact hparts p hp part (lookup_of_mem hys.nodup hpart)

end ObjectConstraint.Parts
