import ObjectConstraint.Operation.Typing
import ObjectConstraint.Proofs.EqualOperands
import ObjectConstraint.Proofs.NormalForms

/-!
# Multiplicities

A collection is told by its kind and by how often each value occurs in it, a value standing for all
values equal to it. So an operation on collections is told by the multiplicities in its result. Only
the kinds with repetition count beyond one; for the others it is a question of yes or no.

* `Value.countP_normalForm` — the multiplicities that a normal form keeps.
* `Collection.search_iff`, `Collection.has_index` — the search by halves finds what is there.
* `Collection.countP_matched` — matching leaves the smaller one of two multiplicities.
* `Value.Tallies` — a collection in normal form with given multiplicities.
* `Collection.tallies_operations` — the multiplicities in the results of the operations.
-/

namespace ObjectConstraint

/-! ### Kinds of results -/

theorem unionKind_comm (k l : Kind) : unionKind k l = unionKind l k := by
  cases k <;> cases l <;> rfl

theorem intersectionKind_comm (k l : Kind) : intersectionKind k l = intersectionKind l k := by
  cases k <;> cases l <;> rfl

theorem kind_of_unionKind {k l kind : Kind} (h : unionKind k l = some kind)
    (hk : k = .set ∨ k = .bag) : kind = .set ∨ kind = .bag := by
  rcases hk with rfl | rfl <;> cases l <;> cases h <;> simp

theorem kind_of_intersectionKind {k l kind : Kind} (h : intersectionKind k l = some kind) :
    kind = .set ∨ kind = .bag := by
  cases k <;> cases l <;> cases h <;> simp

namespace Value

/-! ### Normal forms -/

/-- A value that occurs at most once occurs as often as the truth value says. -/
theorem countP_eq_toNat_any {v : Value} {xs : List Value} (h : xs.countP (· == v) ≤ 1) :
    xs.countP (· == v) = (xs.any (· == v)).toNat := by
  have hpos : 0 < xs.countP (· == v) ↔ xs.any (· == v) := by
    rw [List.countP_pos_iff, List.any_eq_true]
  cases hany : xs.any (· == v) with
  | true =>
    have := hpos.mpr hany
    rw [Bool.toNat_true]
    omega
  | false =>
    have : ¬ 0 < xs.countP (· == v) := hpos.not.mpr (by simp [hany])
    rw [Bool.toNat_false]
    omega

/-- In the normal form of a kind without repetition a value occurs once or not at all. -/
theorem countP_le_one_of_isNormal {kind : Kind} {xs : List Value} (hunique : kind.isUnique)
    (h : isNormal kind xs) (v : Value) : xs.countP (· == v) ≤ 1 :=
  countP_le_one (of_decide_eq_true (isNormal_orderedSet_of_perm hunique (.refl xs) h)) v

theorem any_normalForm (kind : Kind) (xs : List Value) (v : Value) :
    (normalForm kind xs).any (· == v) = xs.any (· == v) := by
  cases kind with
  | set => exact (any_dropRepeats v _).trans (ascending_perm xs).any_eq
  | bag => exact (ascending_perm xs).any_eq
  | collection => exact (ascending_perm xs).any_eq
  | sequence => rfl
  | orderedSet =>
    rw [Bool.eq_iff_iff, List.any_eq_true, List.any_eq_true]
    constructor
    · rintro ⟨x, hx, hxv⟩
      exact ⟨x, mem_of_mem_firstOccurrences hx, hxv⟩
    · rintro ⟨x, hx, hxv⟩
      rcases exists_mem_firstOccurrences ∅ hx with hknown | ⟨y, hy, hyx⟩
      · simp at hknown
      · exact ⟨y, hy, BEq.trans hyx hxv⟩

/-- A kind without repetition keeps which values occur, another one keeps how often. -/
theorem countP_normalForm (kind : Kind) (xs : List Value) (v : Value) :
    (normalForm kind xs).countP (· == v) =
      if kind.isUnique then (xs.any (· == v)).toNat else xs.countP (· == v) := by
  split
  · next hunique =>
    have hkind : kind ≠ .collection := by
      rintro rfl
      cases hunique
    rw [← any_normalForm kind, countP_eq_toNat_any]
    exact countP_le_one_of_isNormal hunique (isNormal_normalForm hkind xs) v
  · next hrepeats =>
    cases kind with
    | bag => exact (ascending_perm xs).countP_eq _
    | collection => exact (ascending_perm xs).countP_eq _
    | sequence => rfl
    | _ => exact absurd rfl hrepeats

end Value

namespace Value

/-! ### Places among ascending elements -/

variable {elems : List Value} {v : Value} {i j : Nat}

theorem le_getD (h : elems.Pairwise fun a b => le a b) (hij : i ≤ j) (hj : j < elems.length) :
    le (elems.getD i .undefined) (elems.getD j .undefined) := by
  rcases Nat.lt_or_eq_of_le hij with hij | rfl
  · simpa [hj, Nat.lt_trans hij hj] using List.pairwise_iff_getElem.mp h i j _ hj hij
  · simp [le, cmp_self]

/-- A value above the element at a place stands behind that place. -/
theorem lt_of_cmp_eq_lt (h : elems.Pairwise fun a b => le a b) (hi : i < elems.length)
    (hcmp : cmp (elems.getD i .undefined) v = .lt) (hj : elems.getD j .undefined == v) : i < j := by
  by_contra hji
  have hle := le_getD h (Nat.le_of_not_lt hji) hi
  rw [le, cmp_congr hj (BEq.refl _), ← swap_cmp, hcmp] at hle
  cases hle

/-- A value below the element at a place stands before that place. -/
theorem lt_of_cmp_eq_gt (h : elems.Pairwise fun a b => le a b) (hj : j < elems.length)
    (hcmp : cmp (elems.getD i .undefined) v = .gt) (hjv : elems.getD j .undefined == v) :
    j < i := by
  by_contra hij
  have hle := le_getD h (Nat.le_of_not_lt hij) hj
  rw [le, cmp_congr (BEq.refl _) hjv, hcmp] at hle
  cases hle

end Value

namespace Collection

variable {c d : Collection} {v : Value}

/-! ### Looking values up -/

/-- Among ascending elements the search by halves finds a value exactly if one equal to it stands
between the two places. -/
theorem search_iff {elems : List Value} (h : elems.Pairwise fun a b => Value.le a b) (v : Value)
    {lo hi : Nat} (hhi : hi ≤ elems.length) :
    search elems.toArray v lo hi ↔
      ∃ i, lo ≤ i ∧ i < hi ∧ elems.getD i .undefined == v := by
  fun_induction search elems.toArray v lo hi with
  | case1 lo hi hlt middle hcmp =>
    refine iff_of_true rfl ⟨middle, by omega, by omega, Value.beq_iff_cmp_eq.mpr ?_⟩
    simpa using hcmp
  | case2 lo hi hlt middle hcmp ih =>
    rw [ih hhi]
    refine exists_congr fun i => ⟨fun ⟨hi, hrest⟩ => ⟨by omega, hrest⟩, ?_⟩
    rintro ⟨-, hi, hiv⟩
    exact ⟨Value.lt_of_cmp_eq_lt h (by omega) (by simpa using hcmp) hiv, hi, hiv⟩
  | case3 lo hi hlt middle hcmp ih =>
    rw [ih (by omega)]
    refine exists_congr fun i => ⟨fun ⟨hlo, hi, hiv⟩ => ⟨hlo, by omega, hiv⟩, ?_⟩
    rintro ⟨hlo, hi, hiv⟩
    exact ⟨hlo, Value.lt_of_cmp_eq_gt h (by omega) (by simpa using hcmp) hiv, hiv⟩
  | case4 lo hi hge =>
    refine iff_of_false nofun ?_
    rintro ⟨i, hlo, hi, -⟩
    omega

/-- The index of a collection in normal form has the values that are equal to an element. -/
theorem has_index (hc : Value.isNormal c.kind c.elems) (v : Value) :
    c.index.has v = c.elems.any (· == v) := by
  have hascending (h : c.elems.Pairwise fun a b => Value.le a b) :
      (Index.ascending c.elems.toArray).has v = c.elems.any (· == v) := by
    rw [Index.has, List.size_toArray, Bool.eq_iff_iff, search_iff h v le_rfl, List.any_eq_true]
    constructor
    · rintro ⟨i, -, hi, hiv⟩
      exact ⟨c.elems.getD i .undefined, by simp [hi], hiv⟩
    · rintro ⟨x, hx, hxv⟩
      obtain ⟨i, hi, rfl⟩ := List.mem_iff_getElem.mp hx
      exact ⟨i, Nat.zero_le i, hi, by simpa [hi] using hxv⟩
  have hlisted : (Index.listed c.elems).has v = c.elems.any (· == v) := by
    rw [Index.has, List.contains_eq_any_beq]
    exact congrArg c.elems.any (funext fun x => BEq.comm)
  unfold index
  cases hkind : c.kind with
  | set =>
    rw [hkind] at hc
    exact hascending ((of_decide_eq_true hc).imp fun hlt => by simp [Value.le, hlt])
  | bag =>
    rw [hkind] at hc
    exact hascending (of_decide_eq_true hc)
  | collection => exact hlisted
  | sequence => exact hlisted
  | orderedSet => exact hlisted

theorem contains_iff (hc : Value.isNormal c.kind c.elems) (v : Value) :
    c.contains v ↔ 1 ≤ c.count v := by
  rw [contains, has_index hc, List.any_eq_true]
  exact List.countP_pos_iff.symm

/-! ### Matching -/

/-- Matched elements are as many as are there and are available. -/
theorem countP_matched (available : Std.TreeMap Value Nat Value.cmp) (xs : List Value) (v : Value) :
    (matched available xs).countP (· == v) = min (available.getD v 0) (xs.countP (· == v)) := by
  induction xs generalizing available with
  | nil => simp [matched]
  | cons x xs ih =>
    rw [matched, List.countP_cons]
    by_cases hxv : x == v
    · have hcmp := Value.beq_iff_cmp_eq.mp hxv
      have hsame : available.getD x 0 = available.getD v 0 := Std.TreeMap.getD_congr hcmp
      rw [if_pos hxv, ← hsame]
      split
      · next hnone => rw [ih, ← hsame, hnone, Nat.zero_min, Nat.zero_min]
      · next n hsome =>
        rw [List.countP_cons, if_pos hxv, ih, Std.TreeMap.getD_insert, if_pos hcmp, hsome]
        omega
    · have hcmp : Value.cmp x v ≠ .eq := Value.not_beq_iff_cmp_ne.mp hxv
      rw [if_neg hxv, Nat.add_zero]
      split
      · exact ih available
      · rw [List.countP_cons, if_neg hxv, ih, Std.TreeMap.getD_insert, if_neg hcmp, Nat.add_zero]

end Collection

/-! ### Tallies -/

/-- The value is a collection of this kind, in normal form, in which each value occurs as often as
`times` says. -/
def Value.Tallies (r : Value) (kind : Kind) (times : Value → Nat) : Prop :=
  ∃ e : Collection, r.collection? = some e ∧ e.kind = kind ∧ isNormal kind e.elems ∧
    ∀ v, e.count v = times v ∧ (e.contains v ↔ 1 ≤ times v)

namespace Value

variable {kind : Kind} {xs : List Value} {times times' : Value → Nat} {r r' : Value}

theorem Tallies.congr (h : r.Tallies kind times) (htimes : ∀ v, times v = times' v) :
    r.Tallies kind times' :=
  funext htimes ▸ h

theorem tallies_collection (elem : Ty) (h : isNormal kind xs) :
    (collection kind elem xs).Tallies kind fun v => xs.countP (· == v) :=
  ⟨⟨kind, elem, xs⟩, rfl, rfl, h, fun v => ⟨rfl, Collection.contains_iff h v⟩⟩

theorem tallies_collectionOf (elem : Ty) (hkind : kind.concrete = kind) :
    (collectionOf kind elem xs).Tallies kind fun v =>
      if kind.isUnique then (xs.any (· == v)).toNat else xs.countP (· == v) := by
  have hnormal := isNormal_normalForm kind.concrete_ne_collection xs
  rw [collectionOf, hkind]
  rw [hkind] at hnormal
  exact (tallies_collection elem hnormal).congr (countP_normalForm kind xs)

/-- Sets and bags are told by their kind and their multiplicities. -/
theorem Tallies.beq (h : r.Tallies kind times) (h' : r'.Tallies kind times)
    (hkind : kind = .set ∨ kind = .bag) : r == r' := by
  obtain ⟨⟨_, elem, xs⟩, hr, rfl, hxs, hcount⟩ := h
  obtain ⟨⟨kind, elem', ys⟩, hr', rfl, hys, hcount'⟩ := h'
  have hascending {zs : List Value} (hzs : isNormal kind zs) : zs.Pairwise fun a b => le a b := by
    rcases hkind with rfl | rfl
    · exact (of_decide_eq_true hzs).imp fun hlt => by simp [le, hlt]
    · exact of_decide_eq_true hzs
  cases r <;> cases hr
  cases r' <;> cases hr'
  refine collection_beq_iff.mpr ⟨rfl, eqEach_of_countP (hascending hxs) (hascending hys) ?_⟩
  exact fun v => (hcount v).1.trans (hcount' v).1.symm

end Value

namespace Collection

variable {c d : Collection}

/-! ### The operations -/

theorem concrete_of_isNormal (hc : Value.isNormal c.kind c.elems) : c.kind.concrete = c.kind := by
  refine Kind.concrete_of_ne fun h => ?_
  rw [h] at hc
  cases hc

theorem toNat_contains (hc : Value.isNormal c.kind c.elems) (hunique : c.kind.isUnique)
    (v : Value) : (c.contains v).toNat = c.count v := by
  rw [contains, has_index hc]
  exact (Value.countP_eq_toNat_any (Value.countP_le_one_of_isNormal hunique hc v)).symm

theorem tallies_including (hc : Value.isNormal c.kind c.elems) (x : Value) (elem : Ty) :
    (c.including x elem).Tallies c.kind fun v =>
      if x == v then if c.kind.isUnique then 1 else c.count v + 1 else c.count v := by
  refine (Value.tallies_collectionOf elem (concrete_of_isNormal hc)).congr fun v => ?_
  rw [List.any_append, List.countP_append, ← has_index hc]
  cases hxv : x == v with
  | true => simp [hxv, count]
  | false =>
    simp only [List.any_cons, List.any_nil, hxv, Bool.or_false, List.countP_cons, List.countP_nil]
    split
    · next hunique => exact toNat_contains hc hunique v
    · simp [count]

theorem tallies_excluding (hc : Value.isNormal c.kind c.elems) (x : Value) :
    (c.excluding x).Tallies c.kind fun v => if x == v then 0 else c.count v := by
  have hkept := Value.isNormal_of_sublist (List.filter_sublist (p := fun e => !(e == x))) hc
  rw [excluding, Value.collectionOf_eq_self c.elem hkept]
  refine (Value.tallies_collection c.elem hkept).congr fun v => ?_
  rw [List.countP_filter]
  cases hxv : x == v with
  | true =>
    refine List.countP_eq_zero.mpr fun e _ => ?_
    simp [Value.beq_congr (BEq.refl e) hxv]
  | false =>
    refine List.countP_congr fun e _ => ?_
    have hkeeps : e == v → (e == x) = false := fun hev => by
      rw [BEq.comm, Value.beq_congr (BEq.refl x) hev, hxv]
    simpa using hkeeps

theorem tallies_union (hc : Value.isNormal c.kind c.elems) (hd : Value.isNormal d.kind d.elems)
    {kind : Kind} (hkind : unionKind c.kind d.kind = some kind) (elem : Ty) :
    (c.union d kind elem).Tallies kind fun v =>
      if kind.isUnique then (c.contains v || d.contains v).toNat else c.count v + d.count v := by
  refine (Value.tallies_collectionOf elem (Operation.concrete_of_unionKind hkind)).congr fun v => ?_
  rw [List.any_append, List.countP_append, contains, contains, has_index hc, has_index hd]
  rfl

theorem tallies_intersection (hc : Value.isNormal c.kind c.elems)
    (hd : Value.isNormal d.kind d.elems) {kind : Kind}
    (hkind : intersectionKind c.kind d.kind = some kind) :
    (c.intersection d kind).Tallies kind fun v =>
      if kind.isUnique then (c.contains v && d.contains v).toNat
      else min (c.count v) (d.count v) := by
  refine (Value.tallies_collectionOf c.elem (Operation.concrete_of_intersectionKind hkind)).congr
    fun v => ?_
  have hcount : (matched (occurrences d.elems) c.elems).countP (· == v) =
      min (c.count v) (d.count v) := by
    rw [countP_matched, getD_occurrences, Nat.min_comm]
    rfl
  have hany : (matched (occurrences d.elems) c.elems).any (· == v) =
      (c.contains v && d.contains v) := by
    rw [Bool.eq_iff_iff, List.any_eq_true, ← List.countP_pos_iff, hcount, Bool.and_eq_true,
      contains_iff hc, contains_iff hd]
    omega
  rw [hcount, hany]

/-- Elements outside a collection that are equal to a value. -/
theorem any_outside (d : Collection) (xs : List Value) (v : Value) :
    (outside d.index xs).any (· == v) = (xs.any (· == v) && !d.contains v) := by
  have hsame {e : Value} (he : e == v) : d.index.has e = d.contains v :=
    has_index_congr ⟨rfl, .refl d.elems⟩ he
  rw [outside, List.any_filter, Bool.eq_iff_iff, Bool.and_eq_true, List.any_eq_true,
    List.any_eq_true]
  constructor
  · rintro ⟨e, he, hkept⟩
    rw [Bool.and_eq_true] at hkept
    exact ⟨⟨e, he, hkept.2⟩, hsame hkept.2 ▸ hkept.1⟩
  · rintro ⟨⟨e, he, hev⟩, hnot⟩
    exact ⟨e, he, by rw [hsame hev, hnot, hev]; rfl⟩

theorem tallies_difference (hc : Value.isNormal c.kind c.elems) (hunique : c.kind.isUnique)
    (d : Collection) :
    (c.difference d).Tallies c.kind fun v => (c.contains v && !d.contains v).toNat := by
  refine (Value.tallies_collectionOf c.elem (concrete_of_isNormal hc)).congr fun v => ?_
  rw [if_pos hunique, any_outside, ← has_index hc]
  rfl

theorem tallies_symmetricDifference (hc : Value.isNormal c.kind c.elems)
    (hd : Value.isNormal d.kind d.elems) (hunique : c.kind.isUnique) :
    (c.symmetricDifference d).Tallies c.kind fun v => (c.contains v ^^ d.contains v).toNat := by
  refine (Value.tallies_collectionOf c.elem (concrete_of_isNormal hc)).congr fun v => ?_
  rw [if_pos hunique, List.any_append, any_outside, any_outside, ← has_index hc,
    ← has_index hd]
  show ((c.contains v && !d.contains v) || (d.contains v && !c.contains v)).toNat = _
  cases c.contains v <;> cases d.contains v <;> rfl

/-- In collections in normal form, looking a value up finds it exactly if it occurs. Adding a value
makes it occur once more, or once if the kind has no repetition; removing it makes it not occur; no
other value is touched. A union of a kind with repetition adds the multiplicities and an
intersection takes the smaller ones; of kinds without repetition they hold what one operand contains
and what both do. A difference holds what the first operand contains and the second does not, and a
symmetric difference of sets what one contains and the other does not. All results are in normal
form. Unions and intersections of sets and bags do not depend on the order of the operands. -/
theorem tallies_operations (c d : Collection) (hc : Value.isNormal c.kind c.elems)
    (hd : Value.isNormal d.kind d.elems) (x : Value) (elem : Ty) :
    (c.contains x ↔ 1 ≤ c.count x) ∧
      ((c.including x elem).Tallies c.kind fun v =>
        if x == v then if c.kind.isUnique then 1 else c.count v + 1 else c.count v) ∧
      ((c.excluding x).Tallies c.kind fun v => if x == v then 0 else c.count v) ∧
      (∀ kind, unionKind c.kind d.kind = some kind →
        ((c.union d kind elem).Tallies kind fun v =>
          if kind.isUnique then (c.contains v || d.contains v).toNat
          else c.count v + d.count v) ∧
        (c.kind = .set ∨ c.kind = .bag → unionKind d.kind c.kind = some kind ∧
          ∀ elem', c.union d kind elem == d.union c kind elem')) ∧
      (∀ kind, intersectionKind c.kind d.kind = some kind →
        ((c.intersection d kind).Tallies kind fun v =>
          if kind.isUnique then (c.contains v && d.contains v).toNat
          else min (c.count v) (d.count v)) ∧
        intersectionKind d.kind c.kind = some kind ∧
          c.intersection d kind == d.intersection c kind) ∧
      (c.kind.isUnique →
        (c.difference d).Tallies c.kind fun v => (c.contains v && !d.contains v).toNat) ∧
      (c.kind = .set → d.kind = .set →
        (c.symmetricDifference d).Tallies .set fun v => (c.contains v ^^ d.contains v).toNat) := by
  refine ⟨contains_iff hc x, tallies_including hc x elem, tallies_excluding hc x, ?_, ?_,
    fun hunique => tallies_difference hc hunique d, ?_⟩
  · intro kind hkind
    have hunion := tallies_union hc hd hkind elem
    refine ⟨hunion, fun hsource => ?_⟩
    have hswapped : unionKind d.kind c.kind = some kind := (unionKind_comm _ _).trans hkind
    refine ⟨hswapped, fun elem' => hunion.beq ?_ (kind_of_unionKind hkind hsource)⟩
    refine (tallies_union hd hc hswapped elem').congr fun v => ?_
    rw [Bool.or_comm, Nat.add_comm]
  · intro kind hkind
    have hintersection := tallies_intersection hc hd hkind
    have hswapped : intersectionKind d.kind c.kind = some kind :=
      (intersectionKind_comm _ _).trans hkind
    refine ⟨hintersection, hswapped, hintersection.beq ?_ (kind_of_intersectionKind hkind)⟩
    refine (tallies_intersection hd hc hswapped).congr fun v => ?_
    rw [Bool.and_comm, Nat.min_comm]
  · intro hset _
    have hdifference := tallies_symmetricDifference hc hd (by rw [hset]; rfl)
    rwa [hset] at hdifference

/-- A set and a bag that has the number `1` twice, as a real: their union has it three times, their
intersection once. -/
theorem tallies_operations_mixed :
    let c : Collection := ⟨.set, .integer, [.integer 1, .integer 2]⟩
    let d : Collection := ⟨.bag, .real, [.real (.ofInt64 1), .real (.ofInt64 1), .integer 3]⟩
    Value.isNormal c.kind c.elems ∧ Value.isNormal d.kind d.elems ∧
      unionKind c.kind d.kind = some .bag ∧ intersectionKind c.kind d.kind = some .set ∧
      ((c.union d .bag .real).Tallies .bag fun v => c.count v + d.count v) ∧
      c.count (.integer 1) + d.count (.integer 1) = 3 ∧
      ((c.intersection d .set).Tallies .set fun v => (c.contains v && d.contains v).toNat) ∧
      c.intersection d .set == d.intersection c .set := by
  intro c d
  have hc : Value.isNormal c.kind c.elems := by decide +kernel
  have hd : Value.isNormal d.kind d.elems := by decide +kernel
  obtain ⟨-, -, -, hunion, hintersection, -, -⟩ := tallies_operations c d hc hd .undefined .real
  exact ⟨hc, hd, rfl, rfl, (hunion .bag rfl).1, by decide +kernel, (hintersection .set rfl).1,
    (hintersection .set rfl).2.2⟩

end Collection

end ObjectConstraint
