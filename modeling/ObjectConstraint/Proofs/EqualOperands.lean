import ObjectConstraint.Operation.Apply
import ObjectConstraint.Proofs.EqualCollections

/-!
# Equal operands

The operations on collections look at the elements through the order of values only, so equal
operands, such as `1` and `1.0` at any depth, give equal results. The sum is left out: what it adds
up depends on how the numbers are represented.

* `Value.Same` — two collections of one kind whose elements are equal place by place.
* `Collection.search_congr`, `Collection.eqEach_matched`, `Collection.eqEach_leaves` — the search by
  halves, the matching of multiplicities and the leaves of nested collections.
* `Operation.respectsEquality`, `Operation.takesPlaces` — the operations in question, and those
  among them whose arguments are places.
* `Operation.apply_beq_apply` — equal operands give equal results.
-/

namespace ObjectConstraint

open Value (EqEach beq_congr cmp_congr)

namespace Value

/-! ### Lists that are equal place by place -/

theorem EqEach.getD {xs ys : List Value} (h : EqEach xs ys) (i : Nat) (fallback : Value) :
    xs.getD i fallback == ys.getD i fallback := by
  induction h generalizing i with
  | nil => exact BEq.refl fallback
  | cons hxy _ ih =>
    cases i with
    | zero => exact hxy
    | succ i => exact ih i

theorem EqEach.head?_getD {xs ys : List Value} (h : EqEach xs ys) (fallback : Value) :
    xs.head?.getD fallback == ys.head?.getD fallback := by
  rw [List.head?_eq_getElem?, List.head?_eq_getElem?]
  simpa only [List.getD_eq_getElem?_getD] using h.getD 0 fallback

theorem EqEach.getLast?_getD {xs ys : List Value} (h : EqEach xs ys) (fallback : Value) :
    xs.getLast?.getD fallback == ys.getLast?.getD fallback := by
  rw [List.getLast?_eq_getElem?, List.getLast?_eq_getElem?, h.length_eq]
  simpa only [List.getD_eq_getElem?_getD] using h.getD (ys.length - 1) fallback

theorem EqEach.eraseDups {xs ys : List Value} (h : EqEach xs ys) :
    EqEach xs.eraseDups ys.eraseDups := by
  cases h with
  | nil => exact .nil
  | cons hxy h =>
    rw [List.eraseDups_cons, List.eraseDups_cons]
    exact .cons hxy (EqEach.filter h fun _ _ hab => by rw [beq_congr hab hxy]).eraseDups
  termination_by xs.length
  decreasing_by
    subst_vars
    exact Nat.lt_succ_of_le (List.length_filter_le _ _)

/-- No kind tells apart lists that are equal place by place. -/
theorem EqEach.sameContents {xs ys : List Value} (h : EqEach xs ys) (kind : Kind) :
    SameContents kind xs ys := by
  have hcount (v : Value) : xs.countP (· == v) = ys.countP (· == v) :=
    h.countP fun _ _ hxy => beq_congr hxy (BEq.refl v)
  cases kind with
  | set => exact any_eq_iff.mp fun v => h.any fun _ _ hxy => beq_congr hxy (BEq.refl v)
  | bag => exact hcount
  | collection => exact hcount
  | sequence => exact h
  | orderedSet => exact h.eraseDups

theorem collectionOf_congr {k l : Kind} (hkind : k = l) {xs ys : List Value} (h : EqEach xs ys)
    (t u : Ty) : collectionOf k t xs == collectionOf l u ys := by
  subst hkind
  exact collection_beq_iff.mpr ⟨rfl, eqEach_normalForm_iff.mpr (h.sameContents _)⟩

/-! ### Equal values have the same form -/

theorem rank_eq_of_beq {a b : Value} (h : a == b) : a.rank = b.rank := by
  by_contra hrank
  rw [beq_iff_cmp_eq, cmp_of_rank_ne hrank, compare_eq_iff_eq] at h
  exact hrank h

theorem isUndefined_eq_of_beq {a b : Value} (h : a == b) : a.isUndefined = b.isUndefined := by
  have hrank := rank_eq_of_beq h
  cases a <;> cases b <;> first | rfl | cases hrank

end Value

/-- Collections of one kind whose elements are equal place by place. -/
structure Collection.Same (c d : Collection) : Prop where
  kind : c.kind = d.kind
  elems : EqEach c.elems d.elems

namespace Value

/-- Of two equal values both are the same collection or neither is one. -/
theorem collection?_of_beq {a b : Value} (h : a == b) :
    (a.collection? = none ∧ b.collection? = none) ∨
      ∃ c d, a.collection? = some c ∧ b.collection? = some d ∧ c.Same d := by
  have hrank := rank_eq_of_beq h
  cases a <;> cases b <;> first | exact .inl ⟨rfl, rfl⟩ | (cases hrank; done) | skip
  obtain ⟨hkind, helems⟩ := collection_beq_iff.mp h
  exact .inr ⟨_, _, rfl, rfl, hkind, helems⟩

end Value

namespace Collection

variable {c c' d d' : Collection} {v v' : Value} {xs ys : List Value}

/-! ### Looking values up -/

/-- The search by halves takes its turns by comparisons only. -/
theorem search_congr {elems elems' : Array Value}
    (h : ∀ i, (elems.getD i .undefined).cmp v = (elems'.getD i .undefined).cmp v') (lo hi : Nat) :
    search elems v lo hi = search elems' v' lo hi := by
  induction hsize : hi - lo using Nat.strong_induction_on generalizing lo hi with
  | h size ih =>
    unfold search
    by_cases hlt : lo < hi
    · rw [dif_pos hlt, dif_pos hlt]
      dsimp only
      rw [h]
      split
      · rfl
      · exact ih _ (by omega) _ _ rfl
      · exact ih _ (by omega) _ _ rfl
    · rw [dif_neg hlt, dif_neg hlt]

theorem has_index_congr (h : c.Same c') (hv : v == v') : c.index.has v = c'.index.has v' := by
  have hsearch : (Index.ascending c.elems.toArray).has v =
      (Index.ascending c'.elems.toArray).has v' := by
    rw [Index.has, Index.has, List.size_toArray, List.size_toArray, h.elems.length_eq]
    exact search_congr (fun i => cmp_congr (by simpa using h.elems.getD i .undefined) hv) _ _
  have hlisted : (Index.listed c.elems).has v = (Index.listed c'.elems).has v' := by
    rw [Index.has, Index.has, List.contains_eq_any_beq, List.contains_eq_any_beq]
    exact h.elems.any fun _ _ hxy => beq_congr hv hxy
  unfold index
  rw [← h.kind]
  cases c.kind <;> assumption

theorem count_congr (h : c.Same c') (hv : v == v') : c.count v = c'.count v' :=
  h.elems.countP fun _ _ hxy => beq_congr hxy hv

theorem findIdx?_congr (h : EqEach xs ys) (hv : v == v') :
    xs.findIdx? (· == v) = ys.findIdx? (· == v') := by
  induction h with
  | nil => rfl
  | cons hxy _ ih => rw [List.findIdx?_cons, List.findIdx?_cons, ih, beq_congr hxy hv]

theorem eqEach_outside (h : c.Same c') (helems : EqEach xs ys) :
    EqEach (outside c.index xs) (outside c'.index ys) :=
  helems.filter fun _ _ hxy => congrArg (!·) (has_index_congr h hxy)

/-! ### Multiplicities -/

theorem getD_foldl_insert (counts : Std.TreeMap Value Nat Value.cmp) (v : Value)
    (xs : List Value) :
    (xs.foldl (fun counts x => counts.insert x (counts.getD x 0 + 1)) counts).getD v 0 =
      counts.getD v 0 + xs.countP (· == v) := by
  induction xs generalizing counts with
  | nil => rfl
  | cons x xs ih =>
    rw [List.foldl_cons, ih, List.countP_cons, Std.TreeMap.getD_insert]
    by_cases hxv : Value.cmp x v = .eq
    · rw [if_pos hxv, if_pos (Value.beq_iff_cmp_eq.mpr hxv), Std.TreeMap.getD_congr hxv]
      omega
    · rw [if_neg hxv, if_neg (Value.beq_iff_cmp_eq.not.mpr hxv), Nat.add_zero]

/-- The multiplicity map tells how often a value occurs. -/
theorem getD_occurrences (v : Value) (xs : List Value) :
    (occurrences xs).getD v 0 = xs.countP (· == v) := by
  rw [occurrences, getD_foldl_insert, Std.TreeMap.getD_emptyc, Nat.zero_add]

/-- Elements find their equals under the same multiplicities. -/
theorem eqEach_matched {available available' : Std.TreeMap Value Nat Value.cmp}
    (havailable : ∀ v, available.getD v 0 = available'.getD v 0) (h : EqEach xs ys) :
    EqEach (matched available xs) (matched available' ys) := by
  induction h generalizing available available' with
  | nil => exact .nil
  | @cons x y xs ys hxy _ ih =>
    have hcmp := Value.beq_iff_cmp_eq.mp hxy
    rw [matched, matched, ← havailable y, ← Std.TreeMap.getD_congr hcmp]
    split
    · exact ih havailable
    · refine .cons hxy (ih fun v => ?_)
      rw [Std.TreeMap.getD_insert, Std.TreeMap.getD_insert, havailable,
        Std.TransCmp.congr_left hcmp]

/-! ### Nested collections -/

theorem eqEach_leavesOfAll (hxs : EqEach xs ys)
    (h : ∀ x ∈ xs, ∀ y, x == y → EqEach (leaves x) (leaves y)) :
    EqEach (leavesOfAll xs) (leavesOfAll ys) := by
  induction hxs with
  | nil => exact .nil
  | cons hxy _ ih =>
    exact List.rel_append (h _ List.mem_cons_self _ hxy)
      (ih fun x hx => h x (List.mem_cons_of_mem _ hx))

/-- Equal values have equal leaves. -/
theorem eqEach_leaves {a b : Value} (h : a == b) : EqEach (leaves a) (leaves b) := by
  induction a using Value.memberInduction generalizing b with
  | step a ih =>
    rcases Value.collection?_of_beq h with ⟨ha, hb⟩ | ⟨c, d, ha, hb, hsame⟩
    · have hleaf {v : Value} (hv : v.collection? = none) : leaves v = [v] := by
        cases v <;> first | rfl | cases hv
      rw [hleaf ha, hleaf hb]
      exact .cons h .nil
    · have hall {v : Value} {e : Collection} (hv : v.collection? = some e) :
          v.members = e.elems ∧ leaves v = leavesOfAll e.elems := by
        cases v <;> cases hv
        exact ⟨rfl, rfl⟩
      obtain ⟨hmembers, hleaves⟩ := hall ha
      rw [hleaves, (hall hb).2]
      exact eqEach_leavesOfAll hsame.elems fun x hx y hxy => ih x (hmembers ▸ hx) hxy

/-! ### The results -/

theorem convert_congr (h : c.Same c') (kind : Kind) : c.convert kind == c'.convert kind :=
  Value.collectionOf_congr rfl h.elems _ _

theorem including_congr (h : c.Same c') (hv : v == v') (t t' : Ty) :
    c.including v t == c'.including v' t' :=
  Value.collectionOf_congr h.kind (List.rel_append h.elems (.cons hv .nil)) _ _

theorem prepend_congr (h : c.Same c') (hv : v == v') (t t' : Ty) :
    c.prepend v t == c'.prepend v' t' :=
  Value.collectionOf_congr h.kind (.cons hv h.elems) _ _

theorem excluding_congr (h : c.Same c') (hv : v == v') : c.excluding v == c'.excluding v' :=
  Value.collectionOf_congr h.kind
    (h.elems.filter fun _ _ hxy => congrArg (!·) (beq_congr hxy hv)) _ _

theorem union_congr (hc : c.Same c') (hd : d.Same d') (kind : Kind) (t t' : Ty) :
    c.union d kind t == c'.union d' kind t' :=
  Value.collectionOf_congr rfl (List.rel_append hc.elems hd.elems) _ _

theorem intersection_congr (hc : c.Same c') (hd : d.Same d') (kind : Kind) :
    c.intersection d kind == c'.intersection d' kind := by
  refine Value.collectionOf_congr rfl (eqEach_matched (fun v => ?_) hc.elems) _ _
  rw [getD_occurrences, getD_occurrences]
  exact count_congr hd (BEq.refl v)

theorem difference_congr (hc : c.Same c') (hd : d.Same d') : c.difference d == c'.difference d' :=
  Value.collectionOf_congr hc.kind (eqEach_outside hd hc.elems) _ _

theorem symmetricDifference_congr (hc : c.Same c') (hd : d.Same d') :
    c.symmetricDifference d == c'.symmetricDifference d' :=
  Value.collectionOf_congr hc.kind
    (List.rel_append (eqEach_outside hd hc.elems) (eqEach_outside hc hd.elems)) _ _

theorem includesAll_congr (hc : c.Same c') (hd : d.Same d') :
    c.includesAll d = c'.includesAll d' :=
  hd.elems.all fun _ _ hxy => has_index_congr hc hxy

theorem excludesAll_congr (hc : c.Same c') (hd : d.Same d') :
    c.excludesAll d = c'.excludesAll d' :=
  hd.elems.all fun _ _ hxy => congrArg (!·) (has_index_congr hc hxy)

theorem flatten_congr (h : c.Same c') : c.flatten == c'.flatten :=
  Value.collectionOf_congr h.kind
    (eqEach_leavesOfAll h.elems fun _ _ _ hxy => eqEach_leaves hxy) _ _

/-- The extremum is found by comparisons only, so equal elements win in the same places. -/
theorem extremum_congr (h : c.Same c') (wanted : Ordering) :
    c.extremum wanted == c'.extremum wanted := by
  obtain ⟨-, helems⟩ := h
  unfold extremum
  rw [helems.any fun _ _ => Value.isUndefined_eq_of_beq]
  split
  · exact BEq.refl _
  · generalize c.elems = xs at helems
    generalize c'.elems = ys at helems
    cases helems with
    | nil => exact BEq.refl _
    | cons hxy htail =>
      refine List.rel_foldl (P := fun a b => a == b) (fun best best' hbest v v' hv => ?_) hxy htail
      rw [cmp_congr hv hbest]
      split
      · exact hv
      · exact hbest

theorem elementAt_congr (h : c.Same c') (place : Value) :
    c.elementAt place == c'.elementAt place := by
  unfold elementAt
  split
  · split
    · exact h.elems.getD _ _
    · exact BEq.refl _
  · exact BEq.refl _

theorem indexOf_congr (h : c.Same c') (hv : v == v') : c.indexOf v == c'.indexOf v' := by
  rw [indexOf, indexOf, findIdx?_congr h.elems hv]
  exact BEq.refl _

theorem subSequence_congr (h : c.Same c') (lo hi : Value) :
    c.subSequence lo hi == c'.subSequence lo hi := by
  unfold subSequence
  rw [h.elems.length_eq]
  split
  · exact Value.collectionOf_congr h.kind (List.forall₂_take _ (List.forall₂_drop _ h.elems)) _ _
  · exact BEq.refl _

theorem withOther_congr {a a' : Value} (ha : a == a') {f f' : Collection → Value}
    (hf : ∀ d d', d.Same d' → f d == f' d') : withOther a f == withOther a' f' := by
  unfold withOther
  rcases Value.collection?_of_beq ha with ⟨hnone, hnone'⟩ | ⟨d, d', hd, hd', hsame⟩
  · rw [hnone, hnone']
    exact BEq.refl _
  · rw [hd, hd']
    exact hf d d' hsame

end Collection

namespace Operation

/-- The operations on collections whose results depend on the elements only up to equality; the sum
is not one of them. -/
def respectsEquality : Operation → Bool
  | size | isEmpty | notEmpty | includes | excludes | count | includesAll | excludesAll
  | maxElement | minElement | including | excluding | union | intersection | difference
  | symmetricDifference | flatten | asSet | asBag | asSequence | asOrderedSet | first | last
  | elementAt | append | prepend | indexOf | subSequence => true
  | _ => false

/-- The operations whose arguments are places in a collection. -/
def takesPlaces : Operation → Bool
  | elementAt | subSequence => true
  | _ => false

variable {op : Operation} {a a' : Value} {args args' : List Value} {ty ty' : Ty}

theorem onCollection_congr (hop : op.respectsEquality) {c c' : Collection} (hc : c.Same c')
    (hargs : EqEach args args') (hplaces : op.takesPlaces → args = args')
    (hkind : ty.kind? = ty'.kind?) : op.onCollection c args ty == op.onCollection c' args' ty' := by
  have ha : argument args 0 == argument args' 0 := hargs.getD 0 .undefined
  have hof {α : Type} (f : α → Value) {x y : α} (h : x = y) : f x == f y := h ▸ BEq.refl _
  have hlength := hc.elems.length_eq
  have hempty : c.elems.isEmpty = c'.elems.isEmpty := by
    rw [Bool.eq_iff_iff, List.isEmpty_iff_length_eq_zero, List.isEmpty_iff_length_eq_zero, hlength]
  unfold onCollection
  dsimp only
  cases op with
  | size => exact hof .ofNat hlength
  | isEmpty => exact hof .boolean hempty
  | notEmpty => exact hof (fun b => .boolean !b) hempty
  | includes => exact hof .boolean (Collection.has_index_congr hc ha)
  | excludes => exact hof (fun b => .boolean !b) (Collection.has_index_congr hc ha)
  | count => exact hof .ofNat (Collection.count_congr hc ha)
  | includesAll =>
    exact Collection.withOther_congr ha fun d d' hd =>
      hof .boolean (Collection.includesAll_congr hc hd)
  | excludesAll =>
    exact Collection.withOther_congr ha fun d d' hd =>
      hof .boolean (Collection.excludesAll_congr hc hd)
  | maxElement | minElement => exact Collection.extremum_congr hc _
  | including | append => exact Collection.including_congr hc ha _ _
  | prepend => exact Collection.prepend_congr hc ha _ _
  | excluding => exact Collection.excluding_congr hc ha
  | union =>
    rw [hkind, hc.kind]
    exact Collection.withOther_congr ha fun d d' hd => Collection.union_congr hc hd _ _ _
  | intersection =>
    rw [hkind, hc.kind]
    exact Collection.withOther_congr ha fun d d' hd => Collection.intersection_congr hc hd _
  | difference => exact Collection.withOther_congr ha fun d d' => Collection.difference_congr hc
  | symmetricDifference =>
    exact Collection.withOther_congr ha fun d d' => Collection.symmetricDifference_congr hc
  | flatten => exact Collection.flatten_congr hc
  | asSet | asBag | asSequence | asOrderedSet => exact Collection.convert_congr hc _
  | first => exact hc.elems.head?_getD _
  | last => exact hc.elems.getLast?_getD _
  | elementAt =>
    rw [hplaces rfl]
    exact Collection.elementAt_congr hc _
  | indexOf => exact Collection.indexOf_congr hc ha
  | subSequence =>
    rw [hplaces rfl]
    exact Collection.subSequence_congr hc _ _
  | _ => cases hop

theorem blocked_congr (ha : a == a') (hargs : EqEach args args') :
    op.blocked a args = op.blocked a' args' := by
  unfold blocked
  rw [Value.isUndefined_eq_of_beq ha, hargs.any fun _ _ => Value.isUndefined_eq_of_beq]

theorem compute_of_respectsEquality (hop : op.respectsEquality) :
    op.compute a args ty =
      match a.collection? with
      | some c => op.onCollection c args ty
      | none => .undefined := by
  cases op <;> first | rfl | cases hop

/-- Equal operands give equal results, as does making equal collections into collections of another
kind. Places are the same for both; the types of the results matter by their kinds only. -/
theorem apply_beq_apply (hop : op.respectsEquality) (ha : a == a') (hargs : EqEach args args')
    (hplaces : op.takesPlaces → args = args') (hkind : ty.kind? = ty'.kind?) :
    op.apply a args ty == op.apply a' args' ty' ∧
      ∀ c c' kind, a.collection? = some c → a'.collection? = some c' →
        c.convert kind == c'.convert kind := by
  unfold apply
  rw [blocked_congr ha hargs, compute_of_respectsEquality hop, compute_of_respectsEquality hop]
  rcases Value.collection?_of_beq ha with ⟨hnone, hnone'⟩ | ⟨c, c', hc, hc', hsame⟩
  · rw [hnone, hnone']
    refine ⟨?_, nofun⟩
    split <;> exact BEq.refl _
  · rw [hc, hc']
    constructor
    · split
      · exact BEq.refl _
      · exact onCollection_congr hop hsame hargs hplaces hkind
    · intro d d' kind hd hd'
      cases hd
      cases hd'
      exact Collection.convert_congr hsame kind

/-- The union of a set and a bag, with the numbers represented one way and the other. -/
theorem apply_beq_apply_union :
    union.apply (.collectionOf .set .integer [.integer 1, .integer 2])
        [.collectionOf .bag .real [.real (.ofInt64 2)]] (.collection .bag .real) ==
      union.apply (.collectionOf .set .real [.real (.ofInt64 1), .integer 2])
        [.collectionOf .bag .integer [.integer 2]] (.collection .bag .integer) :=
  have hset : Value.collectionOf .set .integer [.integer 1, .integer 2] ==
      Value.collectionOf .set .real [.real (.ofInt64 1), .integer 2] := by
    decide +kernel
  have hbag : Value.collectionOf .bag .real [.real (.ofInt64 2)] ==
      Value.collectionOf .bag .integer [.integer 2] := by
    decide +kernel
  have happly := @apply_beq_apply union _ _ _ _ (.collection .bag .real) (.collection .bag .integer)
    rfl hset (.cons hbag .nil) (fun h => absurd h (by decide)) rfl
  happly.1

end Operation

end ObjectConstraint
