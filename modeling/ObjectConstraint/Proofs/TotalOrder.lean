import ObjectConstraint.Proofs.Numbers

/-!
# The order of values is total

Values are compared by rank, and within a rank by a comparison of the rank's own. Three values are
in `Chain` when the orders between them fit each other; chains combine as comparisons do that are
made one after the other, so the nested lists of collections and tuples need no argument of their
own.

* `swap_cmp` — the two directions of a comparison are opposite.
* `chain_cmp` — any three values are in chain.
* `cmp_isTotalOrder` — the order is total, and on numbers it is the order of what they denote.
-/

namespace ObjectConstraint

/-! ### Chains of orders -/

/-- The orders of `a` and `b`, of `b` and `c`, and of `a` and `c` fit each other: an equal value can
take the place of `b`, and equal orders pass on. -/
structure Chain (ab bc ac : Ordering) : Prop where
  of_eq_left : ab = .eq → ac = bc
  of_eq_right : bc = .eq → ac = ab
  of_same : ab = bc → ac = ab

namespace Chain

variable {ab bc ac ab' bc' ac' : Ordering}

/-- Comparisons one after the other; the second ones matter only where the first ones are equal. -/
theorem «then» (h : Chain ab bc ac) (h' : ab = .eq → bc = .eq → Chain ab' bc' ac') :
    Chain (ab.then ab') (bc.then bc') (ac.then ac') := by
  obtain ⟨hleft, hright, hsame⟩ := h
  cases ab with
  | eq =>
    rw [hleft rfl]
    cases bc with
    | eq => exact h' rfl rfl
    | lt => constructor <;> simp_all
    | gt => constructor <;> simp_all
  | lt =>
    cases bc with
    | eq =>
      rw [hright rfl]
      exact ⟨nofun, fun _ => rfl, fun _ => rfl⟩
    | lt =>
      rw [hsame rfl]
      exact ⟨nofun, nofun, fun _ => rfl⟩
    | gt => exact ⟨nofun, nofun, nofun⟩
  | gt =>
    cases bc with
    | eq =>
      rw [hright rfl]
      exact ⟨nofun, fun _ => rfl, fun _ => rfl⟩
    | lt => exact ⟨nofun, nofun, nofun⟩
    | gt =>
      rw [hsame rfl]
      exact ⟨nofun, nofun, fun _ => rfl⟩

theorem isLE (h : Chain ab bc ac) (hab : ab.isLE) (hbc : bc.isLE) : ac.isLE := by
  cases ab with
  | eq => exact h.of_eq_left rfl ▸ hbc
  | lt =>
    cases bc with
    | eq => exact h.of_eq_right rfl ▸ hab
    | lt => exact h.of_same rfl ▸ hab
    | gt => cases hbc
  | gt => cases hab

end Chain

theorem compare_swap {α : Type} [Ord α] [Std.OrientedOrd α] (x y : α) :
    (compare x y).swap = compare y x :=
  Std.OrientedOrd.eq_swap.symm

/-- Every order that is transitive in the usual sense chains. -/
theorem chain_of_transCmp {α : Type} (cmp : α → α → Ordering) [Std.TransCmp cmp] (a b c : α) :
    Chain (cmp a b) (cmp b c) (cmp a c) where
  of_eq_left h := Std.TransCmp.congr_left h
  of_eq_right h := (Std.TransCmp.congr_right h).symm
  of_same h := by
    cases hab : cmp a b with
    | lt => exact Std.TransCmp.lt_trans hab (h ▸ hab)
    | eq => exact Std.TransCmp.eq_trans hab (h ▸ hab)
    | gt => exact Std.TransCmp.gt_trans hab (h ▸ hab)

namespace Date

theorem swap_cmp (d e : Date) : (d.cmp e).swap = e.cmp d := by
  rw [cmp, cmp, Ordering.swap_then, compare_swap, compare_swap]

theorem chain_cmp (d e f : Date) : Chain (d.cmp e) (e.cmp f) (d.cmp f) :=
  (chain_of_transCmp compare d.year e.year f.year).then fun _ _ =>
    chain_of_transCmp compare d.withinYear e.withinYear f.withinYear

end Date

namespace Value

/-! ### Values of one rank -/

/-- Two values of one rank, by what they are compared by. -/
inductive Alike : Value → Value → Prop
  | undefined : Alike .undefined .undefined
  | boolean (x y : Bool) : Alike (.boolean x) (.boolean y)
  | string (s t : String) : Alike (.string s) (.string t)
  | date (d e : Date) : Alike (.date d) (.date e)
  | object (o p : ObjectRef) : Alike (.object o) (.object p)
  | collection (k l : Kind) (t u : Ty) (xs ys : List Value) :
    Alike (.collection k t xs) (.collection l u ys)
  | tuple (ps qs : List (String × Value)) : Alike (.tuple ps) (.tuple qs)
  | number {a b : Value} {x y : WithTop ℚ} (ha : a.number? = some x) (hb : b.number? = some y) :
    Alike a b

theorem alike_of_rank {a b : Value} (h : a.rank = b.rank) : Alike a b := by
  cases a <;> cases b <;> first | exact .number rfl rfl | (constructor; done) | cases h

theorem cmp_of_rank_ne {a b : Value} (h : a.rank ≠ b.rank) : cmp a b = compare a.rank b.rank := by
  cases a <;> cases b <;> first | rfl | exact absurd rfl h

/-- Ranks come first. -/
theorem cmp_eq_then (a b : Value) : cmp a b = (compare a.rank b.rank).then (cmp a b) := by
  by_cases h : a.rank = b.rank
  · rw [compare_eq_iff_eq.mpr h]
    rfl
  · rw [cmp_of_rank_ne h]
    cases compare a.rank b.rank <;> rfl

/-! ### The two directions of a comparison -/

theorem swap_cmpList {xs : List Value} (h : ∀ x ∈ xs, ∀ y, (cmp x y).swap = cmp y x)
    (ys : List Value) : (cmpList xs ys).swap = cmpList ys xs := by
  induction xs generalizing ys with
  | nil => cases ys <;> rfl
  | cons x xs ih =>
    cases ys with
    | nil => rfl
    | cons y ys =>
      rw [cmpList, cmpList, Ordering.swap_then, h x List.mem_cons_self,
        ih fun x hx => h x (List.mem_cons_of_mem _ hx)]

theorem swap_cmpParts {ps : List (String × Value)}
    (h : ∀ x ∈ ps.map Prod.snd, ∀ y, (cmp x y).swap = cmp y x) (qs : List (String × Value)) :
    (cmpParts ps qs).swap = cmpParts qs ps := by
  induction ps generalizing qs with
  | nil => cases qs <;> rfl
  | cons p ps ih =>
    cases qs with
    | nil => rfl
    | cons q qs =>
      obtain ⟨m, x⟩ := p
      obtain ⟨n, y⟩ := q
      rw [cmpParts, cmpParts, Ordering.swap_then, Ordering.swap_then, compare_swap,
        h x List.mem_cons_self, ih fun x hx => h x (List.mem_cons_of_mem _ hx)]

/-- The two directions of a comparison are opposite. -/
theorem swap_cmp (a b : Value) : (cmp a b).swap = cmp b a := by
  induction a using memberInduction generalizing b with
  | step a ih =>
    by_cases hrank : a.rank = b.rank
    · cases alike_of_rank hrank with
      | undefined => rfl
      | boolean x y => exact compare_swap x y
      | string s t => exact compare_swap s t
      | date d e => exact d.swap_cmp e
      | object o p => exact compare_swap o.id p.id
      | collection k l t u xs ys =>
        have helems : (cmpList xs ys).swap = cmpList ys xs := swap_cmpList ih ys
        rw [cmp, cmp, Ordering.swap_then, compare_swap, helems]
      | tuple ps qs => exact swap_cmpParts ih qs
      | number ha hb => rw [cmp_eq_compare_number ha hb, cmp_eq_compare_number hb ha, compare_swap]
    · rw [cmp_of_rank_ne hrank, cmp_of_rank_ne (Ne.symm hrank), compare_swap]

theorem cmp_self (a : Value) : cmp a a = .eq := by
  have h := swap_cmp a a
  cases hc : cmp a a with
  | eq => rfl
  | lt => simp [hc] at h
  | gt => simp [hc] at h

/-! ### Three values -/

theorem chain_cmpList {xs : List Value}
    (h : ∀ x ∈ xs, ∀ y z, Chain (cmp x y) (cmp y z) (cmp x z)) (ys zs : List Value) :
    Chain (cmpList xs ys) (cmpList ys zs) (cmpList xs zs) := by
  induction xs generalizing ys zs with
  | nil => cases ys <;> cases zs <;> constructor <;> simp [cmpList]
  | cons x xs ih =>
    rcases ys with _ | ⟨y, ys⟩
    · cases zs <;> constructor <;> simp [cmpList]
    · rcases zs with _ | ⟨z, zs⟩
      · constructor <;> simp +contextual [cmpList]
      · exact (h x List.mem_cons_self y z).then fun _ _ =>
          ih (fun x hx => h x (List.mem_cons_of_mem _ hx)) ys zs

theorem chain_cmpParts {ps : List (String × Value)}
    (h : ∀ x ∈ ps.map Prod.snd, ∀ y z, Chain (cmp x y) (cmp y z) (cmp x z))
    (qs rs : List (String × Value)) :
    Chain (cmpParts ps qs) (cmpParts qs rs) (cmpParts ps rs) := by
  induction ps generalizing qs rs with
  | nil => cases qs <;> cases rs <;> constructor <;> simp [cmpParts]
  | cons p ps ih =>
    rcases qs with _ | ⟨q, qs⟩
    · cases rs <;> constructor <;> simp [cmpParts]
    · rcases rs with _ | ⟨r, rs⟩
      · constructor <;> simp +contextual [cmpParts]
      · refine (chain_of_transCmp compare p.1 q.1 r.1).then ?_
        intro _ _
        exact (h p.2 List.mem_cons_self q.2 r.2).then fun _ _ =>
          ih (fun x hx => h x (List.mem_cons_of_mem _ hx)) qs rs

/-- The orders between any three values fit each other. -/
theorem chain_cmp (a b c : Value) : Chain (cmp a b) (cmp b c) (cmp a c) := by
  induction a using memberInduction generalizing b c with
  | step a ih =>
    rw [cmp_eq_then a b, cmp_eq_then b c, cmp_eq_then a c]
    refine (chain_of_transCmp compare a.rank b.rank c.rank).then ?_
    intro hab hbc
    have hbc := alike_of_rank (compare_eq_iff_eq.mp hbc)
    cases alike_of_rank (compare_eq_iff_eq.mp hab) with
    | undefined =>
      cases hbc with
      | undefined => constructor <;> simp [cmp_self]
      | number hb => cases hb
    | boolean x y =>
      cases hbc with
      | boolean _ z => exact chain_of_transCmp compare x y z
      | number hb => cases hb
    | string s t =>
      cases hbc with
      | string _ u => exact chain_of_transCmp compare s t u
      | number hb => cases hb
    | date d e =>
      cases hbc with
      | date _ f => exact d.chain_cmp e f
      | number hb => cases hb
    | object o p =>
      cases hbc with
      | object _ q => exact chain_of_transCmp compare o.id p.id q.id
      | number hb => cases hb
    | collection k l t u xs ys =>
      cases hbc with
      | collection _ m _ v _ zs =>
        exact (chain_of_transCmp compare k.rank l.rank m.rank).then fun _ _ =>
          chain_cmpList ih ys zs
      | number hb => cases hb
    | tuple ps qs =>
      cases hbc with
      | tuple _ rs => exact chain_cmpParts ih qs rs
      | number hb => cases hb
    | number ha hb =>
      cases hbc with
      | number hb' hc =>
        obtain rfl := Option.some.inj (hb.symm.trans hb')
        rw [cmp_eq_compare_number ha hb, cmp_eq_compare_number hb hc, cmp_eq_compare_number ha hc]
        exact chain_of_transCmp compare _ _ _
      | _ => cases hb

/-! ### The total order -/

instance : Std.OrientedCmp cmp where
  eq_swap := (swap_cmp _ _).symm

instance : Std.TransCmp cmp where
  isLE_trans := (chain_cmp _ _ _).isLE

theorem le_total (a b : Value) : le a b ∨ le b a := by
  unfold le
  rw [← swap_cmp a b]
  cases cmp a b <;> simp

theorem beq_of_le_of_le {a b : Value} (hab : le a b) (hba : le b a) : a == b := by
  have hcmp : cmp a b = .eq := Std.OrientedCmp.isLE_antisymm hab hba
  show (cmp a b == .eq) = true
  rw [hcmp]
  rfl

theorem beq_iff_cmp_eq {a b : Value} : a == b ↔ cmp a b = .eq := by
  show (cmp a b == .eq) = true ↔ _
  exact beq_iff_eq

/-- An integer and a real are equal exactly when they denote the same number. -/
theorem integer_beq_real_iff (n : Int64) (x : Binary64.Finite) :
    integer n == real x ↔ (n.toInt : ℚ) = x.toRat := by
  rw [beq_iff_cmp_eq, cmp_eq_compare_number rfl rfl, compare_coe, compare_eq_iff_eq]

/-- The comparison of values is one total order: each value is equal to itself, two values before
each other are equal, the order passes on, and any two values are related. On numbers it is the
order of the numbers denoted, the unlimited one above all others. -/
theorem cmp_isTotalOrder (a b c : Value) :
    a == a ∧ (cmp a b).swap = cmp b a ∧ (le a b → le b a → a == b) ∧
      (le a b → le b c → le a c) ∧ (le a b ∨ le b a) ∧
      (∀ x y, a.number? = some x → b.number? = some y → cmp a b = compare x y) ∧
      (∀ n x, integer n == real x ↔ (n.toInt : ℚ) = x.toRat) ∧
      unlimited == unlimited ∧ (∀ x : ℚ, a.number? = some x → cmp a unlimited = .lt) := by
  refine ⟨beq_iff_cmp_eq.mpr (cmp_self a), swap_cmp a b, beq_of_le_of_le, (chain_cmp a b c).isLE,
    le_total a b, fun x y => cmp_eq_compare_number, integer_beq_real_iff, rfl, fun x hx => ?_⟩
  rw [cmp_eq_compare_number hx rfl]
  exact compare_lt_iff_lt.mpr (WithTop.coe_lt_top x)

/-- An integer just above the integers that reals denote exactly stands between two numbers of
other forms. -/
theorem cmp_isTotalOrder_mixed :
    le (real (.ofInt64 9007199254740992)) unlimited ∧
      ¬ integer 9007199254740993 == real (.ofInt64 9007199254740992) := by
  obtain ⟨-, -, -, htrans, -⟩ := cmp_isTotalOrder (real (.ofInt64 9007199254740992))
    (integer 9007199254740993) unlimited
  exact ⟨htrans (by decide +kernel) (by decide +kernel), by decide +kernel⟩

end Value

end ObjectConstraint
