import ObjectConstraint.Proofs.Joins
import ObjectConstraint.Value.Collection

/-!
# The values of a type

What it means that a value belongs to a type, whatever element types its collections were made
with.

* `Belongs` — the relation.
* `belongs_of_conforms` — a value passes to every type that its type conforms to.
* `belongs_join_left`, `belongs_join_right` — a join has the values of both types.
* `belongs_collectionOf` — the normal form of a kind holds no value that was not put in.
-/

namespace ObjectConstraint

/-- A value belongs to a type. The undefined value belongs to every type and every value to
`OclAny`. A collection belongs to the collection types of its kind, and of the abstract kind, to
whose element type all its elements belong; a tuple to the tuple types that have as many parts, and
under each of its names a part to which the value belongs. -/
inductive Belongs (H : Hierarchy) : Value → Ty → Prop
  | undefined (t : Ty) : Belongs H .undefined t
  | any (v : Value) : Belongs H v .any
  | boolean (b : Bool) : Belongs H (.boolean b) .boolean
  | integer (n : Int64) : Belongs H (.integer n) .integer
  | natural (n : Int64) (hn : 0 ≤ n.toInt) : Belongs H (.integer n) .unlimitedNatural
  | integerReal (n : Int64) : Belongs H (.integer n) .real
  | unlimited : Belongs H .unlimited .unlimitedNatural
  | unlimitedInteger : Belongs H .unlimited .integer
  | unlimitedReal : Belongs H .unlimited .real
  | real (x : Binary64.Finite) : Belongs H (.real x) .real
  | string (s : String) : Belongs H (.string s) .string
  | date (d : Date) : Belongs H (.date d) .date
  | object (o : ObjectRef) {cls : String} (hcls : H.conformsTo o.cls cls) :
    Belongs H (.object o) (.object cls)
  | collection {k l : Kind} {made elem : Ty} {elems : List Value}
    (hkind : k = l ∨ l = .collection) (helems : ∀ x ∈ elems, Belongs H x elem) :
    Belongs H (.collection k made elems) (.collection l elem)
  | tuple {ps : List (String × Value)} {ts : List (String × Ty)} (hlength : ps.length = ts.length)
    (hnames : ∀ p ∈ ps, (ts.lookup p.1).isSome)
    (hparts : ∀ p ∈ ps, ∀ t, ts.lookup p.1 = some t → Belongs H p.2 t) :
    Belongs H (.tuple ps) (.tuple ts)

namespace Hierarchy

variable {H : Hierarchy}

/-- A tuple belongs to a tuple type that has a type for each of its parts. -/
theorem belongs_tuple_of_found {ps : List (String × Value)} {ts : List (String × Ty)}
    (hlength : ps.length = ts.length)
    (hfound : ∀ p ∈ ps, ∃ t, ts.lookup p.1 = some t ∧ Belongs H p.2 t) :
    Belongs H (.tuple ps) (.tuple ts) := by
  refine .tuple hlength ?_ ?_
  · intro p hp
    obtain ⟨t, ht, -⟩ := hfound p hp
    exact Option.isSome_iff_exists.mpr ⟨t, ht⟩
  · intro p hp t ht
    obtain ⟨t', ht', hbelongs⟩ := hfound p hp
    obtain rfl := Option.some.inj (ht'.symm.trans ht)
    exact hbelongs

/-- A tuple passes to another tuple type part by part. -/
theorem belongs_tuple_of_parts {ps : List (String × Value)} {ts us : List (String × Ty)}
    (h : Belongs H (.tuple ps) (.tuple ts)) (hlength : ts.length = us.length)
    (hpart : ∀ p ∈ ps, ∀ t, ts.lookup p.1 = some t → Belongs H p.2 t →
      ∃ u, us.lookup p.1 = some u ∧ Belongs H p.2 u) : Belongs H (.tuple ps) (.tuple us) := by
  cases h with
  | tuple hlen hnames hparts =>
    refine belongs_tuple_of_found (hlen.trans hlength) ?_
    intro p hp
    obtain ⟨t, ht⟩ := Option.isSome_iff_exists.mp (hnames p hp)
    exact hpart p hp t ht (hparts p hp t ht)

/-! ### Conformance -/

/-- A value passes to every type that its type conforms to. -/
theorem belongs_of_conforms {v : Value} {a b : Ty} (h : Belongs H v a) (hconf : H.conforms a b) :
    Belongs H v b := by
  rw [conforms_iff] at hconf
  induction hconf generalizing v with
  | refl t => exact h
  | void t => cases h; exact .undefined t
  | any t => exact .any v
  | naturalInteger =>
    cases h with
    | undefined => exact .undefined _
    | natural n => exact .integer n
    | unlimited => exact .unlimitedInteger
  | naturalReal =>
    cases h with
    | undefined => exact .undefined _
    | natural n => exact .integerReal n
    | unlimited => exact .unlimitedReal
  | integerReal =>
    cases h with
    | undefined => exact .undefined _
    | integer n => exact .integerReal n
    | unlimitedInteger => exact .unlimitedReal
  | object hcd =>
    cases h with
    | undefined => exact .undefined _
    | object o hcls => exact .object o (conformsTo_trans hcls (H.conformsTo_iff.mpr hcd))
  | collection hkind _ ih =>
    cases h with
    | undefined => exact .undefined _
    | collection hkind' helems =>
      refine .collection ?_ fun x hx => ih (helems x hx)
      rcases hkind with rfl | rfl
      · exact hkind'
      · exact .inr rfl
  | @tuple ts us hlength hnames _ ih =>
    cases h with
    | undefined => exact .undefined _
    | @tuple ps _ hlength' hnames' hparts' =>
      refine belongs_tuple_of_parts (.tuple hlength' hnames' hparts') hlength ?_
      intro p _ t ht hbelongs
      have hmem : (p.1, t) ∈ ts := Parts.mem_of_lookup ht
      obtain ⟨u, hu⟩ := Option.isSome_iff_exists.mp (hnames _ hmem)
      exact ⟨u, hu, ih _ hmem u hu hbelongs⟩

/-! ### Joins -/

/-- A tuple of either of two types with the same names belongs to the type of their joins, if this
is so of its parts. -/
theorem belongs_joinParts {vs : List (String × Value)} {ps qs : List (String × Ty)}
    (hnames : ps.map Prod.fst = qs.map Prod.fst)
    (ih : ∀ p ∈ vs, ∀ t u, Belongs H p.2 t ∨ Belongs H p.2 u → Belongs H p.2 (H.join t u))
    (h : Belongs H (.tuple vs) (.tuple ps) ∨ Belongs H (.tuple vs) (.tuple qs)) :
    Belongs H (.tuple vs) (.tuple (H.joinParts ps qs)) := by
  have hleft : ps.length = (H.joinParts ps qs).length := (length_joinParts hnames).symm
  have hright : qs.length = (H.joinParts ps qs).length := by
    rw [← hleft]
    simpa using congrArg List.length hnames.symm
  rcases h with h | h
  · refine belongs_tuple_of_parts h hleft ?_
    intro p hp t ht hbelongs
    rcases lookup_joinParts (H := H) hnames p.1 with ⟨hnone, -⟩ | ⟨t', u, ht', -, hjoin⟩
    · simp [hnone] at ht
    · obtain rfl := Option.some.inj (ht'.symm.trans ht)
      exact ⟨_, hjoin, ih p hp _ _ (.inl hbelongs)⟩
  · refine belongs_tuple_of_parts h hright ?_
    intro p hp u hu hbelongs
    rcases lookup_joinParts (H := H) hnames p.1 with ⟨-, hnone⟩ | ⟨t, u', -, hu', hjoin⟩
    · simp [hnone] at hu
    · obtain rfl := Option.some.inj (hu'.symm.trans hu)
      exact ⟨_, hjoin, ih p hp _ _ (.inr hbelongs)⟩

/-- A value of either type belongs to the join. -/
theorem belongs_join {v : Value} {a b : Ty} (h : Belongs H v a ∨ Belongs H v b) :
    Belongs H v (H.join a b) := by
  induction v using Value.memberInduction generalizing a b with
  | step v ih =>
    by_cases hab : H.conforms a b
    · rw [join.eq_def, if_pos hab]
      exact h.elim (belongs_of_conforms · hab) id
    · by_cases hba : H.conforms b a
      · rw [join.eq_def, if_neg hab, if_pos hba]
        exact h.elim id (belongs_of_conforms · hba)
      · rw [join.eq_def, if_neg hab, if_neg hba]
        split
        · next c d =>
          cases hsup : H.commonSuperclass c d with
          | none => exact .any v
          | some sup =>
            obtain ⟨hc, hd⟩ := conformsTo_of_commonSuperclass hsup
            rcases h with h | h
            · cases h with
              | undefined => exact .undefined _
              | object o hcls => exact .object o (conformsTo_trans hcls hc)
            · cases h with
              | undefined => exact .undefined _
              | object o hcls => exact .object o (conformsTo_trans hcls hd)
        · next k e l f =>
          rcases h with h | h
          · cases h with
            | undefined => exact .undefined _
            | collection hkind helems =>
              refine .collection (kind_joinKind (.inl hkind)) ?_
              intro x hx
              exact ih x hx (.inl (helems x hx))
          · cases h with
            | undefined => exact .undefined _
            | collection hkind helems =>
              refine .collection (kind_joinKind (.inr hkind)) ?_
              intro x hx
              exact ih x hx (.inr (helems x hx))
        · next ps qs =>
          split
          · next hnames =>
            cases v with
            | undefined => exact .undefined _
            | tuple vs =>
              exact belongs_joinParts hnames
                (fun p hp t u hp' => ih p.2 (List.mem_map_of_mem hp) hp') h
            | _ => rcases h with h | h <;> cases h
          · exact .any v
        · exact .any v

theorem belongs_join_left {v : Value} {a : Ty} (h : Belongs H v a) (b : Ty) :
    Belongs H v (H.join a b) :=
  belongs_join (.inl h)

theorem belongs_join_right {v : Value} {b : Ty} (h : Belongs H v b) (a : Ty) :
    Belongs H v (H.join a b) :=
  belongs_join (.inr h)

end Hierarchy

/-! ### Normal forms -/

namespace Value

theorem mem_of_mem_dropRepeatsAfter {last x : Value} {xs : List Value}
    (h : x ∈ dropRepeatsAfter last xs) : x ∈ xs := by
  induction xs generalizing last with
  | nil => cases h
  | cons y ys ih =>
    rw [dropRepeatsAfter] at h
    split at h
    · exact List.mem_cons_of_mem _ (ih h)
    · rcases List.mem_cons.mp h with rfl | h
      · exact List.mem_cons_self
      · exact List.mem_cons_of_mem _ (ih h)

theorem mem_of_mem_dropRepeats {x : Value} {xs : List Value} (h : x ∈ dropRepeats xs) :
    x ∈ xs := by
  cases xs with
  | nil => cases h
  | cons y ys =>
    rcases List.mem_cons.mp h with rfl | h
    · exact List.mem_cons_self
    · exact List.mem_cons_of_mem _ (mem_of_mem_dropRepeatsAfter h)

theorem mem_of_mem_firstOccurrences {x : Value} {xs : List Value} {known : Known}
    (h : x ∈ (firstOccurrences known xs).1) : x ∈ xs := by
  induction xs generalizing known with
  | nil => cases h
  | cons y ys ih =>
    rw [firstOccurrences] at h
    split at h
    · exact List.mem_cons_of_mem _ (ih h)
    · rcases List.mem_cons.mp h with rfl | h
      · exact List.mem_cons_self
      · exact List.mem_cons_of_mem _ (ih h)

theorem mem_ascending {x : Value} {xs : List Value} : x ∈ ascending xs ↔ x ∈ xs := by
  unfold ascending
  split
  · exact Iff.rfl
  · exact (List.mergeSort_perm xs le).mem_iff

/-- A normal form holds no value that was not put in. -/
theorem mem_of_mem_normalForm {kind : Kind} {x : Value} {xs : List Value}
    (h : x ∈ normalForm kind xs) : x ∈ xs := by
  cases kind with
  | set => exact mem_ascending.mp (mem_of_mem_dropRepeats h)
  | bag => exact mem_ascending.mp h
  | collection => exact mem_ascending.mp h
  | orderedSet => exact mem_of_mem_firstOccurrences h
  | sequence => exact h

end Value

namespace Hierarchy

variable {H : Hierarchy}

/-- The collection of some values of a type belongs to the collection types of its kind, and of the
abstract kind, over that type. -/
theorem belongs_collectionOf {kind l : Kind} {elem : Ty} {elems : List Value} (made : Ty)
    (hkind : kind.concrete = l ∨ l = .collection) (helems : ∀ x ∈ elems, Belongs H x elem) :
    Belongs H (.collectionOf kind made elems) (.collection l elem) :=
  .collection hkind fun x hx => helems x (Value.mem_of_mem_normalForm hx)

end Hierarchy

end ObjectConstraint
