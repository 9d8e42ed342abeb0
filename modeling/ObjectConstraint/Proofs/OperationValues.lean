import ObjectConstraint.Operation.Apply
import ObjectConstraint.Proofs.Belonging
import ObjectConstraint.Proofs.Signatures

/-!
# The values of the standard operations

The tables that type an operation and the code that computes it are two. They agree on every
operation but the symmetric difference, whose result keeps the element type of the receiver
although elements of the argument can enter it.

* `Operation.belongs_compute` — every other operation gives a value of its result type.
* `Operation.belongs_symmetricDifference` — when a symmetric difference does.
* `Operation.apply_belongs_iff` — both together, for whatever is resolved.
-/

namespace ObjectConstraint

variable {H : Hierarchy}

/-! ### Numbers -/

namespace Value

/-- The types at which arithmetic is done. -/
def IsArithmetic (t : Ty) : Prop := t = .real ∨ t = .integer

variable {a b : Value} {t : Ty}

theorem belongs_ofInt (ht : IsArithmetic t) (n : Int) : Belongs H (ofInt n) t := by
  unfold ofInt
  split
  · rcases ht with rfl | rfl
    · exact .integerReal _
    · exact .integer _
  · exact .undefined _

theorem belongs_ofNat (n : Nat) : Belongs H (ofNat n) .integer := belongs_ofInt (.inr rfl) _

theorem belongs_ofReal? (x : Option Binary64.Finite) : Belongs H (ofReal? x) .real := by
  cases x with
  | none => exact .undefined _
  | some x => exact .real x

theorem belongs_ofBool? (b : Option Bool) : Belongs H (ofBool? b) .boolean := by
  cases b with
  | none => exact .undefined _
  | some b => exact .boolean b

/-- A type that has one real has them all. -/
theorem belongs_real {x : Binary64.Finite} (h : Belongs H (real x) t) (y : Binary64.Finite) :
    Belongs H (real y) t := by
  cases h with
  | any => exact .any _
  | real => exact .real y

theorem belongs_promote (h : Belongs H a t) : Belongs H (a.promote t) t := by
  unfold promote
  split
  · exact .real _
  · exact h

theorem belongs_arithmetic (onInts : Int → Int → Int)
    (onReals : Binary64.Finite → Binary64.Finite → Option Binary64.Finite) (ht : IsArithmetic t)
    (ha : Belongs H a t) (hb : Belongs H b t) : Belongs H (arithmetic onInts onReals a b) t := by
  unfold arithmetic
  split
  · exact belongs_ofInt ht _
  · split
    · next hints x y hx hy =>
      -- One of the operands is a real, so the type is the type of reals.
      have hreal : t = .real := by
        rcases ht with rfl | rfl
        · rfl
        · cases ha <;> cases hb <;> simp_all [real?]
      exact hreal ▸ belongs_ofReal? _
    · exact .undefined _

theorem belongs_neg (ht : IsArithmetic t) (ha : Belongs H a t) : Belongs H a.neg t := by
  cases a with
  | integer n => exact belongs_ofInt ht _
  | real x => exact belongs_real ha _
  | _ => exact .undefined _

theorem belongs_abs (ht : IsArithmetic t) (ha : Belongs H a t) : Belongs H a.abs t := by
  cases a with
  | integer n => exact belongs_ofInt ht _
  | real x => exact belongs_real ha _
  | unlimited => exact ha
  | _ => exact .undefined _

/-- The greater of two values is one of them. -/
theorem max_rec {P : Value → Prop} (ha : P a) (hb : P b) : P (a.max b) := by
  unfold Value.max
  split
  · exact ha
  · exact hb

/-- The smaller of two values is one of them. -/
theorem min_rec {P : Value → Prop} (ha : P a) (hb : P b) : P (a.min b) := by
  unfold Value.min
  split
  · exact hb
  · exact ha

end Value

namespace Hierarchy

theorem isArithmetic_promotedType (r s : Ty) : Value.IsArithmetic (promotedType r s) := by
  unfold promotedType
  split
  · exact .inl rfl
  · exact .inr rfl

theorem conforms_integer_of_real {t : Ty} (h : H.conforms t .real) (hne : t ≠ .real) :
    H.conforms t .integer := by
  cases t <;> simp_all [conforms]

/-- Numbers of two types belong to the type of their sum. -/
theorem belongs_promotedType {v : Value} {r s : Ty} (hr : H.conforms r .real)
    (hs : H.conforms s .real) (h : Belongs H v r ∨ Belongs H v s) :
    Belongs H v (promotedType r s) := by
  unfold promotedType
  split
  · exact h.elim (belongs_of_conforms · hr) (belongs_of_conforms · hs)
  · next hreal =>
    simp only [Bool.or_eq_true, decide_eq_true_eq, not_or] at hreal
    exact h.elim (belongs_of_conforms · (conforms_integer_of_real hr hreal.1))
      (belongs_of_conforms · (conforms_integer_of_real hs hreal.2))

theorem conforms_real_of_isNumeric {t : Ty} (h : t.isNumeric) : H.conforms t .real := by
  cases t <;> simp_all [conforms, Ty.isNumeric]

end Hierarchy

/-! ### Operations with a result type of their own -/

namespace Operation

theorem belongs_withOther {arg : Value} {f : Collection → Value} {t : Ty}
    (h : ∀ d, arg.collection? = some d → Belongs H (f d) t) :
    Belongs H (Collection.withOther arg f) t := by
  unfold Collection.withOther
  split
  · next d hd => exact h d hd
  · exact .undefined _

theorem belongs_onCollection_own {op : Operation} {t : Ty} (h : op.ownResult = some t)
    (c : Collection) (args : List Value) (ty : Ty) : Belongs H (op.onCollection c args ty) t := by
  cases op <;> cases h
  case size => exact Value.belongs_ofNat _
  case count => exact Value.belongs_ofNat _
  case indexOf =>
    show Belongs H (c.indexOf _) .integer
    unfold Collection.indexOf
    split
    · exact Value.belongs_ofNat _
    · exact .undefined _
  case includesAll => exact belongs_withOther fun _ _ => .boolean _
  case excludesAll => exact belongs_withOther fun _ _ => .boolean _
  all_goals first | exact .boolean _ | exact .undefined _

theorem belongs_onString {v : Value} {f : String → Value} {t : Ty} (h : ∀ s, Belongs H (f s) t) :
    Belongs H (v.onString f) t := by
  cases v with
  | string s => exact h s
  | _ => exact .undefined _

theorem belongs_readInteger (s : String) : Belongs H (Value.readInteger s) .integer := by
  unfold Value.readInteger
  split
  · exact Value.belongs_ofInt (.inr rfl) _
  · exact .undefined _

theorem belongs_readReal (s : String) : Belongs H (Value.readReal s) .real := by
  unfold Value.readReal
  split
  · exact Value.belongs_ofReal? _
  · exact .undefined _

theorem belongs_substring (s : String) (lo hi : Value) :
    Belongs H (Value.substring s lo hi) .string := by
  unfold Value.substring
  split
  · exact .string _
  · exact .undefined _

theorem belongs_concat (a b : Value) : Belongs H (a.concat b) .string := by
  unfold Value.concat
  split
  · exact .string _
  · exact .undefined _

theorem belongs_div (a b : Value) : Belongs H (a.div b) .real := by
  unfold Value.div
  split
  · exact Value.belongs_ofReal? _
  · exact .undefined _

theorem belongs_floor (a : Value) : Belongs H a.floor .integer := by
  cases a with
  | integer n => exact .integer n
  | real x => exact Value.belongs_ofInt (.inr rfl) _
  | _ => exact .undefined _

theorem belongs_round (a : Value) : Belongs H a.round .integer := by
  cases a with
  | integer n => exact .integer n
  | real x =>
    rw [Value.round]
    generalize x.add? .half = sum
    cases sum with
    | none => exact .undefined _
    | some y => exact Value.belongs_ofInt (.inr rfl) _
  | _ => exact .undefined _

theorem belongs_intDiv (a b : Value) : Belongs H (a.intDiv b) .integer := by
  unfold Value.intDiv
  split
  · split
    · exact .undefined _
    · exact Value.belongs_ofInt (.inr rfl) _
  · exact .undefined _

theorem belongs_mod (a b : Value) : Belongs H (a.mod b) .integer := by
  unfold Value.mod
  split
  · split
    · exact .undefined _
    · exact Value.belongs_ofInt (.inr rfl) _
  · exact .undefined _

/-- An operation with a result type of its own gives values of that type on all operands. -/
theorem belongs_compute_own {op : Operation} {t : Ty} (h : op.ownResult = some t)
    (receiver : Value) (args : List Value) (ty : Ty) :
    Belongs H (op.compute receiver args ty) t := by
  have honCollection : Belongs H
      (Collection.withOther receiver fun c => op.onCollection c args ty) t :=
    belongs_withOther fun c _ => belongs_onCollection_own h c args ty
  cases op <;> cases h
  case and | or | xor | implies | not => exact Value.belongs_ofBool? _
  case eq | ne | isUndefined | isDefined | lt | gt | le | ge => exact .boolean _
  case div => exact belongs_div _ _
  case floor => exact belongs_floor _
  case round => exact belongs_round _
  case intDiv => exact belongs_intDiv _ _
  case mod => exact belongs_mod _ _
  case concat => exact belongs_concat _ _
  case length => exact belongs_onString fun s => Value.belongs_ofNat _
  case toUpper | toLower => exact belongs_onString fun s => .string _
  case substring => exact belongs_onString fun s => belongs_substring s _ _
  case toInteger => exact belongs_onString belongs_readInteger
  case toReal => exact belongs_onString belongs_readReal
  all_goals exact honCollection

end Operation

/-! ### Operations on elements -/

namespace Collection

variable {c d : Collection} {elem otherElem : Ty}

theorem mem_of_mem_matched {x : Value} {xs : List Value}
    {available : Std.TreeMap Value Nat Value.cmp} (h : x ∈ matched available xs) : x ∈ xs := by
  induction xs generalizing available with
  | nil => cases h
  | cons y ys ih =>
    rw [matched] at h
    split at h
    · exact List.mem_cons_of_mem _ (ih h)
    · rcases List.mem_cons.mp h with rfl | h
      · exact List.mem_cons_self
      · exact List.mem_cons_of_mem _ (ih h)

theorem mem_of_mem_outside {x : Value} {xs : List Value} {index : Index}
    (h : x ∈ outside index xs) : x ∈ xs :=
  List.mem_of_mem_filter h

/-- A value is undefined or an element. -/
def Gives (c : Collection) (v : Value) : Prop := v = .undefined ∨ v ∈ c.elems

theorem Gives.elim {P : Value → Prop} {v : Value} (h : c.Gives v) (hundefined : P .undefined)
    (helems : ∀ x ∈ c.elems, P x) : P v := by
  rcases h with rfl | h
  · exact hundefined
  · exact helems v h

theorem gives_head? : c.Gives (c.elems.head?.getD .undefined) := by
  cases hhead : c.elems.head? with
  | none => exact .inl rfl
  | some x => exact .inr (List.mem_of_mem_head? hhead)

theorem gives_getLast? : c.Gives (c.elems.getLast?.getD .undefined) := by
  cases hlast : c.elems.getLast? with
  | none => exact .inl rfl
  | some x => exact .inr (List.mem_of_mem_getLast? hlast)

theorem gives_elementAt (place : Value) : c.Gives (c.elementAt place) := by
  unfold elementAt
  split
  · next i =>
    split
    · rw [List.getD_eq_getElem?_getD]
      cases hget : c.elems[(i.toInt - 1).toNat]? with
      | none => exact .inl rfl
      | some x => exact .inr (List.mem_of_getElem? hget)
    · exact .inl rfl
  · exact .inl rfl

theorem gives_extremum (wanted : Ordering) : c.Gives (c.extremum wanted) := by
  unfold extremum
  split
  · exact .inl rfl
  · split
    · exact .inl rfl
    · next v vs helems =>
      refine .inr ?_
      rw [helems]
      clear helems
      -- The best element so far is the first one or comes from the rest.
      induction vs generalizing v with
      | nil => exact List.mem_cons_self
      | cons w ws ih =>
        rw [List.foldl_cons]
        split
        · exact List.mem_cons_of_mem _ (ih w)
        · rcases List.mem_cons.mp (ih v) with heq | hmem
          · exact List.mem_cons.mpr (.inl heq)
          · exact List.mem_cons_of_mem _ (List.mem_cons_of_mem _ hmem)

/-- What holds of the start of a sum and passes on with every addition holds of the sum. -/
theorem foldl_addTo {P : Value → Prop} {xs : List Value}
    (hadd : ∀ acc, P acc → ∀ x ∈ xs, P (acc.add x)) {start total : Value} (hstart : P start)
    (htotal : xs.foldl addTo (some start) = some total) : P total := by
  induction xs generalizing start with
  | nil =>
    obtain rfl := Option.some.inj htotal
    exact hstart
  | cons x xs ih =>
    have hnone : ∀ ys : List Value, ys.foldl addTo none = none := fun ys => by
      induction ys with
      | nil => rfl
      | cons y ys ih => exact ih
    have hnext : P (start.add x) := hadd start hstart x List.mem_cons_self
    rw [List.foldl_cons, addTo] at htotal
    split at htotal
    · simp [hnone] at htotal
    · split at htotal
      · simp [hnone] at htotal
      · exact ih (fun acc hacc y hy => hadd acc hacc y (List.mem_cons_of_mem _ hy)) hnext htotal

theorem belongs_sum {t : Ty} (ht : Value.IsArithmetic t) (h : ∀ x ∈ c.elems, Belongs H x t) :
    Belongs H (c.sum t) t := by
  unfold sum
  split
  · next total htotal =>
    have hadd : ∀ acc, Belongs H acc t → ∀ x ∈ c.elems, Belongs H (acc.add x) t :=
      fun acc hacc x hx => Value.belongs_arithmetic _ _ ht hacc (h x hx)
    refine Value.belongs_promote (foldl_addTo hadd (Value.belongs_promote ?_) htotal)
    rcases ht with rfl | rfl
    · exact .integerReal _
    · exact .integer _
  · exact .undefined _

theorem mem_leavesOfAll {x : Value} {vs : List Value} :
    x ∈ leavesOfAll vs ↔ ∃ v ∈ vs, x ∈ leaves v := by
  induction vs with
  | nil => simp [leavesOfAll]
  | cons v vs ih => simp [leavesOfAll, ih]

/-- The values inside all levels of a value have what passes to the members of a value. -/
theorem forall_leaves {P : Value → Prop} (hmember : ∀ {v w : Value}, P v → w ∈ v.members → P w)
    {v : Value} (h : P v) : ∀ x ∈ leaves v, P x := by
  induction v using Value.memberInduction with
  | step v ih =>
    intro x hx
    cases v with
    | collection kind made elems =>
      obtain ⟨w, hw, hx⟩ := mem_leavesOfAll.mp hx
      exact ih w hw (hmember h hw) x hx
    | _ =>
      obtain rfl := List.mem_singleton.mp hx
      exact h

/-- The values inside all levels of a value of a type belong to the innermost type. -/
theorem belongs_leaves {v : Value} {t : Ty} (h : Belongs H v t) :
    ∀ x ∈ leaves v, Belongs H x t.innermost := by
  induction h with
  | @collection k l made elem elems hkind helems ih =>
    intro x hx
    obtain ⟨w, hw, hx⟩ := mem_leavesOfAll.mp hx
    exact ih w hw x hx
  | any v => exact fun x _ => .any x
  | undefined t =>
    intro x hx
    obtain rfl := List.mem_singleton.mp hx
    exact .undefined _
  | _ =>
    intro x hx
    obtain rfl := List.mem_singleton.mp hx
    constructor <;> assumption

end Collection

/-! ### All operations -/

namespace Operation

variable {op : Operation} {table result : Ty} {argTypes : List Ty} {receiver : Value}
  {args : List Value}

theorem concrete_of_unionKind {k l m : Kind} (h : unionKind k l = some m) : m.concrete = m := by
  cases k <;> cases l <;> cases h <;> rfl

theorem concrete_of_intersectionKind {k l m : Kind} (h : intersectionKind k l = some m) :
    m.concrete = m := by
  cases k <;> cases l <;> cases h <;> rfl

/-- A collection of a type whose kind is not the abstract one has that kind. -/
theorem concrete_of_fits {k l : Kind} (h : k = l ∨ l = .collection) (hl : l ≠ .collection) :
    k.concrete = l := by
  rcases h with rfl | rfl
  · exact Kind.concrete_of_ne hl
  · exact absurd rfl hl

/-- A collection taken apart has the kind and the elements that its type says. -/
theorem fits_of_collection? {v : Value} {c : Collection} {kind : Kind} {elem : Ty}
    (h : Belongs H v (.collection kind elem)) (hc : v.collection? = some c) :
    (c.kind = kind ∨ kind = .collection) ∧ ∀ x ∈ c.elems, Belongs H x elem := by
  cases h with
  | undefined => cases hc
  | collection hkind helems =>
    obtain rfl := Option.some.inj hc
    exact ⟨hkind, helems⟩

/-- An operation on a collection is undefined on the undefined value. -/
theorem belongs_of_onCollection {v : Value} {kind : Kind} {elem t : Ty}
    {f : Collection → Value} (hv : Belongs H v (.collection kind elem))
    (h : ∀ c, (c.kind = kind ∨ kind = .collection) → (∀ x ∈ c.elems, Belongs H x elem) →
      Belongs H (f c) t) : Belongs H (Collection.withOther v f) t :=
  belongs_withOther fun c hc =>
    have hfits := fits_of_collection? hv hc
    h c hfits.1 hfits.2

/-- What is computed from two numbers is of the type of their sum. -/
theorem belongs_compute_arithmetic {table a : Ty} (hop : op ∈ [.add, .sub, .mul, .max, .min])
    (htable : table.isNumeric) (ha : H.conforms a .real) (hreceiver : Belongs H receiver table)
    (hargs : List.Forall₂ (Belongs H) args [a]) :
    Belongs H (op.compute receiver args (Hierarchy.promotedType table a))
      (Hierarchy.promotedType table a) := by
  obtain ⟨arg, rest, harg, hrest, rfl⟩ := List.forall₂_cons_right_iff.mp hargs
  obtain rfl := List.forall₂_nil_right_iff.mp hrest
  have hreal := Hierarchy.conforms_real_of_isNumeric (H := H) htable
  have hreceiver' := Hierarchy.belongs_promotedType hreal ha (.inl hreceiver)
  have harg' := Hierarchy.belongs_promotedType hreal ha (.inr harg)
  have harith := Hierarchy.isArithmetic_promotedType table a
  simp only [List.mem_cons, List.not_mem_nil, or_false] at hop
  rcases hop with rfl | rfl | rfl | rfl | rfl
  · exact Value.belongs_promote (Value.belongs_arithmetic _ _ harith hreceiver' harg')
  · exact Value.belongs_promote (Value.belongs_arithmetic _ _ harith hreceiver' harg')
  · exact Value.belongs_promote (Value.belongs_arithmetic _ _ harith hreceiver' harg')
  · exact Value.belongs_promote (Value.max_rec (P := (Belongs H · _)) hreceiver' harg')
  · exact Value.belongs_promote (Value.min_rec (P := (Belongs H · _)) hreceiver' harg')

/-- A collection with one more element has its own elements and the new one. -/
theorem exists_compute_extend (hop : op ∈ [.including, .append, .prepend]) (receiver arg : Value)
    (rest : List Value) (kind : Kind) (elem : Ty) :
    ∃ extended : Collection → List Value,
      op.compute receiver (arg :: rest) (.collection kind elem) =
          Collection.withOther receiver (fun c => .collectionOf c.kind elem (extended c)) ∧
        ∀ c, ∀ x ∈ extended c, x ∈ c.elems ∨ x = arg := by
  simp only [List.mem_cons, List.not_mem_nil, or_false] at hop
  rcases hop with rfl | rfl | rfl
  · exact ⟨fun c => c.elems ++ [arg], rfl, fun c x hx => by simpa using hx⟩
  · exact ⟨fun c => c.elems ++ [arg], rfl, fun c x hx => by simpa using hx⟩
  · exact ⟨fun c => arg :: c.elems, rfl, fun c x hx => (List.mem_cons.mp hx).symm⟩

/-- Every operation but the symmetric difference gives a value of the type of its signature. -/
theorem belongs_compute (hsig : H.HasSignature op table argTypes result)
    (hreceiver : Belongs H receiver table) (hargs : List.Forall₂ (Belongs H) args argTypes)
    (hop : op ≠ .symmetricDifference) : Belongs H (op.compute receiver args result) result := by
  cases hsig with
  | own _ hown => exact belongs_compute_own hown _ _ _
  | sign hsign htable =>
    have hreal := Hierarchy.conforms_real_of_isNumeric (H := H) htable
    have hpromoted := Hierarchy.belongs_promotedType hreal hreal (.inl hreceiver)
    have harith := Hierarchy.isArithmetic_promotedType table table
    rcases hsign with rfl | rfl
    · exact Value.belongs_neg harith hpromoted
    · exact Value.belongs_abs harith hpromoted
  | arithmetic harithmetic htable ha =>
    exact belongs_compute_arithmetic harithmetic htable ha hreceiver hargs
  | @sum kind elem helem =>
    refine belongs_of_onCollection (f := fun c => c.sum _) hreceiver ?_
    intro c _ hc
    refine Collection.belongs_sum ?_ ?_
    · split
      · exact .inl rfl
      · exact .inr rfl
    · intro x hx
      split
      · next hreal => exact hreal ▸ hc x hx
      · next hreal =>
        have hconf := Hierarchy.conforms_integer_of_real helem hreal
        exact Hierarchy.belongs_of_conforms (hc x hx) hconf
  | pick kind elem hpick =>
    simp only [List.mem_cons, List.not_mem_nil, or_false] at hpick
    rcases hpick with rfl | rfl | rfl | rfl
    · exact belongs_of_onCollection hreceiver fun c _ => (c.gives_extremum .gt).elim (.undefined _)
    · exact belongs_of_onCollection hreceiver fun c _ => (c.gives_extremum .lt).elim (.undefined _)
    · exact belongs_of_onCollection hreceiver fun c _ => c.gives_head?.elim (.undefined _)
    · exact belongs_of_onCollection hreceiver fun c _ => c.gives_getLast?.elim (.undefined _)
  | elementAt kind elem a =>
    exact belongs_of_onCollection hreceiver fun c _ => (c.gives_elementAt _).elim (.undefined _)
  | convert kind elem hconvert =>
    simp only [List.mem_cons, Prod.mk.injEq, List.not_mem_nil, or_false] at hconvert
    rcases hconvert with ⟨rfl, rfl⟩ | ⟨rfl, rfl⟩ | ⟨rfl, rfl⟩ | ⟨rfl, rfl⟩
    all_goals
      exact belongs_of_onCollection hreceiver fun c _ hc =>
        Hierarchy.belongs_collectionOf _ (.inl rfl) hc
  | flatten elem hkind =>
    refine belongs_of_onCollection hreceiver ?_
    intro c hc helems
    refine Hierarchy.belongs_collectionOf _ (.inl (concrete_of_fits hc hkind)) ?_
    intro x hx
    obtain ⟨v, hv, hx⟩ := Collection.mem_leavesOfAll.mp hx
    exact Collection.belongs_leaves (helems v hv) x hx
  | @extend _ kind elem a hextend hkind =>
    obtain ⟨arg, rest, harg, hrest, rfl⟩ := List.forall₂_cons_right_iff.mp hargs
    obtain ⟨extended, hcompute, hextended⟩ :=
      exists_compute_extend hextend receiver arg rest kind (H.join elem a)
    rw [hcompute]
    refine belongs_of_onCollection hreceiver ?_
    intro c hc helems
    refine Hierarchy.belongs_collectionOf _ (.inl (concrete_of_fits hc hkind)) ?_
    intro x hx
    rcases hextended c x hx with hx | rfl
    · exact Hierarchy.belongs_join_left (helems x hx) a
    · exact Hierarchy.belongs_join_right harg elem
  | excluding elem a hkind =>
    refine belongs_of_onCollection hreceiver ?_
    intro c hc helems
    exact Hierarchy.belongs_collectionOf _ (.inl (concrete_of_fits hc hkind)) fun x hx =>
      helems x (List.mem_of_mem_filter hx)
  | subSequence elem a b hkind =>
    refine belongs_of_onCollection hreceiver ?_
    intro c hc helems
    show Belongs H (c.subSequence _ _) _
    unfold Collection.subSequence
    split
    · exact Hierarchy.belongs_collectionOf _ (.inl (concrete_of_fits hc hkind)) fun x hx =>
        helems x (List.mem_of_mem_drop (List.mem_of_mem_take hx))
    · exact .undefined _
  | union elem otherElem hkind =>
    obtain ⟨arg, rest, harg, hrest, rfl⟩ := List.forall₂_cons_right_iff.mp hargs
    refine belongs_of_onCollection hreceiver ?_
    intro c _ hc
    refine belongs_of_onCollection harg ?_
    intro d _ hd
    refine Hierarchy.belongs_collectionOf _ (.inl (concrete_of_unionKind hkind)) ?_
    intro x hx
    rcases List.mem_append.mp hx with hx | hx
    · exact Hierarchy.belongs_join_left (hc x hx) otherElem
    · exact Hierarchy.belongs_join_right (hd x hx) elem
  | intersection elem otherElem hkind =>
    obtain ⟨arg, rest, harg, hrest, rfl⟩ := List.forall₂_cons_right_iff.mp hargs
    refine belongs_of_onCollection hreceiver ?_
    intro c _ hc
    refine belongs_of_onCollection harg ?_
    intro d _ _
    exact Hierarchy.belongs_collectionOf _ (.inl (concrete_of_intersectionKind hkind)) fun x hx =>
      hc x (Collection.mem_of_mem_matched hx)
  | difference other elem otherElem hkind =>
    obtain ⟨arg, rest, harg, hrest, rfl⟩ := List.forall₂_cons_right_iff.mp hargs
    refine belongs_of_onCollection hreceiver ?_
    intro c hc helems
    refine belongs_of_onCollection harg ?_
    intro d _ _
    exact Hierarchy.belongs_collectionOf _ (.inl (concrete_of_fits hc hkind)) fun x hx =>
      helems x (Collection.mem_of_mem_outside hx)
  | symmetricDifference => exact absurd rfl hop

theorem belongs_apply (hsig : H.HasSignature op table argTypes result)
    (hreceiver : Belongs H receiver table) (hargs : List.Forall₂ (Belongs H) args argTypes)
    (hop : op ≠ .symmetricDifference) : Belongs H (op.apply receiver args result) result := by
  unfold apply
  split
  · exact .undefined _
  · exact belongs_compute hsig hreceiver hargs hop

/-- A symmetric difference has elements of the receiver and of the argument. -/
theorem belongs_symmetricDifference {elem otherElem : Ty} {arg : Value} {rest : List Value}
    (hreceiver : Belongs H receiver (.collection .set elem))
    (harg : Belongs H arg (.collection .set otherElem))
    (hother : ∀ x, Belongs H x otherElem → Belongs H x elem) :
    Belongs H (symmetricDifference.apply receiver (arg :: rest) (.collection .set elem))
      (.collection .set elem) := by
  unfold apply
  split
  · exact .undefined _
  · refine belongs_of_onCollection hreceiver ?_
    intro c hc helems
    refine belongs_of_onCollection harg ?_
    intro d _ hd
    refine Hierarchy.belongs_collectionOf _ (.inl (concrete_of_fits hc (by decide))) ?_
    intro x hx
    rcases List.mem_append.mp hx with hx | hx
    · exact helems x (Collection.mem_of_mem_outside hx)
    · exact hother x (hd x (Collection.mem_of_mem_outside hx))

/-- The symmetric difference of the empty set and a set of one value is the set of that value. -/
theorem symmetricDifference_singleton (made other ty : Ty) (x : Value) :
    symmetricDifference.apply (.collection .set made []) [.collection .set other [x]] ty =
      .collection .set made [x] := by
  have hleft : Collection.outside (Collection.index ⟨.set, other, [x]⟩) [] = [] := rfl
  have hright : Collection.outside (Collection.index ⟨.set, made, []⟩) [x] = [x] := by
    simp [Collection.outside, Collection.index, Collection.Index.has, Collection.search]
  show Value.collectionOf .set made (_ ++ _) = _
  rw [hleft, hright]
  rfl

/-- The type whose operations an untyped `null` has is the type of its argument, where that is a
collection. -/
theorem nullReceiver_collection {name : String} {kind table : Kind} {elem other : Ty}
    (h : nullReceiver name [.collection kind other] = .collection table elem) : other = elem := by
  unfold nullReceiver at h
  split at h <;> cases h
  rfl

/-- Values of the types at which an operation was resolved give a value of its result type, with one
exception: values of the argument's element type can enter a symmetric difference, so these have to
belong to the receiver's element type. -/
theorem apply_belongs_iff {receiverTy : Ty} {name : String}
    (h : H.resolve receiverTy name argTypes = .ok (result, op)) :
    (∀ receiver args, Belongs H receiver receiverTy → List.Forall₂ (Belongs H) args argTypes →
        Belongs H (op.apply receiver args result) result) ↔
      (op = .symmetricDifference → ∀ other, argTypes = [.collection .set other] →
        ∀ x, Belongs H x other → Belongs H x result.elemOrAny) := by
  have hsig := Hierarchy.hasSignature_of_resolve h
  generalize htable : (if receiverTy = .void then _ else receiverTy) = table at hsig
  constructor
  · rintro hall rfl other rfl x hx
    obtain ⟨elem, other', rfl, hother', rfl⟩ :=
      Hierarchy.eq_of_hasSignature_symmetricDifference hsig
    by_cases hvoid : receiverTy = .void
    · rw [if_pos hvoid] at htable
      exact nullReceiver_collection htable ▸ hx
    · rw [if_neg hvoid] at htable
      subst htable
      -- The empty set and the set of `x` differ by `x`.
      have hempty : Belongs H (.collection .set elem []) (.collection .set elem) :=
        .collection (.inl rfl) fun _ h => nomatch h
      have hone : Belongs H (.collection .set other [x]) (.collection .set other) :=
        .collection (.inl rfl) fun y hy => List.mem_singleton.mp hy ▸ hx
      have hresult := hall _ _ hempty (.cons hone .nil)
      rw [symmetricDifference_singleton] at hresult
      cases hresult with
      | collection _ helems => exact helems x List.mem_cons_self
  · intro hother receiver args hreceiver hargs
    have hreceiver' : Belongs H receiver table := by
      rw [← htable]
      split
      · next hvoid =>
        subst hvoid
        cases hreceiver
        exact .undefined _
      · exact hreceiver
    by_cases hop : op = .symmetricDifference
    · subst hop
      obtain ⟨elem, other, rfl, rfl, rfl⟩ := Hierarchy.eq_of_hasSignature_symmetricDifference hsig
      obtain ⟨arg, rest, harg, hrest, rfl⟩ := List.forall₂_cons_right_iff.mp hargs
      exact belongs_symmetricDifference hreceiver' harg (hother rfl other rfl)
    · exact belongs_apply hsig hreceiver' hargs hop

/-- The union of a set of integers and a set of strings is a set of any values. -/
theorem apply_belongs_iff_union :
    Hierarchy.empty.resolve (.collection .set .integer) "union" [.collection .set .string] =
        .ok (.collection .set .any, .union) ∧
      Belongs .empty (union.apply (.collection .set .integer [.integer 1])
        [.collection .set .string [.string "a"]] (.collection .set .any))
          (.collection .set .any) := by
  have hresolve : Hierarchy.empty.resolve (.collection .set .integer) "union"
      [.collection .set .string] = .ok (.collection .set .any, .union) := by decide
  refine ⟨hresolve, (apply_belongs_iff hresolve).mpr (fun h => nomatch h) _ _ ?_ (.cons ?_ .nil)⟩
  · exact .collection (.inl rfl) fun x hx => List.mem_singleton.mp hx ▸ .integer 1
  · exact .collection (.inl rfl) fun x hx => List.mem_singleton.mp hx ▸ .string "a"

/-- The symmetric difference of a set of integers and a set of strings is typed as a set of
integers, and can hold a string. -/
theorem symmetricDifference_not_belongs :
    Hierarchy.empty.resolve (.collection .set .integer) "symmetricDifference"
        [.collection .set .string] = .ok (.collection .set .integer, .symmetricDifference) ∧
      Belongs .empty (.collection .set .integer []) (.collection .set .integer) ∧
      Belongs .empty (.collection .set .string [.string "a"]) (.collection .set .string) ∧
      ¬ Belongs .empty (symmetricDifference.apply (.collection .set .integer [])
        [.collection .set .string [.string "a"]] (.collection .set .integer))
          (.collection .set .integer) := by
  refine ⟨by decide, .collection (.inl rfl) (fun _ h => nomatch h),
    .collection (.inl rfl) (fun x hx => List.mem_singleton.mp hx ▸ .string "a"), fun h => ?_⟩
  rw [symmetricDifference_singleton] at h
  cases h with
  | collection _ helems => cases helems (.string "a") List.mem_cons_self

end Operation

end ObjectConstraint
