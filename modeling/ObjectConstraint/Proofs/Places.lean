import Mathlib.Data.List.GetD
import ObjectConstraint.Proofs.Multiplicities

/-!
# Places

Elements of collections and characters of texts have places, counted from one. The operations that
take places take 64-bit integers, and they are undefined for all that are no places, at either end.

* `PlacedAt`, `IsRange` — an element at a place, and two places in order.
* `stretch` — the elements from one place to another.
* `Collection.subSequence_integer`, `Value.substring_integer` — the stretches that operations give.
* `Collection.indexOf_eq_integer_iff` — the first place of a value.
* `Operation.GivesStretches` — what collections and texts have in common.
* `Operation.counts_from_one` — the laws of the operations together.
-/

namespace ObjectConstraint

/-! ### Lists -/

/-- `x` is the `i`th of the elements, counted from one. -/
def PlacedAt {α : Type} (xs : List α) (i : Int) (x : α) : Prop :=
  ∃ k : Nat, i = k + 1 ∧ xs[k]? = some x

/-- `lo` and `hi` are places of `n` elements, in this order. -/
def IsRange (lo hi : Int64) (n : Nat) : Prop :=
  1 ≤ lo.toInt ∧ lo.toInt ≤ hi.toInt ∧ hi.toInt ≤ n

instance (lo hi : Int64) (n : Nat) : Decidable (IsRange lo hi n) :=
  inferInstanceAs (Decidable (1 ≤ lo.toInt ∧ lo.toInt ≤ hi.toInt ∧ hi.toInt ≤ n))

/-- The elements from the `lo`th to the `hi`th. -/
def stretch {α : Type} (xs : List α) (lo hi : Int) : List α :=
  (xs.drop (lo - 1).toNat).take (hi - lo + 1).toNat

section

variable {α : Type} {xs : List α} {i k lo hi n : Int} {x : α}

/-- Places are the numbers from one to the number of elements. -/
theorem exists_placedAt_iff : (∃ x, PlacedAt xs i x) ↔ 1 ≤ i ∧ i ≤ xs.length := by
  constructor
  · rintro ⟨x, k, rfl, hx⟩
    have hk := (List.getElem?_eq_some_iff.mp hx).1
    omega
  · intro h
    have hk : (i - 1).toNat < xs.length := by omega
    exact ⟨xs[(i - 1).toNat], (i - 1).toNat, by omega, List.getElem?_eq_getElem hk⟩

theorem length_stretch (h : 1 ≤ lo ∧ lo ≤ hi ∧ hi ≤ xs.length) :
    ((stretch xs lo hi).length : Int) = hi - lo + 1 := by
  rw [stretch, List.length_take, List.length_drop]
  omega

/-- The first element of a stretch is the `lo`th, and the others follow. -/
theorem placedAt_stretch (h : 1 ≤ lo) :
    PlacedAt (stretch xs lo hi) k x ↔ 1 ≤ k ∧ k ≤ hi - lo + 1 ∧ PlacedAt xs (lo + k - 1) x := by
  unfold PlacedAt stretch
  constructor
  · rintro ⟨m, rfl, hx⟩
    rw [List.getElem?_take, List.getElem?_drop] at hx
    split at hx
    · exact ⟨by omega, by omega, (lo - 1).toNat + m, by omega, hx⟩
    · cases hx
  · rintro ⟨hfirst, hlast, m, hm, hx⟩
    obtain rfl : (lo - 1).toNat + (k - 1).toNat = m := by omega
    refine ⟨(k - 1).toNat, by omega, ?_⟩
    rw [List.getElem?_take_of_lt (by omega), List.getElem?_drop, hx]

/-- Two stretches that share out the places have all the elements. -/
theorem stretch_append_stretch (hk : 1 ≤ k) (hkn : k < n) (hn : n = xs.length) :
    stretch xs 1 k ++ stretch xs (k + 1) n = xs := by
  have hfront : stretch xs 1 k = xs.take k.toNat := by simp [stretch]
  have hback : stretch xs (k + 1) n = xs.drop k.toNat := by
    rw [stretch, List.take_of_length_le]
    · simp
    · rw [List.length_drop]
      omega
  rw [hfront, hback, List.take_append_drop]

end

/-- Below another integer, the next integer has 64 bits. -/
theorem toInt_add_one {k n : Int64} (h : k.toInt < n.toInt) : (k + 1).toInt = k.toInt + 1 := by
  have hlo := k.le_toInt
  have hhi := n.toInt_lt
  rw [Int64.toInt_add]
  exact Int.bmod_eq_of_le (by simp; omega) (by simp; omega)

/-! ### Texts -/

namespace Value

theorem stretch?_integer (lo hi : Int64) (length : Nat) :
    stretch? (integer lo) (integer hi) length =
      if IsRange lo hi length then
        some ((lo.toInt - 1).toNat, (hi.toInt - lo.toInt + 1).toNat)
      else none := rfl

theorem substring_integer (s : String) (lo hi : Int64) :
    substring s (integer lo) (integer hi) =
      if IsRange lo hi s.length then string (.ofList (stretch s.toList lo.toInt hi.toInt))
      else undefined := by
  rw [substring, stretch?_integer]
  split_ifs <;> rfl

end Value

/-! ### Collections -/

namespace Collection

variable {c : Collection} {v : Value}

/-- A stretch of elements in normal form is in normal form, so nothing more is dropped. -/
theorem subSequence_integer (hc : Value.isNormal c.kind c.elems) (lo hi : Int64) :
    c.subSequence (.integer lo) (.integer hi) =
      if IsRange lo hi c.elems.length then
        .collection c.kind c.elem (stretch c.elems lo.toInt hi.toInt)
      else .undefined := by
  rw [subSequence, Value.stretch?_integer]
  split_ifs
  · have hsublist : (stretch c.elems lo.toInt hi.toInt).Sublist c.elems :=
      (List.take_sublist _ _).trans (List.drop_sublist _ _)
    exact Value.collectionOf_eq_self c.elem (Value.isNormal_of_sublist hsublist hc)
  · rfl

theorem elementAt_of_placedAt {i : Int64} {x : Value} (h : PlacedAt c.elems i.toInt x) :
    c.elementAt (.integer i) = x := by
  obtain ⟨k, hk, hx⟩ := h
  have hplace : (i.toInt - 1).toNat = k := by omega
  rw [elementAt, if_pos (by omega), hplace, List.getD_eq_getElem?_getD, hx, Option.getD_some]

theorem elementAt_of_not_place {i : Int64} (h : ¬ (1 ≤ i.toInt ∧ i.toInt ≤ c.elems.length)) :
    c.elementAt (.integer i) = .undefined := by
  rw [elementAt]
  split_ifs
  · exact List.getD_eq_default _ _ (by omega)
  · rfl

/-- An element of a stretch is the element of the collection that many places on. -/
theorem elementAt_of_subSequence (hc : Value.isNormal c.kind c.elems) {lo hi k m : Int64}
    {part : List Value}
    (hpart : c.subSequence (.integer lo) (.integer hi) = .collection c.kind c.elem part)
    (hk : 1 ≤ k.toInt ∧ k.toInt ≤ part.length) (hm : m.toInt = lo.toInt + k.toInt - 1) :
    elementAt ⟨c.kind, c.elem, part⟩ (.integer k) = c.elementAt (.integer m) := by
  rw [subSequence_integer hc] at hpart
  split_ifs at hpart with hrange
  cases hpart
  obtain ⟨x, hx⟩ := exists_placedAt_iff.mpr hk
  have hwhole : PlacedAt c.elems m.toInt x := hm ▸ ((placedAt_stretch hrange.1).mp hx).2.2
  rw [elementAt_of_placedAt hx, elementAt_of_placedAt hwhole]

/-- The place of a value is the least at which an equal one stands. -/
theorem indexOf_eq_integer_iff {i : Int64} :
    c.indexOf v = .integer i ↔
      (∃ x, PlacedAt c.elems i.toInt x ∧ x == v) ∧
        ∀ j x, PlacedAt c.elems j x → x == v → i.toInt ≤ j := by
  constructor
  · intro h
    unfold indexOf at h
    split at h
    · next m hm =>
      obtain ⟨hlt, hmv, hbefore⟩ := List.findIdx?_eq_some_iff_getElem.mp hm
      have hi : ((m + 1 : Nat) : Int) = i.toInt := Value.ofInt_eq_integer_iff.mp h
      refine ⟨⟨_, ⟨m, by omega, List.getElem?_eq_getElem hlt⟩, hmv⟩, ?_⟩
      rintro j x ⟨k, rfl, hx⟩ hxv
      obtain ⟨hk, rfl⟩ := List.getElem?_eq_some_iff.mp hx
      by_contra hji
      exact hbefore k (by omega) hxv
    · cases h
  · rintro ⟨⟨x, ⟨m, hm, hx⟩, hxv⟩, hleast⟩
    obtain ⟨hlt, rfl⟩ := List.getElem?_eq_some_iff.mp hx
    have hfound : c.elems.findIdx? (· == v) = some m := by
      refine List.findIdx?_eq_some_iff_getElem.mpr ⟨hlt, hxv, fun j hj hjv => ?_⟩
      have hle := hleast (j + 1) _ ⟨j, rfl, List.getElem?_eq_getElem (by omega)⟩ hjv
      omega
    rw [indexOf, hfound]
    exact Value.ofInt_eq_integer_iff.mpr hm.symm

/-- As long as all places are integers, the values without a place are those not contained. -/
theorem indexOf_eq_undefined_iff (hc : Value.isNormal c.kind c.elems)
    (hsize : c.elems.length ≤ Int64.maxValue.toInt) :
    c.indexOf v = .undefined ↔ c.contains v = false := by
  rw [contains, has_index hc]
  unfold indexOf
  split
  · next m hm =>
    obtain ⟨hlt, hmv, -⟩ := List.findIdx?_eq_some_iff_getElem.mp hm
    have hfound : c.elems.any (· == v) := List.any_eq_true.mpr ⟨_, List.getElem_mem hlt, hmv⟩
    rw [Value.ofNat_eq_integer (by omega), hfound]
    simp only [reduceCtorEq, Bool.true_eq_false]
  · next hnone => simpa using hnone

end Collection

/-! ### The operations -/

namespace Operation

/-- What an operation gives for two places is the stretch between them, which `make` makes a value
of: it is undefined exactly where the places are none, it has as many elements as there are places,
and each element is the one that stands there. Two of them share out all the elements. -/
structure GivesStretches {α : Type} (make : List α → Value) (xs : List α)
    (op : Int64 → Int64 → Value) : Prop where
  undefined_iff (lo hi : Int64) : op lo hi = .undefined ↔ ¬ IsRange lo hi xs.length
  of_range (lo hi : Int64) (h : IsRange lo hi xs.length) :
    ∃ part, op lo hi = make part ∧ (part.length : Int) = hi.toInt - lo.toInt + 1 ∧
      ∀ k x, PlacedAt part k x ↔ 1 ≤ k ∧ k ≤ part.length ∧ PlacedAt xs (lo.toInt + k - 1) x
  append (k n : Int64) (hk : 1 ≤ k.toInt) (hkn : k.toInt < n.toInt) (hn : n.toInt = xs.length) :
    ∃ front back, op 1 k = make front ∧ op (k + 1) n = make back ∧ front ++ back = xs

theorem GivesStretches.of_eq {α : Type} {make : List α → Value} {xs : List α}
    {op : Int64 → Int64 → Value} (hmake : ∀ part, make part ≠ .undefined)
    (hop : ∀ lo hi, op lo hi =
      if IsRange lo hi xs.length then make (stretch xs lo.toInt hi.toInt) else .undefined) :
    GivesStretches make xs op where
  undefined_iff lo hi := by
    rw [hop]
    split_ifs with h
    · exact iff_of_false (hmake _) (not_not.mpr h)
    · exact iff_of_true rfl h
  of_range lo hi h := by
    have hlength := length_stretch h
    refine ⟨_, (hop lo hi).trans (if_pos h), hlength, fun k x => ?_⟩
    rw [hlength]
    exact placedAt_stretch h.1
  append k n hk hkn hn := by
    have hnext := toInt_add_one hkn
    have hfront : IsRange 1 k xs.length := ⟨le_rfl, hk, by omega⟩
    have hback : IsRange (k + 1) n xs.length := ⟨by omega, by omega, hn.le⟩
    refine ⟨_, _, (hop 1 k).trans (if_pos hfront), (hop (k + 1) n).trans (if_pos hback), ?_⟩
    rw [hnext]
    exact stretch_append_stretch hk hkn hn

/-- Places are counted from one. At a place of a collection in normal form is the element that
stands there, and outside there is none. The place of a value is the least at which an equal one
stands; a collection with an integer for its size has a place for each value that it includes.
Collections and texts have stretches by the same laws, and two stretches that share out a text make
it up again. -/
theorem counts_from_one (c : Collection) (hc : Value.isNormal c.kind c.elems) (s : String)
    (ty : Ty) :
    let make := Value.collection c.kind c.elem
    let element := fun xs (i : Int64) => elementAt.apply (make xs) [.integer i] ty
    let elementsOf := fun lo hi : Int64 =>
      subSequence.apply (make c.elems) [.integer lo, .integer hi] ty
    let placeOf := fun v => indexOf.apply (make c.elems) [v] ty
    let textOf := fun lo hi : Int64 =>
      substring.apply (.string s) [.integer lo, .integer hi] ty
    (∀ i : Int64,
        (1 ≤ i.toInt ∧ i.toInt ≤ c.elems.length → PlacedAt c.elems i.toInt (element c.elems i)) ∧
          (¬ (1 ≤ i.toInt ∧ i.toInt ≤ c.elems.length) → element c.elems i = .undefined)) ∧
      GivesStretches make c.elems elementsOf ∧
      (∀ lo hi part, elementsOf lo hi = make part → ∀ k m : Int64,
        1 ≤ k.toInt ∧ k.toInt ≤ part.length → m.toInt = lo.toInt + k.toInt - 1 →
          element part k = element c.elems m) ∧
      (∀ v (i : Int64), placeOf v = .integer i ↔
        (∃ x, PlacedAt c.elems i.toInt x ∧ x == v) ∧
          ∀ j x, PlacedAt c.elems j x → x == v → i.toInt ≤ j) ∧
      (∀ n : Int64, size.apply (make c.elems) [] ty = .integer n → ∀ v,
        placeOf v = .undefined ↔ includes.apply (make c.elems) [v] ty = .boolean false) ∧
      GivesStretches (fun cs => .string (.ofList cs)) s.toList textOf ∧
      ∀ k n : Int64, 1 ≤ k.toInt → k.toInt < n.toInt →
        length.apply (.string s) [] ty = .integer n →
          concat.apply (textOf 1 k) [textOf (k + 1) n] ty = .string s := by
  intro make element elementsOf placeOf textOf
  have helements : GivesStretches make c.elems elementsOf :=
    .of_eq nofun (Collection.subSequence_integer hc)
  have htexts : GivesStretches (fun cs => .string (.ofList cs)) s.toList textOf :=
    .of_eq nofun (Value.substring_integer s)
  refine ⟨fun i => ⟨fun h => ?_, fun h => Collection.elementAt_of_not_place h⟩, helements, ?_,
    fun v i => Collection.indexOf_eq_integer_iff, ?_, htexts, ?_⟩
  · obtain ⟨x, hx⟩ := exists_placedAt_iff.mpr h
    have helement : element c.elems i = x := Collection.elementAt_of_placedAt hx
    rwa [helement]
  · intro lo hi part hpart k m
    exact Collection.elementAt_of_subSequence hc hpart
  · intro n hn v
    have hlength : (c.elems.length : Int) = n.toInt := Value.ofInt_eq_integer_iff.mp hn
    have hincludes : includes.apply (make c.elems) [v] ty = .boolean (c.contains v) := rfl
    rw [hincludes, Value.boolean.injEq]
    exact Collection.indexOf_eq_undefined_iff hc (hlength ▸ n.toInt_le)
  · intro k n hk hkn hn
    have hlength : (s.length : Int) = n.toInt := Value.ofInt_eq_integer_iff.mp hn
    obtain ⟨front, back, hfront, hback, happend⟩ := htexts.append k n hk hkn hlength.symm
    have hconcat : concat.apply (textOf 1 k) [textOf (k + 1) n] ty =
        .string (.ofList front ++ .ofList back) := by
      rw [hfront, hback]
      rfl
    rw [hconcat, ← String.ofList_append, happend, String.ofList_toList]

/-- Of three elements and three characters, the last of four bytes: a place far behind the last, a
value that is not there, and a text made up again. -/
theorem counts_from_one_three :
    let c : Collection := ⟨.orderedSet, .integer, [.integer 3, .integer 1, .integer 2]⟩
    let whole := Value.collection c.kind c.elem c.elems
    let textOf := fun lo hi : Int64 =>
      substring.apply (.string "né😀") [.integer lo, .integer hi] .string
    Value.isNormal c.kind c.elems ∧
      ¬ (1 ≤ Int64.maxValue.toInt ∧ Int64.maxValue.toInt ≤ c.elems.length) ∧
      elementAt.apply whole [.integer Int64.maxValue] .string = .undefined ∧
      size.apply whole [] .string = .integer 3 ∧
      (indexOf.apply whole [.integer 4] .string = .undefined ↔
        includes.apply whole [.integer 4] .string = .boolean false) ∧
      length.apply (.string "né😀") [] .string = .integer 3 ∧
      concat.apply (textOf 1 2) [textOf 3 3] .string = .string "né😀" := by
  intro c whole textOf
  have hc : Value.isNormal c.kind c.elems := by decide +kernel
  have hfar : ¬ (1 ≤ Int64.maxValue.toInt ∧ Int64.maxValue.toInt ≤ c.elems.length) := by decide
  have hlength : length.apply (.string "né😀") [] .string = .integer 3 := rfl
  obtain ⟨helement, -, -, -, hplace, -, hconcat⟩ := counts_from_one c hc "né😀" .string
  exact ⟨hc, hfar, (helement Int64.maxValue).2 hfar, rfl, hplace 3 rfl (.integer 4), hlength,
    hconcat 2 3 (by decide) (by decide) hlength⟩

end Operation

end ObjectConstraint
