import ObjectConstraint.Proofs.KnownValues
import ObjectConstraint.Proofs.NormalForms

/-!
# Stable sorting

A `sortedBy` loop puts the elements of its source in the order of the keys that its body gives. It
loses none of them: those of a set or an ordered set are all different, so the ordered set that is
made of them has them all. Elements with equal keys, as `1` and `1.0` are, stay in the order of the
source.

* `Value.SortedStably` — what a stable sort by keys is.
* `Value.sortedStably_mergeSort` — the sort is one.
* `ObjectModel.eval_sortedBy` — what a `sortedBy` loop gives.
-/

namespace ObjectConstraint

namespace Value

/-- The elements are rearranged, their keys ascend, and those with keys equal to any given one stand
in the order that they had. -/
structure SortedStably (key : Value → Value) (elems sorted : List Value) : Prop where
  perm : sorted.Perm elems
  ascending : sorted.Pairwise fun a b => le (key a) (key b)
  ties (k : Value) : (sorted.filter fun x => key x == k) = elems.filter fun x => key x == k

theorem le_of_beq {a b : Value} (h : a == b) : le a b := by
  simp [le, beq_iff_cmp_eq.mp h]

theorem sortedStably_mergeSort (key : Value → Value) (elems : List Value) :
    SortedStably key elems (elems.mergeSort fun a b => le (key a) (key b)) := by
  have htrans : ∀ a b c : Value, le (key a) (key b) → le (key b) (key c) → le (key a) (key c) :=
    fun a b c => (chain_cmp (key a) (key b) (key c)).isLE
  have htotal : ∀ a b : Value, (le (key a) (key b) || le (key b) (key a)) = true :=
    fun a b => by simpa using le_total (key a) (key b)
  have hperm := List.mergeSort_perm elems fun a b => le (key a) (key b)
  refine ⟨hperm, List.pairwise_mergeSort htrans htotal elems, fun k => ?_⟩
  -- the ties are in order already, so the sort keeps them as a sublist, and it has no others
  have hties : (elems.filter fun x => key x == k).Pairwise fun a b => le (key a) (key b) := by
    refine List.pairwise_filter.mpr (List.pairwise_of_forall fun a b ha hb => ?_)
    exact le_of_beq (BEq.trans ha (BEq.symm hb))
  have hkept := List.sublist_mergeSort htrans htotal hties List.filter_sublist
  have hsublist := hkept.filter fun x => key x == k
  rw [List.filter_filter] at hsublist
  simp only [Bool.and_self] at hsublist
  exact (hsublist.eq_of_length (hperm.filter _).length_eq.symm).symm

end Value

namespace ObjectModel

open EvalM (Returns Yields)

variable {M : ObjectModel} {s : Stack}

theorem returns_sortedBy {act : Value → EvalM Value} {key : Value → Value} {elems : List Value}
    (source : Kind) (elem : Ty) (h : ∀ x ∈ elems, Returns s (act x) (key x))
    (hdefined : ∀ x ∈ elems, key x ≠ .undefined) :
    Returns s (sortedBy source elem elems act)
      (.collectionOf (if source.isUnique then .orderedSet else .sequence) elem
        (elems.mergeSort fun a b => Value.le (key a) (key b))) := by
  have hsorted : ((elems.map fun x => (key x, x)).mergeSort fun a b => Value.le a.1 b.1) =
      (elems.mergeSort fun a b => Value.le (key a) (key b)).map fun x => (key x, x) :=
    (List.map_mergeSort (f := fun x => (key x, x)) fun _ _ _ _ => rfl).symm
  refine (EvalM.returns_withKeys h hdefined).bind ?_
  dsimp only
  rw [hsorted, List.map_map]
  simpa [Function.comp_def] using Yields.pure _

/-- Over a collection, with a body that gives each element a key, a `sortedBy` loop gives the
elements sorted by their keys, stably; none is lost. They are an ordered set if the source is a set
or an ordered set, else a sequence. If a key is undefined the loop is, whatever its body does on the
elements after that. -/
theorem eval_sortedBy {ctx : Context} {source body : Expr} {iterator : String}
    {others : List String} {accumulator : Option (Accumulator Expr)} {ty elem : Ty} {kind : Kind}
    {elems : List Value} {key : Value → Value}
    (hsource : M.EvaluatesTo source ctx (.collection kind elem elems))
    (hnormal : Value.isNormal kind elems) :
    let loop := Expr.loop .sortedBy source (iterator :: others) accumulator body ty
    ((∀ x ∈ elems, M.EvaluatesTo body (ctx.bind iterator x) (key x) ∧ key x ≠ .undefined) →
        ∃ sorted, Value.SortedStably key elems sorted ∧
          M.EvaluatesTo loop ctx (.collection (if kind.isUnique then .orderedSet else .sequence)
            ty.elemOrAny sorted)) ∧
      ∀ before x after, elems = before ++ x :: after →
        (∀ y ∈ before ++ [x], M.EvaluatesTo body (ctx.bind iterator y) (key y)) →
        key x = .undefined → M.EvaluatesTo loop ctx .undefined := by
  intro loop
  constructor
  · intro hbody
    obtain ⟨fuel, hsource, hkeys⟩ := exists_returns hsource fun x hx => (hbody x hx).1
    have hsorted := Value.sortedStably_mergeSort key elems
    have hresult := returns_sortedBy kind ty.elemOrAny hkeys fun x hx => (hbody x hx).2
    rw [Value.collectionOf_eq_self] at hresult
    · exact ⟨_, hsorted, .of_returns (returns_loopNode hsource hresult)⟩
    · split
      · next hunique => exact Value.isNormal_orderedSet_of_perm hunique hsorted.perm hnormal
      · rfl
  · rintro before x after rfl hbody hx
    obtain ⟨fuel, hsource, hbody⟩ := exists_returns hsource hbody
    have hkeys : Returns ctx.stack
        (EvalM.withKeys (fun y => EvalM.withBinding iterator y (M.eval fuel body))
          (before ++ x :: after)) none :=
      EvalM.returns_withKeys_none hbody hx
    exact .of_returns (returns_loopNode hsource (hkeys.bind (.pure _)))

/-- The strings of a set by their lengths: `"d"` goes behind `"b"`, and `"cc"` behind both. An
element without length makes a loop undefined. -/
theorem eval_sortedBy_length :
    let M := Snapshot.empty.toModel
    let body := Expr.call "size" (.standard .length) (.var "x" .string) [] .integer
    let key := fun x => Operation.length.apply x [] .integer
    let loop := fun kind result => Expr.loop .sortedBy (.var "xs" (.collection kind .string)) ["x"]
      none body (.collection result .string)
    let bound := fun kind elems => Context.empty.bind "xs" (.collection kind .string elems)
    let elems := [Value.string "b", .string "cc", .string "d"]
    let gap := [Value.string "b", .undefined, .string "d"]
    M.EvaluatesTo (loop .set .orderedSet) (bound .set elems)
        (.collection .orderedSet .string [.string "b", .string "d", .string "cc"]) ∧
      (∃ sorted, Value.SortedStably key elems sorted ∧
        M.EvaluatesTo (loop .set .orderedSet) (bound .set elems)
          (.collection .orderedSet .string sorted)) ∧
      M.EvaluatesTo (loop .sequence .sequence) (bound .sequence gap) .undefined := by
  intro M body key loop bound elems gap
  have hnormal : Value.isNormal .set elems := by decide +kernel
  have hbody : ∀ x ∈ elems,
      M.EvaluatesTo body ((bound .set elems).bind "x" x) (key x) ∧ key x ≠ .undefined := by
    refine List.forall_mem_cons.mpr ⟨⟨⟨2, rfl⟩, nofun⟩, ?_⟩
    refine List.forall_mem_cons.mpr ⟨⟨⟨2, rfl⟩, nofun⟩, ?_⟩
    exact List.forall_mem_singleton.mpr ⟨⟨2, rfl⟩, nofun⟩
  have hgap : ∀ x ∈ [Value.string "b"] ++ [.undefined],
      M.EvaluatesTo body ((bound .sequence gap).bind "x" x) (key x) :=
    List.forall_mem_cons.mpr ⟨⟨2, rfl⟩, List.forall_mem_singleton.mpr ⟨2, rfl⟩⟩
  have hsource : M.EvaluatesTo (.var "xs" (.collection .set .string)) (bound .set elems)
      (.collection .set .string elems) := ⟨1, rfl⟩
  obtain ⟨fuel, hstart, hkeys⟩ := exists_returns hsource fun x hx => (hbody x hx).1
  have hsorted : (elems.mergeSort fun a b => Value.le (key a) (key b)) =
      [.string "b", .string "d", .string "cc"] := by
    have hpair : Value.le (key (.string "b")) (key (.string "cc")) = true := rfl
    have htie : Value.le (key (.string "b")) (key (.string "d")) = true := rfl
    have hlast : Value.le (key (.string "cc")) (key (.string "d")) = false := rfl
    simp [elems, List.mergeSort, hpair, htie, hlast]
  have hresult := returns_sortedBy .set .string hkeys fun x hx => (hbody x hx).2
  rw [hsorted] at hresult
  have hvalue : M.EvaluatesTo (loop .set .orderedSet) (bound .set elems)
      (.collection .orderedSet .string [.string "b", .string "d", .string "cc"]) :=
    .of_returns (returns_loopNode hstart hresult)
  exact ⟨hvalue, (eval_sortedBy hsource hnormal).1 hbody,
    (eval_sortedBy ⟨1, rfl⟩ rfl).2 _ _ [.string "d"] rfl hgap rfl⟩

end ObjectModel

end ObjectConstraint
