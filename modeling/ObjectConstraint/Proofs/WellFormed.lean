import ObjectConstraint.Proofs.StackKept
import ObjectConstraint.Proofs.TotalOrder
import ObjectConstraint.Snapshot

/-!
# Well-formed values

A value is well-formed if each collection in it, at any depth, is in the normal form of its kind:
the elements of a set strictly ascending, those of a bag ascending, those of an ordered set all
different, and no collection of the abstract kind. Reals are finite by what they are.

* `Value.isWellFormed` — the property; it can be tested.
* `Value.isNormal_normalForm` — every collection is made in the normal form of its kind.
* `Snapshot.eval_wellFormed` — what an evaluation returns, binds, reports and records is
  well-formed.
-/

namespace ObjectConstraint

namespace Value

/-- The elements of a collection are in the normal form of its kind, which is not the abstract
one. -/
def isNormal (kind : Kind) (elems : List Value) : Bool :=
  match kind with
  | .set => elems.Pairwise fun a b => cmp a b = .lt
  | .bag => elems.Pairwise fun a b => le a b
  | .orderedSet => elems.Pairwise fun a b => cmp a b ≠ .eq
  | .sequence => true
  | .collection => false

mutual

/-- The collections in a value are in normal form at every depth. -/
def isWellFormed : Value → Bool
  | collection kind _ elems => isNormal kind elems && areWellFormed elems
  | tuple parts => arePartsWellFormed parts
  | _ => true
  termination_by structural v => v

def areWellFormed : List Value → Bool
  | [] => true
  | v :: vs => v.isWellFormed && areWellFormed vs
  termination_by structural vs => vs

def arePartsWellFormed : List (String × Value) → Bool
  | [] => true
  | (_, v) :: parts => v.isWellFormed && arePartsWellFormed parts
  termination_by structural parts => parts

end

theorem areWellFormed_iff {vs : List Value} :
    areWellFormed vs ↔ ∀ v ∈ vs, v.isWellFormed := by
  induction vs with
  | nil => simp [areWellFormed]
  | cons v vs ih => simp [areWellFormed, ih]

theorem arePartsWellFormed_iff {parts : List (String × Value)} :
    arePartsWellFormed parts ↔ ∀ part ∈ parts, part.2.isWellFormed := by
  induction parts with
  | nil => simp [arePartsWellFormed]
  | cons part parts ih => simp [arePartsWellFormed, ih]

/-! ### Normal forms -/

theorem pairwise_of_isAscending {xs : List Value} (h : isAscending xs) :
    xs.Pairwise fun a b => le a b := by
  induction xs with
  | nil => exact .nil
  | cons x xs ih =>
    cases xs with
    | nil => exact List.pairwise_singleton _ _
    | cons y rest =>
      rw [isAscending, Bool.and_eq_true] at h
      obtain ⟨hxy, hrest⟩ := h
      have hpairwise := ih hrest
      refine .cons ?_ hpairwise
      rintro z hz
      rcases List.mem_cons.mp hz with rfl | hz
      · exact hxy
      · exact (chain_cmp x y z).isLE hxy (List.rel_of_pairwise_cons hpairwise hz)

theorem pairwise_ascending (xs : List Value) : (ascending xs).Pairwise fun a b => le a b := by
  unfold ascending
  split
  · next h => exact pairwise_of_isAscending h
  · apply List.pairwise_mergeSort
    · exact fun a b c => (chain_cmp a b c).isLE
    · exact fun a b => by simpa using le_total a b

theorem cmp_eq_lt_of_le {a b : Value} (hle : le a b) (hne : ¬ b == a) : cmp a b = .lt := by
  rw [beq_iff_cmp_eq, ← swap_cmp] at hne
  unfold le at hle
  cases hcmp : cmp a b <;> simp_all

/-- Of ascending elements, those that are not equal to the one kept before them ascend strictly. -/
theorem pairwise_dropRepeatsAfter {last : Value} {xs : List Value}
    (h : (last :: xs).Pairwise fun a b => le a b) :
    (last :: dropRepeatsAfter last xs).Pairwise fun a b => cmp a b = .lt := by
  induction xs generalizing last with
  | nil => exact List.pairwise_singleton _ _
  | cons x xs ih =>
    obtain ⟨hlast, hxs⟩ := List.pairwise_cons.mp h
    rw [dropRepeatsAfter]
    split
    · exact ih (List.pairwise_cons.mpr
        ⟨fun y hy => hlast y (List.mem_cons_of_mem _ hy), (List.pairwise_cons.mp hxs).2⟩)
    · next hne =>
      have hlt := cmp_eq_lt_of_le (hlast x List.mem_cons_self) hne
      have hkept := ih hxs
      refine .cons ?_ hkept
      rintro y hy
      rcases List.mem_cons.mp hy with rfl | hy
      · exact hlt
      · exact Std.TransCmp.lt_trans hlt (List.rel_of_pairwise_cons hkept hy)

theorem pairwise_dropRepeats {xs : List Value} (h : xs.Pairwise fun a b => le a b) :
    (dropRepeats xs).Pairwise fun a b => cmp a b = .lt := by
  cases xs with
  | nil => exact .nil
  | cons x xs => exact pairwise_dropRepeatsAfter h

/-- First occurrences are all different, and none of them is known before. -/
theorem pairwise_firstOccurrences (xs : List Value) (known : Known) :
    (∀ x ∈ (firstOccurrences known xs).1, known.contains x = false) ∧
      (firstOccurrences known xs).1.Pairwise fun a b => cmp a b ≠ .eq := by
  induction xs generalizing known with
  | nil => exact ⟨fun _ h => (nomatch h), .nil⟩
  | cons x xs ih =>
    rw [firstOccurrences]
    split
    · exact ih known
    · next hnew =>
      obtain ⟨hothers, hpairwise⟩ := ih (known.insert x)
      simp only [Std.TreeSet.contains_insert, Bool.or_eq_false_iff] at hothers
      constructor
      · rintro y hy
        rcases List.mem_cons.mp hy with rfl | hy
        · exact Bool.eq_false_iff.mpr hnew
        · exact (hothers y hy).2
      · refine .cons ?_ hpairwise
        rintro y hy
        simpa using (hothers y hy).1

/-- The normal form of a kind is normal. -/
theorem isNormal_normalForm {kind : Kind} (hkind : kind ≠ .collection) (elems : List Value) :
    isNormal kind (normalForm kind elems) := by
  cases kind with
  | collection => exact absurd rfl hkind
  | set => exact decide_eq_true (pairwise_dropRepeats (pairwise_ascending elems))
  | bag => exact decide_eq_true (pairwise_ascending elems)
  | orderedSet => exact decide_eq_true (pairwise_firstOccurrences elems ∅).2
  | sequence => rfl

theorem invariant_isWellFormed : Invariant fun v => v.isWellFormed where
  plain {v} h := by
    cases v with
    | collection => cases h
    | tuple => cases h
    | _ => rfl
  member {v w} h hw := by
    cases v with
    | collection kind elem elems =>
      rw [isWellFormed, Bool.and_eq_true] at h
      exact areWellFormed_iff.mp h.2 w hw
    | tuple parts =>
      obtain ⟨part, hpart, rfl⟩ := List.mem_map.mp hw
      exact arePartsWellFormed_iff.mp h part hpart
    | _ => cases hw
  collectionOf kind elem elems h := by
    rw [Value.collectionOf, isWellFormed, Bool.and_eq_true]
    exact ⟨isNormal_normalForm kind.concrete_ne_collection elems,
      areWellFormed_iff.mpr fun x hx => h x (mem_of_mem_normalForm hx)⟩
  tupleOf h := arePartsWellFormed_iff.mpr fun part hpart => h part (Parts.mem_of_mem_ofList hpart)

end Value

/-! ### What an evaluation leaves in its context -/

theorem Trace.suffix_entries_record (t : Trace) (limit : Nat) (entry : TraceEntry) :
    (t.record limit entry).entries <:+ t.entries ++ [entry] := by
  unfold record
  split
  · rw [entries_push, entries_dropOldest]
    exact List.suffix_append_self_iff.mpr (List.tail_suffix _)
  · rw [entries_push]

namespace Context

/-- The values that the listener was told of. -/
def reported (ctx : Context) : List Value :=
  (ctx.events.getD #[]).toList.filterMap fun event =>
    match event with
    | .entered _ => none
    | .left _ result => some result

/-- The values in the trace. -/
def recorded (ctx : Context) : List Value :=
  (ctx.trace.getD .empty).entries.map (·.result)

/-- All bindings are well-formed, and so is what has been reported and recorded since `start`. A
full trace loses its oldest entries. -/
structure WellFormedSince (start ctx : Context) : Prop where
  bindings : ∀ var ∈ ctx.bindings, var.2.isWellFormed
  reported : ∃ new : List Value, ctx.reported = start.reported ++ new ∧ ∀ v ∈ new, v.isWellFormed
  recorded : ∃ new : List Value, ctx.recorded <:+ start.recorded ++ new ∧
    ∀ v ∈ new, v.isWellFormed

theorem bindings_enter (ctx : Context) (e : Expr) : (ctx.enter e).bindings = ctx.bindings :=
  congrArg Stack.bindings (ctx.stack_enter e)

theorem bindings_exit (ctx : Context) (e : Expr) (v : Value) :
    (ctx.exit e v).bindings = ctx.bindings :=
  congrArg Stack.bindings (ctx.stack_exit e v)

theorem reported_enter (ctx : Context) (e : Expr) : (ctx.enter e).reported = ctx.reported := by
  unfold reported enter tell
  dsimp only
  rw [writeNode_eq]
  cases ctx.events <;> simp

theorem recorded_enter (ctx : Context) (e : Expr) : (ctx.enter e).recorded = ctx.recorded := by
  unfold recorded enter tell
  dsimp only
  rw [writeNode_eq]

/-- Leaving a node reports its value to a listener, if there is one. -/
theorem reported_exit (ctx : Context) (e : Expr) (v : Value) :
    (ctx.exit e v).reported = ctx.reported ∨ (ctx.exit e v).reported = ctx.reported ++ [v] := by
  unfold reported exit tell
  dsimp only
  rw [writeNode_eq]
  cases ctx.events with
  | none => exact .inl rfl
  | some events => exact .inr (by simp)

/-- Leaving a node records its value in the trace, if there is one. -/
theorem recorded_exit (ctx : Context) (e : Expr) (v : Value) :
    (ctx.exit e v).recorded <:+ ctx.recorded ++ [v] := by
  unfold recorded exit tell
  dsimp only
  rw [writeNode_eq]
  cases ctx.trace with
  | none => exact List.nil_suffix
  | some t =>
    have hsuffix : ∀ limit depth, (t.record limit ⟨depth, e, v⟩).entries.map (·.result) <:+
        t.entries.map (·.result) ++ [v] := fun limit depth => by
      simpa using (t.suffix_entries_record limit ⟨depth, e, v⟩).map (·.result)
    exact hsuffix _ _

theorem mem_bindings_of_lookup {ctx : Context} {x : String} {v : Value}
    (h : ctx.lookup x = .ok v) : (x, v) ∈ ctx.bindings := by
  unfold lookup at h
  split at h
  · next w hw =>
    obtain rfl := Except.ok.inj h
    exact List.mem_of_mem_take (Parts.mem_of_lookup hw)
  · cases h

namespace WellFormedSince

variable {start ctx : Context}

theorem refl (h : ∀ var ∈ ctx.bindings, var.2.isWellFormed) : WellFormedSince ctx ctx :=
  ⟨h, ⟨[], by simp⟩, ⟨[], by simp⟩⟩

/-- Bindings are dropped, or added with a well-formed value, and nothing else is done. -/
theorem mono {ctx' : Context} (h : WellFormedSince start ctx)
    (hbindings : ∀ var ∈ ctx'.bindings, var ∈ ctx.bindings ∨ var.2.isWellFormed)
    (hreported : ctx'.reported = ctx.reported) (hrecorded : ctx'.recorded = ctx.recorded) :
    WellFormedSince start ctx' where
  bindings var hvar := (hbindings var hvar).elim (h.bindings var) id
  reported := hreported ▸ h.reported
  recorded := hrecorded ▸ h.recorded

theorem exit (h : WellFormedSince start ctx) (e : Expr) {v : Value} (hv : v.isWellFormed) :
    WellFormedSince start (ctx.exit e v) := by
  obtain ⟨hbindings, ⟨reported, hreported, hreports⟩, recorded, hrecorded, hrecords⟩ := h
  have hlast : ∀ {vs : List Value}, (∀ w ∈ vs, w.isWellFormed) →
      ∀ w ∈ vs ++ [v], w.isWellFormed := by
    rintro vs hvs w hw
    rcases List.mem_append.mp hw with hw | hw
    · exact hvs w hw
    · exact List.mem_singleton.mp hw ▸ hv
  constructor
  · rwa [bindings_exit]
  · rcases ctx.reported_exit e v with heq | heq
    · exact ⟨reported, heq.trans hreported, hreports⟩
    · exact ⟨reported ++ [v], by rw [heq, hreported, List.append_assoc], hlast hreports⟩
  · refine ⟨recorded ++ [v], (ctx.recorded_exit e v).trans ?_, hlast hrecords⟩
    rw [← List.append_assoc]
    exact List.suffix_append_self_iff.mpr hrecorded

end WellFormedSince

end Context

/-- A computation beside itself, with well-formed values only. -/
def Lockstep.wellFormed (start : Context) : Lockstep Unit where
  rel _ ctx ctx' := ctx = ctx' ∧ start.WellFormedSince ctx
  good v := v.isWellFormed
  bind _ _ _ := ()
  frame _ := ()
  enter _ _ := ()
  good_undefined := rfl
  rel_bind {_ ctx _} name v hv h := by
    obtain ⟨rfl, h⟩ := h
    refine ⟨rfl, h.mono ?_ rfl rfl⟩
    rintro var hvar
    rcases List.mem_cons.mp hvar with rfl | hvar
    · exact .inr hv
    · exact .inl hvar
  rel_unbind {_ ctx _ _ _} h := by
    obtain ⟨rfl, h⟩ := h
    unfold Context.unbind
    split
    · exact ⟨rfl, h⟩
    · exact ⟨rfl, h.mono (fun var hvar => .inl (List.mem_of_mem_tail hvar)) rfl rfl⟩
  rel_pushFrame h := ⟨congrArg Context.pushFrame h.1, h.2.mono (fun _ => .inl) rfl rfl⟩
  rel_popFrame {_ ctx _ _} h := by
    obtain ⟨rfl, h⟩ := h
    unfold Context.popFrame
    split
    · exact ⟨rfl, h⟩
    · exact ⟨rfl, h.mono (fun var hvar => .inl (List.mem_of_mem_drop hvar)) rfl rfl⟩
  rel_write entry h := ⟨congrArg (·.write entry) h.1, h.2.mono (fun _ => .inl) rfl rfl⟩
  rel_enter {_ ctx _} e h := by
    obtain ⟨rfl, h⟩ := h
    refine ⟨rfl, h.mono ?_ (ctx.reported_enter e) (ctx.recorded_enter e)⟩
    rw [Context.bindings_enter]
    exact fun _ => .inl
  rel_exit e v hv h := ⟨congrArg (·.exit e v) h.1, h.2.exit e hv⟩
  rel_recordFailure h := ⟨congrArg Context.recordFailure h.1, h.2.mono (fun _ => .inl) rfl rfl⟩

namespace Snapshot

open Lockstep (wellFormed)

variable {s : Snapshot}

theorem isWellFormed_linked (o : ObjectRef) (role : String) : (s.linked o role).isWellFormed := by
  unfold linked
  split
  · rfl
  · next e =>
    have hobjects : ∀ x ∈ (s.targets o role).map Value.object, x.isWellFormed := by
      rintro x hx
      obtain ⟨target, -, rfl⟩ := List.mem_map.mp hx
      rfl
    dsimp only
    split
    · exact Value.invariant_isWellFormed.collectionOf _ _ hobjects
    · cases hhead : ((s.targets o role).map Value.object).head? with
      | none => rfl
      | some x => exact hobjects x (List.mem_of_mem_head? hhead)

/-- The attributes of a snapshot have well-formed values if all values that were set are so. -/
theorem isWellFormed_attributeOf
    (hs : ∀ record ∈ s.objects, ∀ part ∈ record.attributes, part.2.isWellFormed) (o : ObjectRef)
    (name : String) : (s.attributeOf o name).isWellFormed := by
  unfold attributeOf
  split
  · next record hrecord =>
    cases hfound : record.attributes.lookup name with
    | none => rfl
    | some v => exact hs record (List.mem_of_getElem? hrecord) _ (Parts.mem_of_lookup hfound)
  · rfl

theorem wellFormed_follows (hs : ∀ o name, (s.attributeOf o name).isWellFormed)
    (start : Context) :
    (wellFormed start).Follows s.toModel (fun _ _ => True) (fun _ => True) where
  values := Value.invariant_isWellFormed
  attributeOf := hs
  linked := isWellFormed_linked
  malformed _ := trivial
  lookup := by
    rintro _ x ctx _ - ⟨rfl, h⟩
    refine ⟨rfl, ?_, fun _ _ => trivial⟩
    rintro v hv
    exact h.bindings _ (Context.mem_bindings_of_lookup hv)
  enter _ _ := trivial
  bind _ _ _ := trivial
  body _ _ _ := trivial

/-- Where attributes and bindings have well-formed values, an evaluation returns a well-formed value
if it returns one. At each node that it enters, all bindings are well-formed, and so is the value of
each node; and so are the values that it reports to a listener and those that it records. -/
theorem eval_wellFormed (hs : ∀ o name, (s.attributeOf o name).isWellFormed) (fuel : Nat)
    (e : Expr) {ctx : Context} (hctx : ∀ var ∈ ctx.bindings, var.2.isWellFormed) :
    (∀ v, ((s.toModel.eval fuel e).run.run ctx).1 = .ok v → v.isWellFormed) ∧
      (∀ alarm, (s.toModel.watched (fun _ ctx => ctx.bindings.all (·.2.isWellFormed))
          Value.isWellFormed alarm fuel e).run.run ctx = (s.toModel.eval fuel e).run.run ctx) ∧
      ctx.WellFormedSince ((s.toModel.eval fuel e).run.run ctx).2 := by
  have hfollows := wellFormed_follows hs ctx
  have hstart : (wellFormed ctx).rel () ctx ctx := ⟨rfl, .refl hctx⟩
  obtain ⟨-, hmeets, -, hfinal⟩ :=
    hfollows.alike_eval fuel (e := e) (fun _ _ => trivial) ctx ctx hstart
  refine ⟨?_, ?_, hfinal⟩
  · rintro v hv
    rw [hv] at hmeets
    exact hmeets
  · intro alarm
    have hbindings : ∀ i e before after, Lockstep.InSight (fun _ _ => True) i e →
        (wellFormed ctx).rel i before after → after.bindings.all (·.2.isWellFormed) := by
      rintro _ _ before _ - ⟨rfl, h⟩
      exact List.all_eq_true.mpr h.bindings
    have halike := hfollows.alike_watched alarm hbindings (fun _ hv => hv) fuel (i := ()) (e := e)
      fun _ _ => trivial
    obtain ⟨houtcome, -, hcontext, -⟩ := halike ctx ctx hstart
    exact (Prod.ext houtcome hcontext).symm

/-- An element included in a set takes its place there. -/
theorem eval_wellFormed_including :
    let s := (empty.createObject "Person" "Ann").setAttribute ⟨0, "Person", "Ann"⟩ "scores"
      (.collection .bag .integer [.integer 1, .integer 1])
    let e := Expr.call "including" (.standard .including) (.var "xs" (.collection .set .integer))
      [.const (.integer 0)] (.collection .set .integer)
    let ctx := Context.empty.bind "xs" (.collection .set .integer [.integer (-1), .integer 3])
    let result := Value.collection .set .integer [.integer (-1), .integer 0, .integer 3]
    ((s.toModel.eval 2 e).run.run ctx).1 = .ok result ∧ result.isWellFormed := by
  intro s e ctx result
  have hs : ∀ o name, (s.attributeOf o name).isWellFormed :=
    isWellFormed_attributeOf (by decide)
  have hsorted : Value.ascending [.integer (-1), .integer 3, .integer 0] =
      [.integer (-1), .integer 0, .integer 3] := by
    have hthree : Value.le (.integer (-1)) (.integer 3) = true := rfl
    have hzero : Value.le (.integer (-1)) (.integer 0) = true := rfl
    have hlast : Value.le (.integer 3) (.integer 0) = false := rfl
    simp [Value.ascending, Value.isAscending, List.mergeSort, hthree, hzero, hlast]
  have hvalue : ((s.toModel.eval 2 e).run.run ctx).1 = .ok result :=
    calc ((s.toModel.eval 2 e).run.run ctx).1
      _ = .ok (.collection .set .integer
          (Value.dropRepeats (Value.ascending [.integer (-1), .integer 3, .integer 0]))) := rfl
      _ = .ok result := by
        rw [hsorted]
        rfl
  exact ⟨hvalue, (eval_wellFormed hs 2 e (by decide)).1 result hvalue⟩

end Snapshot

end ObjectConstraint
