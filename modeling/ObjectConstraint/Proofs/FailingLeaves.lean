import ObjectConstraint.Proofs.Observers
import ObjectConstraint.Proofs.WellFormed
import Mathlib.Data.List.DropRight

/-!
# Failing leaves

The entries of a trace stand in the order in which their nodes were left, so what was evaluated
inside a node is the run of deeper entries just before its own. `Trace.failingLeaves` finds the
failing entries with no failing entry in that run in one pass, with one flag for each depth.

* `TraceEntry.inside`, `Trace.leafAt` — the run before an entry, and the entry at a place if it is a
  failing leaf.
* `Trace.Flagged` — what the flags say of the entries that have been passed.
* `Trace.Steady` — from one entry to the next the depth falls by one at most. It does in every trace
  that is recorded, also in one that has lost its oldest entries.
* `Context.failingLeaves_noteAll` — the failing leaves of whatever has been recorded.
-/

namespace ObjectConstraint

/-- The entries inside the one that follows `before`: the longest run at the end that is deeper. -/
def TraceEntry.inside (entry : TraceEntry) (before : List TraceEntry) : List TraceEntry :=
  before.rtakeWhile fun other => entry.depth < other.depth

namespace Trace

/-- The entry at a place, if it is a failure and no entry inside it is one. -/
def leafAt (entries : List TraceEntry) (i : Nat) : Option TraceEntry :=
  entries[i]?.filter fun entry =>
    entry.isFailure && !(entry.inside (entries.take i)).any (·.isFailure)

/-! ### The flags -/

/-- Whether there is a failure among the passed entries, newest first, of the given depth and
deeper, since the last one that is less deep. Entries that are not yet inside one of this depth do
not count. -/
def flag (passed : List TraceEntry) (depth : Nat) : Bool :=
  ((passed.takeWhile (depth ≤ ·.depth)).dropWhile (depth < ·.depth)).any (·.isFailure)

/-- The flags stand for the passed entries. -/
def Flagged (below : Array Bool) (passed : List TraceEntry) : Prop :=
  ∀ depth, below.getD depth false = flag passed depth

theorem flagged_empty : Flagged #[] [] := fun _ => rfl

variable {below : Array Bool} {passed : List TraceEntry} {entry : TraceEntry} {depth : Nat}

theorem flag_cons_of_lt (h : depth < entry.depth) :
    flag (entry :: passed) depth = flag passed depth := by
  simp [flag, h, h.le]

theorem flag_cons_of_gt (h : entry.depth < depth) : flag (entry :: passed) depth = false := by
  simp [flag, h]

/-- An entry and the run of deeper entries before it count at its own depth. -/
theorem flag_cons_self :
    flag (entry :: passed) entry.depth =
      (entry.isFailure || (entry.inside passed.reverse).any (·.isFailure) ||
        flag passed entry.depth) := by
  -- The run at this depth is cut where the deeper entries at its newer end stop.
  have hrun := List.takeWhile_append_dropWhile
    (p := fun other : TraceEntry => decide (entry.depth < other.depth))
    (l := passed.takeWhile (entry.depth ≤ ·.depth))
  have hdeeper : (passed.takeWhile (entry.depth ≤ ·.depth)).takeWhile (entry.depth < ·.depth) =
      passed.takeWhile (entry.depth < ·.depth) := by
    rw [List.takeWhile_takeWhile]
    congr 1
    funext other
    simp
    omega
  have hself : flag (entry :: passed) entry.depth =
      (entry.isFailure || (passed.takeWhile (entry.depth ≤ ·.depth)).any (·.isFailure)) := by
    simp [flag]
  rw [hself, ← hrun, List.any_append, hdeeper]
  simp [TraceEntry.inside, List.rtakeWhile, flag, Bool.or_assoc]

/-- The flag one deeper than the next entry says whether there is a failure inside that entry: none
of the passed entries waits for one between them. -/
theorem flag_succ (h : ∀ last ∈ passed.head?, last.depth ≤ entry.depth + 1) :
    flag passed (entry.depth + 1) = (entry.inside passed.reverse).any (·.isFailure) := by
  have hkept : (passed.takeWhile (entry.depth + 1 ≤ ·.depth)).dropWhile
      (entry.depth + 1 < ·.depth) = passed.takeWhile (entry.depth + 1 ≤ ·.depth) := by
    cases passed with
    | nil => rfl
    | cons last passed =>
      have hlast : last.depth ≤ entry.depth + 1 := h last rfl
      by_cases hinside : entry.depth + 1 ≤ last.depth
      · rw [List.takeWhile_cons_of_pos (by simpa using hinside),
          List.dropWhile_cons_of_neg (by simpa using hlast)]
      · rw [List.takeWhile_cons_of_neg (by simpa using hinside), List.dropWhile_nil]
  rw [flag, hkept, TraceEntry.inside, List.rtakeWhile, List.reverse_reverse, List.any_reverse]
  rfl

/-! ### One pass -/

theorem size_resized (size : Nat) :
    (below.shrink size ++ Array.replicate (size - below.size) false).size = size := by
  simp
  omega

theorem getD_resized (size : Nat) :
    (below.shrink size ++ Array.replicate (size - below.size) false).getD depth false =
      if depth < size then below.getD depth false else false := by
  simp only [Array.getD_eq_getD_getElem?, Array.getElem?_append, Array.getElem?_replicate,
    Array.shrink_eq_take, Array.getElem?_extract]
  split <;> split <;> simp <;> grind

theorem getD_push (flags : Array Bool) (last : Bool) :
    (flags.push last).getD depth false =
      if depth = flags.size then last else flags.getD depth false := by
  simp only [Array.getD_eq_getD_getElem?, Array.getElem?_push]
  split <;> rfl

/-- The flags after an entry stand for one entry more. -/
theorem Flagged.push (h : Flagged below passed)
    (hentry : ∀ last ∈ passed.head?, last.depth ≤ entry.depth + 1) :
    Flagged ((below.shrink entry.depth ++ Array.replicate (entry.depth - below.size) false).push
      (entry.isFailure || below.getD (entry.depth + 1) false || below.getD entry.depth false))
      (entry :: passed) := by
  intro depth
  rw [getD_push, getD_resized, size_resized]
  rcases Nat.lt_trichotomy depth entry.depth with hlt | rfl | hgt
  · simp [flag_cons_of_lt hlt, h depth, hlt, hlt.ne]
  · simp [flag_cons_self, h entry.depth, h (entry.depth + 1), flag_succ hentry]
  · simp [flag_cons_of_gt hgt, hgt.not_gt, hgt.ne']

/-- From one entry to the next the depth falls by one at most. -/
def Steady (entries : List TraceEntry) : Prop :=
  entries.IsChain fun entry next => entry.depth ≤ next.depth + 1

/-- With flags for the passed entries the pass finds the leaves at the places after these. -/
theorem failingLeavesFrom_eq (entries : List TraceEntry) (h : Flagged below passed)
    (hsteady : Steady (passed.reverse ++ entries)) :
    failingLeavesFrom below entries = (List.range entries.length).filterMap fun i =>
      leafAt (passed.reverse ++ entries) (passed.length + i) := by
  induction entries generalizing below passed with
  | nil => rfl
  | cons entry entries ih =>
    have hentry : ∀ last ∈ passed.head?, last.depth ≤ entry.depth + 1 := by
      intro last hlast
      refine (List.isChain_append.mp hsteady).2.2 last ?_ entry rfl
      rwa [List.getLast?_reverse]
    have hrest := ih (h.push hentry) (by simpa using hsteady)
    have hhere : leafAt (passed.reverse ++ entry :: entries) (passed.length + 0) =
        if entry.isFailure && !below.getD (entry.depth + 1) false then some entry else none := by
      simp [leafAt, h (entry.depth + 1), flag_succ hentry, List.take_left', Option.filter]
    have hplaces : (fun i => leafAt ((entry :: passed).reverse ++ entries)
        ((entry :: passed).length + i)) =
        (fun i => leafAt (passed.reverse ++ entry :: entries) (passed.length + i)) ∘ Nat.succ := by
      funext i
      simp [Nat.add_right_comm, Nat.add_assoc]
    rw [failingLeavesFrom, hrest, hplaces, (List.length_cons : (entry :: entries).length = _),
      List.range_succ_eq_map, List.filterMap_cons, hhere, List.filterMap_map]
    split <;> rfl

/-- The failing leaves are the entries at the places of leaves, in the order of the trace. -/
theorem failingLeaves_eq {t : Trace} (h : Steady t.entries) :
    t.failingLeaves = (List.range t.entries.length).filterMap (leafAt t.entries) := by
  have hpass := failingLeavesFrom_eq t.entries flagged_empty h
  simp only [List.reverse_nil, List.nil_append, List.length_nil, Nat.zero_add] at hpass
  exact hpass

/-- The oldest failure has no failure inside it. -/
theorem filterMap_leafAt_eq_nil_iff {entries : List TraceEntry} :
    (List.range entries.length).filterMap (leafAt entries) = [] ↔
      ∀ entry ∈ entries, entry.isFailure = false := by
  constructor
  · intro h
    rw [List.filterMap_eq_nil_iff] at h
    by_contra hfailure
    obtain ⟨entry, hfound⟩ : ∃ entry, entries.find? (·.isFailure) = some entry := by
      rw [← Option.isSome_iff_exists, List.find?_isSome]
      simpa using hfailure
    obtain ⟨hentry, before, after, rfl, hbefore⟩ := List.find?_eq_some_iff_append.mp hfound
    have hleaf := h before.length (by simp)
    obtain ⟨other, hother, hfails⟩ : ∃ other ∈ entry.inside before, other.isFailure := by
      simpa [leafAt, hentry] using hleaf
    have hpasses := hbefore other ((List.rtakeWhile_suffix _ before).mem hother)
    simp [hfails] at hpasses
  · intro h
    rw [List.filterMap_eq_nil_iff]
    intro i _
    rw [leafAt, Option.filter_eq_none_iff]
    intro entry hentry
    simp [h entry (List.mem_of_getElem? hentry)]

end Trace

/-! ### Recorded traces -/

/-- A node is left at most one level above the nodes left before it. -/
theorem steady_exits (opened : Nat) (events : List Event) :
    Trace.Steady (exits opened events) ∧
      ∀ first ∈ (exits opened events).head?, opened ≤ first.depth + 1 := by
  induction events generalizing opened with
  | nil => exact ⟨.nil, nofun⟩
  | cons event events ih =>
    cases event with
    | entered node =>
      obtain ⟨hsteady, hfirst⟩ := ih (opened + 1)
      exact ⟨hsteady, fun first h => by have := hfirst first h; omega⟩
    | left node result =>
      obtain ⟨hsteady, hfirst⟩ := ih (opened - 1)
      constructor
      · exact List.isChain_cons.mpr ⟨hfirst, hsteady⟩
      · intro first h
        obtain rfl := Option.some.inj h
        show opened ≤ opened - 1 + 1
        omega

theorem Trace.suffix_entries_foldl_record (t : Trace) (limit : Nat) (new : List TraceEntry) :
    (new.foldl (·.record limit) t).entries <:+ t.entries ++ new := by
  induction new generalizing t with
  | nil => simp
  | cons entry new ih =>
    have hfirst : (t.record limit entry).entries ++ new <:+ (t.entries ++ [entry]) ++ new :=
      List.suffix_append_self_iff.mpr (suffix_entries_record t limit entry)
    have hlater := (ih (t.record limit entry)).trans hfirst
    simpa using hlater

namespace Context

/-- A node is entered or left. -/
def note (ctx : Context) : Event → Context
  | .entered node => ctx.enter node
  | .left node result => ctx.exit node result

/-- Nodes are entered and left in any order. -/
def noteAll (ctx : Context) (events : List Event) : Context := events.foldl note ctx

theorem observers_noteAll (ctx : Context) (events : List Event) :
    (ctx.noteAll events).observers = ctx.observers.seeAll events := by
  induction events generalizing ctx with
  | nil => rfl
  | cons event events ih =>
    refine (ih (ctx.note event)).trans ?_
    rw [Observers.seeAll_cons]
    cases event with
    | entered node => rw [note, observers_enter]
    | left node result => rw [note, observers_exit]

theorem exists_trace_noteAll (ctx : Context) (limit : Nat) (events : List Event) :
    ∃ t, ((ctx.recording limit).noteAll events).trace = some t ∧ Trace.Steady t.entries := by
  have htrace := congrArg Observers.trace (observers_noteAll (ctx.recording limit) events)
  rw [Observers.trace_seeAll] at htrace
  refine ⟨_, htrace, ?_⟩
  exact (steady_exits ctx.depth events).1.suffix
    (Trace.suffix_entries_foldl_record .empty limit (exits ctx.depth events))

/-- Whatever nodes are entered and left in a context that records, with any limit, the trace has as
its failing leaves, in its order, the entries that are failures and have no failure inside them;
and there is one unless no entry is a failure. -/
theorem failingLeaves_noteAll (ctx : Context) (limit : Nat) (events : List Event) :
    ∃ t, ((ctx.recording limit).noteAll events).trace = some t ∧
      t.failingLeaves = (List.range t.entries.length).filterMap (Trace.leafAt t.entries) ∧
      (t.failingLeaves = [] ↔ ∀ entry ∈ t.entries, entry.isFailure = false) := by
  obtain ⟨t, htrace, hsteady⟩ := exists_trace_noteAll ctx limit events
  have hleaves := Trace.failingLeaves_eq hsteady
  exact ⟨t, htrace, hleaves, by rw [hleaves, Trace.filterMap_leafAt_eq_nil_iff]⟩

/-- Of two failing operands and the connective around them the operands are the leaves; where the
limit has dropped the first one, the second is left. -/
example :
    let x := Expr.var "x" .boolean
    let e := Expr.call "and" (.standard .and) x [x] .boolean
    let leaves := fun limit => ((Context.empty.recording limit).noteAll
      [.entered e, .entered x, .left x .undefined, .entered x, .left x (.boolean false),
        .left e (.boolean false)]).trace.map (·.failingLeaves)
    leaves 0 = some [⟨1, x, .undefined⟩, ⟨1, x, .boolean false⟩] ∧
      leaves 2 = some [⟨1, x, .boolean false⟩] := ⟨rfl, rfl⟩

end Context

end ObjectConstraint
