import ObjectConstraint.Expr
import ObjectConstraint.Value.Text

/-!
# Traces

A trace lists the evaluated nodes, each after the nodes evaluated inside it, with its depth and its
result. With a limit it keeps the latest entries only.

* `Trace.record` — adds an entry, dropping the oldest one from a full trace.
* `Trace.root` — the entry of the outermost node.
* `Trace.failingLeaves` — the failing entries without a failing entry inside them.
-/

namespace ObjectConstraint

/-- An evaluated node. -/
structure TraceEntry where
  /-- The number of nodes around it. -/
  depth : Nat
  node : Expr
  result : Value

/-- A Boolean node that is not true. -/
def TraceEntry.isFailure (entry : TraceEntry) : Bool :=
  entry.node.ty = .boolean && entry.result.bool? ≠ some true

/-- The recorded entries. They form a queue: the oldest leave it at the front. -/
structure Trace where
  /-- The older entries, in the order of their ends. -/
  front : List TraceEntry
  /-- The newer entries, in the reverse order. -/
  back : List TraceEntry
  /-- How many entries there are. -/
  size : Nat
  size_eq : size = front.length + back.length
  /-- How many entries were dropped. -/
  dropped : Nat

namespace Trace

def empty : Trace := ⟨[], [], 0, rfl, 0⟩

/-- The entries in the order of their ends. -/
def entries (t : Trace) : List TraceEntry := t.front ++ t.back.reverse

theorem length_entries (t : Trace) : t.entries.length = t.size := by
  simp [entries, t.size_eq]

/-- The trace without its oldest entry, which counts as dropped. -/
def dropOldest (t : Trace) : Trace :=
  match h : t.front with
  | _ :: front => ⟨front, t.back, t.size - 1, by simp [t.size_eq, h, Nat.add_right_comm], t.dropped + 1⟩
  | [] => ⟨t.back.reverse.tail, [], t.size - 1, by simp [t.size_eq, h], t.dropped + 1⟩

/-- Adds an entry. -/
def push (t : Trace) (entry : TraceEntry) : Trace :=
  ⟨t.front, entry :: t.back, t.size + 1, by simp [t.size_eq, Nat.add_assoc], t.dropped⟩

/-- Adds an entry to a trace of limited size. One that has reached the limit loses its oldest entry
first; the limit 0 is none. -/
def record (t : Trace) (limit : Nat) (entry : TraceEntry) : Trace :=
  if 0 < limit ∧ limit ≤ t.size then t.dropOldest.push entry else t.push entry

@[simp] theorem entries_dropOldest (t : Trace) : t.dropOldest.entries = t.entries.tail := by
  unfold dropOldest entries
  split <;> simp [*]

@[simp] theorem entries_push (t : Trace) (entry : TraceEntry) :
    (t.push entry).entries = t.entries ++ [entry] := by
  simp [entries, push]

/-- The entry of the outermost node, once that has ended. -/
def root (t : Trace) : Option TraceEntry :=
  (t.back.head?.or t.front.getLast?).filter (·.depth = 0)

/-- The failing leaves of a list of entries. `below` says at each depth whether an entry of that
depth, or one inside it, has failed since an entry less deep ended. -/
def failingLeavesFrom (below : Array Bool) : List TraceEntry → List TraceEntry
  | [] => []
  | entry :: entries =>
    let inside := below.getD (entry.depth + 1) false
    let failed := entry.isFailure || inside || below.getD entry.depth false
    let around := below.shrink entry.depth ++ Array.replicate (entry.depth - below.size) false
    let rest := failingLeavesFrom (around.push failed) entries
    if entry.isFailure && !inside then entry :: rest else rest

/-- The failing entries that have no failing entry inside them. -/
def failingLeaves (t : Trace) : List TraceEntry :=
  failingLeavesFrom #[] t.entries

end Trace

end ObjectConstraint
