import ObjectConstraint.Ty

/-!
# Scopes

The variables in sight while a tree is built: a stack of scopes, each with the types of its
variables. The outermost scope holds the free variables and is never closed.

* `lookup_bind` — a variable just bound is found with its type, and no other is affected.
* `depth_opened`, `closed_opened` — opening a scope and closing it again changes nothing.
-/

namespace ObjectConstraint

/-- The variables of one scope with their types, newest first. -/
abbrev Scope.Frame := List (String × Ty)

/-- A stack of scopes. -/
structure Scope where
  /-- The opened scopes, innermost first. -/
  inner : List Scope.Frame
  /-- The scope of the free variables. -/
  outermost : Scope.Frame
  deriving Repr

namespace Scope

/-- One scope without a variable. -/
def empty : Scope := ⟨[], []⟩

/-- Opens a scope. -/
def opened (s : Scope) : Scope := { s with inner := [] :: s.inner }

/-- Closes the innermost scope; the outermost one stays. -/
def closed (s : Scope) : Scope := { s with inner := s.inner.tail }

/-- Binds a variable in the innermost scope. -/
def bind (s : Scope) (name : String) (ty : Ty) : Scope :=
  match s.inner with
  | [] => { s with outermost := (name, ty) :: s.outermost }
  | frame :: frames => { s with inner := ((name, ty) :: frame) :: frames }

/-- Binds variables one after the other. -/
def bindAll (s : Scope) (vars : List (String × Ty)) : Scope :=
  vars.foldl (fun s var => s.bind var.1 var.2) s

/-- The type of a variable, from the innermost scope that has it. -/
def lookup (s : Scope) (name : String) : Option Ty :=
  (s.inner.findSome? (·.lookup name)).or (s.outermost.lookup name)

/-- The number of scopes. -/
def depth (s : Scope) : Nat := s.inner.length + 1

@[simp] theorem closed_opened (s : Scope) : s.opened.closed = s := rfl

@[simp] theorem depth_opened (s : Scope) : s.opened.depth = s.depth + 1 := rfl

@[simp] theorem depth_bind (s : Scope) (name : String) (ty : Ty) :
    (s.bind name ty).depth = s.depth := by
  rcases s with ⟨_ | ⟨frame, frames⟩, outermost⟩ <;> rfl

theorem lookup_opened (s : Scope) (name : String) : s.opened.lookup name = s.lookup name := by
  simp [opened, lookup, List.findSome?_cons]

theorem lookup_bind (s : Scope) (name other : String) (ty : Ty) :
    (s.bind name ty).lookup other = if other = name then some ty else s.lookup other := by
  rcases s with ⟨_ | ⟨frame, frames⟩, outermost⟩ <;> by_cases h : other = name
  · simp [bind, lookup, h]
  · simp [bind, lookup, h, Parts.lookup_cons_ne h]
  · simp [bind, lookup, h]
  · simp [bind, lookup, h, Parts.lookup_cons_ne h, List.findSome?_cons]

/-- Opening a scope, binding in it and closing it leaves the scope as it was. -/
theorem closed_bindAll_opened (s : Scope) (vars : List (String × Ty)) :
    (s.opened.bindAll vars).closed = s := by
  suffices ∀ (vars : List (String × Ty)) (frame : Frame),
      (bindAll ⟨frame :: s.inner, s.outermost⟩ vars).closed = s from this vars []
  intro vars
  induction vars with
  | nil => exact fun _ => rfl
  | cons var vars ih => exact fun frame => ih (var :: frame)

end Scope

end ObjectConstraint
