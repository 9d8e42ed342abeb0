import ObjectConstraint.Proofs.LoopValues

/-!
# Free variables

A variable is free in a tree at an occurrence that no binder around it binds. A `let` binds its name
in its body, a loop binds names in its body; values, sources and initial values stand outside.

* `Expr.scopedChildren` — the children of a node, each with the names bound around it.
* `Expr.Free` — the free variables. What a loop binds is a parameter: all that it lists, or what
  its evaluation binds.
-/

namespace ObjectConstraint

/-- The names that loops bind in their bodies. -/
abbrev LoopNames := LoopKind → List String → Option (Accumulator Expr) → List String

namespace LoopKind

/-- All names that a loop lists: its iterators and its accumulator. -/
def listed : LoopNames :=
  fun _ iterators accumulator => iterators ++ accumulator.toList.map (·.name)

/-- The names that are bound while the body of a loop runs, in the order of binding. Only `iterate`
has use for an accumulator. -/
def binders : LoopNames := fun kind iterators accumulator =>
  kind.bound iterators ++ if kind = iterate then accumulator.toList.map (·.name) else []

theorem binders_none (kind : LoopKind) (iterators : List String) :
    binders kind iterators none = kind.bound iterators := by
  simp [binders]

theorem binders_of_ne {kind : LoopKind} (h : kind ≠ iterate) (iterators : List String)
    (accumulator : Option (Accumulator Expr)) :
    binders kind iterators accumulator = kind.bound iterators := by
  simp [binders, h]

end LoopKind

namespace Expr

/-- The children of a node in the order of evaluation, each with the names that the node binds
around it. -/
def scopedChildren (names : LoopNames) : Expr → List (List String × Expr)
  | letIn name value body _ => [([], value), ([name], body)]
  | loop kind source iterators accumulator body _ =>
    ([], source) :: (accumulator.toList.map fun a => ([], a.init)) ++
      [(names kind iterators accumulator, body)]
  | e => e.children.map fun child => ([], child)

/-- A variable has an occurrence in a tree that nothing in the tree binds. -/
inductive Free (names : LoopNames) (x : String) : Expr → Prop
  | here (ty : Ty) : Free names x (.var x ty)
  | inside {e child : Expr} {bound : List String}
    (hchild : (bound, child) ∈ e.scopedChildren names) (hx : x ∉ bound)
    (h : Free names x child) : Free names x e

variable {names : LoopNames} {x : String}

/-- What a free variable of a node has follows from where it occurs: in the node itself, or in a
child that the node does not bind it around. -/
theorem Free.elim {P : Prop} {e : Expr} (h : e.Free names x) (hvar : ∀ ty, e = .var x ty → P)
    (hchild : ∀ part ∈ e.scopedChildren names, part.2.Free names x → x ∈ part.1 ∨ P) : P := by
  rcases h with ty | ⟨hmem, hx, h⟩
  · exact hvar ty rfl
  · exact (hchild _ hmem h).resolve_left hx

/-- The same for a node that binds no names. -/
theorem Free.elim_children {P : Prop} {e : Expr} (h : e.Free names x)
    (hplain : e.scopedChildren names = e.children.map fun child => ([], child))
    (hvar : ∀ ty, e = .var x ty → P) (hchild : ∀ child ∈ e.children, child.Free names x → P) :
    P := by
  refine h.elim hvar ?_
  rw [hplain]
  intro part hpart hfree
  obtain ⟨child, hmem, rfl⟩ := List.mem_map.mp hpart
  exact .inr (hchild child hmem hfree)

theorem not_free_literal (lit : Literal) (ty : Ty) : ¬ (literal lit ty).Free names x := by
  rintro (_ | ⟨hnone, -, -⟩)
  cases hnone

theorem free_var_iff {name : String} {ty : Ty} : (var name ty).Free names x ↔ x = name := by
  constructor
  · rintro (_ | ⟨hnone, -, -⟩)
    · rfl
    · cases hnone
  · rintro rfl
    exact .here ty

/-- A loop has no free variable where its source and its initial value have none and it binds those
of its body. -/
theorem not_free_loop {kind : LoopKind} {source body : Expr} {iterators : List String}
    {accumulator : Option (Accumulator Expr)} {ty : Ty} (hsource : ¬ source.Free names x)
    (hinit : ∀ a ∈ accumulator.toList, ¬ a.init.Free names x)
    (hbody : body.Free names x → x ∈ names kind iterators accumulator) :
    ¬ (loop kind source iterators accumulator body ty).Free names x := by
  intro h
  refine h.elim (fun _ heq => nomatch heq) ?_
  rintro part hpart hfree
  rcases List.mem_cons.mp hpart with rfl | hpart
  · exact absurd hfree hsource
  rcases List.mem_append.mp hpart with hpart | hpart
  · obtain ⟨a, ha, rfl⟩ := List.mem_map.mp hpart
    exact absurd hfree (hinit a ha)
  · obtain rfl := List.mem_singleton.mp hpart
    exact .inl (hbody hfree)

end Expr

end ObjectConstraint
