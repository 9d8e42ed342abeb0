import ObjectConstraint.Proofs.Reliance

/-!
# The path to a failure

The first failure is kept at every level that it passes on its way out, but only the innermost level
comes first, so what remains is the path to the node that has failed by itself. That holds of any
tree, in any object model: nothing recovers from an error, and the open nodes are exact inside loops
and inside the bodies of query operations as anywhere else.

* `ObjectModel.Raises` — a node fails by itself, with no failure inside it;
  `ObjectModel.Raises.not_stopsAt` — then it has not stopped at one.
* `ObjectModel.FailsAlong` — a path from a tree down to such a node.
* `ObjectModel.failure_eval` — the failure that an evaluation keeps.
-/

namespace ObjectConstraint

/-- A node as it stands among the open nodes. -/
def Expr.openNode (e : Expr) : OpenNode := ⟨e.label, e.ty⟩

namespace Context

theorem openNodes_enter (ctx : Context) (e : Expr) :
    (ctx.enter e).openNodes = e.openNode :: ctx.openNodes := by
  rw [openNodes, path_enter]
  rfl

theorem openNodes_eq_of_walk_eq {ctx inner : Context} (h : inner.walk = ctx.walk) :
    inner.openNodes = ctx.openNodes :=
  congrArg (fun walk => walk.1.nodes) h

theorem failure_eq_of_walk_eq {ctx inner : Context} (h : inner.walk = ctx.walk) :
    inner.failure = ctx.failure :=
  congrArg Prod.snd h

end Context

namespace ObjectModel

open Evaluator

/-- A node, once entered, ends with an error that comes from none of the evaluations inside it: the
ones that it makes succeed, as whatever others would give leaves its run the same. -/
structure Raises (M : ObjectModel) (fuel : Nat) (e : Expr) (ctx : Context) (err : EvalError) :
    Prop where
  error : ((M.evalNode fuel (M.eval fuel) e).run.run (ctx.enter e)).1 = .error (.error err)
  settles : Settles (M.eval fuel) (fun eval => M.evalNode fuel eval e) (ctx.enter e)

/-- The evaluation of a tree in a context fails with an error along a path: the path begins with the
tree, and either that node raises the error, or its evaluation stops at the one of a tree to which
it leads, which fails with the error along the rest of the path. -/
inductive FailsAlong (M : ObjectModel) :
    (fuel : Nat) → Expr → Context → EvalError → List Expr → Prop
  | raised {fuel : Nat} {e : Expr} {ctx : Context} {err : EvalError}
    (h : M.Raises fuel e ctx err) : M.FailsAlong (fuel + 1) e ctx err [e]
  | inside {fuel : Nat} {e c : Expr} {ctx inner : Context} {err : EvalError} {path : List Expr}
    (hleads : M.Leads (M.eval fuel) (ctx.enter e) e c)
    (hstops : StopsAt (M.eval fuel) (fun eval => M.evalNode fuel eval e) (ctx.enter e) c inner)
    (h : M.FailsAlong fuel c inner err path) : M.FailsAlong (fuel + 1) e ctx err (e :: path)

variable {M : ObjectModel}

/-- A node that raises an error does not come to an evaluation that fails: a path ends only where no
path continues. -/
theorem Raises.not_stopsAt {fuel : Nat} {e c : Expr} {ctx inner final : Context} {err : EvalError}
    {stop : Stop} (h : M.Raises fuel e ctx err)
    (herror : (M.eval fuel c).run.run inner = (.error stop, final)) :
    ¬ StopsAt (M.eval fuel) (fun eval => M.evalNode fuel eval e) (ctx.enter e) c inner :=
  fun hstops => hstops.not_settles herror h.settles

/-- An evaluation that fails below open nodes keeps these, and then a path along which it fails. -/
theorem exists_failsAlong {fuel : Nat} {e : Expr} {ctx final : Context} {err : EvalError}
    (hfailure : ctx.failure = none)
    (hrun : (M.eval fuel e).run.run ctx = (.error (.error err), final)) :
    ∃ path : List Expr,
      final.failure = some (ctx.openNodes.reverse ++ path.map Expr.openNode) ∧
        M.FailsAlong fuel e ctx err path := by
  induction fuel generalizing e ctx final with
  | zero => cases hrun
  | succ fuel ih =>
    rcases hnode : (M.evalNode fuel (M.eval fuel) e).run.run (ctx.enter e) with ⟨stop | v, left⟩
    · rw [eval, EvalM.run_observed, hnode] at hrun
      obtain ⟨hstop, hfinal⟩ := Prod.mk.inj hrun
      cases hstop
      have hkept : final.failure = left.failure.or (some left.openNodes.reverse) := by
        rw [← hfinal, Context.failure_exit]
        rfl
      have hentered : (ctx.enter e).failure = none := by rw [Context.failure_enter, hfailure]
      cases relies_evalNode (keepsWalk_eval M fuel) fuel e (ctx.enter e) with
      | settles hsettles hwalk =>
        -- Nothing inside has failed, so this level is the first to keep its open nodes.
        rw [hnode] at hwalk
        refine ⟨[e], ?_, .raised ⟨by rw [hnode], hsettles⟩⟩
        rw [hkept, Context.failure_eq_of_walk_eq hwalk, hentered,
          Context.openNodes_eq_of_walk_eq hwalk, Context.openNodes_enter]
        simp
      | @stops c inner failed stop hc hwalk herror hstops =>
        -- The failure inside has been kept before, and unwinding to this level does not change it.
        have hends := hstops
        obtain ⟨undo, hundo, hends⟩ := hends
        rw [hends _ (.refl _) stop failed herror] at hnode
        obtain ⟨hstop, hleft⟩ := Prod.mk.inj hnode
        cases hstop
        have hfresh : inner.failure = none := by
          rw [Context.failure_eq_of_walk_eq hwalk, hentered]
        obtain ⟨path, hpath, hfails⟩ := ih hfresh herror
        refine ⟨e :: path, ?_, .inside hc hstops hfails⟩
        rw [hkept, ← hleft, Context.failure_eq_of_walk_eq (hundo failed), hpath,
          Context.openNodes_eq_of_walk_eq hwalk, Context.openNodes_enter]
        simp
    · rw [eval, EvalM.run_observed, hnode] at hrun
      cases hrun

/-- In a context without open nodes or an earlier failure, with any bindings, an evaluation that
ends has failed exactly if a failure is kept afterwards. That is the path along which it has failed:
from the tree, each time to a child or to the body of the query operation that is called, to a node
with no failure inside it, which has raised the error. -/
theorem failure_eval (M : ObjectModel) (fuel : Nat) (e : Expr) (ctx : Context)
    (hfailure : ctx.failure = none) (hopen : ctx.openNodes = []) :
    let outcome := ((M.eval fuel e).run.run ctx).1
    let final := ((M.eval fuel e).run.run ctx).2
    (outcome ≠ .error .outOfFuel →
        ((∃ err, outcome = .error (.error err)) ↔ final.failure.isSome)) ∧
      ∀ err, outcome = .error (.error err) → ∃ path : List Expr,
        final.failure = some (path.map Expr.openNode) ∧ M.FailsAlong fuel e ctx err path := by
  intro outcome final
  have hpath : ∀ err, outcome = .error (.error err) → ∃ path : List Expr,
      final.failure = some (path.map Expr.openNode) ∧ M.FailsAlong fuel e ctx err path := by
    intro err herr
    have hrun : (M.eval fuel e).run.run ctx = (.error (.error err), final) := Prod.ext herr rfl
    simpa [hopen] using exists_failsAlong hfailure hrun
  refine ⟨fun hfinished => ?_, hpath⟩
  constructor
  · rintro ⟨err, herr⟩
    obtain ⟨path, hkept, -⟩ := hpath err herr
    rw [hkept]
    rfl
  · intro hkept
    rcases houtcome : outcome with (err | _) | v
    · exact ⟨err, rfl⟩
    · exact absurd houtcome hfinished
    · have hrun : (M.eval fuel e).run.run ctx = (.ok v, final) := Prod.ext houtcome rfl
      have hwalk := keepsWalk_eval M fuel e ctx v final hrun
      rw [Context.failure_eq_of_walk_eq hwalk, hfailure] at hkept
      cases hkept

/-- A loop over one car calls an operation of it. The body of the operation is evaluated in a frame
of its own, where the variable of the caller is unbound, so the path leads through the loop and the
call to that variable. -/
theorem failure_eval_query :
    let body := Expr.var "car" .boolean
    let M := ((((Snapshot.empty.addClass "Car" []).addOperation "Car" "wheels"
      ⟨[], .boolean⟩).setBody "Car" "wheels" body).createObject "Car" "car").toModel
    let car := Expr.var "car" (.object "Car")
    let call := Expr.call "wheels" .query (.var "c" (.object "Car")) [] .boolean
    let e := Expr.loop .forAll (.collection .set [.item car] (.collection .set (.object "Car")))
      ["c"] none call .boolean
    let ctx := Context.empty.bind "car" (.object ⟨0, "Car", "car"⟩)
    let outcome := ((M.eval 3 e).run.run ctx).1
    let final := ((M.eval 3 e).run.run ctx).2
    ctx.failure = none ∧ ctx.openNodes = [] ∧ outcome = .error (.error (.unbound "car")) ∧
      final.failure = some ([e, call, body].map Expr.openNode) ∧
      (outcome ≠ .error .outOfFuel →
        ((∃ err, outcome = .error (.error err)) ↔ final.failure.isSome)) ∧
      ∀ err, outcome = .error (.error err) → ∃ path : List Expr,
        final.failure = some (path.map Expr.openNode) ∧ M.FailsAlong 3 e ctx err path := by
  intro body M car call e ctx outcome final
  exact ⟨rfl, rfl, rfl, rfl, failure_eval M 3 e ctx rfl rfl⟩

end ObjectModel

end ObjectConstraint
