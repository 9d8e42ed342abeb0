import ObjectConstraint.Evaluation
import ObjectConstraint.Expr.Build
import ObjectConstraint.Expr.Printer
import ObjectConstraint.Snapshot

/-!
# The company example

A small object model: persons, some of them employees, and companies. `Company.schema` has the
classes alone; `Company.build` adds the bodies of the query operations and five objects.

`evalClosed` and its kin evaluate in one call, with errors as texts.
-/

namespace ObjectConstraint

/-- The outcome of a construction from a scope without variables. -/
def Build.run {α : Type} (b : Build α) : Checked α :=
  (ExceptT.run b |>.run Scope.empty : Checked α × Scope).1

/-- A company with its people. -/
structure Company where
  snapshot : Snapshot
  acme : ObjectRef
  ada : ObjectRef
  bob : ObjectRef
  cy : ObjectRef
  dee : ObjectRef

namespace Company

/-- The classes of the example: a person has a name, an age and a salary, an employer, friends,
children in order and a manager; an employee is a person with a badge; a company has a name and
employees. -/
def schema : Snapshot :=
  Snapshot.empty
    |>.addClass "Person" []
    |>.addClass "Employee" ["Person"]
    |>.addClass "Company" []
    |>.addAttribute "Person" "name" .string
    |>.addAttribute "Person" "age" .integer
    |>.addAttribute "Person" "salary" .real
    |>.addAttribute "Employee" "badge" .integer
    |>.addAttribute "Company" "name" .string
    |>.addEnd "Person" "employer" (.toOne "Company")
    |>.addEnd "Person" "friends" (.toMany "Person")
    |>.addEnd "Person" "children" (.toManyOrdered "Person")
    |>.addEnd "Person" "manager" (.toOne "Person")
    |>.addEnd "Company" "employees" (.toMany "Person")
    |>.addOperation "Person" "isOlderThan" ⟨[("other", .object "Person")], .boolean⟩
    |>.addOperation "Person" "describe" ⟨[], .string⟩

/-- The body of `describe`: the name of a person and whether the person is an adult. -/
def describeBody (S : Schema) : Build Expr := do
  declare "self" (.object "Person")
  let name ← check (S.navigate (← variableRef "self") "name")
  let age ← check (S.navigate (← variableRef "self") "age")
  let adult ← check (S.binary age ">=" (.const (.integer 18)))
  let kind ← check (S.ifThenElse adult (.const (.string " (adult)")) (.const (.string " (minor)")))
  check (S.binary name "+" kind)

/-- The body of `isOlderThan`: whether a person is older than another. -/
def isOlderThanBody (S : Schema) : Build Expr := do
  declare "self" (.object "Person")
  declare "other" (.object "Person")
  let mine ← check (S.navigate (← variableRef "self") "age")
  let theirs ← check (S.navigate (← variableRef "other") "age")
  check (S.binary mine ">" theirs)

/-- The real number with the given decimal digits and exponent. -/
def decimal (digits : Nat) (exponent : Int) : Value :=
  .ofBinary64 (.ofDecimal false digits exponent)

/-- The company: ada, an employee, and bob work at acme; cy and dee are ada's children. -/
def build : Checked Company := do
  let describe ← (describeBody schema.schema).run
  let isOlderThan ← (isOlderThanBody schema.schema).run
  let acme : ObjectRef := ⟨0, "Company", "acme"⟩
  let ada : ObjectRef := ⟨1, "Employee", "ada"⟩
  let bob : ObjectRef := ⟨2, "Person", "bob"⟩
  let cy : ObjectRef := ⟨3, "Person", "cy"⟩
  let dee : ObjectRef := ⟨4, "Person", "dee"⟩
  let objects := [acme, ada, bob, cy, dee].foldl (fun s o => s.createObject o.cls o.name)
    ((schema.setBody "Person" "describe" describe).setBody "Person" "isOlderThan" isOlderThan)
  let snapshot := objects
    |>.setAttribute acme "name" (.string "Acme")
    |>.setAttribute ada "name" (.string "Ada") |>.setAttribute ada "age" (.integer 36)
    |>.setAttribute bob "name" (.string "Bob") |>.setAttribute bob "age" (.integer 41)
    |>.setAttribute cy "name" (.string "Cy") |>.setAttribute cy "age" (.integer 12)
    |>.setAttribute dee "name" (.string "Dee") |>.setAttribute dee "age" (.integer 8)
    |>.setAttribute ada "salary" (decimal 5200 0)
    |>.setAttribute bob "salary" (decimal 41005 (-1))
    |>.setAttribute dee "salary" (decimal 0 0)
    |>.setAttribute ada "badge" (.integer 7)
    |>.link ada "employer" acme |>.link bob "employer" acme
    |>.link acme "employees" ada |>.link acme "employees" bob
    |>.link ada "friends" bob |>.link ada "friends" cy |>.link bob "friends" ada
    |>.link ada "children" dee |>.link ada "children" cy
    |>.link bob "manager" ada |>.link dee "manager" bob
  return ⟨snapshot, acme, ada, bob, cy, dee⟩

end Company

/-! ### Evaluation in one call -/

/-- The message of a stopped evaluation. -/
def Stop.message : Stop → String
  | error e => e.message
  | outOfFuel => "out of fuel"

/-- Builds an expression without free variables, and evaluates it without a model. -/
def evalClosed (fuel : Nat) (build : Schema → Build Expr) : Except String Value := do
  let M := Snapshot.empty.toModel
  let e ← (build M.toSchema).run.mapError TypeError.message
  (M.evaluate fuel .standard e []).outcome.mapError Stop.message

/-- Evaluates an expression with `self` bound to an object. -/
def evalOn (fuel : Nat) (s : Snapshot) (object : ObjectRef) (e : Expr) : Except String Value :=
  (s.toModel.evaluate fuel .standard e [("self", .object object)]).outcome.mapError Stop.message

/-- Evaluates an expression with `self` bound to an object, and records a trace. -/
def traceOn (fuel : Nat) (s : Snapshot) (object : ObjectRef) (e : Expr) :
    Except String (Value × Trace) := do
  let run := s.toModel.evaluateWithTrace fuel .standard e [("self", .object object)]
  let v ← run.outcome.mapError Stop.message
  return (v, run.context.trace.getD .empty)

end ObjectConstraint
