import ObjectConstraint.Expr

/-!
# Concrete syntax of trees

`Expr.text` writes a tree in the concrete syntax of the language. Operators stand between or before
their operands; an operand that is itself an operator, a conditional or a `let` stands in
parentheses. Any other call follows its receiver, after an arrow for a standard operation of a
collection and after a point otherwise.
-/

namespace ObjectConstraint

/-- The names of the operations that are written between their operands. -/
def infixNames : List String :=
  ["+", "-", "*", "/", "<", ">", "<=", ">=", "=", "<>", "and", "or", "xor", "implies", "div",
    "mod"]

/-- The names of the operations that are written before their operand. -/
def prefixNames : List String := ["not", "-"]

namespace Expr

def isInfix (name : String) (args : List Expr) : Bool :=
  args.length = 1 && infixNames.contains name

def isPrefix (name : String) (args : List Expr) : Bool :=
  args.isEmpty && prefixNames.contains name

/-- Whether a tree needs parentheses as an operand. -/
def needsParens : Expr → Bool
  | call name (.standard _) _ args _ => isInfix name args || isPrefix name args
  | ifThenElse .. | letIn .. => true
  | _ => false

/-- The text of a tree that stands as an operand. -/
def asOperand (e : Expr) (text : String) : String :=
  if e.needsParens then "(" ++ text ++ ")" else text

def braced (texts : List String) : String :=
  "\x7b" ++ ", ".intercalate texts ++ "\x7d"

/-- The text of a call, from the texts of the receiver as an operand and of the arguments. -/
def callText (name : String) (callee : Callee) (source : Expr) (args : List Expr)
    (receiver : String) (texts : List String) : String :=
  match callee with
  | .query => receiver ++ "." ++ name ++ "(" ++ ", ".intercalate texts ++ ")"
  | .standard _ =>
    if isInfix name args then
      receiver ++ " " ++ name ++ " " ++ " ".intercalate (List.zipWith asOperand args texts)
    else if isPrefix name args then (if name = "not" then "not " else name) ++ receiver
    else
      receiver ++ (if source.ty.isCollection then "->" else ".") ++ name ++ "("
        ++ ", ".intercalate texts ++ ")"

mutual

/-- The concrete syntax of a tree. -/
def text : Expr → String
  | literal lit ty => lit.textAt ty
  | var name _ => name
  | navigate source property _ _ => source.asOperand source.text ++ "." ++ property.name
  | call name callee source args _ =>
    callText name callee source args (source.asOperand source.text) (texts args)
  | ifThenElse condition onTrue onFalse _ =>
    "if " ++ condition.text ++ " then " ++ onTrue.text ++ " else " ++ onFalse.text ++ " endif"
  | letIn name value body _ =>
    "let " ++ name ++ " : " ++ value.ty.text ++ " = " ++ value.text ++ " in " ++ body.text
  | loop kind source iterators accumulator body _ =>
    source.asOperand source.text ++ "->" ++ kind.text ++ "(" ++ ", ".intercalate iterators
      ++ accumulatorText accumulator ++ " | " ++ body.text ++ ")"
  | allInstances cls _ => cls ++ ".allInstances()"
  | typeTest test source target _ =>
    source.asOperand source.text ++ "." ++ test.text ++ "(" ++ target.text ++ ")"
  | collection kind parts _ => kind.text ++ braced (partTexts parts)
  | tuple parts _ => "Tuple" ++ braced (namedTexts parts)
  termination_by structural e => e

def texts : List Expr → List String
  | [] => []
  | e :: es => e.text :: texts es
  termination_by structural es => es

def accumulatorText : Option (Accumulator Expr) → String
  | none => ""
  | some ⟨name, ty, init⟩ => "; " ++ name ++ " : " ++ ty.text ++ " = " ++ init.text
  termination_by structural accumulator => accumulator

def partTexts : List (Part Expr) → List String
  | [] => []
  | .item e :: parts => e.text :: partTexts parts
  | .range first last :: parts => (first.text ++ ".." ++ last.text) :: partTexts parts
  termination_by structural parts => parts

def namedTexts : List (String × Expr) → List String
  | [] => []
  | (name, e) :: parts => (name ++ " = " ++ e.text) :: namedTexts parts
  termination_by structural parts => parts

end

end Expr

end ObjectConstraint
