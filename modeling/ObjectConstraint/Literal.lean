import ObjectConstraint.Binary64.Text
import ObjectConstraint.Date
import ObjectConstraint.Ty

/-!
# Literals

The constants that may stand in an expression, their types and their written form.
-/

namespace ObjectConstraint

/-- A constant. -/
inductive Literal where
  | boolean (b : Bool)
  | integer (n : Int64)
  /-- A natural number, or with `none` the unlimited one. -/
  | unlimitedNatural (n : Option UInt64)
  | real (r : Binary64)
  | string (s : String)
  | date (d : Date)
  | undefined
  deriving DecidableEq

namespace Literal

/-- The type of a constant. -/
def ty : Literal → Ty
  | boolean _ => .boolean
  | integer _ => .integer
  | unlimitedNatural _ => .unlimitedNatural
  | real _ => .real
  | string _ => .string
  | date _ => .date
  | undefined => .void

/-- Whether two constants are equal; real constants are compared as numbers. -/
def same : Literal → Literal → Bool
  | real r, real s => r.equals s
  | a, b => a = b

/-- A text between single quotes; a quote in it has a backslash before it. -/
def quoted (text : String) : String :=
  String.ofList ('\'' :: text.toList.flatMap (fun c => if c = '\'' then ['\\', '\''] else [c])
    ++ ['\''])

/-- The written form of a constant. -/
def text : Literal → String
  | boolean b => if b then "true" else "false"
  | integer n => toString n.toInt
  | unlimitedNatural (some n) => toString n.toNat
  | unlimitedNatural none => "*"
  | real r => r.text
  | string s => quoted s
  | date d => "Date'" ++ d.text ++ "'"
  | undefined => "null"

/-- The written form of a constant that stands at a given type: the undefined value names its type
unless that is its own. -/
def textAt (lit : Literal) (ty : Ty) : String :=
  match lit with
  | undefined => if ty = .void then lit.text else "oclUndefined(" ++ ty.text ++ ")"
  | _ => lit.text

end Literal

end ObjectConstraint
