import ObjectConstraint.Binary64.Text
import ObjectConstraint.Value

/-!
# Written values

The text of a value, as it stands in results, traces and messages.
-/

namespace ObjectConstraint.Value

mutual

/-- The written form of a value. -/
def text : Value → String
  | undefined => "null"
  | boolean b => if b then "true" else "false"
  | integer n => toString n.toInt
  | unlimited => "*"
  | real x => x.text
  | string s => "'" ++ s ++ "'"
  | date d => d.text
  | object o => "@" ++ o.name
  | collection kind _ elems => kind.text ++ "\x7b" ++ ", ".intercalate (texts elems) ++ "\x7d"
  | tuple parts => "Tuple\x7b" ++ ", ".intercalate (partTexts parts) ++ "\x7d"
  termination_by structural v => v

def texts : List Value → List String
  | [] => []
  | v :: vs => v.text :: texts vs
  termination_by structural vs => vs

def partTexts : List (String × Value) → List String
  | [] => []
  | (name, v) :: parts => (name ++ " = " ++ v.text) :: partTexts parts
  termination_by structural parts => parts

end

end ObjectConstraint.Value
