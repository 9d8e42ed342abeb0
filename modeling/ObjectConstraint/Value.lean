import ObjectConstraint.Binary64.Basic
import ObjectConstraint.Date
import ObjectConstraint.Parts
import ObjectConstraint.Ty

/-!
# Values

What an expression evaluates to. Integers are 64 bits wide and reals are finite; a computation that
leaves either range, like any other that fails, has the undefined value.

* `Value.ofBinary64`, `Value.ofReal?`, `Value.ofInt` — numbers, undefined out of range.
* `Value.dynamicType` — the type that a value has by itself.
* `Value.memberInduction` — what passes from the members of a value to the value holds of every
  value.
-/

namespace ObjectConstraint

/-- An object of the model. Objects are told apart by `id` alone; the class and the name serve
dispatch and display. -/
structure ObjectRef where
  id : Nat
  cls : String
  name : String
  deriving DecidableEq, Repr

/-- A value. -/
inductive Value where
  | undefined
  | boolean (b : Bool)
  | integer (n : Int64)
  /-- The unlimited natural number, above all other numbers. -/
  | unlimited
  | real (x : Binary64.Finite)
  | string (s : String)
  | date (d : Date)
  | object (o : ObjectRef)
  /-- A collection with its elements in the normal form of its kind; see `Value.collectionOf`. -/
  | collection (kind : Kind) (elem : Ty) (elems : List Value)
  /-- A tuple with its parts ascending by name; see `Value.tupleOf`. -/
  | tuple (parts : List (String × Value))

namespace Value

/-! ### Numbers -/

/-- A real if there is one, else undefined. -/
def ofReal? : Option Binary64.Finite → Value
  | some x => real x
  | none => undefined

/-- A real; infinities and `nan` are undefined. -/
def ofBinary64 (r : Binary64) : Value := ofReal? r.finite?

/-- An integer, undefined beyond 64 bits. -/
def ofInt (n : Int) : Value :=
  if Int64.minValue.toInt ≤ n ∧ n ≤ Int64.maxValue.toInt then integer (.ofInt n) else undefined

/-- An integer of 64 bits is made of the number that it denotes. -/
theorem ofInt_toInt (n : Int64) : ofInt n.toInt = integer n := by
  rw [ofInt, if_pos ⟨n.minValue_le_toInt, n.toInt_le⟩, Int64.ofInt_toInt]

/-- It is made of no other number. -/
theorem ofInt_eq_integer_iff {m : Int} {n : Int64} : ofInt m = integer n ↔ m = n.toInt := by
  constructor
  · intro h
    unfold ofInt at h
    split at h
    · next hrange =>
      injection h with h
      rw [← h, Int64.toInt_ofInt_of_le hrange.1 (Int.lt_of_le_sub_one hrange.2)]
    · cases h
  · rintro rfl
    exact ofInt_toInt n

/-- A natural number as an integer. -/
def ofNat (n : Nat) : Value := ofInt n

theorem ofNat_eq_integer {n : Nat} (h : n ≤ Int64.maxValue.toInt) :
    ofNat n = integer (.ofInt n) :=
  if_pos ⟨Int.le_trans (by decide) (Int.natCast_nonneg n), h⟩

/-- A truth value of three-valued logic. -/
def ofBool? : Option Bool → Value
  | some b => boolean b
  | none => undefined

/-! ### Views -/

def isUndefined : Value → Bool
  | undefined => true
  | _ => false

/-- The truth value; nothing for the undefined value and for values that are not Boolean. -/
def bool? : Value → Option Bool
  | boolean b => some b
  | _ => none

def integer? : Value → Option Int64
  | integer n => some n
  | _ => none

/-- The number as a real. -/
def real? : Value → Option Binary64.Finite
  | integer n => some (.ofInt64 n)
  | real x => some x
  | _ => none

def string? : Value → Option String
  | string s => some s
  | _ => none

def object? : Value → Option ObjectRef
  | object o => some o
  | _ => none

def tuple? : Value → Option (List (String × Value))
  | tuple parts => some parts
  | _ => none

/-! ### Types of values -/

mutual

/-- The type that a value has by itself. A collection has the element type it was made with. -/
def dynamicType : Value → Ty
  | undefined => .void
  | boolean _ => .boolean
  | integer _ => .integer
  | unlimited => .unlimitedNatural
  | real _ => .real
  | string _ => .string
  | date _ => .date
  | object o => .object o.cls
  | collection kind elem _ => .collection kind elem
  | tuple parts => .tuple (dynamicTypes parts)
  termination_by structural v => v

def dynamicTypes : List (String × Value) → List (String × Ty)
  | [] => []
  | (name, v) :: parts => (name, v.dynamicType) :: dynamicTypes parts
  termination_by structural parts => parts

end

/-- The tuple with the given parts; a name given twice keeps its last value. -/
def tupleOf (parts : List (String × Value)) : Value := tuple (Parts.ofList parts)

/-! ### Members -/

/-- The values directly inside a value. -/
def members : Value → List Value
  | collection _ _ elems => elems
  | tuple parts => parts.map Prod.snd
  | _ => []

theorem sizeOf_lt_of_mem_members {v w : Value} (h : w ∈ v.members) : sizeOf w < sizeOf v := by
  cases v with
  | collection kind elem elems =>
    have := List.sizeOf_lt_of_mem (show w ∈ elems from h)
    simp
    omega
  | tuple parts =>
    obtain ⟨⟨name, part⟩, hmem, rfl⟩ := List.mem_map.mp h
    have := List.sizeOf_lt_of_mem hmem
    simp at this ⊢
    omega
  | _ => cases h

/-- What passes from the members of a value to the value holds of every value. -/
theorem memberInduction {motive : Value → Prop}
    (step : ∀ v : Value, (∀ w ∈ v.members, motive w) → motive v) (v : Value) : motive v :=
  step v fun w h =>
    have := sizeOf_lt_of_mem_members h
    memberInduction step w
  termination_by sizeOf v

end Value

end ObjectConstraint
