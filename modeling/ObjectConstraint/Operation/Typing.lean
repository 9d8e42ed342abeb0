import ObjectConstraint.Conformance
import ObjectConstraint.Operation
import ObjectConstraint.TypeError

/-!
# The result types of the standard operations

`Hierarchy.resolve` finds the operation that a name stands for on a receiver and arguments of
given types, with the type of its result. Each category of receiver has its own table; the tables
are read from the top, and an argument fits where its type conforms.
-/

namespace ObjectConstraint

/-- A standard operation with the type of its result. -/
abbrev Resolved := Ty × Operation

/-- The operations of every receiver. -/
def universalOperation (name : String) (args : List Ty) : Option Resolved :=
  match name, args with
  | "=", [_] => some (.boolean, .eq)
  | "<>", [_] => some (.boolean, .ne)
  | "oclIsUndefined", [] => some (.boolean, .isUndefined)
  | "oclIsDefined", [] => some (.boolean, .isDefined)
  | _, _ => none

/-- The comparison that a name stands for. -/
def comparison (name : String) : Option Resolved :=
  match name with
  | "<" => some (.boolean, .lt)
  | ">" => some (.boolean, .gt)
  | "<=" => some (.boolean, .le)
  | ">=" => some (.boolean, .ge)
  | _ => none

/-- The type whose operations an untyped `null` has: the Booleans' for a connective, else those of
the first argument's type, else the integers'. -/
def nullReceiver (name : String) (args : List Ty) : Ty :=
  match name with
  | "and" | "or" | "xor" | "implies" | "not" => .boolean
  | _ =>
    match args with
    | .void :: _ | [] => .integer
    | ty :: _ => ty

/-- The kind of the union of two collections, where there is one. -/
def unionKind : Kind → Kind → Option Kind
  | .set, .set => some .set
  | .set, .bag | .bag, .set | .bag, .bag => some .bag
  | .sequence, .sequence => some .sequence
  | .orderedSet, .orderedSet => some .orderedSet
  | _, _ => none

/-- The kind of the intersection of two collections, where there is one. -/
def intersectionKind : Kind → Kind → Option Kind
  | .set, .set | .set, .bag | .bag, .set => some .set
  | .bag, .bag => some .bag
  | _, _ => none

namespace Hierarchy

variable (H : Hierarchy)

/-- The operations of a Boolean. -/
def booleanOperation (name : String) (args : List Ty) : Option Resolved :=
  match name, args with
  | "not", [] => some (.boolean, .not)
  | _, [a] =>
    if H.conforms a .boolean then
      match name with
      | "and" => some (.boolean, .and)
      | "or" => some (.boolean, .or)
      | "xor" => some (.boolean, .xor)
      | "implies" => some (.boolean, .implies)
      | _ => none
    else none
  | _, _ => none

/-- The type of a sum, difference, product or extremum of two numbers: `Real` if one of them is,
else `Integer`. -/
def promotedType (receiver other : Ty) : Ty :=
  if receiver = .real || other = .real then .real else .integer

/-- The operations of a number of type `receiver`. -/
def numericOperation (receiver : Ty) (name : String) (args : List Ty) : Option Resolved :=
  match name, args with
  | "-", [] => some (promotedType receiver receiver, .neg)
  | "abs", [] => some (promotedType receiver receiver, .abs)
  | "floor", [] => some (.integer, .floor)
  | "round", [] => some (.integer, .round)
  | _, [a] =>
    if H.conforms a .real then
      match name with
      | "+" => some (promotedType receiver a, .add)
      | "-" => some (promotedType receiver a, .sub)
      | "*" => some (promotedType receiver a, .mul)
      | "/" => some (.real, .div)
      | "max" => some (promotedType receiver a, .max)
      | "min" => some (promotedType receiver a, .min)
      | "div" =>
        if H.conforms receiver .integer && H.conforms a .integer then some (.integer, .intDiv)
        else none
      | "mod" =>
        if H.conforms receiver .integer && H.conforms a .integer then some (.integer, .mod)
        else none
      | _ => comparison name
    else none
  | _, _ => none

/-- The operations of a string. -/
def stringOperation (name : String) (args : List Ty) : Option Resolved :=
  match name, args with
  | "size", [] => some (.integer, .length)
  | "toUpper", [] => some (.string, .toUpper)
  | "toLower", [] => some (.string, .toLower)
  | "toInteger", [] => some (.integer, .toInteger)
  | "toReal", [] => some (.real, .toReal)
  | "substring", [a, b] =>
    if H.conforms a .integer && H.conforms b .integer then some (.string, .substring) else none
  | _, [a] =>
    if H.conforms a .string then
      match name with
      | "+" | "concat" => some (.string, .concat)
      | _ => comparison name
    else none
  | _, _ => none

/-- The operations of a date. -/
def dateOperation (name : String) (args : List Ty) : Option Resolved :=
  match args with
  | [a] => if H.conforms a .date then comparison name else none
  | _ => none

/-- The operations of a collection that take no argument. -/
def queryOperation (kind : Kind) (elem : Ty) (name : String) : Option Resolved :=
  match name with
  | "size" => some (.integer, .size)
  | "isEmpty" => some (.boolean, .isEmpty)
  | "notEmpty" => some (.boolean, .notEmpty)
  | "sum" =>
    if H.conforms elem .real then some (if elem = .real then .real else .integer, .sum) else none
  | "max" => if elem.isOrderable then some (elem, .maxElement) else none
  | "min" => if elem.isOrderable then some (elem, .minElement) else none
  | "flatten" =>
    if kind = .collection then none else some (.collection kind elem.innermost, .flatten)
  | "asSet" => some (.collection .set elem, .asSet)
  | "asBag" => some (.collection .bag elem, .asBag)
  | "asSequence" => some (.collection .sequence elem, .asSequence)
  | "asOrderedSet" => some (.collection .orderedSet elem, .asOrderedSet)
  | "first" => if kind.isOrdered then some (elem, .first) else none
  | "last" => if kind.isOrdered then some (elem, .last) else none
  | _ => none

/-- The operations of a collection that take one element or index. -/
def elementOperation (kind : Kind) (elem : Ty) (name : String) (a : Ty) : Option Resolved :=
  match name with
  | "includes" => some (.boolean, .includes)
  | "excludes" => some (.boolean, .excludes)
  | "count" => some (.integer, .count)
  | "including" =>
    if kind = .collection then none else some (.collection kind (H.join elem a), .including)
  | "excluding" => if kind = .collection then none else some (.collection kind elem, .excluding)
  | "at" => if kind.isOrdered && H.conforms a .integer then some (elem, .elementAt) else none
  | "append" =>
    if kind.isOrdered then some (.collection kind (H.join elem a), .append) else none
  | "prepend" =>
    if kind.isOrdered then some (.collection kind (H.join elem a), .prepend) else none
  | "indexOf" => if kind.isOrdered then some (.integer, .indexOf) else none
  | _ => none

/-- The operations of a collection that take another collection. -/
def mergeOperation (kind : Kind) (elem : Ty) (name : String) (other : Kind) (otherElem : Ty) :
    Option Resolved :=
  match name with
  | "includesAll" => some (.boolean, .includesAll)
  | "excludesAll" => some (.boolean, .excludesAll)
  | "union" =>
    (unionKind kind other).map fun k => (.collection k (H.join elem otherElem), .union)
  | "intersection" =>
    (intersectionKind kind other).map fun k => (.collection k elem, .intersection)
  | "-" =>
    if kind.isUnique && other.isUnique then some (.collection kind elem, .difference) else none
  | "symmetricDifference" =>
    if kind = .set && other = .set then some (.collection .set elem, .symmetricDifference)
    else none
  | _ => none

/-- The operations of a collection of the given kind and element type. -/
def collectionOperation (kind : Kind) (elem : Ty) (name : String) (args : List Ty) :
    Option Resolved :=
  match args with
  | [] => H.queryOperation kind elem name
  | [a] =>
    (H.elementOperation kind elem name a).or
      (match a with
        | .collection other otherElem => H.mergeOperation kind elem name other otherElem
        | _ => none)
  | [a, b] =>
    if (name = "subSequence" || name = "subOrderedSet") && kind.isOrdered
        && H.conforms a .integer && H.conforms b .integer then
      some (.collection kind elem, .subSequence)
    else none
  | _ => none

/-- The operations in the table of a receiver's type. -/
def tableOperation (receiver : Ty) (name : String) (args : List Ty) : Option Resolved :=
  match receiver with
  | .boolean => H.booleanOperation name args
  | .integer | .unlimitedNatural | .real => H.numericOperation receiver name args
  | .string => H.stringOperation name args
  | .date => H.dateOperation name args
  | .collection kind elem => H.collectionOperation kind elem name args
  | .void | .any | .object _ | .tuple _ => none

/-- The standard operation `receiver.name(args)` with the type of its result. -/
def resolve (receiver : Ty) (name : String) (args : List Ty) : Except TypeError Resolved :=
  let table := if receiver = .void then nullReceiver name args else receiver
  match (universalOperation name args).or (H.tableOperation table name args) with
  | some found => .ok found
  | none => .error (.unknownOperation receiver name args)

end Hierarchy

end ObjectConstraint
