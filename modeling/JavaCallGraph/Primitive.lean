/-!
# Primitive types

The eight primitive types of Java, their wrapper classes, the widening conversions between them and
the numeric promotion of two operands.

* `Primitive.accepts` — a value of one primitive is accepted where another is expected, by identity
  or by widening;
* `Primitive.promote` — the type of an arithmetic operation on two operands, boxed or not;
* `objectName`, `stringName`, `className` — the three classes that the language itself names.
-/

set_option autoImplicit false

namespace JavaCallGraph

/-- The root class. -/
def objectName : String := "java.lang.Object"

/-- The class of string literals and concatenations. -/
def stringName : String := "java.lang.String"

/-- The class of class literals. -/
def className : String := "java.lang.Class"

/-- A primitive type. -/
inductive Primitive where
  | boolean
  | byte
  | short
  | char
  | int
  | long
  | float
  | double
  deriving DecidableEq, Repr, Inhabited

namespace Primitive

/-- All eight, in the order in which they are usually listed. -/
def all : List Primitive := [boolean, byte, short, char, int, long, float, double]

/-- The keyword. -/
def name : Primitive → String
  | boolean => "boolean"
  | byte => "byte"
  | short => "short"
  | char => "char"
  | int => "int"
  | long => "long"
  | float => "float"
  | double => "double"

/-- The class that boxes the primitive. -/
def wrapper : Primitive → String
  | boolean => "java.lang.Boolean"
  | byte => "java.lang.Byte"
  | short => "java.lang.Short"
  | char => "java.lang.Character"
  | int => "java.lang.Integer"
  | long => "java.lang.Long"
  | float => "java.lang.Float"
  | double => "java.lang.Double"

/-- The primitive with this keyword. -/
def ofName? (s : String) : Option Primitive := all.find? fun p => p.name == s

/-- The primitive boxed by this class. -/
def ofWrapper? (s : String) : Option Primitive := all.find? fun p => p.wrapper == s

theorem ofName?_name (p : Primitive) : ofName? p.name = some p := by
  cases p <;> rfl

theorem ofWrapper?_wrapper (p : Primitive) : ofWrapper? p.wrapper = some p := by
  cases p <;> rfl

/-- The primitives whose values become values of this one without a cast, nearest first. -/
def widenedFrom : Primitive → List Primitive
  | short => [byte]
  | int => [short, byte, char]
  | long => [int, short, byte, char]
  | float => [long, int, short, byte, char]
  | double => [long, float, int, short, byte, char]
  | boolean | byte | char => []

/-- **A value of type `source` is accepted where `p` is expected**: the same type, or one that widens
to it. -/
def accepts (p source : Primitive) : Bool := p == source || p.widenedFrom.contains source

/-- One of the five integral types. -/
def isIntegral : Primitive → Bool
  | byte | short | char | int | long => true
  | boolean | float | double => false

/-- One of the two floating-point types. -/
def isFloating : Primitive → Bool
  | float | double => true
  | _ => false

/-- The primitive that an operand of the named type has after unboxing. -/
def unboxed? (s : String) : Option Primitive := (ofName? s).or (ofWrapper? s)

/-- **Binary numeric promotion** of two operand types, given by name: `double` if either is, else
`float`, else `long`, else `int`.  Boxed operands are unboxed first; without two numeric operands
there is no promotion. -/
def promote (left right : String) : Option Primitive :=
  match unboxed? left, unboxed? right with
  | some l, some r =>
    if l == boolean || r == boolean then none
    else some (([double, float, long].find? fun c => l == c || r == c).getD int)
  | _, _ => none

end Primitive

/-- Whether the name is that of a primitive type. -/
def isPrimitiveName (s : String) : Bool := (Primitive.ofName? s).isSome

end JavaCallGraph
