import JavaCallGraph.Error
import JavaCallGraph.Text.Pieces

/-!
# Method identities

A method is named by its declaring type, its own name and its parameter types, written
`pkg.Outer$Inner#name(T1,T2)`.  `MethodId.canonical` writes this form; it is what identities are
compared and ordered by.  `MethodId.parse?` reads it back, and is lax about everything else: the four
separators `#`, `(`, `,` and `)` are interchangeable, blank pieces are dropped and blanks around a
piece are trimmed.
-/

set_option autoImplicit false

namespace JavaCallGraph

/-- The identity of a method. -/
structure MethodId where
  /-- Canonical name of the declaring type. -/
  declaringType : String
  /-- Simple name of the method. -/
  name : String
  /-- Canonical names of the parameter types. -/
  params : List String
  deriving DecidableEq, Repr, Inhabited

namespace MethodId

/-- `Type#name(T1,T2)`. -/
def canonical (id : MethodId) : String :=
  id.declaringType ++ "#" ++ id.name ++ "(" ++ Text.joinWith "," id.params ++ ")"

/-- The characters that separate the parts of an identity. -/
def isSeparator (c : Char) : Bool := c == '#' || c == '(' || c == ',' || c == ')'

/-- The parts of a written identity: what stands between separators, trimmed, unless it is blank. -/
def parts (text : String) : List String :=
  ((Text.pieces isSeparator text).map Text.trim).filter fun p => !p.isEmpty

/-- **Reads an identity**: the first part is the declaring type, the second the name, the others are
parameter types. -/
def parse? (text : String) : Option MethodId :=
  match parts text with
  | declaringType :: name :: params => some ⟨declaringType, name, params⟩
  | _ => none

/-- `parse?` with the error that a request reports. -/
def parse (text : String) : Except Error MethodId :=
  match parse? text with
  | some id => .ok id
  | none => .error (.invalidMethodId text)

/-- Identities are ordered as their canonical texts, character by character. -/
def compare (a b : MethodId) : Ordering := Ord.compare a.canonical b.canonical

end MethodId

end JavaCallGraph
