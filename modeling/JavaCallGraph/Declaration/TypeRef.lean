import JavaCallGraph.Primitive

/-!
# Types as written

A `TypeRef` is a type as it stands in the source, before anything is known about the names in it.
-/

set_option autoImplicit false

namespace JavaCallGraph

/-- A written type. -/
inductive TypeRef where
  /-- The missing result of a method. -/
  | void
  /-- The word `var`. -/
  | inferred
  | primitive (p : Primitive)
  /-- A simple or dotted name, possibly with type arguments. -/
  | named (name : String) (args : List TypeRef)
  | array (component : TypeRef)
  /-- A type argument `?`, with its bound if it has one. -/
  | wildcard (bound : Option TypeRef)
  deriving Repr, Inhabited

namespace TypeRef

/-- A name without type arguments. -/
def simple (name : String) : TypeRef := named name []

/-- The type with `n` more dimensions. -/
def withDimensions (t : TypeRef) : Nat → TypeRef
  | 0 => t
  | n + 1 => array (t.withDimensions n)

/-- The written type is `void`. -/
def isVoid : TypeRef → Bool
  | void => true
  | _ => false

/-- The written type is `var`. -/
def isInferred : TypeRef → Bool
  | inferred => true
  | _ => false

end TypeRef

end JavaCallGraph
