import JavaCallGraph.Catalog.Basic
import JavaCallGraph.Declaration.Basic

/-!
# Resolved types

A `TypeInfo` is a type together with what is known about it: a declaration in the analyzed source, a
description in the catalog, or only a name.  Its `name` is canonical: nested types are written with
`$`, arrays with `[]` at the end.
-/

set_option autoImplicit false

namespace JavaCallGraph

/-- A resolved type. -/
inductive TypeInfo where
  /-- Declared in the analyzed source, under the given qualified name. -/
  | source (id : TypeId) (qualifiedName : String)
  /-- Described in the catalog. -/
  | compiled (type : CompiledType)
  | primitive (p : Primitive)
  | array (component : TypeInfo)
  /-- A type variable with its upper bounds. -/
  | typeVar (symbol : String) (bounds : List TypeInfo)
  /-- Only the name is known. -/
  | unresolved (spelling : String)
  deriving Inhabited

namespace TypeInfo

/-- The canonical name. -/
def name : TypeInfo → String
  | source _ n => n
  | compiled t => t.name
  | primitive p => p.name
  | array c => c.name ++ "[]"
  | typeVar n _ => n
  | unresolved n => n

/-- The missing result of a method. -/
def void : TypeInfo := unresolved "void"

/-- The position of a declared type. -/
def sourceId? : TypeInfo → Option TypeId
  | source id _ => some id
  | _ => none

/-- The description of a catalog type. -/
def compiled? : TypeInfo → Option CompiledType
  | compiled t => some t
  | _ => none

/-- A primitive type. -/
def primitive? : TypeInfo → Option Primitive
  | primitive p => some p
  | _ => none

/-- The component of an array. -/
def component? : TypeInfo → Option TypeInfo
  | array c => some c
  | _ => none

/-- A type variable. -/
def isVariable : TypeInfo → Bool
  | typeVar _ _ => true
  | _ => false

/-- The type goes by the name `void`. -/
def isVoid (t : TypeInfo) : Bool := t.name == "void"

/-- Declared, described or primitive, or an array of such. -/
def isKnown : TypeInfo → Bool
  | source _ _ => true
  | compiled _ => true
  | primitive _ => true
  | array c => c.isKnown
  | typeVar _ _ => false
  | unresolved _ => false

/-- The type itself when it is known. -/
def known? (t : TypeInfo) : Option TypeInfo := if t.isKnown then some t else none

end TypeInfo

end JavaCallGraph
