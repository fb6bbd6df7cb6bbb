import JavaCallGraph.Codebase.Hierarchy

/-!
# How caller and callee are related

Every edge of a call graph is labelled with the relation between the type of the calling method and
the type that declares the called one.
-/

set_option autoImplicit false

namespace JavaCallGraph

/-- The relation of a callee to its caller. -/
inductive Relation where
  /-- Declared on the same type. -/
  | self
  /-- Declared on a supertype of the caller. -/
  | super
  /-- Declared in the same build module. -/
  | brother
  /-- Declared in another build module. -/
  | out
  /-- Part of the standard library. -/
  | stdlib
  /-- Anything else. -/
  | library
  deriving DecidableEq, Repr, Inhabited

/-- The label of a relation. -/
def Relation.label : Relation → String
  | self => "SELF"
  | super => "SUPER"
  | brother => "BROTHER"
  | out => "OUT"
  | stdlib => "STDLIB"
  | library => "LIBRARY"

/-- How the names of the standard library begin. -/
def stdlibRoots : List String := ["java.", "javax.", "jdk.", "sun."]

/-- The name of a type of the standard library. -/
def isStdlib (name : String) : Bool :=
  stdlibRoots.any fun r => r.toList.isPrefixOf name.toList

namespace Codebase

variable (c : Codebase)

/-- **The relation of a callee's type to a caller's**; the first that applies.  Build modules count
only when both are known. -/
def classify (callee caller : TypeInfo) : Relation :=
  if isStdlib callee.name then .stdlib
  else if callee.name == caller.name then .self
  else if c.isAssignable callee caller.name then .super
  else
    match c.moduleOf? callee.name, c.moduleOf? caller.name with
    | some a, some b => if a == b then .brother else .out
    | _, _ => .library

/-- The relation when only the name of the callee's type is known. -/
def classifyByName (callee : String) (caller : TypeInfo) : Relation :=
  c.classify (c.typeInfo callee) caller

end Codebase

end JavaCallGraph
