import JavaCallGraph.Codebase.Lookup

/-!
# Listings

What a code base declares, as sorted rows: its types with kind and build module, and its methods by
identity.
-/

set_option autoImplicit false

namespace JavaCallGraph

/-- A declared type in a listing. -/
structure TypeRow where
  name : String
  kind : TypeKind
  module : Option String
  deriving DecidableEq, Repr

namespace TypeRow

/-- A missing text comes first. -/
def optionLe : Option String → Option String → Bool
  | none, _ => true
  | some _, none => false
  | some a, some b => decide (a ≤ b)

/-- By name, then by the word for the kind, then by module. -/
def le (a b : TypeRow) : Bool :=
  if a.name == b.name then
    if a.kind.label == b.kind.label then optionLe a.module b.module
    else decide (a.kind.label ≤ b.kind.label)
  else decide (a.name ≤ b.name)

/-- The row of a declared type. -/
def ofType (c : Codebase) (id : TypeId) : TypeRow :=
  let t := c.decl id
  ⟨t.qualifiedName, t.kind, c.moduleOf? t.qualifiedName⟩

end TypeRow

namespace Codebase

variable (c : Codebase)

/-- **All declared types**, sorted. -/
def typeRows : List TypeRow := (c.typeIds.map (TypeRow.ofType c)).mergeSort TypeRow.le

/-- **The identities of the methods of all types whose qualified name passes a test**, sorted.  Generated
methods count only when `synthetic` is set. -/
def methodIds (synthetic : Bool) (select : String → Bool) : List String :=
  let types := c.typeIds.filter fun id => select (c.decl id).qualifiedName
  let methods := (types.flatMap c.methodsOf).filter fun m => synthetic || !(c.method m).synthetic
  (methods.map fun m => (c.methodId m).canonical).mergeSort fun a b => decide (a ≤ b)

end Codebase

end JavaCallGraph
