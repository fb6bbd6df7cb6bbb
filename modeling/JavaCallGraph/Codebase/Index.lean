import JavaCallGraph.Codebase.Hierarchy

/-!
# The index

An `Index` is a code base together with the direct subtypes of every declared type, which are asked
for again and again when overriding methods are searched.  A subtype is listed once for every
supertype position in which the type stands, in the order of declaration.
-/

set_option autoImplicit false

namespace JavaCallGraph

namespace Codebase

variable (c : Codebase)

/-- The declared direct supertypes of a declared type. -/
def sourceParents (id : TypeId) : List TypeId :=
  (c.supertypes (c.sourceType id)).filterMap TypeInfo.sourceId?

/-- The declared direct subtypes of a declared type. -/
def subtypesOf (id : TypeId) : List TypeId :=
  c.typeIds.flatMap fun sub => ((c.sourceParents sub).filter (· == id)).map fun _ => sub

/-- For every type, its declared direct supertypes. -/
def parentTable : List (TypeId × List TypeId) :=
  c.typeIds.map fun id => (id, c.sourceParents id)

/-- The subtypes of one type, read off the table of supertypes. -/
def subtypesIn (table : List (TypeId × List TypeId)) (id : TypeId) : List TypeId :=
  table.flatMap fun (sub, parents) => (parents.filter (· == id)).map fun _ => sub

end Codebase

/-- A code base with its table of subtypes. -/
structure Index where
  code : Codebase
  /-- The direct subtypes of each type, by position. -/
  subtypes : List (List TypeId)
  deriving Inhabited

namespace Index

/-- The index of a code base. -/
def ofCodebase (c : Codebase) : Index :=
  let table := c.parentTable
  ⟨c, c.typeIds.map (Codebase.subtypesIn table)⟩

/-- **The direct subtypes of a type**, in the order of declaration. -/
def directSubtypes (i : Index) (id : TypeId) : List TypeId := (i.subtypes[id.index]?).getD []

/-- Reading the subtypes off the table is asking every type for its supertypes. -/
theorem directSubtypes_ofCodebase (c : Codebase) {id : TypeId} (h : id.index < c.types.length) :
    (ofCodebase c).directSubtypes id = c.subtypesOf id := by
  simp [ofCodebase, directSubtypes, Codebase.typeIds, Codebase.subtypesIn, Codebase.parentTable,
    Codebase.subtypesOf, h, List.flatMap_map]

end Index

end JavaCallGraph
