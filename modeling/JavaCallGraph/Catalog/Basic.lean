import JavaCallGraph.Primitive

/-!
# Types known from metadata only

A catalog describes classes and interfaces that are on the class path and not in the analyzed source.
Parameter, return and field types are erased canonical names: `java.lang.Object` for a type variable,
primitives as their keyword, arrays with `[]` at the end.

A catalog never holds two descriptions of one name: `Catalog.insert` replaces an older one
(`lookup?_insert_self`, `lookup?_insert_ne`).
-/

set_option autoImplicit false

namespace JavaCallGraph

/-- A method of a described type. -/
structure CompiledMethod where
  name : String
  params : List String
  /-- `void` for a method without result. -/
  returns : String
  varargs : Bool
  isStatic : Bool
  deriving DecidableEq, Repr, Inhabited

/-- A field of a described type. -/
structure CompiledField where
  name : String
  type : String
  isStatic : Bool
  deriving DecidableEq, Repr, Inhabited

/-- A described class or interface. -/
structure CompiledType where
  name : String
  isInterface : Bool
  /-- The written superclass, if any. -/
  superclass : Option String
  interfaces : List String
  methods : List CompiledMethod
  fields : List CompiledField
  deriving DecidableEq, Repr, Inhabited

namespace CompiledType

/-- The overloads of one name, in the order of the description. -/
def methodsNamed (t : CompiledType) (name : String) : List CompiledMethod :=
  t.methods.filter fun m => m.name == name

/-- The first field of that name. -/
def field? (t : CompiledType) (name : String) : Option CompiledField :=
  t.fields.find? fun f => f.name == name

/-- The superclass: the written one, else the root class.  Interfaces and the root class itself have
none. -/
def superclassName? (t : CompiledType) : Option String :=
  if t.isInterface || t.name == objectName then none else some (t.superclass.getD objectName)

end CompiledType

/-- A collection of described types, each name once. -/
structure Catalog where
  types : List CompiledType
  deriving Inhabited

namespace Catalog

/-- The catalog that describes nothing. -/
def empty : Catalog := ⟨[]⟩

/-- The description of a canonical name. -/
def lookup? (c : Catalog) (name : String) : Option CompiledType :=
  c.types.find? fun t => t.name == name

/-- The number of described names. -/
def size (c : Catalog) : Nat := c.types.length

/-- Adds a description, in place of an older one of the same name. -/
def insert (c : Catalog) (t : CompiledType) : Catalog :=
  ⟨t :: c.types.filter fun u => u.name != t.name⟩

/-- Adds the given descriptions in order, so that the last one of a name stays. -/
def insertAll (c : Catalog) (ts : List CompiledType) : Catalog := ts.foldl insert c

@[simp]
theorem lookup?_insert_self (c : Catalog) (t : CompiledType) :
    (c.insert t).lookup? t.name = some t := by
  simp [insert, lookup?]

theorem lookup?_insert_ne (c : Catalog) {t : CompiledType} {name : String} (h : t.name ≠ name) :
    (c.insert t).lookup? name = c.lookup? name := by
  have hp : ∀ u : CompiledType,
      decide ((u.name != t.name) = true ∧ (u.name == name) = true) = (u.name == name) := by
    intro u
    by_cases hu : u.name = name
    · simp [hu, h.symm]
    · simp [hu]
  simp only [insert, lookup?, List.find?_cons, beq_eq_false_iff_ne.mpr h, List.find?_filter, hp]

end Catalog

end JavaCallGraph
