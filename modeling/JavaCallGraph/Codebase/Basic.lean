import JavaCallGraph.Accessor
import JavaCallGraph.Codebase.TypeInfo
import JavaCallGraph.Lowering.Types

/-!
# The code base

A `Codebase` holds everything that names can refer to: the compilation units, all their types in one
list, and the catalog.  `Codebase.assemble` merges parsed files into one; the positions of types
count on from file to file.  Of several types with one qualified name the first is found by name.

A position that is out of range denotes an empty declaration; the positions that the library hands
out never are.
-/

set_option autoImplicit false

namespace JavaCallGraph

/-- The analyzed source and the catalog. -/
structure Codebase where
  units : List CompilationUnit
  types : List TypeDecl
  catalog : Catalog
  deriving Inhabited

/-- A parsed file and where it comes from. -/
structure SourceFile where
  path : String
  /-- The build module that the file belongs to. -/
  module : Option String
  parsed : Syntax.ParsedFile

namespace Codebase

variable (c : Codebase)

/-! ## Positions -/

/-- The declaration of a type. -/
def decl (id : TypeId) : TypeDecl := (c.types[id.index]?).getD default

/-- A compilation unit. -/
def unit (id : UnitId) : CompilationUnit := (c.units[id.index]?).getD default

/-- The declaration of a method. -/
def method (m : MethodRef) : MethodDecl := ((c.decl m.owner).methods[m.position]?).getD default

/-- All types. -/
def typeIds : List TypeId := (List.range c.types.length).map TypeId.mk

/-- The methods of a type. -/
def methodsOf (id : TypeId) : List MethodRef :=
  (List.range (c.decl id).methods.length).map fun i => ⟨id, i⟩

/-- The compilation unit of a type. -/
def unitOf (id : TypeId) : CompilationUnit := c.unit (c.decl id).unit

/-- The package of a type. -/
def packageOf (id : TypeId) : Option String := (c.unitOf id).package

/-- The imports that a type sees. -/
def importsOf (id : TypeId) : List Import := (c.unitOf id).imports

/-- The type itself and the types around it, innermost first.  The type around another one has the
smaller position. -/
def enclosing (id : TypeId) : List TypeId :=
  id :: match (c.decl id).outer with
    | none => []
    | some o => if o.index < id.index then enclosing o else []
termination_by id.index

/-! ## Names -/

/-- The declared type with this qualified name. -/
def resolveType? (name : String) : Option TypeId :=
  (c.types.findIdx? fun t => t.qualifiedName == name).map TypeId.mk

/-- A declared type as a resolved type. -/
def sourceType (id : TypeId) : TypeInfo := .source id (c.decl id).qualifiedName

/-- The declared or described type with this canonical name. -/
def known? (name : String) : Option TypeInfo :=
  match c.resolveType? name with
  | some id => some (c.sourceType id)
  | none => (c.catalog.lookup? name).map TypeInfo.compiled

/-- The build module of the declared type with this qualified name. -/
def moduleOf? (name : String) : Option String :=
  (c.resolveType? name).bind fun id => (c.unitOf id).module

/-! ## Assembly -/

/-- A type of a file at its place in the code base: `unit` is the file and `base` the number of types
before it. -/
def place (withAccessors : Bool) (unit base : Nat) (t : TypeDecl) : TypeDecl :=
  let t := { t with unit := ⟨unit⟩, outer := t.outer.map fun o => ⟨base + o.index⟩ }
  if withAccessors then t.withAccessors else t

/-- Adds a file. -/
def addFile (withAccessors : Bool) (f : SourceFile) : Codebase where
  units := c.units ++ [⟨f.path, f.parsed.package, f.parsed.imports, f.module⟩]
  types := c.types ++ f.parsed.types.map (place withAccessors c.units.length c.types.length)
  catalog := c.catalog

/-- **Merges files into a code base**, in the given order. -/
def assemble (withAccessors : Bool) (catalog : Catalog) (files : List SourceFile) : Codebase :=
  files.foldl (fun c f => c.addFile withAccessors f) ⟨[], [], catalog⟩

end Codebase

end JavaCallGraph
