import JavaCallGraph.Project.Walk

/-!
# Build modules

A build module is a directory that holds `src/main/java`; it is named after itself and owns the files
below that source root.  Modules may lie inside one another: `ModuleRoot.owner?` finds the innermost
one of a file, because `discover` lists longer roots first.
-/

set_option autoImplicit false

namespace JavaCallGraph

/-- A build module. -/
structure ModuleRoot where
  name : String
  /-- The absolute path of its sources. -/
  sourceRoot : String
  deriving DecidableEq, Repr

/-- Takes away the mark of a verbatim path. -/
def withoutVerbatimMark (path : String) : String :=
  match path.toList with
  | '\\' :: '\\' :: '?' :: '\\' :: cs => String.ofList cs
  | _ => path

/-- A location as an absolute path in which `/` is the only division. -/
def plainPath (location : List String) : String :=
  (Workspace.absolute location).map fun c => if c = '\\' then '/' else c

namespace ModuleRoot

/-- Where a module keeps its sources. -/
def sourceNames : List String := ["src", "main", "java"]

/-- The module of a visited entry, if it is one. -/
def ofVisit? (v : Visit) : Option ModuleRoot :=
  match v.entry.descend? sourceNames with
  | some (.directory _) =>
    some ⟨v.location.getLast?.getD ".", plainPath (v.location ++ sourceNames)⟩
  | _ => none

/-- Longer roots first, then by name. -/
def le (a b : ModuleRoot) : Bool :=
  if a.sourceRoot.utf8ByteSize = b.sourceRoot.utf8ByteSize then decide (a.name ≤ b.name)
  else decide (b.sourceRoot.utf8ByteSize < a.sourceRoot.utf8ByteSize)

/-- **The build modules among visited entries**, longer roots first. -/
def discover (visits : List Visit) : List ModuleRoot :=
  (visits.filterMap ofVisit?).mergeSort le

/-- The path leads below the source root of a module. -/
def owns (m : ModuleRoot) (path : String) : Bool :=
  (m.sourceRoot.toList ++ ['/']).isPrefixOf path.toList

/-- **The innermost module of a file**, given by its absolute path; the modules are in the order of
`discover`. -/
def owner? (modules : List ModuleRoot) (path : String) : Option ModuleRoot :=
  modules.find? fun m => m.owns path

end ModuleRoot

namespace Workspace

/-- The build modules at and below a path; none when it does not lead to a directory. -/
def modules (w : Workspace) (path : String) : List ModuleRoot :=
  match w.walk path with
  | some visits => ModuleRoot.discover visits
  | none => []

end Workspace

end JavaCallGraph
