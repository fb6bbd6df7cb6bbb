import JavaCallGraph.Catalog.Reader
import JavaCallGraph.Codebase.Source
import JavaCallGraph.Project.Modules

/-!
# Loading a project

`Workspace.index` reads all source files below some directories into an index, the directories in the
given order and the files of each in the order of their paths.  A file below two of them is read
twice.
-/

set_option autoImplicit false

namespace JavaCallGraph

/-- What is taken for a source file, and what becomes of it. -/
structure LoadOptions where
  /-- The extensions of source files, in whatever case. -/
  extensions : List String
  /-- Whether accessors are generated. -/
  withAccessors : Bool
  deriving Repr

/-- The text after the last dot of a name, unless that is the first character. -/
def extension? (name : String) : Option String :=
  match Text.splitLast? '.' name with
  | some (stem, e) => if stem = "" then none else some e
  | none => none

/-- A file with one of the extensions, letters compared regardless of case. -/
def LoadOptions.selects (o : LoadOptions) (v : Visit) : Bool :=
  match v.entry, (v.location.getLast?).bind extension? with
  | .file _, some e => o.extensions.any fun x => x.map Char.toLower == e.map Char.toLower
  | _, _ => false

namespace Workspace

variable (w : Workspace)

/-- The paths of the source files among visited entries, sorted. -/
def sourcePaths (o : LoadOptions) (visits : List Visit) : List String :=
  ((visits.filter o.selects).map fun v => withoutVerbatimMark v.path).mergeSort
    fun a b => decide (a ≤ b)

/-- The build module of the file that a path leads to. -/
def ownerOf? (modules : List ModuleRoot) (path : String) : Option ModuleRoot :=
  match w.locate path with
  | .ok location => ModuleRoot.owner? modules (plainPath location)
  | .error _ => ModuleRoot.owner? modules path

/-- Reads a source file; what is not text in it is replaced. -/
def readSource (modules : List ModuleRoot) (path : String) : Except Error SourceText :=
  match w.read path with
  | .ok content => .ok ⟨path, (w.ownerOf? modules path).map (·.name), Text.decodeLossy content⟩
  | .error cause => .error (.io cause)

/-- The source files below a directory. -/
def sourcesBelow (o : LoadOptions) (path : String) : Except Error (List SourceText) :=
  match w.walk path with
  | some visits => (sourcePaths o visits).mapM (w.readSource (ModuleRoot.discover visits))
  | none => .error (.dirNotFound path)

/-- **Loads the source files below some directories.** -/
def index (o : LoadOptions) (catalog : Catalog) (paths : List String) : Except Error Index := do
  let sources ← paths.mapM (w.sourcesBelow o)
  Index.ofTexts o.withAccessors catalog sources.flatten

/-- Merges a catalog document into a catalog. -/
def mergeCatalog (c : Catalog) (path : String) : Except Error Catalog :=
  match w.readText path with
  | .ok document => (c.merge document).map (·.1)
  | .error cause => .error (.io cause)

/-- Merges several catalog documents, in the given order. -/
def mergeCatalogs (c : Catalog) (paths : List String) : Except Error Catalog :=
  paths.foldlM w.mergeCatalog c

end Workspace

end JavaCallGraph
