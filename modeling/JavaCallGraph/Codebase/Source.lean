import JavaCallGraph.Codebase.Index
import JavaCallGraph.Error

/-!
# From source texts to an index

`Index.ofTexts` parses source files and assembles them, in the given order.
-/

set_option autoImplicit false

namespace JavaCallGraph

/-- A source file before it is parsed. -/
structure SourceText where
  path : String
  /-- The build module that the file belongs to. -/
  module : Option String
  text : String
  deriving Repr

/-- Parses a source file. -/
def SourceText.parse (s : SourceText) : Except Error SourceFile :=
  match Syntax.parseFile? s.text with
  | some parsed => .ok ⟨s.path, s.module, parsed⟩
  | none => .error (.parse s.path)

/-- **The index of some source files** together with a catalog. -/
def Index.ofTexts (withAccessors : Bool) (catalog : Catalog) (texts : List SourceText) :
    Except Error Index :=
  (texts.mapM SourceText.parse).map fun files =>
    Index.ofCodebase (Codebase.assemble withAccessors catalog files)

end JavaCallGraph
