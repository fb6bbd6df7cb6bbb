import JavaCallGraph.Lowering.Body
import JavaCallGraph.Syntax.Parser

/-!
# From syntax trees to declarations

`UnitTree.lower` turns a source file into its package, its imports and the flat list of its types.
Nested types follow the type around them, in source order, and are named with a `$`.  The positions
in `outer` count from the beginning of the file.

A type belongs to the package declared *before* it; the file as a whole to the package declared last.
-/

set_option autoImplicit false

namespace JavaCallGraph.Syntax

/-- A source file reduced to declarations. -/
structure ParsedFile where
  package : Option String
  imports : List Import
  types : List TypeDecl
  deriving Repr, Inhabited

/-- A method with a body or without one. -/
def MethodHeader.lower (h : MethodHeader) (body : Option Body) : MethodDecl where
  name := h.name
  typeParams := h.typeParams
  params := h.params
  returnType := h.returnType
  modifiers := h.modifiers.words
  annotations := h.modifiers.annotations
  body := body
  lineStart := h.lineStart
  lineEnd := h.lineEnd
  synthetic := false

/-- The methods that a member declares. -/
def Member.methods : Member → List MethodDecl
  | .method header body => [header.lower (some (lowerBody body))]
  | .abstractMethod header _ => [header.lower none]
  | _ => []

/-- The fields that a member of a type declares; those of an interface are static and final. -/
def Member.fields (inInterface : Bool) : Member → List FieldDecl
  | .field mods vars => vars.map fun v =>
    { name := v.name
      type := v.type
      isStatic := inInterface || mods.words.contains "static"
      isFinal := inInterface || mods.words.contains "final"
      annotations := mods.annotations }
  | _ => []

/-- The enum constants that a member declares. -/
def Member.enumConstants : Member → List String
  | .enumConstant name => [name]
  | _ => []

/-- The fields of the components of a record. -/
def componentFields (components : List Param) : List FieldDecl :=
  components.map fun c => ⟨c.name, c.type, false, true, []⟩

/-- The type around a nested one: its position and its qualified name. -/
structure Enclosing where
  position : Nat
  qualifiedName : String

/-- `pkg.Outer$Inner`. -/
def qualifiedName (package : Option String) (outer : Option Enclosing) (name : String) : String :=
  match outer, package with
  | some o, _ => o.qualifiedName ++ "$" ++ name
  | none, some p => p ++ "." ++ name
  | none, none => name

/-- A type without the types inside it. -/
def TypeHeader.lower (h : TypeHeader) (members : List Member) (outer : Option Enclosing)
    (qualifiedName : String) : TypeDecl where
  name := h.name
  qualifiedName := qualifiedName
  kind := h.kind
  unit := ⟨0⟩
  outer := outer.map fun o => ⟨o.position⟩
  typeParams := h.typeParams
  extended := h.extended
  implemented := h.implemented
  fields := componentFields h.components ++
    members.flatMap (Member.fields (h.kind == .interface || h.kind == .annotationType))
  methods := members.flatMap Member.methods
  enumConstants := members.flatMap Member.enumConstants
  annotations := h.modifiers.annotations
  modifiers := h.modifiers.words
  line := h.line

mutual

/-- A type and the types inside it, of which the first gets the position `start`. -/
def lowerType (package : Option String) (outer : Option Enclosing) (start : Nat) :
    TypeTree → List TypeDecl
  | .mk header members =>
    let name := qualifiedName package outer header.name
    header.lower members outer name ::
      lowerNested package ⟨start, name⟩ (start + 1) members

/-- The types among the members of `owner`, of which the first gets the position `start`. -/
def lowerNested (package : Option String) (owner : Enclosing) (start : Nat) :
    List Member → List TypeDecl
  | [] => []
  | .type t :: ms =>
    let ts := lowerType package (some owner) start t
    ts ++ lowerNested package owner (start + ts.length) ms
  | .field _ _ :: ms => lowerNested package owner start ms
  | .method _ _ :: ms => lowerNested package owner start ms
  | .abstractMethod _ _ :: ms => lowerNested package owner start ms
  | .initializer _ :: ms => lowerNested package owner start ms
  | .constructor :: ms => lowerNested package owner start ms
  | .enumConstant _ :: ms => lowerNested package owner start ms

end

/-- Adds one top-level declaration to the file read so far. -/
def ParsedFile.add (f : ParsedFile) : TopLevel → ParsedFile
  | .package name => { f with package := some name }
  | .imported i => { f with imports := f.imports ++ [i] }
  | .type t => { f with types := f.types ++ lowerType f.package none f.types.length t }
  | .other => f

/-- **The declarations of a source file.** -/
def UnitTree.lower (u : UnitTree) : ParsedFile := u.items.foldl ParsedFile.add ⟨none, [], []⟩

/-- The declarations of a source text, or `none` when it is not Java. -/
def parseFile? (source : String) : Option ParsedFile := (parse? source).map UnitTree.lower

end JavaCallGraph.Syntax
