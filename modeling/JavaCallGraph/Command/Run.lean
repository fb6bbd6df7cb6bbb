import JavaCallGraph.Catalog.Jdk
import JavaCallGraph.Codebase.Listing
import JavaCallGraph.Command.Arguments
import JavaCallGraph.Graph.Document
import JavaCallGraph.Graph.Session
import JavaCallGraph.Pattern.Reader

/-!
# Running a command

`Command.run` carries out a command line in a workspace and says what is printed.  The exit code is `0`
for success, `1` for a request that failed and `2` for a command line that is none.
-/

set_option autoImplicit false

namespace JavaCallGraph

/-- What a command leaves behind. -/
structure CommandOutput where
  code : Nat
  stdout : String
  stderr : String
  deriving DecidableEq, Repr

namespace Command

/-- The index of the source that the arguments name. -/
def loadIndex (w : Workspace) (a : SourceArguments) : Except Error Index := do
  let catalog ← w.mergeCatalogs .jdk a.classpath
  w.index a.load catalog a.directories

/-- Resolves several methods in one session, the one after the other.  All are resolved before the
first failure is reported. -/
def resolveAll (s : Session) : List String → List (Except Error MethodInfo)
  | [] => []
  | text :: texts => (s.resolve text).1 :: resolveAll (s.resolve text).2 texts

/-- One value alone, any other number as an array. -/
def collectValues : List Json → Json
  | [v] => v
  | vs => .arr vs

/-- Lines, each with its end. -/
def lines (ls : List String) : String := String.join (ls.map fun l => l ++ "\n")

/-- Prints the graphs of some methods. -/
def runGraph (i : Index) (a : GraphArguments) : Except Error CommandOutput := do
  let roots ← (resolveAll (Session.start i a.config) a.methods).mapM id
  let document (root : MethodInfo) : Json :=
    if a.view then (GraphView.ofRoot i.code root).document else root.document
  let value := collectValues (roots.map document)
  return ⟨0, lines [if a.pretty then value.pretty else value.compact], ""⟩

/-- The test that a pattern stands for. -/
def typeTest (pattern : Option String) : Except Error (String → Bool) :=
  match pattern with
  | none => .ok fun _ => true
  | some text =>
    match Pattern.read? text with
    | some p => .ok p.occursIn
    | none => .error (.invalidPattern text)

/-- A message that counts what was listed. -/
def countMessage (n : Nat) (noun : String) : String := toString n ++ " " ++ noun ++ "\n"

/-- Lists identities. -/
def runMethods (i : Index) (synthetic : Bool) (select : String → Bool) : CommandOutput :=
  let ids := i.code.methodIds synthetic select
  ⟨0, lines ids, countMessage ids.length "methods"⟩

/-- A type as a line of a listing. -/
def typeLine (r : TypeRow) : String :=
  r.kind.label ++ "\t" ++ r.name ++ "\t" ++ r.module.getD "-"

/-- Lists types. -/
def runTypes (i : Index) : CommandOutput :=
  let rows := i.code.typeRows
  ⟨0, lines (rows.map typeLine), countMessage rows.length "types"⟩

/-- Carries out a command.  A pattern is read before the source. -/
def execute (w : Workspace) (c : Command) : Except Error CommandOutput :=
  match c.action with
  | .graph a => do runGraph (← loadIndex w c.source) a
  | .methods a => do
    let select ← typeTest a.pattern
    return runMethods (← loadIndex w c.source) a.synthetic select
  | .types => (loadIndex w c.source).map runTypes

/-- The message about a command line that is none. -/
def usage : String :=
  "usage: (graph | methods | types) [--dir DIR] [--ext LIST] [--classpath FILE] [--threads N] "
    ++ "[--no-accessors] [OPTIONS]\n"

/-- **Carries out a command line.** -/
def run (w : Workspace) (words : List String) : CommandOutput :=
  match read? words with
  | none => ⟨2, "", usage⟩
  | some c =>
    match c.execute w with
    | .ok output => output
    | .error e => ⟨1, "", "Error: " ++ e.message ++ "\n"⟩

end Command

end JavaCallGraph
