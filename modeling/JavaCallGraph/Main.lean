import JavaCallGraph.Command.Run

/-!
# The program

Reads from the disk what a command line names, carries it out, and prints the result.  Only what can
bear on the result is read: the files with a wanted extension, the ignore files and the catalog
documents.  Links are not followed below the directories that are named.
-/

set_option autoImplicit false

namespace JavaCallGraph.Program

/-- More than the number of directories that a path can lead through. -/
def maxDepth : Nat := 4096

/-- The names of files whose content decides what is ignored. -/
def ruleNames : List String := [".ignore", ".gitignore", "exclude"]

/-- Whether the content of a file is wanted. -/
def isWanted (o : LoadOptions) (name : String) : Bool :=
  ruleNames.contains name ||
    match extension? name with
    | some e => o.extensions.any fun x => x.map Char.toLower == e.map Char.toLower
    | none => false

/-- The content of a file. -/
def loadFile (path : String) : IO FileTree := do
  return .file (← IO.FS.readBinFile path).toList

/-- A directory with all that is below it. -/
def loadDirectory (o : LoadOptions) : Nat → String → IO FileTree
  | 0, _ => return .empty
  | n + 1, path => do
    let entries ← ((← IO.currentDir) / path).readDir
    let mut loaded : List (String × FileTree) := []
    for e in entries do
      match (← e.path.symlinkMetadata).type with
      | .dir => loaded := (e.fileName, ← loadDirectory o n e.path.toString) :: loaded
      | .file =>
        let content ← if isWanted o e.fileName then loadFile e.path.toString else pure (.file [])
        loaded := (e.fileName, content) :: loaded
      | _ => pure ()
    return .directory (loaded.mergeSort fun a b => decide (a.1 ≤ b.1))

/-- Adds a file to a tree if it exists. -/
def addFile (t : FileTree) (location : List String) : IO FileTree := do
  let path := Workspace.absolute location
  if (← ((← IO.currentDir) / path).pathExists) && !(← ((← IO.currentDir) / path).isDir) then
    return t.put (← loadFile path) location
  return t

/-- Adds a directory to a tree, of its content only what decides what is ignored. -/
def addRules (t : FileTree) (location : List String) : IO FileTree := do
  let t := if (t.descend? location).isSome then t else t.put .empty location
  let git := location ++ [".git"]
  let t :=
    if (← ((← IO.currentDir) / Workspace.absolute git).pathExists) &&
      (t.descend? git).isNone then t.put .empty git else t
  let t ← addFile t (location ++ [".ignore"])
  let t ← addFile t (location ++ [".gitignore"])
  addFile t (git ++ ["info", "exclude"])

/-- Adds what a path leads to, with the directories on the way. -/
def addPath (o : LoadOptions) (t : FileTree) (location : List String) :
    List String → IO FileTree
  | [] => do
    let path := Workspace.absolute location
    if ← ((← IO.currentDir) / path).isDir then
      return t.put (← loadDirectory o maxDepth path) location
    addFile t location
  | name :: names => do
    if !(← ((← IO.currentDir) / Workspace.absolute location).isDir) then
      return ← addFile t location
    let t ← addRules t location
    if name = "" ∨ name = "." then addPath o t location names
    else if name = ".." then addPath o t location.dropLast names
    else addPath o t (location ++ [name]) names

/-- Reads what a command names. -/
def loadWorkspace (c : Command) : IO Workspace := do
  let here ← IO.currentDir
  let current := (Text.pieces (· == '/') here.toString).filter fun n => n != ""
  let mut tree := FileTree.empty
  for path in c.source.directories ++ c.source.classpath do
    let start := if path.toList.head? = some '/' then [] else current
    tree ← try addPath c.source.load tree [] (start ++ Text.pieces (· == '/') path)
      catch _ => pure tree
  return ⟨tree, current⟩

end JavaCallGraph.Program

open JavaCallGraph in
/-- **The command line**: prints what the command leaves behind and exits with its code. -/
def main (words : List String) : IO UInt32 := do
  let w ←
    match Command.read? words with
    | some c => Program.loadWorkspace c
    | none => pure ⟨.empty, []⟩
  let output := Command.run w words
  (← IO.getStdout).putStr output.stdout
  (← IO.getStderr).putStr output.stderr
  return output.code.toUInt32
