import JavaCallGraph.Error
import JavaCallGraph.Text.Pieces
import JavaCallGraph.Text.Utf8

/-!
# Directory trees

A `Workspace` is a tree of files and directories together with the directory that relative paths start
from.  A *location* is the list of names that leads from the root of the tree to an entry; a *path* is
what a user writes, and `Workspace.locate` follows it step by step: `.` stays, `..` goes up, and a path
that goes on after a file, be it only with a division at its end, leads nowhere.
-/

set_option autoImplicit false

namespace JavaCallGraph

/-- A file or a directory. -/
inductive FileTree where
  | file (content : List UInt8)
  | directory (entries : List (String × FileTree))
  deriving Inhabited

namespace FileTree

/-- A directory without entries. -/
def empty : FileTree := directory []

/-- The entries of a directory. -/
def entries : FileTree → List (String × FileTree)
  | file _ => []
  | directory es => es

/-- A directory. -/
def isDirectory : FileTree → Bool
  | file _ => false
  | directory _ => true

/-- The content of a file. -/
def content? : FileTree → Option (List UInt8)
  | file bs => some bs
  | directory _ => none

/-- The entry of that name. -/
def entry? (t : FileTree) (name : String) : Option FileTree := t.entries.lookup name

/-- The entry at the end of some names. -/
def descend? (t : FileTree) : List String → Option FileTree
  | [] => some t
  | name :: names => (t.entry? name).bind fun u => u.descend? names

/-- Replaces an entry, or adds it behind the others. -/
def putEntry (name : String) (u : FileTree) : List (String × FileTree) → List (String × FileTree)
  | [] => [(name, u)]
  | e :: es => if e.1 = name then (name, u) :: es else e :: putEntry name u es

/-- Puts an entry at the end of some names, with the directories that lead to it. -/
def put (t : FileTree) (u : FileTree) : List String → FileTree
  | [] => u
  | name :: names =>
    directory (putEntry name (((t.entry? name).getD empty).put u names) t.entries)

end FileTree

/-- A tree of files and the directory to start from. -/
structure Workspace where
  root : FileTree
  /-- The location of the current directory. -/
  current : List String
  deriving Inhabited

namespace Workspace

/-- A location as an absolute path. -/
def absolute (location : List String) : String := "/" ++ Text.joinWith "/" location

/-- Follows names from a location.  It has to be that of a directory as long as names follow. -/
def follow (root : FileTree) : List String → List String → Except IoCause (List String)
  | location, [] => .ok location
  | location, name :: names =>
    match root.descend? location with
    | some (.directory es) =>
      if name = "" ∨ name = "." then follow root location names
      else if name = ".." then follow root location.dropLast names
      else if (es.lookup name).isSome then follow root (location ++ [name]) names
      else .error .notFound
    | some (.file _) => .error .notDirectory
    | none => .error .notFound

/-- **The location that a path leads to.** -/
def locate (w : Workspace) (path : String) : Except IoCause (List String) :=
  if path = "" then .error .notFound
  else
    let start := if path.toList.head? = some '/' then [] else w.current
    follow w.root start (Text.pieces (· == '/') path)

/-- The entry that a path leads to. -/
def open? (w : Workspace) (path : String) : Except IoCause (List String × FileTree) := do
  let location ← w.locate path
  match w.root.descend? location with
  | some t => .ok (location, t)
  | none => .error .notFound

/-- The location and entries of the directory that a path leads to. -/
def directory? (w : Workspace) (path : String) : Option (List String × FileTree) :=
  match w.open? path with
  | .ok (location, t) => if t.isDirectory then some (location, t) else none
  | .error _ => none

/-- The content of the file that a path leads to. -/
def read (w : Workspace) (path : String) : Except IoCause (List UInt8) := do
  let (_, t) ← w.open? path
  match t.content? with
  | some bs => .ok bs
  | none => .error .isDirectory

/-- The content of a file, which has to be text. -/
def readText (w : Workspace) (path : String) : Except IoCause String := do
  match Text.decode? (← w.read path) with
  | some s => .ok s
  | none => .error .invalidUtf8

end Workspace

end JavaCallGraph
