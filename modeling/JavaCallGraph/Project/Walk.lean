import JavaCallGraph.Project.IgnoreRules
import JavaCallGraph.Project.Workspace

/-!
# Walking a directory

`Workspace.walk` visits a directory and everything below it that is not ignored.  Below an ignored
directory nothing is visited.  The directory itself is visited whatever the rules say.

Three kinds of ignore files count, those of the directories above included: `.ignore`, and inside a
version-controlled tree, that is at and below a directory that holds `.git`, also `.gitignore` and
`.git/info/exclude`.  Of each kind the nearest file with an opinion decides, and of the kinds the first
one in this order.
-/

set_option autoImplicit false

namespace JavaCallGraph

/-- The rules of one directory. -/
structure RuleLayer where
  /-- The location of the directory. -/
  location : List String
  ignore : IgnoreRules
  gitignore : IgnoreRules
  exclude : IgnoreRules
  /-- The directory holds `.git`. -/
  hasGit : Bool

namespace RuleLayer

/-- The rules in the file at the end of some names. -/
def rulesIn (t : FileTree) (names : List String) : IgnoreRules :=
  match (t.descend? names).bind FileTree.content? with
  | some content => .ofBytes content
  | none => []

/-- The rules of a directory. -/
def ofDirectory (location : List String) (t : FileTree) : RuleLayer where
  location := location
  ignore := rulesIn t [".ignore"]
  gitignore := rulesIn t [".gitignore"]
  exclude := rulesIn t [".git", "info", "exclude"]
  hasGit := (t.entry? ".git").isSome

/-- The path from the directory to an entry below it. -/
def pathTo (l : RuleLayer) (location : List String) : String :=
  Text.joinWith "/" (location.drop l.location.length)

/-- The opinion of the nearest directory that has one. -/
def nearest (rules : RuleLayer → IgnoreRules) (layers : List RuleLayer) (location : List String)
    (isDirectory : Bool) : Option Verdict :=
  layers.findSome? fun l => (rules l).verdict? (l.pathTo location) isDirectory

/-- The directories up to the nearest that holds `.git`; none if none does. -/
def versionControlled (layers : List RuleLayer) : List RuleLayer :=
  if layers.any RuleLayer.hasGit then
    layers.takeWhile (fun l => !l.hasGit) ++ (layers.find? RuleLayer.hasGit).toList
  else []

/-- **What the rules of the directories around an entry say about it**; the directories are given from
the inside out. -/
def verdict? (layers : List RuleLayer) (location : List String) (isDirectory : Bool) :
    Option Verdict :=
  let controlled := versionControlled layers
  (nearest ignore layers location isDirectory).or
    ((nearest gitignore controlled location isDirectory).or
      (nearest exclude controlled location isDirectory))

/-- Whether an entry is ignored. -/
def ignores (layers : List RuleLayer) (location : List String) (isDirectory : Bool) : Bool :=
  verdict? layers location isDirectory == some .ignore

end RuleLayer

/-- An entry that was visited. -/
structure Visit where
  /-- The path of the walked directory, continued to the entry. -/
  path : String
  location : List String
  entry : FileTree

/-- A path continued by a name. -/
def joinPath (path name : String) : String :=
  if path.toList.getLast? = some '/' then path ++ name else path ++ "/" ++ name

namespace FileTree

mutual

/-- The entries below a directory that are not ignored. -/
def visitsBelow (layers : List RuleLayer) (path : String) (location : List String) :
    FileTree → List Visit
  | .file _ => []
  | .directory es =>
    visitsAmong (.ofDirectory location (.directory es) :: layers) path location es

/-- Of some entries of a directory those that are not ignored, with the entries below them. -/
def visitsAmong (layers : List RuleLayer) (path : String) (location : List String) :
    List (String × FileTree) → List Visit
  | [] => []
  | (name, t) :: es =>
    let place := location ++ [name]
    let rest := visitsAmong layers path location es
    if RuleLayer.ignores layers place t.isDirectory then rest
    else
      ⟨joinPath path name, place, t⟩ :: visitsBelow layers (joinPath path name) place t ++ rest

end

/-- The rules of the directories above a location, from the inside out. -/
def layersAbove (t : FileTree) (above : List String) : List String → List RuleLayer
  | [] => []
  | name :: names =>
    (match t.entry? name with
      | some u => layersAbove u (above ++ [name]) names
      | none => []) ++ [.ofDirectory above t]

end FileTree

/-- **Visits a directory and what is below it**; `none` when the path does not lead to a directory. -/
def Workspace.walk (w : Workspace) (path : String) : Option (List Visit) :=
  (w.directory? path).map fun (location, t) =>
    ⟨path, location, t⟩ :: t.visitsBelow (w.root.layersAbove [] location) path location

end JavaCallGraph
