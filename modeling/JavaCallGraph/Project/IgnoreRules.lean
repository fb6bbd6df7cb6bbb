import JavaCallGraph.Project.Glob
import JavaCallGraph.Text.Pieces

/-!
# Ignore files

An ignore file lists path patterns, one a line, for the entries below its directory.  The last line
that matches an entry decides: it ignores the entry, or with a `!` in front it keeps it.

* A pattern with a division in it, or at its beginning, stands for a path from the directory of the
  file; any other one matches at every depth.
* With a division at its end it matches directories only.
* Lines that begin with `#` and malformed patterns are skipped; blanks at the end of a line do not
  count unless a backslash protects them.
-/

set_option autoImplicit false

namespace JavaCallGraph

/-- What a rule does with an entry. -/
inductive Verdict where
  | ignore
  | keep
  deriving DecidableEq, Repr

/-- A line of an ignore file. -/
structure IgnoreRule where
  glob : Glob
  verdict : Verdict
  onlyDirectories : Bool

/-- The lines of an ignore file. -/
abbrev IgnoreRules := List IgnoreRule

namespace IgnoreRule

/-- Takes away what stands at the end of a list, if it does. -/
def dropEnd? (cs ending : List Char) : Option (List Char) :=
  if ending.isSuffixOf cs then some (cs.take (cs.length - ending.length)) else none

/-- Takes away blanks at the end, unless a backslash stands before the last one. -/
def trimEnd (cs : List Char) : List Char :=
  if ['\\', ' '].isSuffixOf cs then cs else (cs.reverse.dropWhile Text.isBlank).reverse

/-- Lets a pattern without a division match at every depth. -/
def atEveryDepth (anchored : Bool) (cs : List Char) : List Char :=
  if anchored || cs.contains '/' || cs == ['*', '*'] then cs else ['*', '*', '/'] ++ cs

/-- A pattern for all that is in a directory does not match the directory. -/
def insideOnly (cs : List Char) : List Char :=
  if ['/', '*', '*'].isSuffixOf cs then cs ++ ['/', '*'] else cs

/-- The rule of a pattern; `anchored` says that it began with a division. -/
def ofPattern (verdict : Verdict) (anchored : Bool) (cs : List Char) : Option IgnoreRule :=
  let (onlyDirectories, cs) :=
    match dropEnd? cs ['/'] with
    | some cs => (true, (dropEnd? cs ['\\']).getD cs)
    | none => (false, cs)
  (Glob.read? (insideOnly (atEveryDepth anchored cs))).map fun g => ⟨g, verdict, onlyDirectories⟩

/-- The rule of a pattern that may begin with a division. -/
def ofAnchor (verdict : Verdict) : List Char → Option IgnoreRule
  | '/' :: cs => ofPattern verdict true cs
  | cs => ofPattern verdict false cs

/-- **The rule of a line**, if it holds one. -/
def read? (line : List Char) : Option IgnoreRule :=
  match line with
  | '#' :: _ => none
  | line =>
    match trimEnd line with
    | [] => none
    | '\\' :: '!' :: cs => ofPattern .ignore false ('!' :: cs)
    | '\\' :: '#' :: cs => ofPattern .ignore false ('#' :: cs)
    | '!' :: cs => ofAnchor .keep cs
    | cs => ofAnchor .ignore cs

/-- Whether a rule concerns an entry, given by its path from the directory of the file. -/
def concerns (r : IgnoreRule) (path : String) (isDirectory : Bool) : Bool :=
  (isDirectory || !r.onlyDirectories) && r.glob.accepts path

end IgnoreRule

namespace IgnoreRules

/-- Cuts bytes into lines. -/
def lines : List UInt8 → List (List UInt8)
  | [] => [[]]
  | b :: bs =>
    if b = 0x0A then [] :: lines bs
    else
      match lines bs with
      | [] => [[b]]
      | l :: ls => (b :: l) :: ls

/-- The characters of the lines up to the first that is not text. -/
def textLines : List (List UInt8) → List (List Char)
  | [] => []
  | l :: ls =>
    match Text.decode? l with
    | some s => s.toList :: textLines ls
    | none => []

/-- Takes away byte order marks at the beginning of the first line. -/
def withoutMark : List (List Char) → List (List Char)
  | [] => []
  | l :: ls => l.dropWhile (· == '\uFEFF') :: ls

/-- A carriage return belongs to the end of a line. -/
def withoutReturn (line : List Char) : List Char := (IgnoreRule.dropEnd? line ['\r']).getD line

/-- **The rules of an ignore file.** -/
def ofBytes (content : List UInt8) : IgnoreRules :=
  (withoutMark ((textLines (lines content)).map withoutReturn)).filterMap IgnoreRule.read?

/-- **What the rules say about an entry**: the last rule that concerns it decides. -/
def verdict? (rules : IgnoreRules) (path : String) (isDirectory : Bool) : Option Verdict :=
  (rules.reverse.find? fun r => r.concerns path isDirectory).map IgnoreRule.verdict

end IgnoreRules

end JavaCallGraph
