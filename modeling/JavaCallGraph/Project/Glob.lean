import JavaCallGraph.Text.Utf8

/-!
# Path patterns

A `Glob` is a pattern for a relative path whose components are divided by `/`:

* `*` matches any part of one component, `?` one byte of it, `[…]` one byte of the listed ones;
* `**` matches any number of components where it stands between divisions (or at an end), and is two
  `*` anywhere else;
* `{a,b}` matches what one of its branches matches, and a backslash takes away the meaning of the
  character after it.

`Glob.read?` reads a pattern and `Glob.accepts` compares it with a whole path.  A bracket that is never
closed stands for itself.
-/

set_option autoImplicit false

namespace JavaCallGraph

/-- A part of a path pattern. -/
inductive GlobPart where
  | literal (c : Char)
  /-- `?`. -/
  | anyByte
  /-- `*`. -/
  | segment
  /-- `[…]`, or `[!…]` when negated. -/
  | oneOf (negated : Bool) (ranges : List (Char × Char))
  /-- `**` at the beginning, with the division after it. -/
  | leadingDirs
  /-- `**` at the end, with the division before it. -/
  | trailingDirs
  /-- `**` in between, with the divisions around it. -/
  | innerDirs
  /-- `{a,b}`. -/
  | choice (branches : List (List GlobPart))
  deriving Inhabited

/-- A path pattern. -/
structure Glob where
  parts : List GlobPart
  deriving Inhabited

namespace Glob

/-! ## Reading -/

/-- A group that is being read. -/
structure OpenGroup where
  /-- What stands before it, last part first. -/
  before : List GlobPart
  /-- Its finished branches, the last first. -/
  branches : List (List GlobPart)

/-- What was read so far. -/
structure Reading where
  /-- The current branch, last part first. -/
  current : List GlobPart
  /-- The groups around it, innermost first. -/
  groups : List OpenGroup
  /-- The last character that was read. -/
  last : Option Char
  /-- A bracket was met that is never closed. -/
  openBracket : Bool

namespace Reading

/-- Nothing read yet. -/
def start : Reading := ⟨[], [], none, false⟩

/-- Adds a part that was read up to the character `c`. -/
def push (r : Reading) (p : GlobPart) (c : Char) : Reading :=
  { r with current := p :: r.current, last := some c }

/-- Opens a group. -/
def openGroup (r : Reading) : Reading :=
  { r with current := [], groups := ⟨r.current, []⟩ :: r.groups, last := some '\x7b' }

/-- Ends a branch; outside of groups a comma stands for itself. -/
def comma (r : Reading) : Reading :=
  match r.groups with
  | [] => r.push (.literal ',') ','
  | g :: gs =>
    { r with
      current := []
      groups := ⟨g.before, r.current.reverse :: g.branches⟩ :: gs
      last := some ',' }

/-- A branch without content: it has no parts, or only empty groups. -/
def isBlank (branch : List GlobPart) : Bool :=
  branch.all fun p =>
    match p with
    | .choice [] => true
    | _ => false

/-- Closes a group; its blank branches do not count. -/
def closeGroup (r : Reading) : Option Reading :=
  match r.groups with
  | [] => none
  | g :: gs =>
    let branches := (r.current.reverse :: g.branches).reverse
    some
      { r with
        current := .choice (branches.filter fun b => !isBlank b) :: g.before
        groups := gs
        last := some '\x7d' }

/-- Two `*`. -/
def twoSegments (r : Reading) : Reading := (r.push .segment '*').push .segment '*'

/-- Puts `**` in the place of the division before it; it takes up the directories at the beginning if
these are already covered. -/
def replaceDivision (r : Reading) (p : GlobPart) (c : Char) : Reading :=
  let p :=
    match r.current.head? with
    | some .leadingDirs => .leadingDirs
    | some .trailingDirs => .trailingDirs
    | _ => p
  { r with current := p :: r.current.tail, last := some c }

/-- Reads on after `**`; also gives what is left of the text. -/
def doubleStar (r : Reading) (cs : List Char) : Reading × List Char :=
  if r.current.isEmpty then
    match cs with
    | [] => (r.push .leadingDirs '*', [])
    | '/' :: cs => (r.push .leadingDirs '/', cs)
    | cs => (r.twoSegments, cs)
  else if r.last = some '/' then
    match cs with
    | [] => (r.replaceDivision .trailingDirs '*', [])
    | '/' :: cs => (r.replaceDivision .innerDirs '/', cs)
    | c :: cs =>
      if (c = ',' ∨ c = '\x7d') ∧ r.groups ≠ [] then
        (r.replaceDivision .trailingDirs '*', c :: cs)
      else (r.twoSegments, c :: cs)
  else (r.twoSegments, cs)

end Reading

/-- How reading a bracket ends. -/
inductive Bracket where
  | closed (part : GlobPart) (rest : List Char)
  | unclosed
  /-- A range that runs backwards. -/
  | invalid

/-- Reads the inside of a bracket.  `ranges` are the ranges so far, the last first, and `pending` says
that a hyphen after the last one waits for its end. -/
def readRanges (negated : Bool) : Bool → Bool → List (Char × Char) → List Char → Bracket
  | _, _, _, [] => .unclosed
  | first, pending, ranges, c :: cs =>
    if c = ']' ∧ ¬ first then
      let ranges := if pending then ('-', '-') :: ranges else ranges
      .closed (.oneOf negated ranges.reverse) cs
    else if c = '-' ∧ ¬ first ∧ ¬ pending then readRanges negated false true ranges cs
    else
      match pending, ranges with
      | true, (a, _) :: ranges =>
        if c < a then .invalid else readRanges negated false false ((a, c) :: ranges) cs
      | _, ranges => readRanges negated false false ((c, c) :: ranges) cs

/-- Reads a bracket after its opening. -/
def readBracket : List Char → Bracket
  | '!' :: cs => readRanges true true false [] cs
  | '^' :: cs => readRanges true true false [] cs
  | cs => readRanges false true false [] cs

/-- Reads a whole pattern.  The first argument bounds the number of steps, each of which takes up at
least one character. -/
def readFrom : Nat → Reading → List Char → Option Reading
  | 0, _, _ => none
  | _ + 1, r, [] => some r
  | n + 1, r, c :: cs =>
    match c with
    | '?' => readFrom n (r.push .anyByte c) cs
    | '*' =>
      match cs with
      | '*' :: cs => readFrom n (r.doubleStar cs).1 (r.doubleStar cs).2
      | cs => readFrom n (r.push .segment c) cs
    | '[' =>
      if r.openBracket then readFrom n (r.push (.literal c) c) cs
      else
        match readBracket cs with
        | .closed part rest => readFrom n (r.push part ']') rest
        | .unclosed => readFrom n { r.push (.literal c) c with openBracket := true } cs
        | .invalid => none
    | '\x7b' => readFrom n r.openGroup cs
    | '\x7d' => r.closeGroup.bind fun r => readFrom n r cs
    | ',' => readFrom n r.comma cs
    | '\\' =>
      match cs with
      | [] => none
      | d :: cs => readFrom n (r.push (.literal d) d) cs
    | c => readFrom n (r.push (.literal c) c) cs

/-- **Reads a path pattern**; malformed are a group that is not closed or not opened, a range that runs
backwards, and a backslash at the end. -/
def read? (cs : List Char) : Option Glob :=
  (readFrom (cs.length + 1) .start cs).bind fun r =>
    if r.groups.isEmpty then some ⟨r.current.reverse⟩ else none

/-! ## Matching -/

/-- The bytes of a text. -/
def bytes (s : String) : List UInt8 := s.toUTF8.toList

/-- The division of components. -/
def slash : UInt8 := 0x2F

/-- The ranges of bytes that a range of characters stands for: the ends are spelled out, and the range
runs from the last byte of the first to the first byte of the last. -/
def byteRanges (range : Char × Char) : List (UInt8 × UInt8) :=
  let low := bytes (String.singleton range.1)
  let high := bytes (String.singleton range.2)
  let single (b : UInt8) : UInt8 × UInt8 := (b, b)
  if range.1 = range.2 then low.map single
  else
    low.dropLast.map single ++ [(low.getLast?.getD 0, high.head?.getD 0)] ++ high.tail.map single

/-- What is left after taking away the given beginning. -/
def dropBytes : List UInt8 → List UInt8 → Option (List UInt8)
  | [], s => some s
  | b :: bs, c :: s => if b = c then dropBytes bs s else none
  | _ :: _, [] => none

/-- The ends of a path that begin after a part of its first component. -/
def afterSegment : List UInt8 → List (List UInt8)
  | [] => [[]]
  | b :: bs => (b :: bs) :: if b = slash then [] else afterSegment bs

/-- The ends of a path that begin after a division. -/
def afterDivisions : List UInt8 → List (List UInt8)
  | [] => []
  | b :: bs => if b = slash then bs :: afterDivisions bs else afterDivisions bs

/-- All ends of a path. -/
def ends : List UInt8 → List (List UInt8)
  | [] => [[]]
  | b :: bs => (b :: bs) :: ends bs

/-- The first of each length; ends of one path are equal when they are equally long. -/
def distinctEnds : List Nat → List (List UInt8) → List (List UInt8)
  | _, [] => []
  | seen, e :: es =>
    if seen.contains e.length then distinctEnds seen es
    else e :: distinctEnds (e.length :: seen) es

mutual

/-- What is left of a path after a part of the pattern, in every way. -/
def restsOfPart (s : List UInt8) : GlobPart → List (List UInt8)
  | .literal c => (dropBytes (bytes (String.singleton c)) s).toList
  | .anyByte =>
    match s with
    | b :: bs => if b = slash then [] else [bs]
    | [] => []
  | .segment => afterSegment s
  | .oneOf negated ranges =>
    match s with
    | b :: bs =>
      let listed := (ranges.flatMap byteRanges).any fun r => r.1 ≤ b && b ≤ r.2
      if listed != negated then [bs] else []
    | [] => []
  | .leadingDirs => s :: afterDivisions s
  | .trailingDirs =>
    match s with
    | b :: bs => if b = slash then ends bs else []
    | [] => []
  | .innerDirs =>
    match s with
    | b :: bs => if b = slash then bs :: afterDivisions bs else []
    | [] => []
  | .choice [] => [s]
  | .choice (b :: bs) => restsOfBranches s (b :: bs)

/-- What is left after all parts, from each of the given rests. -/
def restsOfParts : List (List UInt8) → List GlobPart → List (List UInt8)
  | rests, [] => rests
  | rests, p :: ps => restsOfParts (distinctEnds [] (rests.flatMap fun s => restsOfPart s p)) ps

/-- What is left after one of the branches. -/
def restsOfBranches (s : List UInt8) : List (List GlobPart) → List (List UInt8)
  | [] => []
  | b :: bs => restsOfParts [s] b ++ restsOfBranches s bs

end

/-- **The pattern matches a whole path.**  The pattern `**` alone matches every path. -/
def accepts (g : Glob) (path : String) : Bool :=
  match g.parts with
  | [.leadingDirs] => true
  | parts => (restsOfParts [bytes path] parts).any List.isEmpty

end Glob

end JavaCallGraph
