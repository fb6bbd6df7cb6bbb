import JavaCallGraph.Pattern.CharSet

/-!
# Reading patterns

`Pattern.read?` reads the usual notation of regular expressions and fails when it is malformed.

* `|` divides alternatives, parentheses group; `*`, `+`, `?` and `{n,m}` repeat what stands before
  them and fail without it.  Whether a repetition is written as lazy makes no difference to whether a
  pattern occurs.
* `.`, brackets with nested brackets and the operations `&&`, `--` and `~~`, and the escapes for
  classes stand for sets; `^`, `$`, `\A`, `\z` and `\b` for assertions.
* Flags are set for the rest of a group by `(?i)` and for a group by `(?i:…)`.

There are neither references to groups nor assertions about what lies around a place beyond the next
character.
-/

set_option autoImplicit false

namespace JavaCallGraph.Pattern

/-- The switches of the notation. -/
structure Flags where
  ignoreCase : Bool
  multiLine : Bool
  /-- The dot matches the end of a line too. -/
  dotAll : Bool
  /-- Classes range over all of Unicode. -/
  unicode : Bool
  /-- Blanks and comments in the pattern do not count. -/
  verbose : Bool
  /-- A carriage return ends a line too. -/
  anyReturn : Bool
  deriving DecidableEq, Repr

/-- The switches at the beginning. -/
def Flags.start : Flags := ⟨false, false, false, true, false, false⟩

/-- Goes past blanks and comments where they do not count. -/
def skipVerbose (inComment : Bool) : List Char → List Char
  | [] => []
  | c :: cs =>
    if inComment then skipVerbose (c != '\n') cs
    else if Text.isBlank c then skipVerbose false cs
    else if c == '#' then skipVerbose true cs
    else c :: cs

/-- Goes past blanks and comments if these do not count. -/
def skip (f : Flags) (cs : List Char) : List Char := if f.verbose then skipVerbose false cs else cs

/-! ## Escapes -/

/-- What an escape stands for. -/
inductive Escaped where
  | char (c : Char)
  | set (s : CharSet)
  | assertion (a : Assertion)

/-- A hexadecimal digit. -/
def hexValue? (c : Char) : Option Nat :=
  if c.isDigit then some (c.toNat - '0'.toNat)
  else if 'a' ≤ c ∧ c ≤ 'f' then some (c.toNat - 'a'.toNat + 10)
  else if 'A' ≤ c ∧ c ≤ 'F' then some (c.toNat - 'A'.toNat + 10)
  else none

/-- The character with the given hexadecimal code. -/
def hexChar? (digits : List Char) : Option Char := do
  let values ← digits.mapM hexValue?
  let n := values.foldl (fun n d => 16 * n + d) 0
  if digits ≠ [] ∧ n.isValidChar then some (Char.ofNat n) else none

/-- A hexadecimal code of `width` digits, or of any number of them in braces. -/
def hexEscape (f : Flags) (width : Nat) (cs : List Char) : Option (Escaped × List Char) :=
  match skip f cs with
  | '\x7b' :: cs =>
    match cs.dropWhile (· != '\x7d') with
    | _ :: rest =>
      let digits := (cs.takeWhile (· != '\x7d')).filter fun c => !(f.verbose && Text.isBlank c)
      (hexChar? digits).map fun c => (.char c, rest)
    | [] => none
  | cs =>
    if cs.length < width then none
    else (hexChar? (cs.take width)).map fun c => (.char c, cs.drop width)

/-- A set or its complement.  Complements range over all of Unicode only. -/
def classOrComplement (f : Flags) (negated : Bool) (s : CharSet) : Option CharSet :=
  if negated then if f.unicode then some (CharSet.complement s) else none else some s

/-- A property, by a single letter or a name in braces. -/
def propertyEscape (f : Flags) (negated : Bool) (cs : List Char) : Option (Escaped × List Char) :=
  match skip f cs with
  | '\x7b' :: cs =>
    match cs.dropWhile (· != '\x7d') with
    | _ :: rest =>
      let name := cs.takeWhile (· != '\x7d')
      let (inner, name) :=
        match name with
        | '^' :: name => (true, name)
        | name => (false, name)
      if f.unicode then
        (CharSet.property? (String.ofList name)).bind fun s =>
          (classOrComplement f (negated != inner) s).map fun s => (.set s, rest)
      else none
    | [] => none
  | c :: cs =>
    if f.unicode then
      (CharSet.property? (String.singleton c)).bind fun s =>
        (classOrComplement f negated s).map fun s => (.set s, cs)
    else none
  | [] => none

/-- A character of the word in braces behind `\b`. -/
def isBoundaryWordChar (c : Char) : Bool := c.isAlpha || c == '-'

/-- The assertion `\b`, possibly with a word in braces that says which kind of boundary is meant. -/
def boundaryEscape (f : Flags) (cs : List Char) : Option (Escaped × List Char) :=
  let w := CharSet.word f.unicode
  let plain : Option (Escaped × List Char) := some (.assertion (.wordBoundary w), cs)
  match cs with
  | '\x7b' :: inner =>
    match skip f inner with
    | [] => none
    | c :: _ =>
      if isBoundaryWordChar c then
        let inner := skip f inner
        let name := String.ofList (inner.takeWhile isBoundaryWordChar)
        match skip f (inner.dropWhile isBoundaryWordChar) with
        | '\x7d' :: rest =>
          match name with
          | "start" => some (.assertion (.wordStart w), rest)
          | "end" => some (.assertion (.wordEnd w), rest)
          | "start-half" => some (.assertion (.wordStartHalf w), rest)
          | "end-half" => some (.assertion (.wordEndHalf w), rest)
          | _ => none
        | _ => none
      else plain
  | _ => plain

/-- A character that stands for itself behind a backslash. -/
def isEscapable (c : Char) : Bool :=
  c.toNat < 0x80 && !c.isAlphanum && c != '<' && c != '>'

/-- **Reads an escape**, behind the backslash. -/
def escape (f : Flags) : List Char → Option (Escaped × List Char)
  | [] => none
  | c :: cs =>
    let set (negated : Bool) (s : CharSet) : Option (Escaped × List Char) :=
      (classOrComplement f negated s).map fun s => (.set s, cs)
    let w := CharSet.word f.unicode
    if isEscapable c then some (.char c, cs)
    else
      match c with
      | 'x' => hexEscape f 2 cs
      | 'u' => hexEscape f 4 cs
      | 'U' => hexEscape f 8 cs
      | 'p' => propertyEscape f false cs
      | 'P' => propertyEscape f true cs
      | 'd' => set false (CharSet.digit f.unicode)
      | 'D' => set true (CharSet.digit f.unicode)
      | 's' => set false (CharSet.blank f.unicode)
      | 'S' => set true (CharSet.blank f.unicode)
      | 'w' => set false w
      | 'W' => set true w
      | 'a' => some (.char '\x07', cs)
      | 'f' => some (.char '\x0c', cs)
      | 't' => some (.char '\t', cs)
      | 'n' => some (.char '\n', cs)
      | 'r' => some (.char '\r', cs)
      | 'v' => some (.char '\x0b', cs)
      | 'A' => some (.assertion .textStart, cs)
      | 'z' => some (.assertion .textEnd, cs)
      | 'b' => boundaryEscape f cs
      | 'B' => some (.assertion (.notWordBoundary w), cs)
      | '<' => some (.assertion (.wordStart w), cs)
      | '>' => some (.assertion (.wordEnd w), cs)
      | _ => none

/-! ## Brackets -/

/-- A bracket that is being read: the operation and operand that wait for what follows, and the union
of what was read since. -/
structure BracketState where
  waiting : Option (CharSet × CharSet.Operation)
  current : CharSet
  /-- Something was read since. -/
  started : Bool

namespace BracketState

/-- Nothing read yet. -/
def start : BracketState := ⟨none, CharSet.none, false⟩

/-- Adds a set. -/
def add (b : BracketState) (s : CharSet) : BracketState :=
  { b with current := CharSet.union b.current s, started := true }

/-- The operand just read, in the sense of the flags. -/
def operand (b : BracketState) (f : Flags) : CharSet :=
  if f.ignoreCase then CharSet.foldCase b.current else b.current

/-- The set that the bracket stands for if it ends here. -/
def value (b : BracketState) (f : Flags) : CharSet :=
  match b.waiting with
  | some (s, op) => op.apply s (b.operand f)
  | none => b.operand f

/-- Goes on with an operation. -/
def operate (b : BracketState) (f : Flags) (op : CharSet.Operation) : BracketState :=
  ⟨some (b.value f, op), CharSet.none, false⟩

end BracketState

/-- A named set of ASCII, behind `[`. -/
def namedSet? : List Char → Option (CharSet × List Char)
  | ':' :: cs =>
    let (negated, cs) :=
      match cs with
      | '^' :: cs => (true, cs)
      | cs => (false, cs)
    match cs.dropWhile (· != ':') with
    | ':' :: ']' :: rest =>
      (CharSet.ascii? (String.ofList (cs.takeWhile (· != ':')))).map fun s =>
        (if negated then CharSet.complement s else s, rest)
    | _ => none
  | _ => none

/-- A character or a set inside a bracket. -/
def bracketItem (f : Flags) : List Char → Option (Escaped × List Char)
  | [] => none
  | '\\' :: cs =>
    match escape f cs with
    | some (.assertion _, _) => none
    | r => r
  | c :: cs => some (.char c, cs)

/-- The set of an item. -/
def Escaped.toSet : Escaped → CharSet
  | char c => CharSet.single c
  | set s => s
  | assertion _ => CharSet.none

/-- The hyphen at the beginning is a range: what follows is neither the end of the bracket nor another
hyphen. -/
def isRangeHyphen (f : Flags) : List Char → Bool
  | '-' :: cs =>
    match skip f cs with
    | ']' :: _ => false
    | '-' :: _ => false
    | _ => true
  | _ => false

/-- An item or a range inside a bracket. -/
def bracketRange (f : Flags) (cs : List Char) : Option (CharSet × List Char) := do
  let (low, cs) ← bracketItem f cs
  let cs := skip f cs
  if isRangeHyphen f cs then
    let (high, cs) ← bracketItem f (skip f cs.tail)
    match low, high with
    | .char a, .char b => if a ≤ b then some (CharSet.range a b, cs) else none
    | _, _ => none
  else if cs.isEmpty then none
  else some (low.toSet, cs)

/-- Reads hyphens at the beginning of a bracket, which stand for themselves. -/
def leadingHyphens (f : Flags) (b : BracketState) : List Char → BracketState × List Char
  | [] => (b, [])
  | c :: cs =>
    if c = '-' then leadingHyphens f (b.add (CharSet.single '-')) cs
    else if f.verbose && Text.isBlank c then leadingHyphens f b cs
    else (b, c :: cs)

/-- The beginning of a bracket, behind `[`: whether it is negated, and what its first characters
add. -/
def bracketHead (f : Flags) (cs : List Char) : Bool × BracketState × List Char :=
  let (negated, cs) :=
    match skip f cs with
    | '^' :: cs => (true, skip f cs)
    | cs => (false, cs)
  match leadingHyphens f .start cs with
  | (b, ']' :: cs) => if b.started then (negated, b, ']' :: cs)
    else (negated, b.add (CharSet.single ']'), cs)
  | (b, cs) => (negated, b, cs)

/-- Reads a bracket on to its end.  The first argument bounds the number of steps. -/
def bracketFrom (f : Flags) : Nat → Bool → BracketState → List Char → Option (CharSet × List Char)
  | 0, _, _, _ => none
  | n + 1, negated, b, cs =>
    match skip f cs with
    | [] => none
    | ']' :: cs => (classOrComplement f negated (b.value f)).map fun s => (s, cs)
    | '[' :: cs =>
      match namedSet? cs with
      | some (s, cs) => bracketFrom f n negated (b.add s) cs
      | none =>
        let (innerNegated, inner, rest) := bracketHead f cs
        (bracketFrom f n innerNegated inner rest).bind fun (s, cs) =>
          bracketFrom f n negated (b.add s) cs
    | '&' :: '&' :: cs => bracketFrom f n negated (b.operate f .intersection) cs
    | '-' :: '-' :: cs => bracketFrom f n negated (b.operate f .difference) cs
    | '~' :: '~' :: cs => bracketFrom f n negated (b.operate f .symmetricDifference) cs
    | cs => (bracketRange f cs).bind fun (s, cs) => bracketFrom f n negated (b.add s) cs

/-- **Reads a bracket**, behind `[`. -/
def bracket (f : Flags) (cs : List Char) : Option (CharSet × List Char) :=
  let (negated, b, rest) := bracketHead f cs
  bracketFrom f (cs.length + 1) negated b rest

/-! ## Repetitions -/

/-- The largest count of a repetition. -/
def maxCount : Nat := 4294967295

/-- A number with blanks around it. -/
def count (f : Flags) (cs : List Char) : Option (Option Nat × List Char) :=
  let cs := cs.dropWhile Text.isBlank
  let digits := cs.takeWhile Char.isDigit
  let rest := skip f ((cs.dropWhile Char.isDigit).dropWhile Text.isBlank)
  if digits.isEmpty then some (none, rest)
  else
    let n := digits.foldl (fun n d => 10 * n + (d.toNat - '0'.toNat)) 0
    if n ≤ maxCount then some (some n, rest) else none

/-- Goes past the mark of a lazy repetition. -/
def skipLazy : List Char → List Char
  | '?' :: cs => cs
  | cs => cs

/-- The bounds of a counted repetition, behind `{`. -/
def countedBounds (f : Flags) (cs : List Char) : Option ((Nat × Option Nat) × List Char) := do
  let (least, cs) ← count f (skip f cs)
  let least ← least
  let ((least, most), cs) ←
    match cs with
    | ',' :: cs =>
      match skip f cs with
      | '\x7d' :: cs => some ((least, none), '\x7d' :: cs)
      | cs =>
        (count f cs).bind fun (most, cs) => most.map fun m => ((least, some m), cs)
    | cs => some ((least, some least), cs)
  match cs with
  | '\x7d' :: cs =>
    if least ≤ most.getD least then some ((least, most), skipLazy (skip f cs)) else none
  | _ => none

/-- A repetition operator at the beginning of a text, with its bounds. -/
def repetition (f : Flags) : List Char → Option ((Nat × Option Nat) × List Char)
  | '*' :: cs => some ((0, none), skipLazy (skip f cs))
  | '+' :: cs => some ((1, none), skipLazy (skip f cs))
  | '?' :: cs => some ((0, some 1), skipLazy (skip f cs))
  | '\x7b' :: cs => countedBounds f cs
  | _ => none

/-- Whether a repetition operator begins with this character. -/
def isRepetition (c : Char) : Bool := c == '*' || c == '+' || c == '?' || c == '\x7b'

/-! ## Groups -/

/-- Sets or clears one switch. -/
def Flags.set (f : Flags) (on : Bool) : Char → Option Flags
  | 'i' => some { f with ignoreCase := on }
  | 'm' => some { f with multiLine := on }
  | 's' => some { f with dotAll := on }
  | 'U' => some f
  | 'u' => some { f with unicode := on }
  | 'x' => some { f with verbose := on }
  | 'R' => some { f with anyReturn := on }
  | _ => none

/-- Reads switches up to `:` or `)`, each at most once and with at most one `-`, which is not the last
of them; also gives the written characters. -/
def readFlags (f : Flags) (on : Bool) (seen : List Char) :
    List Char → Option (Flags × List Char × List Char)
  | [] => none
  | c :: cs =>
    if c = ':' ∨ c = ')' then
      if seen.head? = some '-' then none else some (f, seen, c :: cs)
    else if seen.contains c then none
    else if c = '-' then readFlags f false (c :: seen) cs
    else (f.set on c).bind fun f => readFlags f on (c :: seen) cs

/-- How a group begins. -/
inductive GroupHead where
  /-- Switches for what follows. -/
  | switches (f : Flags)
  /-- A group with its own switches and possibly a name. -/
  | group (f : Flags) (name : Option String)

/-- The name of a group, up to `>`. -/
def groupName (cs : List Char) : Option (String × List Char) :=
  let name := cs.takeWhile (· != '>')
  match name, cs.dropWhile (· != '>') with
  | c :: rest, '>' :: cs =>
    let isInner (d : Char) : Bool :=
      d == '_' || d == '.' || d == '[' || d == ']' || CharSet.letter d || Text.isDecimal d
    if (c == '_' || CharSet.letter c) && rest.all isInner then some (String.ofList name, cs)
    else none
  | _, _ => none

/-- **Reads the beginning of a group**, behind `(`. -/
def groupHead (f : Flags) (cs : List Char) : Option (GroupHead × List Char) :=
  match skip f cs with
  | '?' :: 'P' :: '<' :: cs => (groupName cs).map fun (n, cs) => (.group f (some n), cs)
  | '?' :: '<' :: '=' :: _ => none
  | '?' :: '<' :: '!' :: _ => none
  | '?' :: '<' :: cs => (groupName cs).map fun (n, cs) => (.group f (some n), cs)
  | '?' :: cs =>
    match readFlags f true [] cs with
    | some (f, _, ':' :: cs) => some (.group f none, cs)
    | some (f, seen, ')' :: cs) => if seen.isEmpty then none else some (.switches f, cs)
    | _ => none
  | cs => some (.group f none, cs)

/-! ## Patterns -/

/-- A single character in the sense of the flags. -/
def literal (f : Flags) (c : Char) : Pattern :=
  .one (if f.ignoreCase then CharSet.foldCase (CharSet.single c) else CharSet.single c)

/-- What the dot stands for. -/
def dot (f : Flags) : Option Pattern :=
  if !f.unicode then none
  else if f.dotAll then some (.one fun _ => true)
  else some (.one fun c => c != '\n' && !(f.anyReturn && c == '\r'))

/-- What `^` stands for. -/
def lineStart (f : Flags) : Assertion :=
  if !f.multiLine then .textStart else if f.anyReturn then .lineStartAnyReturn else .lineStart

/-- What `$` stands for. -/
def lineEnd (f : Flags) : Assertion :=
  if !f.multiLine then .textEnd else if f.anyReturn then .lineEndAnyReturn else .lineEnd

/-- What an escape stands for outside of brackets. -/
def ofEscaped (f : Flags) : Escaped → Pattern
  | .char c => literal f c
  | .set s => .one s
  | .assertion a => .assert a

/-- Reads anything but groups, alternatives and repetitions. -/
def atom (f : Flags) : List Char → Option (Pattern × List Char)
  | [] => none
  | '.' :: cs => (dot f).map fun p => (p, cs)
  | '^' :: cs => some (.assert (lineStart f), cs)
  | '$' :: cs => some (.assert (lineEnd f), cs)
  | '[' :: cs => (bracket f cs).map fun (s, cs) => (.one s, cs)
  | '\\' :: cs => (escape f cs).map fun (e, cs) => (ofEscaped f e, cs)
  | c :: cs => some (literal f c, cs)

/-- The patterns of one alternative in the order of the text; switches are left out. -/
def closeBranch (items : List (Option Pattern)) : Pattern := concat (items.reverse.filterMap id)

/-- What was read in a group. -/
structure GroupResult where
  pattern : Pattern
  /-- The names of groups used so far. -/
  names : List String
  rest : List Char

/-- Reads alternatives up to the end of a group or of the text.  `done` are the finished alternatives,
`items` the parts of the current one, each the last first; `none` among them stands for switches,
which cannot be repeated.  The first argument bounds the number of steps. -/
def branches : Nat → Flags → List String → List Pattern → List (Option Pattern) → List Char →
    Option GroupResult
  | 0, _, _, _, _, _ => none
  | n + 1, f, names, done, items, cs =>
    let finish (rest : List Char) : Option GroupResult :=
      match (closeBranch items :: done).reverse with
      | p :: ps => some ⟨anyOf p ps, names, rest⟩
      | [] => none
    match skip f cs with
    | [] => finish []
    | ')' :: cs => finish (')' :: cs)
    | '|' :: cs => branches n f names (closeBranch items :: done) [] cs
    | '(' :: cs =>
      match groupHead f cs with
      | none => none
      | some (.switches g, cs) => branches n g names done (none :: items) cs
      | some (.group g name, cs) =>
        if name.any fun m => names.contains m then none
        else
          (branches n g (name.toList ++ names) [] [] cs).bind fun r =>
            match r.rest with
            | ')' :: cs => branches n f r.names done (some r.pattern :: items) cs
            | _ => none
    | c :: cs =>
      if isRepetition c then
        match items with
        | some p :: items =>
          (repetition f (c :: cs)).bind fun ((least, most), cs) =>
            branches n f names done (some (.times p least most) :: items) cs
        | _ => none
      else
        (atom f (c :: cs)).bind fun (p, cs) => branches n f names done (some p :: items) cs

/-- **Reads a pattern.** -/
def read? (text : String) : Option Pattern :=
  let cs := text.toList
  (branches (cs.length + 1) .start [] [] [] cs).bind fun r =>
    if r.rest.isEmpty then some r.pattern else none

end JavaCallGraph.Pattern
