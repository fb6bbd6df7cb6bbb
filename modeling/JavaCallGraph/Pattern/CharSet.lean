import JavaCallGraph.Pattern.Basic
import JavaCallGraph.Text.Blank
import JavaCallGraph.Text.CaseFold

/-!
# Sets of characters

The sets that patterns have names for, and the operations on sets.  Every named set exists twice: over
all of Unicode and over ASCII alone.
-/

set_option autoImplicit false

namespace JavaCallGraph.CharSet

/-- No character. -/
def none : CharSet := fun _ => false

/-- A single character. -/
def single (c : Char) : CharSet := fun d => d == c

/-- The characters from `a` to `b`. -/
def range (a b : Char) : CharSet := fun c => a ≤ c && c ≤ b

/-- The members of either set. -/
def union (s t : CharSet) : CharSet := fun c => s c || t c

/-- All other characters. -/
def complement (s : CharSet) : CharSet := fun c => !s c

/-- An operation on two sets. -/
inductive Operation where
  | intersection
  | difference
  | symmetricDifference
  deriving DecidableEq, Repr

/-- The result of an operation. -/
def Operation.apply : Operation → CharSet → CharSet → CharSet
  | intersection, s, t => fun c => s c && t c
  | difference, s, t => fun c => s c && !t c
  | symmetricDifference, s, t => fun c => s c != t c

/-- The set with all case variants of its members. -/
def foldCase (s : CharSet) : CharSet := fun c => (Text.caseVariants c).any s

/-- Digits. -/
def digit (unicode : Bool) : CharSet := if unicode then Text.isDecimal else Char.isDigit

/-- Word characters. -/
def word (unicode : Bool) : CharSet := if unicode then Text.isWord else Text.isAsciiWord

/-- Blanks of ASCII: those of Unicode that are ASCII. -/
def asciiBlank : CharSet := fun c => c.toNat < 0x80 && Text.isBlank c

/-- Blanks. -/
def blank (unicode : Bool) : CharSet := if unicode then Text.isBlank else asciiBlank

/-- A letter: a word character that is neither a digit nor a connecting mark. -/
def letter : CharSet := fun c => Text.isWord c && !Text.isDecimal c && c != '_'

/-- A letter with another one as its upper case. -/
def lowercase : CharSet := fun c =>
  c.isLower || (!(c.toNat < 0x80) && letter c && Text.upperCase c != [c])

/-- A letter that is the upper case of another one. -/
def uppercase : CharSet := fun c =>
  c.isUpper ||
    (!(c.toNat < 0x80) && letter c && Text.upperCase c == [c] &&
      !(Text.lowerCodes c.toNat).isEmpty)

/-- The named sets of ASCII, written `[:name:]` inside a bracket. -/
def ascii? (name : String) : Option CharSet :=
  let graphic : CharSet := range '!' '~'
  match name with
  | "alnum" => some Char.isAlphanum
  | "alpha" => some Char.isAlpha
  | "ascii" => some fun c => c.toNat < 0x80
  | "blank" => some fun c => c == ' ' || c == '\t'
  | "cntrl" => some fun c => c.toNat < 0x20 || c.toNat == 0x7F
  | "digit" => some Char.isDigit
  | "graph" => some graphic
  | "lower" => some Char.isLower
  | "print" => some (range ' ' '~')
  | "punct" => some fun c => graphic c && !c.isAlphanum
  | "space" => some asciiBlank
  | "upper" => some Char.isUpper
  | "word" => some Text.isAsciiWord
  | "xdigit" => some fun c => c.isDigit || range 'a' 'f' c || range 'A' 'F' c
  | _ => Option.none

/-- A property name without the marks that do not count, in small letters. -/
def plainName (name : String) : String :=
  String.ofList ((name.toList.filter fun c => c != '_' && c != '-' && c != ' ').map Char.toLower)

/-- The sets that have the name of a property. -/
def property? (name : String) : Option CharSet :=
  match plainName name with
  | "any" => some fun _ => true
  | "ascii" => some fun c => c.toNat < 0x80
  | "l" | "letter" | "alphabetic" | "alpha" => some letter
  | "lu" | "uppercaseletter" | "uppercase" | "upper" => some uppercase
  | "ll" | "lowercaseletter" | "lowercase" | "lower" => some lowercase
  | "n" | "number" | "nd" | "decimalnumber" | "digit" => some Text.isDecimal
  | "whitespace" | "wspace" | "space" => some Text.isBlank
  | _ => Option.none

end JavaCallGraph.CharSet
