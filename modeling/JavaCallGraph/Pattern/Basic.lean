import JavaCallGraph.Text.Word

/-!
# Patterns

A `Pattern` describes texts: single characters of a set, assertions about a place, and sequences,
alternatives and repetitions of patterns.  `Pattern.occursIn` asks whether it describes some part of
a text.

Matching is by places.  `Pattern.ends p` gives every place where a match of `p` that begins at a given
place can end; a place is what stands right before it together with the rest of the text.  A place is
listed once, so that the number of places never exceeds the length of the text by more than one.
-/

set_option autoImplicit false

namespace JavaCallGraph

/-- A set of characters, as its membership test. -/
abbrev CharSet := Char → Bool

/-- A statement about a place in a text. -/
inductive Assertion where
  | textStart
  | textEnd
  | lineStart
  | lineEnd
  /-- Like `lineStart`, where a carriage return ends a line too. -/
  | lineStartAnyReturn
  /-- Like `lineEnd`, where a carriage return ends a line too. -/
  | lineEndAnyReturn
  | wordBoundary (word : CharSet)
  | notWordBoundary (word : CharSet)
  /-- A word begins here: no word character before, one behind. -/
  | wordStart (word : CharSet)
  /-- A word ends here. -/
  | wordEnd (word : CharSet)
  /-- No word character stands before the place. -/
  | wordStartHalf (word : CharSet)
  /-- No word character stands behind the place. -/
  | wordEndHalf (word : CharSet)

/-- A pattern. -/
inductive Pattern where
  | empty
  | one (s : CharSet)
  | assert (a : Assertion)
  | seq (p q : Pattern)
  | alt (p q : Pattern)
  /-- At least `least` and at most `most` times. -/
  | times (p : Pattern) (least : Nat) (most : Option Nat)

/-- A place in a text. -/
structure Place where
  before : Option Char
  rest : List Char
  deriving DecidableEq, Repr

namespace Place

/-- All places of a text that begin at the given one. -/
def allFrom (before : Option Char) : List Char → List Place
  | [] => [⟨before, []⟩]
  | c :: cs => ⟨before, c :: cs⟩ :: allFrom (some c) cs

/-- The place behind the next character, if that is in a set. -/
def step (s : CharSet) (x : Place) : List Place :=
  match x.rest with
  | c :: cs => if s c then [⟨some c, cs⟩] else []
  | [] => []

/-- Adds places that are not listed yet. -/
def add (known new : List Place) : List Place :=
  new.foldl (fun known x => if known.contains x then known else x :: known) known

end Place

namespace Assertion

/-- The character before the place is in a set. -/
def isBefore (s : CharSet) (x : Place) : Bool :=
  match x.before with
  | some c => s c
  | none => false

/-- The character behind the place is in a set. -/
def isBehind (s : CharSet) (x : Place) : Bool :=
  match x.rest with
  | c :: _ => s c
  | [] => false

/-- **Whether an assertion is true of a place.** -/
def holds (x : Place) : Assertion → Bool
  | textStart => x.before.isNone
  | textEnd => x.rest.isEmpty
  | lineStart => x.before.isNone || isBefore (· == '\n') x
  | lineEnd => x.rest.isEmpty || isBehind (· == '\n') x
  | lineStartAnyReturn =>
    x.before.isNone || isBefore (· == '\n') x ||
      (isBefore (· == '\r') x && !isBehind (· == '\n') x)
  | lineEndAnyReturn =>
    x.rest.isEmpty || isBehind (· == '\r') x ||
      (isBehind (· == '\n') x && !isBefore (· == '\r') x)
  | wordBoundary w => isBefore w x != isBehind w x
  | notWordBoundary w => isBefore w x == isBehind w x
  | wordStart w => !isBefore w x && isBehind w x
  | wordEnd w => isBefore w x && !isBehind w x
  | wordStartHalf w => !isBefore w x
  | wordEndHalf w => !isBehind w x

end Assertion

namespace Pattern

/-- The places after exactly `n` rounds. -/
def rounds (next : List Place → List Place) : Nat → List Place → List Place
  | 0, xs => xs
  | n + 1, xs => rounds next n (next xs)

/-- The places after at most `n` rounds. -/
def upToRounds (next : List Place → List Place) : Nat → List Place → List Place
  | 0, xs => xs
  | n + 1, xs => Place.add xs (upToRounds next n (next xs))

/-- **Where matches can end** that begin at one of the given places.  More rounds of a repetition than
the text has places lead to no further place, so their number is cut at that. -/
def ends (limit : Nat) : Pattern → List Place → List Place
  | empty, xs => xs
  | one s, xs => xs.foldl (fun known x => Place.add known (x.step s)) []
  | assert a, xs => xs.filter fun x => a.holds x
  | seq p q, xs => ends limit q (ends limit p xs)
  | alt p q, xs => Place.add (ends limit p xs) (ends limit q xs)
  | times p least most, xs =>
    let more :=
      match most with
      | some m => min (m - least) limit
      | none => limit
    upToRounds (ends limit p) more (rounds (ends limit p) (min least limit) xs)

/-- **The pattern describes some part of a text.** -/
def occursIn (p : Pattern) (text : String) : Bool :=
  let cs := text.toList
  !(p.ends (cs.length + 2) (Place.allFrom none cs)).isEmpty

/-- Several patterns in a row. -/
def concat : List Pattern → Pattern
  | [] => empty
  | [p] => p
  | p :: ps => seq p (concat ps)

/-- One of several patterns. -/
def anyOf (p : Pattern) : List Pattern → Pattern
  | [] => p
  | q :: qs => alt p (anyOf q qs)

end Pattern

end JavaCallGraph
