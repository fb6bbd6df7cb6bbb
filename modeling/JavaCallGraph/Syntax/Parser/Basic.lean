import JavaCallGraph.Syntax.Token

/-!
# Parsers

A parser reads a value off the front of a list of tokens, or fails.  Alternatives backtrack: `p <|> q`
runs `q` on the tokens that `p` was given.  This file has the parsers for single tokens, the
combinators for repetition, and the two things that look far ahead: skipping a bracketed group and
asking what follows one.
-/

set_option autoImplicit false

namespace JavaCallGraph.Syntax

/-- Reads a value off the front of a list of tokens. -/
abbrev Parser (α : Type) := StateT (List Token) Option α

namespace Parser

/-- The remaining tokens. -/
def remaining : Parser (List Token) := get

/-- The next token, which stays. -/
def peek? : Parser (Option Token) := do return (← get).head?

/-- Takes any token. -/
def token : Parser Token := do
  match ← get with
  | [] => failure
  | t :: ts => set ts; return t

/-- Takes a token that satisfies `p`. -/
def tokenIf (p : Token → Bool) : Parser Token := do
  let t ← token
  if p t then return t else failure

/-- Whether the next token satisfies `p`. -/
def nextIs (p : Token → Bool) : Parser Bool := do
  return ((← peek?).map p).getD false

/-- Takes a symbol. -/
def symbol (s : String) : Parser Unit := discard (tokenIf (·.isSymbol s))

/-- Takes a word. -/
def word (s : String) : Parser Unit := discard (tokenIf (·.isWord s))

/-- Whether the next token is the symbol; takes it if so. -/
def symbol? (s : String) : Parser Bool := (do symbol s; return true) <|> return false

/-- Whether the next token is the word; takes it if so. -/
def word? (s : String) : Parser Bool := (do word s; return true) <|> return false

/-- The value of `p`, or `none` when `p` fails. -/
def option {α : Type} (p : Parser α) : Parser (Option α) := (do return some (← p)) <|> return none

/-- Succeeds without reading when `p` would succeed. -/
def ahead {α : Type} (p : Parser α) : Parser Bool := do
  let ts ← get
  return (p.run ts).isSome

/-- `p` as often as it succeeds, at most `n` times. -/
def manyUpTo {α : Type} (p : Parser α) : Nat → Parser (List α)
  | 0 => return []
  | n + 1 => do
    match ← option p with
    | none => return []
    | some a => return a :: (← manyUpTo p n)

/-- `p` as often as it succeeds.  `p` must take a token whenever it succeeds. -/
def many {α : Type} (p : Parser α) : Parser (List α) := do manyUpTo p (← get).length

/-- One or more `p` with `sep` between them. -/
def sepBy1 {α : Type} (p : Parser α) (sep : Parser Unit) : Parser (List α) := do
  let a ← p
  let rest ← many (do sep; p)
  return a :: rest

/-- Any number of `p` with `sep` between them. -/
def sepBy {α : Type} (p : Parser α) (sep : Parser Unit) : Parser (List α) :=
  sepBy1 p sep <|> return []

/-! ## Words -/

/-- The words that are never identifiers. -/
def keywords : List String :=
  ["abstract", "assert", "boolean", "break", "byte", "case", "catch", "char", "class", "continue",
   "default", "do", "double", "else", "enum", "extends", "final", "finally", "float", "for", "if",
   "implements", "import", "instanceof", "int", "interface", "long", "native", "new", "package",
   "private", "protected", "public", "return", "short", "static", "strictfp", "super", "switch",
   "synchronized", "this", "throw", "throws", "transient", "try", "void", "volatile", "while", "true",
   "false", "null"]

/-- The token is an identifier. -/
def isIdentifier (t : Token) : Bool := t.kind == .word && !keywords.contains t.text

/-- Takes an identifier. -/
def identifier : Parser String := do return (← tokenIf isIdentifier).text

/-- Takes a dotted name. -/
def dottedName : Parser (List String) := sepBy1 identifier (symbol ".")

/-- The value of `p` and the source text that it read. -/
def withText {α : Type} (p : Parser α) : Parser (α × String) := do
  let before ← get
  let a ← p
  return (a, slice before (← get))

/-! ## Bracketed groups -/

/-- The tokens after the bracket that closes `depth + 1` open ones. -/
def afterClosing (left right : String) : Nat → List Token → Option (List Token)
  | _, [] => none
  | depth, t :: ts =>
    if t.isSymbol left then afterClosing left right (depth + 1) ts
    else if t.isSymbol right then
      match depth with
      | 0 => some ts
      | depth + 1 => afterClosing left right depth ts
    else afterClosing left right depth ts

/-- Skips a bracketed group. -/
def skipGroup (left right : String) : Parser Unit := do
  symbol left
  match afterClosing left right 0 (← get) with
  | none => failure
  | some rest => set rest

/-- Skips a group in parentheses. -/
def skipParens : Parser Unit := skipGroup "(" ")"

/-- Skips a group in braces. -/
def skipBraces : Parser Unit := skipGroup "\x7b" "\x7d"

end Parser

end JavaCallGraph.Syntax
