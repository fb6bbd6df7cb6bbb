import JavaCallGraph.Declaration.Expr
import JavaCallGraph.Text.Blank

/-!
# Tokens of Java text

`tokenize` cuts a source text into tokens.  Every token carries the blanks and comments in front of
it, its *gap*, so that nothing of the text is lost and the exact source between two tokens can be
recovered (`slice`), and the line on which it starts.  Lines are counted by line feeds.

The characters `>` are always tokens of their own, because `>>` closes two lists of type arguments as
often as it shifts; the parser joins them again where an operator is expected (`Token.adjoins`).
A string with expressions inside it is several tokens: its pieces, and those of the expressions.
Every character outside ASCII that is not a blank may stand in an identifier.
-/

set_option autoImplicit false

namespace JavaCallGraph.Syntax

/-- The kind of a token. -/
inductive TokenKind where
  /-- An identifier or a keyword. -/
  | word
  | literal (l : Literal)
  /-- A piece of a string with expressions inside it: what is before the first one, between two of
  them, or behind the last one. -/
  | piece (first last : Bool)
  /-- An operator or a delimiter. -/
  | symbol
  deriving DecidableEq, Repr, Inhabited

/-- A token. -/
structure Token where
  kind : TokenKind
  text : String
  /-- The blanks and comments before the token. -/
  gap : String
  line : Nat
  /-- The position among the tokens of the text. -/
  index : Nat
  deriving Repr, Inhabited

namespace Token

/-- The token is the given symbol. -/
def isSymbol (t : Token) (s : String) : Bool := t.kind == .symbol && t.text == s

/-- The token is the given word. -/
def isWord (t : Token) (s : String) : Bool := t.kind == .word && t.text == s

/-- Nothing stands between the token and the one before it. -/
def adjoins (t : Token) : Bool := t.gap.isEmpty

end Token

/-- An expression inside a string that is not read to its end. -/
structure Embedding where
  /-- The string is a text block. -/
  block : Bool
  /-- The number of open braces in the expression. -/
  braces : Nat
  deriving Repr, Inhabited

/-! ## Lexemes -/

/-- A character that may begin an identifier. -/
def isWordStart (c : Char) : Bool :=
  c.isAlpha || c == '_' || c == '$' || (0x80 ≤ c.toNat && !Text.isBlank c)

/-- A character that may continue an identifier. -/
def isWordPart (c : Char) : Bool := isWordStart c || c.isDigit

/-- The rest of a quoted text up to the closing quote `q`; a backslash takes the next character
with it. -/
def quoted (q : Char) : List Char → Option (List Char × List Char)
  | [] => none
  | '\\' :: c :: cs => (quoted q cs).map fun (s, rest) => ('\\' :: c :: s, rest)
  | c :: cs =>
    if c == q then some ([c], cs)
    else (quoted q cs).map fun (s, rest) => (c :: s, rest)

/-- The rest of a piece of a string or text block, and whether it is the last one: up to the closing
quotes, or else up to an expression, which begins with a backslash and a brace. -/
def stringPiece (block : Bool) : List Char → Option (List Char × Bool × List Char)
  | [] => none
  | '\\' :: '\x7b' :: cs => some (['\\', '\x7b'], false, cs)
  | '\\' :: c :: cs =>
    (stringPiece block cs).map fun (s, last, rest) => ('\\' :: c :: s, last, rest)
  | '"' :: '"' :: '"' :: cs =>
    if block then some (['"', '"', '"'], true, cs) else some (['"'], true, '"' :: '"' :: cs)
  | c :: cs =>
    if !block && c == '"' then some (['"'], true, cs)
    else (stringPiece block cs).map fun (s, last, rest) => (c :: s, last, rest)

/-- The rest of a block comment up to its end. -/
def blockComment : List Char → Option (List Char × List Char)
  | [] => none
  | '*' :: '/' :: cs => some (['*', '/'], cs)
  | c :: cs => (blockComment cs).map fun (s, rest) => (c :: s, rest)

/-- Begins a hexadecimal number. -/
def isHexNumber : List Char → Bool
  | '0' :: 'x' :: _ => true
  | '0' :: 'X' :: _ => true
  | _ => false

/-- After this letter of a number a sign may stand. -/
def isExponentMark (hex : Bool) (c : Char) : Bool :=
  if hex then c == 'p' || c == 'P' else c == 'e' || c == 'E'

/-- The rest of a number: letters, digits, underscores, points and the sign of an exponent. -/
def numberRest (hex : Bool) : List Char → List Char × List Char
  | [] => ([], [])
  | [c] => if c.isAlphanum || c == '_' || c == '.' then ([c], []) else ([], [c])
  | c :: d :: cs =>
    if isExponentMark hex c && (d == '+' || d == '-') then
      let (s, rest) := numberRest hex cs
      (c :: d :: s, rest)
    else if c.isAlphanum || c == '_' || c == '.' then
      let (s, rest) := numberRest hex (d :: cs)
      (c :: s, rest)
    else ([], c :: d :: cs)

/-- The kind of a number: the last letter decides between the widths, a point or an exponent makes
it a floating-point number.  The final `F` of a hexadecimal number is a digit unless there is an
exponent. -/
def numberKind (text : List Char) : Literal :=
  let last := text.getLast?.getD '0'
  let floating : Literal := if last == 'f' || last == 'F' then .float else .double
  let integral : Literal := if last == 'l' || last == 'L' then .long else .int
  if isHexNumber text then
    if text.any (isExponentMark true) then floating else integral
  else if text.any (fun c => c == 'b' || c == 'B') then integral
  else if text.any (fun c => c == '.' || isExponentMark false c) then floating
  else if last == 'f' || last == 'F' || last == 'd' || last == 'D' then floating
  else integral

/-- The operators and delimiters of more than one character, longest first; none begins with `>`. -/
def longSymbols : List String :=
  ["...", "<<=", "->", "::", "++", "--", "&&", "||", "==", "!=", "<=", "+=", "-=", "*=", "/=", "&=",
   "|=", "^=", "%=", "<<"]

/-- The operators and delimiters of one character. -/
def shortSymbols : List Char := "()\x7b\x7d[];,.@=<>!~?:+-*/&|^%".toList

/-- The text `s` at the front of `cs`, and what follows it. -/
def front? (s : String) (cs : List Char) : Option (String × List Char) :=
  if s.toList.isPrefixOf cs then some (s, cs.drop s.length) else none

/-- An operator or delimiter. -/
def symbolAt : List Char → Option (String × List Char)
  | [] => none
  | c :: cs =>
    match longSymbols.findSome? fun s => front? s (c :: cs) with
    | some r => some r
    | none => if shortSymbols.contains c then some (c.toString, cs) else none

/-- A token at the front of a text. -/
structure Lexeme where
  kind : TokenKind
  text : List Char
  /-- The expressions inside strings that are open behind the token, the innermost first. -/
  inside : List Embedding
  /-- The text behind the token. -/
  rest : List Char

/-- A string, or a piece of one, that begins with `lead`; it stands in the expressions `inside`. -/
def stringLexeme (inside : List Embedding) (block first : Bool) (lead cs : List Char) :
    Option Lexeme :=
  (stringPiece block cs).map fun (s, last, rest) =>
    ⟨if first && last then .literal .string else .piece first last, lead ++ s,
      if last then inside else ⟨block, 0⟩ :: inside, rest⟩

/-- The open expressions behind a symbol, which may be a brace of the innermost one. -/
def countBrace (symbol : String) : List Embedding → List Embedding
  | [] => []
  | e :: es =>
    if symbol == "\x7b" then { e with braces := e.braces + 1 } :: es
    else if symbol == "\x7d" then { e with braces := e.braces - 1 } :: es
    else e :: es

/-- The first token of a text that does not begin with a blank or a comment and stands in the
expressions `inside`, the innermost first.  A brace that closes the innermost expression leads back
to its string. -/
def lexeme : List Embedding → List Char → Option Lexeme
  | _, [] => none
  | inside, '"' :: '"' :: '"' :: cs => stringLexeme inside true true ['"', '"', '"'] cs
  | inside, '"' :: cs => stringLexeme inside false true ['"'] cs
  | ⟨block, 0⟩ :: inside, '\x7d' :: cs => stringLexeme inside block false ['\x7d'] cs
  | inside, '\'' :: cs =>
    (quoted '\'' cs).map fun (s, rest) => ⟨.literal .char, '\'' :: s, inside, rest⟩
  | inside, c :: cs =>
    if isWordStart c then
      let (s, rest) := cs.span isWordPart
      some ⟨.word, c :: s, inside, rest⟩
    else if c.isDigit || (c == '.' && (cs.head?.map Char.isDigit).getD false) then
      let (s, rest) := numberRest (isHexNumber (c :: cs)) (c :: cs)
      some ⟨.literal (numberKind s), s, inside, rest⟩
    else
      (symbolAt (c :: cs)).map fun (s, rest) => ⟨.symbol, s.toList, countBrace s inside, rest⟩

/-! ## Texts -/

/-- The tokens of the rest of a text: `line` is the current line, `inside` the open expressions inside
strings, `gap` the blanks and comments read since the last token and `done` the tokens read so far, both
reversed.  Every step takes at least one character, so the budget `n` is enough when it exceeds the
number of characters. -/
def tokensFrom :
    Nat → Nat → List Embedding → List Char → List Token → List Char → Option (List Token)
  | 0, _, _, _, _, _ => none
  | _ + 1, _, _, _, done, [] => some done.reverse
  | n + 1, line, inside, gap, done, '/' :: '/' :: cs =>
    let (s, rest) := cs.span (· != '\n')
    tokensFrom n line inside (s.reverse ++ '/' :: '/' :: gap) done rest
  | n + 1, line, inside, gap, done, '/' :: '*' :: cs =>
    match blockComment cs with
    | none => none
    | some (s, rest) =>
      tokensFrom n (line + s.count '\n') inside (s.reverse ++ '*' :: '/' :: gap) done rest
  | n + 1, line, inside, gap, done, c :: cs =>
    if Text.isBlank c then
      tokensFrom n (if c == '\n' then line + 1 else line) inside (c :: gap) done cs
    else
      match lexeme inside (c :: cs) with
      | none => none
      | some l =>
        let token : Token :=
          ⟨l.kind, String.ofList l.text, String.ofList gap.reverse, line, done.length⟩
        tokensFrom n (line + l.text.count '\n') l.inside [] (token :: done) l.rest

/-- The text without a byte-order mark at its start. -/
def withoutMark : List Char → List Char
  | '\uFEFF' :: cs => cs
  | cs => cs

/-- **The tokens of a source text.** -/
def tokenize (source : String) : Option (List Token) :=
  tokensFrom (source.length + 1) 1 [] [] [] (withoutMark source.toList)

/-- The source text from the first token of `ts` up to the first token of `rest`, a later part of
the same text, without the gap in front. -/
def slice (ts rest : List Token) : String :=
  let inside := match rest with
    | [] => ts
    | r :: _ => ts.takeWhile fun t => t.index < r.index
  match inside with
  | [] => ""
  | t :: inside => t.text ++ String.join (inside.map fun t => t.gap ++ t.text)

end JavaCallGraph.Syntax
