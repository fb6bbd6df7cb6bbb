import JavaCallGraph.Json.Basic

/-!
# Reading JSON

`Json.parse` reads one value and nothing after it but blanks (space, tab, line feed and carriage
return).  The grammar is the strict one: no leading zeros, no raw control characters in a string, the
eight short escapes and `\u` with four hexadecimal digits.  Two `\u` escapes that form a surrogate
pair denote one character; a lone half denotes none, and the string that holds it reads as `none`.

The three mutually recursive readers take a budget that bounds the number of nested calls; every
call uses up at least one character, so the length of the text is always enough.
-/

set_option autoImplicit false

namespace JavaCallGraph.Json

/-- The blanks between tokens. -/
def isBlank (c : Char) : Bool := c == ' ' || c == '\t' || c == '\n' || c == '\r'

/-- The rest of a text after its leading blanks. -/
def skipBlanks (cs : List Char) : List Char := cs.dropWhile isBlank

/-- The value of a hexadecimal digit. -/
def hexDigit? (c : Char) : Option Nat :=
  if '0' ≤ c && c ≤ '9' then some (c.toNat - '0'.toNat)
  else if 'a' ≤ c && c ≤ 'f' then some (c.toNat - 'a'.toNat + 10)
  else if 'A' ≤ c && c ≤ 'F' then some (c.toNat - 'A'.toNat + 10)
  else none

/-- Four hexadecimal digits. -/
def hexQuad? (a b c d : Char) : Option Nat := do
  let a ← hexDigit? a
  let b ← hexDigit? b
  let c ← hexDigit? c
  let d ← hexDigit? d
  some (((a * 16 + b) * 16 + c) * 16 + d)

/-- One element of a string literal. -/
inductive Unit16 where
  /-- A whole character. -/
  | char (c : Char)
  /-- A `\u` escape for half of a surrogate pair. -/
  | half (unit : Nat)

/-- The value of a `\u` escape. -/
def Unit16.ofNat (n : Nat) : Unit16 :=
  if 0xD800 ≤ n && n ≤ 0xDFFF then .half n else .char (Char.ofNat n)

/-- The character that a short escape denotes. -/
def shortEscape? : Char → Option Char
  | '"' => some '"'
  | '\\' => some '\\'
  | '/' => some '/'
  | 'b' => some '\x08'
  | 'f' => some '\x0c'
  | 'n' => some '\n'
  | 'r' => some '\r'
  | 't' => some '\t'
  | _ => none

/-- The elements of a string literal up to its closing quote, and what follows. -/
def stringUnits : List Char → Option (List Unit16 × List Char)
  | [] => none
  | '"' :: rest => some ([], rest)
  | '\\' :: 'u' :: a :: b :: c :: d :: rest => do
    let n ← hexQuad? a b c d
    let (us, rest) ← stringUnits rest
    some (Unit16.ofNat n :: us, rest)
  | '\\' :: c :: rest => do
    let e ← shortEscape? c
    let (us, rest) ← stringUnits rest
    some (.char e :: us, rest)
  | c :: rest =>
    if c.toNat < 0x20 then none
    else do
      let (us, rest) ← stringUnits rest
      some (.char c :: us, rest)

/-- The characters of a string literal; a leading half and a trailing half make one character. -/
def joinUnits : List Unit16 → Option (List Char)
  | [] => some []
  | .char c :: us => (joinUnits us).map (c :: ·)
  | .half h :: .half l :: us =>
    if h < 0xDC00 && 0xDC00 ≤ l then
      (joinUnits us).map (Char.ofNat (0x10000 + (h - 0xD800) * 0x400 + (l - 0xDC00)) :: ·)
    else none
  | .half _ :: _ => none

/-- A string literal after its opening quote. -/
def stringLiteral (cs : List Char) : Option (Option String × List Char) :=
  (stringUnits cs).map fun (us, rest) => ((joinUnits us).map String.ofList, rest)

/-- One or more digits. -/
def digits1 (cs : List Char) : Option (List Char × List Char) :=
  match cs.span (·.isDigit) with
  | ([], _) => none
  | (ds, rest) => some (ds, rest)

/-- The integral part of a number: `0`, or digits that do not begin with `0`. -/
def integerDigits : List Char → Option (List Char × List Char)
  | '0' :: c :: rest => if c.isDigit then none else some (['0'], c :: rest)
  | cs => digits1 cs

/-- The fraction of a number, possibly empty. -/
def fractionDigits : List Char → Option (List Char × List Char)
  | '.' :: rest => (digits1 rest).map fun (ds, rest) => ('.' :: ds, rest)
  | cs => some ([], cs)

/-- The exponent of a number, possibly empty. -/
def exponentDigits : List Char → Option (List Char × List Char)
  | [] => some ([], [])
  | e :: rest =>
    if e == 'e' || e == 'E' then
      match rest with
      | '+' :: rest => (digits1 rest).map fun (ds, rest) => (e :: '+' :: ds, rest)
      | '-' :: rest => (digits1 rest).map fun (ds, rest) => (e :: '-' :: ds, rest)
      | rest => (digits1 rest).map fun (ds, rest) => (e :: ds, rest)
    else some ([], e :: rest)

/-- A number without its sign. -/
def unsignedLiteral (cs : List Char) : Option (List Char × List Char) := do
  let (i, cs) ← integerDigits cs
  let (f, cs) ← fractionDigits cs
  let (e, cs) ← exponentDigits cs
  some (i ++ f ++ e, cs)

/-- A number. -/
def numberLiteral : List Char → Option (Json × List Char)
  | '-' :: cs => (unsignedLiteral cs).map fun (ds, rest) => (.num (String.ofList ('-' :: ds)), rest)
  | cs => (unsignedLiteral cs).map fun (ds, rest) => (.num (String.ofList ds), rest)

mutual

/-- One value, after leading blanks. -/
def value : Nat → List Char → Option (Json × List Char)
  | 0, _ => none
  | n + 1, cs =>
    match skipBlanks cs with
    | 'n' :: 'u' :: 'l' :: 'l' :: rest => some (.null, rest)
    | 't' :: 'r' :: 'u' :: 'e' :: rest => some (.bool true, rest)
    | 'f' :: 'a' :: 'l' :: 's' :: 'e' :: rest => some (.bool false, rest)
    | '"' :: rest => (stringLiteral rest).map fun (s, rest) => (.str s, rest)
    | '[' :: rest =>
      match skipBlanks rest with
      | ']' :: rest => some (.arr [], rest)
      | rest => (elements n rest).map fun (vs, rest) => (.arr vs, rest)
    | '\x7b' :: rest =>
      match skipBlanks rest with
      | '\x7d' :: rest => some (.obj [], rest)
      | rest => (members n rest).map fun (ms, rest) => (.obj ms, rest)
    | rest => numberLiteral rest

/-- One or more array elements and the closing bracket. -/
def elements : Nat → List Char → Option (List Json × List Char)
  | 0, _ => none
  | n + 1, cs => do
    let (v, rest) ← value n cs
    match skipBlanks rest with
    | ',' :: rest => (elements n rest).map fun (vs, rest) => (v :: vs, rest)
    | ']' :: rest => some ([v], rest)
    | _ => none

/-- One or more object members and the closing brace. -/
def members : Nat → List Char → Option (List (Option String × Json) × List Char)
  | 0, _ => none
  | n + 1, cs =>
    match skipBlanks cs with
    | '"' :: rest => do
      let (k, rest) ← stringLiteral rest
      match skipBlanks rest with
      | ':' :: rest => do
        let (v, rest) ← value n rest
        match skipBlanks rest with
        | ',' :: rest => (members n rest).map fun (ms, rest) => ((k, v) :: ms, rest)
        | '\x7d' :: rest => some ([(k, v)], rest)
        | _ => none
      | _ => none
    | _ => none

end

/-- **Reads a document**: one value, with nothing but blanks around it. -/
def parse (s : String) : Option Json :=
  match value (s.length + 1) s.toList with
  | some (v, rest) => if (skipBlanks rest).isEmpty then some v else none
  | none => none

end JavaCallGraph.Json
