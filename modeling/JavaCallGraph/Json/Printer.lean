import JavaCallGraph.Json.Basic

/-!
# Writing JSON

Two layouts of one value: `Json.compact` writes everything on one line without blanks, `Json.pretty`
puts every element on a line of its own, indented by two spaces.  In both the members of an object
are written in the order of their names, and a string is written with the short escapes where there
is one, `\u00xx` for the other control characters, and every other character as itself.
-/

set_option autoImplicit false

namespace JavaCallGraph.Json

/-- A hexadecimal digit. -/
def hexChar (n : Nat) : Char := Char.ofNat (if n < 10 then '0'.toNat + n else 'a'.toNat + (n - 10))

/-- How a character is written inside a string. -/
def escapeChar (c : Char) : List Char :=
  if c == '"' then ['\\', '"']
  else if c == '\\' then ['\\', '\\']
  else if c == '\x08' then ['\\', 'b']
  else if c == '\x0c' then ['\\', 'f']
  else if c == '\n' then ['\\', 'n']
  else if c == '\r' then ['\\', 'r']
  else if c == '\t' then ['\\', 't']
  else if c.toNat < 0x20 then ['\\', 'u', '0', '0', hexChar (c.toNat / 16), hexChar (c.toNat % 16)]
  else [c]

/-- A text between quotes. -/
def quote (s : String) : String :=
  "\"" ++ String.ofList (s.toList.flatMap escapeChar) ++ "\""

/-- The members of an object in the order of their names. -/
def sortMembers {α : Type} (ms : List (String × α)) : List (String × α) :=
  ms.mergeSort fun a b => decide (a.1 ≤ b.1)

/-- How the parts of an array or object are set apart. -/
structure Layout where
  /-- What stands before an element at the given depth. -/
  lead : Nat → String
  /-- What stands between a name and its value. -/
  colon : String

/-- Everything on one line. -/
def Layout.compact : Layout := ⟨fun _ => "", ":"⟩

/-- A line for every element. -/
def Layout.pretty : Layout :=
  ⟨fun depth => "\n" ++ String.ofList (List.replicate (2 * depth) ' '), ": "⟩

/-- Elements between two brackets; no element needs no line of its own. -/
def bracketed (layout : Layout) (depth : Nat) (left right : String) (items : List String) : String :=
  match items with
  | [] => left ++ right
  | items =>
    left ++ ",".intercalate (items.map fun i => layout.lead (depth + 1) ++ i) ++ layout.lead depth ++
      right

mutual

/-- A value at the given depth. -/
def write (layout : Layout) (depth : Nat) : Json → String
  | .null => "null"
  | .bool true => "true"
  | .bool false => "false"
  | .num s => s
  | .str s => quote (s.getD "")
  | .arr vs => bracketed layout depth "[" "]" (writeAll layout (depth + 1) vs)
  | .obj ms =>
    bracketed layout depth "\x7b" "\x7d"
      ((sortMembers (writeMembers layout (depth + 1) ms)).map fun m =>
        quote m.1 ++ layout.colon ++ m.2)

/-- The elements of an array. -/
def writeAll (layout : Layout) (depth : Nat) : List Json → List String
  | [] => []
  | v :: vs => write layout depth v :: writeAll layout depth vs

/-- The members of an object, each value already written. -/
def writeMembers (layout : Layout) (depth : Nat) :
    List (Option String × Json) → List (String × String)
  | [] => []
  | (k, v) :: ms => (k.getD "", write layout depth v) :: writeMembers layout depth ms

end

/-- The value on one line. -/
def compact (v : Json) : String := write .compact 0 v

/-- The value over several lines. -/
def pretty (v : Json) : String := write .pretty 0 v

end JavaCallGraph.Json
