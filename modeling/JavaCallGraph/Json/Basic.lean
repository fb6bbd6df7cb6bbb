/-!
# JSON values

Values keep what a reader may want to check: the members of an object in their written order, with
repetitions, and a number as its literal.  A string may be written with an escape that denotes half
of a surrogate pair; such a string denotes no text and is `none`.
-/

set_option autoImplicit false

namespace JavaCallGraph

/-- A JSON value. -/
inductive Json where
  | null
  | bool (b : Bool)
  /-- A number, as its literal. -/
  | num (literal : String)
  /-- A string; `none` when its escapes do not denote a text. -/
  | str (text : Option String)
  | arr (elements : List Json)
  /-- An object: its members as written. -/
  | obj (members : List (Option String × Json))
  deriving Inhabited

namespace Json

/-- A text as a value. -/
def text (s : String) : Json := .str (some s)

/-- A natural number as a value. -/
def nat (n : Nat) : Json := .num (toString n)

/-- An object with the given members. -/
def object (members : List (String × Json)) : Json :=
  .obj (members.map fun m => (some m.1, m.2))

/-- A list of texts as a value. -/
def texts (ss : List String) : Json := .arr (ss.map text)

/-- A value for `some`, `null` for `none`. -/
def orNull {α : Type} (f : α → Json) : Option α → Json
  | some a => f a
  | none => .null

/-- The last member of that name. -/
def member? (name : String) : Json → Option Json
  | .obj ms => (ms.reverse.find? fun m => m.1 == some name).map (·.2)
  | _ => none

/-- The text of a string value. -/
def text? : Json → Option String
  | .str s => s
  | _ => none

/-- The elements of an array. -/
def elements? : Json → Option (List Json)
  | .arr vs => some vs
  | _ => none

/-- A truth value. -/
def bool? : Json → Option Bool
  | .bool b => some b
  | _ => none

/-- A number without sign, fraction and exponent. -/
def nat? : Json → Option Nat
  | .num s => s.toNat?
  | _ => none

end Json

end JavaCallGraph
