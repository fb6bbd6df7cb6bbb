import JavaCallGraph.Text.Pieces

/-!
# Options of a command line

The notation of options, whatever they mean.  An option is a switch, or it takes a value, which stands
in the next word or in the same one: `--dir x`, `--dir=x`, `-d x`, `-dx` or `-d=x`.  A value in a word of
its own does not begin with a hyphen, unless it is nothing but that.  Names are never abbreviated, and
only a repeatable option may stand there twice.

`Options.read` takes the options at the beginning of a command line and says what follows them.
-/

set_option autoImplicit false

namespace JavaCallGraph

/-- Whether an option takes a value, and how often it may be given. -/
inductive OptionKind where
  | switch
  | single
  | repeatable
  deriving DecidableEq, Repr

/-- An option that a command knows. -/
structure OptionSpec where
  /-- The name behind two hyphens. -/
  long : String
  /-- The letter behind one hyphen. -/
  short : Option Char
  kind : OptionKind
  deriving DecidableEq, Repr

/-- The given options: their long names with their values, in the order of the command line. -/
abbrev Options := List (String × String)

namespace Options

/-- What follows the options at the beginning of a command line. -/
inductive Remainder where
  | done
  /-- A word that is not an option, and what is behind it. -/
  | word (w : String) (rest : List String)
  /-- What is behind the mark `--`. -/
  | divided (rest : List String)
  deriving Repr

/-- A word that may be the value of the option before it. -/
def isValue (w : String) : Bool :=
  match w.toList with
  | '-' :: _ :: _ => false
  | _ => true

/-- How a word of the command line is meant. -/
inductive Meaning where
  | divider
  /-- The option, with the value in the same word. -/
  | option (spec : OptionSpec) (attached : Option String)
  /-- An option that the command does not know. -/
  | unknown
  | plain

/-- The name and the attached value of a long option. -/
def splitLong (w : String) : String × Option String :=
  match Text.splitFirst? '=' w with
  | some (name, value) => (name, some value)
  | none => (w, none)

/-- The attached value of a short option. -/
def attachedShort : List Char → Option String
  | [] => none
  | '=' :: cs => some (String.ofList cs)
  | cs => some (String.ofList cs)

/-- How a word is meant where an option may stand. -/
def meaning (specs : List OptionSpec) (w : String) : Meaning :=
  match w.toList with
  | ['-', '-'] => .divider
  | '-' :: '-' :: cs =>
    let (name, attached) := splitLong (String.ofList cs)
    match specs.find? fun s => s.long == name with
    | some s => .option s attached
    | none => .unknown
  | '-' :: c :: cs =>
    match specs.find? fun s => s.short == some c with
    | some s => .option s (attachedShort cs)
    | none => .unknown
  | _ => .plain

/-- The options at the beginning of a command line, and what follows them; `none` when an option is
unknown, lacks its value or has one that it does not take. -/
def collect (specs : List OptionSpec) : List String → Option (Options × Remainder)
  | [] => some ([], .done)
  | w :: rest =>
    match meaning specs w with
    | .divider => some ([], .divided rest)
    | .plain => some ([], .word w rest)
    | .unknown => none
    | .option s attached =>
      match s.kind, attached with
      | .switch, some _ => none
      | .switch, none => (collect specs rest).map fun (os, r) => ((s.long, "") :: os, r)
      | _, some v => (collect specs rest).map fun (os, r) => ((s.long, v) :: os, r)
      | _, none =>
        match rest with
        | [] => none
        | v :: rest =>
          if isValue v then (collect specs rest).map fun (os, r) => ((s.long, v) :: os, r)
          else none

/-- The values of an option. -/
def all (os : Options) (name : String) : List String :=
  (os.filter fun o => o.1 == name).map (·.2)

/-- The value of an option. -/
def value? (os : Options) (name : String) : Option String := (os.all name).head?

/-- Whether an option is given. -/
def has (os : Options) (name : String) : Bool := (os.value? name).isSome

/-- Only repeatable options are given more than once. -/
def respects (os : Options) (specs : List OptionSpec) : Bool :=
  specs.all fun s => s.kind == .repeatable || (os.all s.long).length ≤ 1

/-- **The options at the beginning of a command line**, and what follows them. -/
def read (specs : List OptionSpec) (words : List String) : Option (Options × Remainder) :=
  (collect specs words).filter fun r => r.1.respects specs

end Options

end JavaCallGraph
