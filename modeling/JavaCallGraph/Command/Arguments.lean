import JavaCallGraph.Command.Option
import JavaCallGraph.Graph.Target
import JavaCallGraph.Project.Load
import JavaCallGraph.Text.CaseFold

/-!
# Commands

The three commands and their options:

* `graph` prints the call graphs of some methods as JSON;
* `methods` lists the identities of methods;
* `types` lists types with their kind and build module.

`Command.read?` understands a command line; `none` means that it is not one of these commands with
options that belong to it.
-/

set_option autoImplicit false

namespace JavaCallGraph

/-- Where the source comes from. -/
structure SourceArguments where
  directories : List String
  /-- The paths of catalog documents. -/
  classpath : List String
  load : LoadOptions
  deriving Repr

/-- What `graph` shall print. -/
structure GraphArguments where
  methods : List String
  /-- The flat view instead of the tree. -/
  view : Bool
  /-- Over several lines. -/
  pretty : Bool
  subtypes : SubtypeStrategy
  heuristics : Bool
  excludedReceivers : List String
  includeStdlib : Bool
  deriving Repr

/-- What `methods` shall list. -/
structure MethodsArguments where
  /-- A pattern that the names of the types have to contain. -/
  pattern : Option String
  /-- Generated methods too. -/
  synthetic : Bool
  deriving Repr

/-- What to do with the source. -/
inductive Action where
  | graph (a : GraphArguments)
  | methods (a : MethodsArguments)
  | types
  deriving Repr

/-- A command. -/
structure Command where
  source : SourceArguments
  action : Action
  deriving Repr

namespace Command

/-! ## Options -/

/-- Options that every command knows, also before its name.  They concern nothing but log output. -/
def globalOptions : List OptionSpec :=
  [⟨"log-level", none, .single⟩, ⟨"log-json", none, .switch⟩]

/-- The options about the source. -/
def sourceOptions : List OptionSpec :=
  [⟨"dir", some 'd', .repeatable⟩, ⟨"ext", some 'e', .single⟩, ⟨"classpath", none, .repeatable⟩,
   ⟨"threads", some 't', .single⟩, ⟨"no-accessors", none, .switch⟩]

/-- The options of `graph`. -/
def graphOptions : List OptionSpec :=
  [⟨"method", some 'm', .repeatable⟩, ⟨"view", none, .switch⟩, ⟨"pretty", none, .switch⟩,
   ⟨"subtypes", none, .single⟩, ⟨"no-heuristics", none, .switch⟩,
   ⟨"exclude-receiver", none, .repeatable⟩, ⟨"include-stdlib", none, .switch⟩]

/-- The options of `methods`. -/
def methodsOptions : List OptionSpec := [⟨"type", none, .single⟩, ⟨"synthetic", none, .switch⟩]

/-! ## Values -/

/-- A list of extensions: pieces between commas, without blanks and dots in front, in lower case. -/
def extensions (text : String) : List String :=
  let plain (piece : String) : String :=
    String.ofList (((Text.trim piece).toList.dropWhile (· == '.')).map Text.lowerCase)
  ((Text.pieces (· == ',') text).map plain).filter fun e => e != ""

/-- One more than the largest number of 64 bits. -/
def wordLimit : Nat := 18446744073709551616

/-- A number of threads: digits with an optional sign in front that fit into 64 bits. -/
def isThreadCount (text : String) : Bool :=
  let digits :=
    match text.toList with
    | '+' :: cs => cs
    | cs => cs
  !digits.isEmpty && digits.all Char.isDigit &&
    digits.foldl (fun n d => 10 * n + (d.toNat - '0'.toNat)) 0 < wordLimit

/-- A subtype strategy by name. -/
def subtypeStrategy? (text : String) : Option SubtypeStrategy :=
  match text with
  | "all" => some .all
  | "single" => some .singleOnly
  | _ => none

/-- The arguments about the source; without a directory it is the current one. -/
def sourceArguments? (os : Options) : Option SourceArguments :=
  if isThreadCount ((os.value? "threads").getD "0") then
    let directories := os.all "dir"
    some
      { directories := if directories.isEmpty then ["."] else directories
        classpath := os.all "classpath"
        load := ⟨extensions ((os.value? "ext").getD "java"), !os.has "no-accessors"⟩ }
  else none

/-- The arguments of `graph`, which needs a method. -/
def graphArguments? (os : Options) : Option GraphArguments := do
  let subtypes ← subtypeStrategy? ((os.value? "subtypes").getD "all")
  if (os.all "method").isEmpty then none
  else
    some
      { methods := os.all "method"
        view := os.has "view"
        pretty := os.has "pretty"
        subtypes := subtypes
        heuristics := !os.has "no-heuristics"
        excludedReceivers := os.all "exclude-receiver"
        includeStdlib := os.has "include-stdlib" }

/-! ## Command lines -/

/-- The options of a command, by its name. -/
def optionsOf? (name : String) : Option (List OptionSpec) :=
  match name with
  | "graph" => some (globalOptions ++ sourceOptions ++ graphOptions)
  | "methods" => some (globalOptions ++ sourceOptions ++ methodsOptions)
  | "types" => some (globalOptions ++ sourceOptions)
  | _ => none

/-- The action of a command. -/
def action? (name : String) (os : Options) : Option Action :=
  match name with
  | "graph" => (graphArguments? os).map .graph
  | "methods" => some (.methods ⟨os.value? "type", os.has "synthetic"⟩)
  | "types" => some .types
  | _ => none

/-- Reads what follows the name of a command: options and nothing else. -/
def readNamed? (name : String) (words : List String) : Option Command := do
  let specs ← optionsOf? name
  match ← Options.read specs words with
  | (os, .done) => some ⟨← sourceArguments? os, ← action? name os⟩
  | (os, .divided []) => some ⟨← sourceArguments? os, ← action? name os⟩
  | _ => none

/-- **Reads a command line.** -/
def read? (words : List String) : Option Command := do
  match ← Options.read globalOptions words with
  | (_, .word name rest) => readNamed? name rest
  | _ => none

end Command

/-- The choices about a graph that the arguments stand for. -/
def GraphArguments.config (a : GraphArguments) : GraphConfig :=
  let g : GraphConfig :=
    { GraphConfig.default with
      subtypes := a.subtypes
      heuristics := a.heuristics
      excludedReceivers := GraphConfig.loggers ++ a.excludedReceivers }
  if a.includeStdlib then g.withStdlib else g

end JavaCallGraph
