/-!
# What a request can fail with

The causes that reach the caller of a request, and their wording.  Conditions that only make a graph
smaller — an argument without a type, an ambiguous overload, an unknown ancestor — are not errors.
-/

set_option autoImplicit false

namespace JavaCallGraph

/-- The reasons the operating system gives for a failed read. -/
inductive IoCause where
  /-- There is no entry of that name. -/
  | notFound
  /-- A component of the path is a file. -/
  | notDirectory
  /-- The entry is a directory. -/
  | isDirectory
  /-- The file is not text. -/
  | invalidUtf8
  deriving DecidableEq, Repr

/-- The operating system's own words. -/
def IoCause.message : IoCause → String
  | notFound => "No such file or directory (os error 2)"
  | notDirectory => "Not a directory (os error 20)"
  | isDirectory => "Is a directory (os error 21)"
  | invalidUtf8 => "stream did not contain valid UTF-8"

/-- Why a request failed. -/
inductive Error where
  /-- No declaration answers to the requested identity, given in its canonical form. -/
  | methodNotFound (id : String)
  /-- The text is not a method identity. -/
  | invalidMethodId (text : String)
  /-- A file could not be read. -/
  | io (cause : IoCause)
  /-- A catalog document is malformed. -/
  | json
  /-- A source file is not Java. -/
  | parse (path : String)
  /-- The named directory does not exist. -/
  | dirNotFound (path : String)
  /-- The pattern for type names is malformed. -/
  | invalidPattern (pattern : String)
  deriving DecidableEq, Repr

/-- The wording of an error. -/
def Error.message : Error → String
  | methodNotFound id => "Method declaration not found: " ++ id
  | invalidMethodId text =>
    "Invalid method identity '" ++ text ++ "': expected Type#name(ParamType,...)"
  | io cause => "I/O error: " ++ cause.message
  | json => "JSON error"
  | parse path => "Failed to parse " ++ path ++ ": syntax error"
  | dirNotFound path => "Directory does not exist: " ++ path
  | invalidPattern pattern => "Invalid --type regex '" ++ pattern ++ "'"

end JavaCallGraph
