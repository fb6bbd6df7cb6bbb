import JavaCallGraph.Syntax.Erasure
import JavaCallGraph.Syntax.Parser.Basic
import JavaCallGraph.Syntax.Tree

/-!
# Parsing types and modifiers

A written type is a keyword or a dotted name whose parts may carry annotations and type arguments,
followed by dimensions.  A dotted name keeps the type arguments of its last part only, and its text
goes through `eraseGenerics`.  Annotations are skipped wherever they stand in a type.
-/

set_option autoImplicit false

namespace JavaCallGraph.Syntax.Parser

/-- An annotation; yields the last part of its name. -/
def annotation : Parser String := do
  symbol "@"
  if ← nextIs (·.isWord "interface") then failure
  let (_, text) ← withText dottedName
  let _ ← option skipParens
  return Text.afterLast '.' text

/-- Any number of annotations. -/
def annotations : Parser (List String) := many annotation

/-- One dimension: `[]`, possibly annotated. -/
def dimension : Parser Unit := do
  let _ ← annotations
  symbol "["
  symbol "]"

/-- How many brackets open in a text. -/
def bracketCount (text : String) : Nat := text.toList.count '['

/-- Any number of dimensions; yields the number of brackets in their text. -/
def dimensions : Parser Nat := do
  let (_, text) ← withText (many dimension)
  return bracketCount text

/-- Separates the elements of a list. -/
def comma : Parser Unit := symbol ","

/-- A primitive type or `void`. -/
def keywordType : Parser TypeRef := do
  let t ← tokenIf (·.kind == .word)
  if t.text == "void" then return .void
  match Primitive.ofName? t.text with
  | some p => return .primitive p
  | none => failure

/-- Type arguments in angle brackets, each argument read by `argument`. -/
def typeArguments (argument : Parser TypeRef) : Parser (List TypeRef) := do
  symbol "<"
  let args ← sepBy argument comma
  symbol ">"
  return args

/-- The parts of a dotted type after the first one; yields the type arguments of the last part and
the tokens where these begin. -/
def furtherParts (argument : Parser TypeRef) :
    Nat → Option (List TypeRef × List Token) → Parser (Option (List TypeRef × List Token) × Bool)
  | 0, last => return (last, false)
  | n + 1, last => do
    let more ← option do
      symbol "."
      let _ ← annotations
      let _ ← identifier
      let before ← remaining
      match ← option (typeArguments argument) with
      | some args => return some (args, before)
      | none => return none
    match more with
    | none => return (last, false)
    | some last => return ((← furtherParts argument n last).1, true)

/-- A dotted or simple name with its type arguments. -/
def namedType (argument : Parser TypeRef) : Parser TypeRef := do
  let start ← remaining
  let _ ← identifier
  let before ← remaining
  let first ← option (typeArguments argument)
  let (last, dotted) ← furtherParts argument start.length (first.map fun args => (args, before))
  match last with
  | some (args, stop) => return .named (eraseGenerics (slice start stop)) args
  | none =>
    let text := slice start (← remaining)
    if dotted then return .simple (eraseGenerics text)
    else if text == "var" then return .inferred
    else return .simple text

/-- A type without dimensions. -/
def simpleType (argument : Parser TypeRef) : Parser TypeRef := keywordType <|> namedType argument

/-- A type, with annotations in front and dimensions behind. -/
def annotatedType (argument : Parser TypeRef) : Parser TypeRef := do
  let _ ← annotations
  let t ← simpleType argument
  return t.withDimensions (← dimensions)

/-- A type argument: a type, or `?` with at most one bound.  The budget bounds the nesting. -/
def typeArgument : Nat → Parser TypeRef
  | 0 => failure
  | n + 1 => do
    let _ ← annotations
    if ← symbol? "?" then
      if (← word? "extends") || (← word? "super") then
        return .wildcard (some (← annotatedType (typeArgument n)))
      else return .wildcard none
    else annotatedType (typeArgument n)

/-- A type argument; each level of nesting takes a token, so the number of tokens bounds it. -/
def anyTypeArgument : Parser TypeRef := do typeArgument (← remaining).length

/-- **A type.** -/
def type : Parser TypeRef := annotatedType anyTypeArgument

/-- A type without dimensions, as in an object or array creation. -/
def elementType : Parser TypeRef := do
  let _ ← annotations
  simpleType anyTypeArgument

/-- Type arguments that are not kept. -/
def skipTypeArguments : Parser Unit := discard (typeArguments anyTypeArgument)

/-- A list of types. -/
def typeList : Parser (List TypeRef) := sepBy1 type comma

/-- A type parameter with its bounds. -/
def typeParameter : Parser TypeParam := do
  let _ ← annotations
  let name ← identifier
  if ← word? "extends" then return ⟨name, ← sepBy1 type (symbol "&")⟩
  else return ⟨name, []⟩

/-- Type parameters in angle brackets, or none. -/
def typeParameters : Parser (List TypeParam) :=
  (do
    symbol "<"
    let ps ← sepBy1 typeParameter comma
    symbol ">"
    return ps) <|> return []

/-! ## Modifiers -/

/-- The keywords that may stand in front of any declaration. -/
def modifierWords : List String :=
  ["public", "protected", "private", "abstract", "static", "final", "strictfp", "native", "transient",
   "volatile"]

/-- The words that begin a type declaration. -/
def isTypeWord (t : Token) : Bool :=
  t.isWord "class" || t.isWord "interface" || t.isWord "enum" || t.isWord "record"

/-- `sealed` and `non-sealed` are modifiers only in front of a type declaration, possibly with other
modifiers between. -/
def sealedWord : Parser String := do
  let w ← (do
      word "sealed"
      return "sealed") <|> (do
      word "non"
      symbol "-"
      word "sealed"
      return "non-sealed")
  if ← nextIs fun t => isTypeWord t || modifierWords.contains t.text || t.isSymbol "@" then return w
  else failure

/-- One keyword modifier.  `default` is one unless it labels a case, `synchronized` unless it begins
a statement. -/
def modifierWord : Parser String :=
  (do return (← tokenIf fun t => t.kind == .word && modifierWords.contains t.text).text) <|>
  (do
    word "default"
    if ← nextIs fun t => t.isSymbol ":" || t.isSymbol "->" then failure
    return "default") <|>
  (do
    word "synchronized"
    if ← nextIs (·.isSymbol "(") then failure
    return "synchronized") <|>
  sealedWord

/-- Any number of modifiers. -/
def modifiers : Parser Modifiers := do
  let items ← many ((do return Sum.inl (← modifierWord)) <|> (do return Sum.inr (← annotation)))
  return ⟨items.filterMap Sum.getLeft?, items.filterMap Sum.getRight?⟩

/-! ## Parameters -/

/-- One formal parameter; the receiver parameter yields nothing.  Dimensions behind the name belong
to the type, except behind that of a variable number of arguments. -/
def formalParameter : Parser (Option Param) := do
  let _ ← modifiers
  let t ← type
  if ← (do let _ ← annotations; symbol? "...") then
    let _ ← annotations
    let name ← identifier
    let _ ← dimensions
    return some ⟨name, t, true⟩
  else if (← option (do let _ ← many (do let _ ← identifier; symbol "."); word "this")).isSome then
    return none
  else
    let name ← identifier
    return some ⟨name, t.withDimensions (← dimensions), false⟩

/-- The formal parameters of a method, in parentheses. -/
def formalParameters : Parser (List Param) := do
  symbol "("
  let ps ← sepBy formalParameter comma
  symbol ")"
  return ps.filterMap id

end JavaCallGraph.Syntax.Parser
