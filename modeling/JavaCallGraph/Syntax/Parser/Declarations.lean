import JavaCallGraph.Syntax.Parser.Statements

/-!
# Parsing type declarations

The five kinds of type differ in their headers; the members of all of them are read by one rule.
The bodies of constructors and static initializers hold nothing that is asked for and are skipped
with their braces.
-/

set_option autoImplicit false

namespace JavaCallGraph.Syntax.Parser

variable (g : Grammar)

/-! ## Headers -/

/-- A list of types behind a keyword, or none. -/
def clause (keyword : String) : Parser (List TypeRef) :=
  (do
    word keyword
    typeList) <|> return []

/-- Skips the `permits` clause. -/
def skipPermits : Parser Unit := discard (clause "permits")

/-- The header of a class, behind the keyword. -/
def classHeader (mods : Modifiers) (line : Nat) : Parser TypeHeader := do
  let name ← identifier
  let typeParams ← typeParameters
  let extended ← option do
    word "extends"
    type
  let implemented ← clause "implements"
  skipPermits
  return ⟨mods, .plainClass, name, typeParams, [], extended.toList, implemented, line⟩

/-- The header of an interface, behind the keyword. -/
def interfaceHeader (mods : Modifiers) (line : Nat) : Parser TypeHeader := do
  let name ← identifier
  let typeParams ← typeParameters
  let extended ← clause "extends"
  skipPermits
  return ⟨mods, .interface, name, typeParams, [], extended, [], line⟩

/-- The header of an enum, behind the keyword. -/
def enumHeader (mods : Modifiers) (line : Nat) : Parser TypeHeader := do
  let name ← identifier
  let implemented ← clause "implements"
  return ⟨mods, .enum, name, [], [], [], implemented, line⟩

/-- The header of a record, behind the keyword. -/
def recordHeader (mods : Modifiers) (line : Nat) : Parser TypeHeader := do
  let name ← identifier
  let typeParams ← typeParameters
  let components ← formalParameters
  let implemented ← clause "implements"
  return ⟨mods, .record, name, typeParams, components, [], implemented, line⟩

/-- The header of an annotation type, behind the keyword. -/
def annotationHeader (mods : Modifiers) (line : Nat) : Parser TypeHeader := do
  let name ← identifier
  return ⟨mods, .annotationType, name, [], [], [], [], line⟩

/-- The header of any type. -/
def typeHeader : Parser TypeHeader := do
  let line := ((← peek?).map Token.line).getD 0
  let mods ← modifiers
  (do
    word "class"
    classHeader mods line) <|>
  (do
    word "interface"
    interfaceHeader mods line) <|>
  (do
    word "enum"
    enumHeader mods line) <|>
  (do
    word "record"
    recordHeader mods line) <|>
  (do
    symbol "@"
    word "interface"
    annotationHeader mods line)

/-! ## Members -/

/-- A method, from the type parameters on; `line` is where the member begins. -/
def method (mods : Modifiers) (line : Nat) : Parser Member := do
  let typeParams ← typeParameters
  let t ← type
  let name ← identifier
  let params ← formalParameters
  let t := t.withDimensions (← dimensions)
  let _ ← clause "throws"
  let default ← option do
    word "default"
    g.initializer <|> (do
      let _ ← annotation
      return .literal .null)
  let header (lineEnd : Nat) : MethodHeader := ⟨mods, typeParams, t, name, params, line, lineEnd⟩
  if ← nextIs (·.isSymbol "\x7b") then
    symbol "\x7b"
    let body ← many g.statement
    let last ← tokenIf (·.isSymbol "\x7d")
    return .method (header last.line) body
  else
    let last ← tokenIf (·.isSymbol ";")
    return .abstractMethod (header last.line) default

/-- A constructor of either form, from the type parameters on. -/
def constructor : Parser Member := do
  let _ ← typeParameters
  let _ ← identifier
  if ← nextIs (·.isSymbol "(") then
    skipParens
    let _ ← clause "throws"
  skipBraces
  return .constructor

/-- Fields. -/
def fields (mods : Modifiers) : Parser Member := do
  let vars ← declarators g
  semicolon
  return .field mods vars

/-- One member of a type; a lone semicolon is none.  `nestedType` reads a type declaration. -/
def member (nestedType : Parser TypeTree) : Parser (Option Member) :=
  (do
    semicolon
    return none) <|>
  (do
    word "static"
    skipBraces
    return some .constructor) <|>
  (do return some (.initializer (← block g))) <|>
  (do return some (.type (← nestedType))) <|>
  (do
    let line := ((← peek?).map Token.line).getD 0
    let mods ← modifiers
    some <$> (constructor <|> method g mods line <|> fields g mods))

/-- Members up to the closing brace. -/
def members (nestedType : Parser TypeTree) : Parser (List Member) := do
  let ms ← many (member g nestedType)
  return ms.filterMap id

/-- An enum constant; its arguments and its body are skipped. -/
def enumConstant : Parser Member := do
  let _ ← modifiers
  let name ← identifier
  let _ ← option skipParens
  let _ ← option skipBraces
  return .enumConstant name

/-- The constants of an enum, then its other members. -/
def enumMembers (nestedType : Parser TypeTree) : Parser (List Member) := do
  let constants ← sepBy enumConstant comma
  let _ ← symbol? ","
  if ← symbol? ";" then return constants ++ (← members g nestedType)
  else return constants

/-- **A type declaration**, where `nestedType` reads the types inside it. -/
def typeDeclaration (nestedType : Parser TypeTree) : Parser TypeTree := do
  let header ← typeHeader
  symbol "\x7b"
  let ms ← match header.kind with
    | .enum => enumMembers g nestedType
    | _ => members g nestedType
  symbol "\x7d"
  return .mk header ms

end JavaCallGraph.Syntax.Parser
