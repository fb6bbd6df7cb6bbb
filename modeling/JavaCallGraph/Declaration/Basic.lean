import JavaCallGraph.Declaration.Body

/-!
# Declarations

The analyzed source as far as calls are concerned: compilation units with their imports, types with
their members, and methods with their bodies.  Types and methods are referred to by position, a type
by its `TypeId` within the code base and a method by its `MethodRef` within its type.
-/

set_option autoImplicit false

namespace JavaCallGraph

/-- The position of a type among all types. -/
structure TypeId where
  index : Nat
  deriving DecidableEq, Repr, Inhabited, Ord

/-- The position of a compilation unit among all units. -/
structure UnitId where
  index : Nat
  deriving DecidableEq, Repr, Inhabited

/-- A method: its type and its position among the methods of that. -/
structure MethodRef where
  owner : TypeId
  position : Nat
  deriving DecidableEq, Repr, Inhabited

/-- An import declaration. -/
structure Import where
  /-- The dotted name, without a final `.*`. -/
  name : String
  isStatic : Bool
  isAsterisk : Bool
  deriving DecidableEq, Repr, Inhabited

/-- A source file. -/
structure CompilationUnit where
  path : String
  package : Option String
  imports : List Import
  /-- The build module that the file belongs to. -/
  module : Option String
  deriving Repr, Inhabited

/-- The kind of a type declaration. -/
inductive TypeKind where
  | plainClass
  | interface
  | enum
  | record
  | annotationType
  deriving DecidableEq, Repr, Inhabited

/-- The word for a kind of type. -/
def TypeKind.label : TypeKind → String
  | plainClass => "class"
  | interface => "interface"
  | enum => "enum"
  | record => "record"
  | annotationType => "annotation"

/-- A type parameter with its bounds. -/
structure TypeParam where
  name : String
  bounds : List TypeRef
  deriving Repr, Inhabited

/-- A field. -/
structure FieldDecl where
  name : String
  type : TypeRef
  isStatic : Bool
  isFinal : Bool
  annotations : List String
  deriving Repr, Inhabited

/-- A parameter; that of a variable number of arguments has the type of one of them. -/
structure Param where
  name : String
  type : TypeRef
  varargs : Bool
  deriving Repr, Inhabited

/-- A method. -/
structure MethodDecl where
  name : String
  typeParams : List TypeParam
  params : List Param
  returnType : TypeRef
  modifiers : List String
  annotations : List String
  body : Option Body
  lineStart : Nat
  lineEnd : Nat
  /-- Generated from a field instead of written. -/
  synthetic : Bool
  deriving Repr, Inhabited

namespace MethodDecl

/-- A static method. -/
def isStatic (m : MethodDecl) : Bool := m.modifiers.contains "static"

/-- A method with a variable number of arguments. -/
def isVarargs (m : MethodDecl) : Bool :=
  match m.params.getLast? with
  | some p => p.varargs
  | none => false

end MethodDecl

/-- A type. -/
structure TypeDecl where
  name : String
  /-- `pkg.Outer$Inner`. -/
  qualifiedName : String
  kind : TypeKind
  unit : UnitId
  outer : Option TypeId
  typeParams : List TypeParam
  /-- The `extends` clause: of a class at most one type, of an interface any number. -/
  extended : List TypeRef
  implemented : List TypeRef
  fields : List FieldDecl
  methods : List MethodDecl
  enumConstants : List String
  annotations : List String
  modifiers : List String
  line : Nat
  deriving Repr, Inhabited

namespace TypeDecl

/-- Interfaces and annotation types. -/
def isInterface (t : TypeDecl) : Bool :=
  match t.kind with
  | .interface | .annotationType => true
  | _ => false

/-- The first field of that name. -/
def field? (t : TypeDecl) (name : String) : Option FieldDecl :=
  t.fields.find? fun f => f.name == name

end TypeDecl

end JavaCallGraph
