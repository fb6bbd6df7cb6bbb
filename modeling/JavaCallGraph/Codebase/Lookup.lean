import JavaCallGraph.Codebase.Basic
import JavaCallGraph.MethodId

/-!
# Looking names up

How a written type becomes a resolved one.  Three questions build on each other:

* `typeInfo` — what a *canonical* name stands for;
* `lookup?` — what a simple or dotted name stands for inside a given type: nested types of the types
  around it, imports, the package, `java.lang`;
* `qualify` — what a written type stands for, where type variables come before all other names.

The bounds of a type variable are written types themselves.  They are followed `boundDepth` levels
deep; below that a variable counts as unbounded.
-/

set_option autoImplicit false

namespace JavaCallGraph

/-- Where a written type stands: the type around it, and the type parameters of the method. -/
structure TypeScope where
  type : TypeId
  params : List TypeParam

/-- The name has a dot in it. -/
def isDotted (name : String) : Bool := name.toList.contains '.'

/-- How deep the bounds of type variables are followed. -/
def boundDepth : Nat := 4

/-- `a.b.C.D` with the last `k` of its dots turned into `$`. -/
def nestedSpelling (parts : List String) (k : Nat) : String :=
  let outer := parts.length - (k + 1)
  Text.joinWith "." (parts.take outer ++ [Text.joinWith "$" (parts.drop outer)])

/-- The canonical names that a dotted name may mean: with none, one, two, … of its last dots turned
into `$`. -/
def nestedSpellings (name : String) : List String :=
  let parts := Text.pieces (· == '.') name
  (List.range parts.length).map (nestedSpelling parts)

/-- The dimensions at the end of a reversed canonical name, and what is before them. -/
def countDimensions : List Char → Nat × List Char
  | ']' :: '[' :: cs =>
    let (n, rest) := countDimensions cs
    (n + 1, rest)
  | cs => (0, cs)

/-- The canonical name of the component, when the name is that of an array. -/
def componentName? (name : String) : Option String :=
  match name.toList.reverse with
  | ']' :: '[' :: cs => some (String.ofList cs.reverse)
  | _ => none

/-- The type with `n` more dimensions. -/
def TypeInfo.withDimensions (t : TypeInfo) : Nat → TypeInfo
  | 0 => t
  | n + 1 => .array (t.withDimensions n)

namespace Codebase

variable (c : Codebase)

/-! ## Canonical names -/

/-- What a canonical name without dimensions stands for. -/
def elementInfo (name : String) : TypeInfo :=
  match Primitive.ofName? name with
  | some p => .primitive p
  | none => (c.known? name).getD (.unresolved name)

/-- **What a canonical name stands for**: a primitive, an array, a declared or described type, or an
unknown type of that name. -/
def typeInfo (name : String) : TypeInfo :=
  let (n, rest) := countDimensions name.toList.reverse
  (c.elementInfo (String.ofList rest.reverse)).withDimensions n

/-- The root class. -/
def objectType : TypeInfo := c.typeInfo objectName

/-- The type under which the members of a type are looked up: for a type variable its first bound. -/
def erased : TypeInfo → TypeInfo
  | .typeVar _ (b :: _) => b
  | .typeVar _ [] => c.objectType
  | t => t

/-! ## Names inside a type -/

/-- The known type that a dotted name means, with as few `$` as possible. -/
def knownDotted? (name : String) : Option TypeInfo :=
  (nestedSpellings name).findSome? c.known?

/-- A type nested in one of the types around, or one of those themselves. -/
def lookupAround? (name : String) (context : TypeId) : Option TypeInfo :=
  (c.enclosing context).findSome? fun t =>
    (c.known? ((c.decl t).qualifiedName ++ "$" ++ name)).or
      (if (c.decl t).name == name then some (c.sourceType t) else none)

/-- A type imported by its name; it need not be known. -/
def lookupImported? (name : String) (context : TypeId) : Option TypeInfo :=
  ((c.importsOf context).find? fun i =>
      !i.isStatic && !i.isAsterisk && Text.afterLast '.' i.name == name).map fun i =>
    (c.knownDotted? i.name).getD (.unresolved i.name)

/-- The name of a type of the same package. -/
def inPackageOf (name : String) (context : TypeId) : String :=
  match c.packageOf context with
  | some p => p ++ "." ++ name
  | none => name

/-- A type imported with all others of its package or type. -/
def lookupOnDemand? (name : String) (context : TypeId) : Option TypeInfo :=
  ((c.importsOf context).filter fun i => !i.isStatic && i.isAsterisk).findSome? fun i =>
    c.knownDotted? (i.name ++ "." ++ name)

/-- What a simple name stands for inside a type. -/
def lookupSimple? (name : String) (context : TypeId) : Option TypeInfo :=
  (c.lookupAround? name context).or <|
    (c.lookupImported? name context).or <|
      (c.known? (c.inPackageOf name context)).or <|
        (c.lookupOnDemand? name context).or <|
          c.known? ("java.lang." ++ name)

/-- **What a simple or dotted name stands for inside a type.**  A dotted name is a canonical one up to
`$`, or begins with a simple name of a type that has the rest nested in it. -/
def lookup? (name : String) (context : TypeId) : Option TypeInfo :=
  match Text.splitFirst? '.' name with
  | none => c.lookupSimple? name context
  | some (first, rest) =>
    (c.knownDotted? name).or <|
      (c.lookupSimple? first context).bind fun outer =>
        c.known? (outer.name ++ "$" ++ Text.joinWith "$" (Text.pieces (· == '.') rest))

/-- The types whose static members of the given name are imported. -/
def staticImportOwners (context : TypeId) (member : String) : List TypeInfo :=
  ((c.importsOf context).filter (·.isStatic)).filterMap fun i =>
    if i.isAsterisk then c.knownDotted? i.name
    else
      match Text.splitLast? '.' i.name with
      | some (owner, imported) => if imported == member then c.knownDotted? owner else none
      | none => none

/-! ## Written types -/

/-- What a name that is no type variable stands for: an unknown one is taken to be of the same
package unless it is dotted. -/
def qualifyName (scope : TypeScope) (name : String) : TypeInfo :=
  match c.lookup? name scope.type with
  | some t => t
  | none =>
    if isDotted name then .unresolved name
    else .unresolved (c.inPackageOf name scope.type)

/-- What a written type stands for, given what its names stand for. -/
def qualifyWith (named : String → TypeInfo) : TypeRef → TypeInfo
  | .void => .void
  | .inferred => c.objectType
  | .wildcard none => c.objectType
  | .wildcard (some bound) => qualifyWith named bound
  | .primitive p => .primitive p
  | .array t => .array (qualifyWith named t)
  | .named name _ => named name

/-- The type parameter of that name; those of the method come before those of the types around. -/
def typeParam? (scope : TypeScope) (name : String) : Option TypeParam :=
  if isDotted name then none
  else
    (scope.params.find? fun p => p.name == name).or <|
      (c.enclosing scope.type).findSome? fun t =>
        (c.decl t).typeParams.find? fun p => p.name == name

/-- What a name in a written type stands for, where bounds are followed `depth` levels deep. -/
def qualifyNameAt (scope : TypeScope) : Nat → String → TypeInfo
  | depth, name =>
    match c.typeParam? scope name with
    | none => c.qualifyName scope name
    | some p =>
      match depth with
      | 0 => .typeVar p.name []
      | depth + 1 =>
        .typeVar p.name (p.bounds.map (c.qualifyWith (qualifyNameAt scope depth)))

/-- **What a written type stands for.** -/
def qualify (scope : TypeScope) (t : TypeRef) : TypeInfo :=
  c.qualifyWith (c.qualifyNameAt scope boundDepth) t

/-- The scope of the declaration of a type. -/
def typeScope (id : TypeId) : TypeScope := ⟨id, (c.decl id).typeParams⟩

/-- The scope of the declaration of a method. -/
def methodScope (m : MethodRef) : TypeScope := ⟨m.owner, (c.method m).typeParams⟩

/-- The type of a parameter inside a method; a variable number of arguments arrives as an array. -/
def paramType (scope : TypeScope) (p : Param) : TypeInfo :=
  if p.varargs then .array (c.qualify scope p.type) else c.qualify scope p.type

/-- The parameter types of a method. -/
def paramTypes (m : MethodRef) : List TypeInfo :=
  (c.method m).params.map (c.paramType (c.methodScope m))

/-- The identity of a method. -/
def methodId (m : MethodRef) : MethodId :=
  ⟨(c.decl m.owner).qualifiedName, (c.method m).name, (c.paramTypes m).map TypeInfo.name⟩

end Codebase

end JavaCallGraph
