import JavaCallGraph.Declaration.Basic
import JavaCallGraph.Text.Capital

/-!
# Generated accessors

Some methods are called and nowhere written: the accessors of record components, and the getters and
setters that the annotations `@Data`, `@Getter` and `@Setter` ask for on a type or on one field.

`TypeDecl.withAccessors` appends them to the methods of a type.  A method that is there already wins
over a generated one of the same name, whatever its parameters; so the first of two equal accessors
stays, and doing it twice adds nothing.
-/

set_option autoImplicit false

namespace JavaCallGraph

namespace Accessor

/-- A generated public method on the line of its type. -/
def generated (name : String) (params : List Param) (returnType : TypeRef) (line : Nat) :
    MethodDecl where
  name := name
  typeParams := []
  params := params
  returnType := returnType
  modifiers := ["public"]
  annotations := []
  body := none
  lineStart := line
  lineEnd := line
  synthetic := true

/-- `is…` for a truth value, `get…` for everything else. -/
def getterName (f : FieldDecl) : String :=
  match f.type with
  | .primitive .boolean => "is" ++ Text.capitalize f.name
  | _ => "get" ++ Text.capitalize f.name

/-- `set…`. -/
def setterName (f : FieldDecl) : String := "set" ++ Text.capitalize f.name

/-- The getter of a field. -/
def getter (line : Nat) (f : FieldDecl) : MethodDecl := generated (getterName f) [] f.type line

/-- The setter of a field. -/
def setter (line : Nat) (f : FieldDecl) : MethodDecl :=
  generated (setterName f) [⟨f.name, f.type, false⟩] .void line

/-- The accessor of a record component. -/
def component (line : Nat) (f : FieldDecl) : MethodDecl := generated f.name [] f.type line

/-- One of the given annotations is on the type or on the field. -/
def requested (t : TypeDecl) (f : FieldDecl) (onField : String) : Bool :=
  t.annotations.contains "Data" || t.annotations.contains onField || f.annotations.contains onField

/-- The accessors that a field asks for. -/
def ofField (t : TypeDecl) (f : FieldDecl) : List MethodDecl :=
  if t.kind == .record then [component t.line f]
  else
    (if requested t f "Getter" then [getter t.line f] else []) ++
      (if !f.isFinal && requested t f "Setter" then [setter t.line f] else [])

/-- The accessors that a type asks for, in the order of its fields. -/
def ofType (t : TypeDecl) : List MethodDecl :=
  (t.fields.filter fun f => !f.isStatic).flatMap (ofField t)

/-- Appends a method unless one of that name is there. -/
def append (ms : List MethodDecl) (m : MethodDecl) : List MethodDecl :=
  if ms.any fun n => n.name == m.name then ms else ms ++ [m]

end Accessor

/-- **The type with its generated accessors.** -/
def TypeDecl.withAccessors (t : TypeDecl) : TypeDecl :=
  { t with methods := (Accessor.ofType t).foldl Accessor.append t.methods }

end JavaCallGraph
