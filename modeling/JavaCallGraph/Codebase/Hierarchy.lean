import JavaCallGraph.Codebase.Layers
import JavaCallGraph.Codebase.Lookup

/-!
# The type hierarchy

Supertypes and what follows from them.

* `superclass?`, `interfaces`, `supertypes` — one step up;
* `ancestors` — every supertype: the chain of superclasses first, then all interfaces breadth-first.
  An unknown supertype is listed and leads no further;
* `distance?` — the least number of steps up to a type of a given name;
* `isAssignable`, `accepts` — whether a value fits a variable or a parameter;
* `fieldType?` — the type of a field or enum constant, declared or inherited.

Hierarchies may be cyclic.  A search ends because it never lists a name twice; `searchBudget` exceeds
the number of names that lead on to further ones.
-/

set_option autoImplicit false

namespace JavaCallGraph.Codebase

variable (c : Codebase)

/-! ## One step -/

/-- The direct superclass. -/
def superclass? : TypeInfo → Option TypeInfo
  | .source id _ =>
    match (c.decl id).kind with
    | .interface | .annotationType => none
    | .enum => some (c.typeInfo "java.lang.Enum")
    | .record => some (c.typeInfo "java.lang.Record")
    | .plainClass =>
      match (c.decl id).extended with
      | parent :: _ => some (c.qualify (c.typeScope id) parent)
      | [] => some c.objectType
  | .compiled t => t.superclassName?.map c.typeInfo
  | .array _ => some c.objectType
  | .typeVar n bounds => some (c.erased (.typeVar n bounds))
  | .primitive _ => none
  | .unresolved _ => none

/-- The types written in the interface position of a declaration. -/
def writtenInterfaces (t : TypeDecl) : List TypeRef :=
  if t.isInterface then t.extended else t.implemented

/-- The direct interfaces. -/
def interfaces : TypeInfo → List TypeInfo
  | .source id _ => (writtenInterfaces (c.decl id)).map (c.qualify (c.typeScope id))
  | .compiled t => t.interfaces.map c.typeInfo
  | _ => []

/-- The direct supertypes, the superclass first. -/
def supertypes (t : TypeInfo) : List TypeInfo := (c.superclass? t).toList ++ c.interfaces t

/-! ## All steps -/

/-- More than the number of types that have supertypes: the declared ones, for each of them the type
variables and arrays that stand in its supertype positions, and the described ones. -/
def searchBudget : Nat :=
  c.types.foldl (fun n t => n + (boundDepth + 3) * (1 + t.extended.length + t.implemented.length))
    (c.catalog.size + boundDepth + 3)

/-- The chain of superclasses above `t`, up to the first name in `seen`. -/
def superclassChain : Nat → List String → TypeInfo → List TypeInfo
  | 0, _, _ => []
  | n + 1, seen, t =>
    match c.superclass? t with
    | none => []
    | some parent =>
      if seen.contains parent.name then []
      else parent :: superclassChain n (parent.name :: seen) parent

/-- The superclass, its superclass, and so on. -/
def superclasses (t : TypeInfo) : List TypeInfo :=
  c.superclassChain c.searchBudget [t.name] t

/-- **Every supertype**, each name once: superclasses, then interfaces breadth-first. -/
def ancestors (t : TypeInfo) : List TypeInfo :=
  let chain := t :: c.superclasses t
  chain.tail ++
    (Layers.layers TypeInfo.name c.interfaces c.searchBudget (chain.map TypeInfo.name) chain).flatten

/-- The type and all its supertypes. -/
def withAncestors (t : TypeInfo) : List TypeInfo := t :: c.ancestors t

/-- The layer of supertypes that holds the name, counted from one. -/
def layerOf? (name : String) (layers : List (List TypeInfo)) : Option Nat :=
  (layers.findIdx? fun l => l.any fun t => t.name == name).map (· + 1)

/-- The number of steps up to a type of the given name, for a type that is not primitive. -/
def distanceUp? (t : TypeInfo) (ancestor : String) : Option Nat :=
  if t.name == ancestor then some 0
  else layerOf? ancestor (Layers.layers TypeInfo.name c.supertypes c.searchBudget [t.name] [t])

/-- **The number of steps up to a type of the given name**; a primitive is one step below its
wrapper. -/
def distance? (t : TypeInfo) (ancestor : String) : Option Nat :=
  match t with
  | .primitive p =>
    if p.name == ancestor then some 0
    else (c.distanceUp? (c.typeInfo p.wrapper) ancestor).map (· + 1)
  | t => c.distanceUp? t ancestor

/-! ## Values and variables -/

mutual

/-- **A value of the type named `sub` can be assigned to a variable of the given type.** -/
def isAssignable : TypeInfo → String → Bool
  | .typeVar n bounds, sub => n == sub || allAssignable bounds sub
  | .primitive p, sub => p.name == sub
  | .array component, sub =>
    TypeInfo.name (.array component) == sub ||
      match componentName? sub with
      | some sub => isAssignable component sub
      | none => false
  | t, sub =>
    t.name == sub ||
      (!isPrimitiveName sub &&
        (t.name == objectName || (c.ancestors (c.typeInfo sub)).any fun a => a.name == t.name))

/-- A value can be assigned to variables of all the given types. -/
def allAssignable : List TypeInfo → String → Bool
  | [], _ => true
  | t :: ts, sub => isAssignable t sub && allAssignable ts sub

end

/-- **A parameter accepts an argument** by identity, widening, boxing, unboxing or subtyping. -/
def accepts (param arg : TypeInfo) : Bool :=
  match param, arg with
  | .primitive p, .primitive a => p.accepts a
  | .primitive p, arg =>
    match Primitive.ofWrapper? arg.name with
    | some a => p.accepts a
    | none => false
  | .typeVar _ _, .primitive _ => true
  | param, .primitive a => c.isAssignable param a.wrapper
  | param, arg => c.isAssignable param arg.name

/-- Every parameter accepts the argument at its position. -/
def acceptsAll (params args : List TypeInfo) : Bool :=
  (params.zip args).all fun (p, a) => c.accepts p a

/-! ## Fields -/

/-- The type of a field or enum constant that the type itself declares. -/
def declaredFieldType? (t : TypeInfo) (name : String) : Option TypeInfo :=
  match t with
  | .source id _ =>
    if (c.decl id).enumConstants.contains name then some t
    else ((c.decl id).field? name).map fun f => c.qualify (c.typeScope id) f.type
  | .compiled ct => (ct.field? name).map fun f => c.typeInfo f.type
  | _ => none

/-- **The type of a field or enum constant visible on `owner`**; an array has a `length` only. -/
def fieldType? (owner : TypeInfo) (name : String) : Option TypeInfo :=
  match owner with
  | .array _ => if name == "length" then some (.primitive .int) else none
  | owner => (c.withAncestors (c.erased owner)).findSome? fun t => c.declaredFieldType? t name

end JavaCallGraph.Codebase
