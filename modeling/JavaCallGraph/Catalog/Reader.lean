import JavaCallGraph.Catalog.Basic
import JavaCallGraph.Error
import JavaCallGraph.Json.Reader

/-!
# Catalog documents

A catalog is extended by documents of the form `types: [ … ]`, one record per described type.  The
reader is strict about what it knows and ignores what it does not:

* members with an unknown name are skipped; a known name may occur only once;
* the name of a type, method or field, the type of a field and the `types` of a document are
  required, everything else has a default;
* only `superclass` may be `null`;
* a record may also be written as an array of its members in their declared order, where the last
  ones may be missing.

A document is merged as a whole or not at all.
-/

set_option autoImplicit false

namespace JavaCallGraph.Catalog

open Json

/-- How often a member name occurs. -/
def occurrences (name : String) (ms : List (Option String × Json)) : Nat :=
  ms.countP fun m => m.1 == some name

/-- The members of a record in their declared order, each present or not. -/
def recordMembers (names : List String) : Json → Option (List (Option Json))
  | .obj ms =>
    if ms.any (fun m => m.1.isNone) || names.any (fun n => 1 < occurrences n ms) then none
    else some (names.map fun n => (ms.find? fun m => m.1 == some n).map (·.2))
  | .arr vs =>
    if names.length < vs.length then none
    else some (vs.map some ++ List.replicate (names.length - vs.length) none)
  | _ => none

/-- A member that must be there. -/
def required {α : Type} (read : Json → Option α) (v : Option Json) : Option α := v.bind read

/-- A member with a default. -/
def optional {α : Type} (default : α) (read : Json → Option α) : Option Json → Option α
  | some v => read v
  | none => some default

/-- An array whose elements are all readable. -/
def listOf {α : Type} (read : Json → Option α) (v : Json) : Option (List α) :=
  v.elements?.bind fun vs => vs.mapM read

/-- A text or `null`. -/
def nullable : Json → Option (Option String)
  | .null => some none
  | v => v.text?.map some

/-- A method record. -/
def readMethod (v : Json) : Option CompiledMethod :=
  match recordMembers ["name", "params", "returns", "varargs", "static"] v with
  | some [name, params, returns, varargs, isStatic] => do
    some {
      name := ← required text? name
      params := ← optional [] (listOf text?) params
      returns := ← optional "void" text? returns
      varargs := ← optional false bool? varargs
      isStatic := ← optional false bool? isStatic }
  | _ => none

/-- A field record. -/
def readField (v : Json) : Option CompiledField :=
  match recordMembers ["name", "type", "static"] v with
  | some [name, type, isStatic] => do
    some {
      name := ← required text? name
      type := ← required text? type
      isStatic := ← optional false bool? isStatic }
  | _ => none

/-- A type record. -/
def readType (v : Json) : Option CompiledType :=
  match recordMembers ["name", "interface", "superclass", "interfaces", "methods", "fields"] v with
  | some [name, isInterface, superclass, interfaces, methods, fields] => do
    some {
      name := ← required text? name
      isInterface := ← optional false bool? isInterface
      superclass := ← optional none nullable superclass
      interfaces := ← optional [] (listOf text?) interfaces
      methods := ← optional [] (listOf readMethod) methods
      fields := ← optional [] (listOf readField) fields }
  | _ => none

/-- The types of a document. -/
def readDocument (v : Json) : Option (List CompiledType) :=
  match recordMembers ["types"] v with
  | some [types] => required (listOf readType) types
  | _ => none

/-- The types of a document given as text. -/
def readTypes (document : String) : Except Error (List CompiledType) :=
  match (Json.parse document).bind readDocument with
  | some ts => .ok ts
  | none => .error .json

/-- **Merges a document**; also says how many types it describes. -/
def merge (c : Catalog) (document : String) : Except Error (Catalog × Nat) :=
  (readTypes document).map fun ts => (c.insertAll ts, ts.length)

end JavaCallGraph.Catalog
