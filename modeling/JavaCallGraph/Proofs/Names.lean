import JavaCallGraph.Codebase.Lookup
import JavaCallGraph.Proofs.Identity
import Mathlib.Tactic.Common

/-!
# The names that a code base is made of

`Codebase.names` collects every name that can end up in the identity of a method: those of packages,
imports, types, type parameters and methods, of all written types and calls, and of everything in
the catalog.  Type arguments and the names of variables do not occur in identities and are left out.

A `NameRule` is a property of names that also holds of the names the library makes up itself: the
few classes that the language mentions, and a name of a package with another name behind it.  If all
names of a code base obey a rule, so do the names of all types it ever hands out, which is proved in
`JavaCallGraph.Proofs.Typing.Proper`.  Two rules are of interest: the trivial one, and `IsName`.
-/

set_option autoImplicit false

namespace JavaCallGraph

/-! ## Names in declarations -/

/-- The name in a written type. -/
def TypeRef.names : TypeRef → List String
  | .named n _ => [n]
  | .array t => t.names
  | .wildcard (some bound) => bound.names
  | _ => []

mutual

/-- The names in an expression. -/
def Expr.names : Expr → List String
  | .name n => [n]
  | .field receiver n => n :: receiver.names
  | .call receiver n args => n :: (Expr.receiverNames receiver ++ Expr.listNames args)
  | .new t args => t.names ++ Expr.listNames args
  | .newArray t => t.names
  | .index array => array.names
  | .binary _ l r => l.names ++ r.names
  | .unary _ operand => operand.names
  | .conditional positive negative => positive.names ++ negative.names
  | .cast t operand => t.names ++ operand.names
  | .instanceOf operand => operand.names
  | .assign target value => target.names ++ value.names
  | .classLiteral t => t.names
  | _ => []

/-- The names in the receiver of a call. -/
def Expr.receiverNames : Option Expr → List String
  | none => []
  | some e => e.names

/-- The names in several expressions. -/
def Expr.listNames : List Expr → List String
  | [] => []
  | e :: es => e.names ++ Expr.listNames es

end

/-- The names in a call. -/
def MethodCall.names (c : MethodCall) : List String :=
  c.name :: (Expr.receiverNames c.receiver ++ Expr.listNames c.args)

/-- The names in the type and the initial value of a variable. -/
def LocalVar.names (v : LocalVar) : List String :=
  v.type.names ++ Expr.receiverNames v.init ++ Expr.receiverNames v.iterable

/-- The names in the type of a parameter of a lambda. -/
def LambdaParam.names (p : LambdaParam) : List String := (p.type.toList).flatMap TypeRef.names

/-- The name of the class that a scope is the body of. -/
def ScopeKind.names : ScopeKind → List String
  | .anonymous base => base.names
  | _ => []

/-- The names in a scope. -/
def LexicalScope.names (s : LexicalScope) : List String :=
  s.kind.names ++ s.locals.flatMap LocalVar.names ++ s.lambdaParams.flatMap LambdaParam.names

/-- The names in a method body. -/
def Body.names (b : Body) : List String :=
  b.scopes.flatMap LexicalScope.names ++ b.calls.flatMap fun s => s.call.names

/-- A type parameter and the names in its bounds. -/
def TypeParam.names (p : TypeParam) : List String := p.name :: p.bounds.flatMap TypeRef.names

/-- The names in the signature and the body of a method. -/
def MethodDecl.innerNames (m : MethodDecl) : List String :=
  m.typeParams.flatMap TypeParam.names ++ m.params.flatMap (fun p => p.type.names) ++
    m.returnType.names ++ (m.body.toList).flatMap Body.names

/-- The names inside the declaration of a type. -/
def TypeDecl.innerNames (t : TypeDecl) : List String :=
  t.typeParams.flatMap TypeParam.names ++ t.extended.flatMap TypeRef.names ++
    t.implemented.flatMap TypeRef.names ++ t.fields.flatMap (fun f => f.type.names) ++
    t.methods.flatMap fun m => m.name :: m.innerNames

/-- The qualified name of a type and the names inside its declaration. -/
def TypeDecl.names (t : TypeDecl) : List String := t.qualifiedName :: t.innerNames

/-- The names at the head of a source file. -/
def CompilationUnit.names (u : CompilationUnit) : List String :=
  u.package.toList ++ u.imports.map (·.name)

/-! ## Names in the catalog -/

/-- A canonical name without its dimensions. -/
def elementName (name : String) : String :=
  String.ofList (countDimensions name.toList.reverse).2.reverse

/-- The types that a description mentions. -/
def CompiledType.mentioned (t : CompiledType) : List String :=
  t.superclass.toList ++ t.interfaces ++ t.methods.flatMap (fun m => m.returns :: m.params) ++
    t.fields.map (·.type)

/-- The names in a description; a mentioned type counts without its dimensions. -/
def CompiledType.names (t : CompiledType) : List String :=
  t.name :: t.mentioned.map elementName

/-- **The names that a code base is made of.** -/
def Codebase.names (c : Codebase) : List String :=
  c.units.flatMap CompilationUnit.names ++ c.types.flatMap TypeDecl.names ++
    c.catalog.types.flatMap CompiledType.names

/-- The names of all type parameters, of types and of methods. -/
def Codebase.variableNames (c : Codebase) : List String :=
  c.types.flatMap fun t =>
    t.typeParams.map TypeParam.name ++ t.methods.flatMap fun m => m.typeParams.map TypeParam.name

/-! ## Rules for names -/

/-- The types that the language itself mentions. -/
def builtinNames : List String :=
  [objectName, stringName, className, "java.lang.Enum", "java.lang.Record", "void"]

/-- A property of names that the names made up by the library have, too. -/
structure NameRule (Q : String → Prop) : Prop where
  builtin : ∀ n ∈ builtinNames, Q n
  dotted : ∀ {p n : String}, Q p → Q n → Q (p ++ "." ++ n)

theorem NameRule.isName : NameRule IsName := ⟨by decide, IsName.dotted⟩

/-- All names of a code base obey a rule. -/
structure Codebase.Obeys (c : Codebase) (Q : String → Prop) : Prop where
  rule : NameRule Q
  names : ∀ n ∈ c.names, Q n

/-- Every code base obeys the trivial rule. -/
theorem Codebase.Obeys.trivial (c : Codebase) : c.Obeys fun _ => True :=
  ⟨⟨fun _ _ => ⟨⟩, fun _ _ => ⟨⟩⟩, fun _ _ => ⟨⟩⟩

/-! ## Where the names come from -/

namespace Codebase

variable {c : Codebase} {Q : String → Prop}

theorem decl_eq_getElem {id : TypeId} (h : id.index < c.types.length) :
    c.decl id = c.types[id.index] := by
  rw [decl, List.getElem?_eq_getElem h, Option.getD_some]

theorem decl_eq_default {id : TypeId} (h : ¬id.index < c.types.length) : c.decl id = default := by
  rw [decl, List.getElem?_eq_none (Nat.le_of_not_lt h), Option.getD_none]

/-- A method of a type that is not declared is empty. -/
theorem method_eq_default {m : MethodRef} (h : ¬m.owner.index < c.types.length) :
    c.method m = default := by
  rw [method, decl_eq_default h]
  rfl

theorem mem_variableNames_of_decl {id : TypeId} {p : TypeParam}
    (hp : p ∈ (c.decl id).typeParams) : p.name ∈ c.variableNames := by
  by_cases hid : id.index < c.types.length
  · rw [decl_eq_getElem hid] at hp
    refine List.mem_flatMap.mpr ⟨_, List.getElem_mem hid, List.mem_append_left _ ?_⟩
    exact List.mem_map_of_mem hp
  · rw [decl_eq_default hid] at hp
    exact absurd hp List.not_mem_nil

theorem mem_variableNames_of_method {m : MethodRef} {p : TypeParam}
    (hp : p ∈ (c.method m).typeParams) : p.name ∈ c.variableNames := by
  rw [Codebase.method] at hp
  cases hm : (c.decl m.owner).methods[m.position]? with
  | none =>
    rw [hm, Option.getD_none] at hp
    exact absurd hp List.not_mem_nil
  | some d =>
    rw [hm, Option.getD_some] at hp
    have hd := List.mem_of_getElem? hm
    have hid : m.owner.index < c.types.length := by
      by_contra hlt
      rw [decl_eq_default hlt] at hd
      exact absurd hd List.not_mem_nil
    rw [decl_eq_getElem hid] at hd
    refine List.mem_flatMap.mpr ⟨_, List.getElem_mem hid, List.mem_append_right _ ?_⟩
    exact List.mem_flatMap.mpr ⟨d, hd, List.mem_map_of_mem hp⟩

namespace Obeys

theorem declNames (h : c.Obeys Q) {id : TypeId} (hid : id.index < c.types.length) {n : String}
    (hn : n ∈ (c.decl id).names) : Q n := by
  rw [decl_eq_getElem hid] at hn
  refine h.names n (List.mem_append_left _ (List.mem_append_right _ ?_))
  exact List.mem_flatMap.mpr ⟨_, List.getElem_mem hid, hn⟩

/-- The names inside a declaration obey the rule, also when there is no such declaration. -/
theorem innerNames (h : c.Obeys Q) (id : TypeId) {n : String}
    (hn : n ∈ (c.decl id).innerNames) : Q n := by
  by_cases hid : id.index < c.types.length
  · exact h.declNames hid (List.mem_cons_of_mem _ hn)
  · rw [decl_eq_default hid] at hn
    exact absurd hn List.not_mem_nil

theorem methodNames (h : c.Obeys Q) {m : MethodRef} {n : String}
    (hn : n ∈ (c.method m).innerNames) : Q n := by
  rw [Codebase.method] at hn
  cases hm : (c.decl m.owner).methods[m.position]? with
  | none =>
    rw [hm, Option.getD_none] at hn
    exact absurd hn List.not_mem_nil
  | some d =>
    rw [hm, Option.getD_some] at hn
    refine h.innerNames m.owner (List.mem_append_right _ ?_)
    exact List.mem_flatMap.mpr ⟨d, List.mem_of_getElem? hm, List.mem_cons_of_mem _ hn⟩

theorem unitNames (h : c.Obeys Q) (id : TypeId) {n : String} (hn : n ∈ (c.unitOf id).names) :
    Q n := by
  rw [unitOf, unit] at hn
  cases hu : c.units[(c.decl id).unit.index]? with
  | none =>
    rw [hu, Option.getD_none] at hn
    exact absurd hn List.not_mem_nil
  | some u =>
    rw [hu, Option.getD_some] at hn
    refine h.names n (List.mem_append_left _ (List.mem_append_left _ ?_))
    exact List.mem_flatMap.mpr ⟨u, List.mem_of_getElem? hu, hn⟩

theorem catalogNames (h : c.Obeys Q) {t : CompiledType} (ht : t ∈ c.catalog.types) {n : String}
    (hn : n ∈ t.names) : Q n :=
  h.names n (List.mem_append_right _ (List.mem_flatMap.mpr ⟨t, ht, hn⟩))

end Obeys

end Codebase

end JavaCallGraph
