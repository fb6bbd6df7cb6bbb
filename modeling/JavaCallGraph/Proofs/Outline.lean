import JavaCallGraph.Proofs.Layers
import JavaCallGraph.Proofs.Typing.Acceptance
import JavaCallGraph.Typing.Inference

/-!
# A code base without its methods

Names, written types, supertypes and fields have nothing to do with methods.  The *outline* of a code
base is the same code base with no methods in it, neither in its declarations nor in its catalog, and
every lookup in the outline is the outline of the lookup.

A described type holds its methods, so even a resolved type has an outline of its own.  Two resolved
types with the same outline are the same type as far as anything but its methods is concerned.

* `Codebase.outline_lookup?`, `Codebase.outline_qualify` — what a name and what a written type stand for;
* `Codebase.outline_withAncestors` — the supertypes;
* `Codebase.accepts_outline` — whether a parameter accepts an argument;
* `Codebase.outline_fieldType?` — the type of a field.
-/

set_option autoImplicit false

namespace JavaCallGraph

/-! ## Outlines -/

/-- The description without methods. -/
def CompiledType.outline (t : CompiledType) : CompiledType := { t with methods := [] }

/-- The declaration without methods. -/
def TypeDecl.outline (t : TypeDecl) : TypeDecl := { t with methods := [] }

/-- The catalog without methods. -/
def Catalog.outline (c : Catalog) : Catalog := ⟨c.types.map CompiledType.outline⟩

/-- **The code base without methods.** -/
def Codebase.outline (c : Codebase) : Codebase :=
  ⟨c.units, c.types.map TypeDecl.outline, c.catalog.outline⟩

namespace TypeInfo

mutual

/-- The resolved type without methods. -/
def outline : TypeInfo → TypeInfo
  | source id n => source id n
  | compiled t => compiled t.outline
  | primitive p => primitive p
  | array t => array t.outline
  | typeVar n bounds => typeVar n (outlines bounds)
  | unresolved n => unresolved n

/-- The resolved types without methods. -/
def outlines : List TypeInfo → List TypeInfo
  | [] => []
  | t :: ts => t.outline :: outlines ts

end

@[simp]
theorem outlines_eq_map (ts : List TypeInfo) : outlines ts = ts.map outline := by
  induction ts with
  | nil => rfl
  | cons t ts ih => rw [outlines, ih, List.map_cons]

@[simp]
theorem name_outline (t : TypeInfo) : t.outline.name = t.name := by
  cases t with
  | array t =>
    rw [outline, name, name, name_outline t]
  | _ => rfl

/-- Types with the same outlines have the same names. -/
theorem map_name_eq {ts ts' : List TypeInfo} (h : ts.map outline = ts'.map outline) :
    ts.map name = ts'.map name := by
  have hnames : ∀ ts : List TypeInfo, (ts.map outline).map name = ts.map name := fun ts => by
    rw [List.map_map]
    exact List.map_congr_left fun t _ => name_outline t
  rw [← hnames, h, hnames]

@[simp]
theorem primitive?_outline (t : TypeInfo) : t.outline.primitive? = t.primitive? := by
  cases t <;> rfl

@[simp]
theorem isKnown_outline (t : TypeInfo) : t.outline.isKnown = t.isKnown := by
  cases t with
  | array t => rw [outline, isKnown, isKnown, isKnown_outline t]
  | _ => rfl

theorem outline_known? (t : TypeInfo) : t.known?.map outline = t.outline.known? := by
  rw [known?, known?, isKnown_outline]
  split <;> rfl

theorem outline_bind_known? (o : Option TypeInfo) :
    (o.bind known?).map outline = (o.map outline).bind known? := by
  cases o with
  | none => rfl
  | some t => exact outline_known? t

theorem outline_withDimensions (t : TypeInfo) (n : Nat) :
    (t.withDimensions n).outline = t.outline.withDimensions n := by
  induction n with
  | zero => rfl
  | succ n ih => rw [withDimensions, withDimensions, outline, ih]

end TypeInfo

namespace Codebase

variable {c : Codebase}

/-! ## Declarations -/

theorem decl_outline (id : TypeId) : c.outline.decl id = (c.decl id).outline := by
  rw [decl, decl, outline, List.getElem?_map]
  cases c.types[id.index]? <;> rfl

theorem unitOf_outline (id : TypeId) : c.outline.unitOf id = c.unitOf id := by
  rw [unitOf, unitOf, decl_outline]
  rfl

theorem importsOf_outline (id : TypeId) : c.outline.importsOf id = c.importsOf id := by
  rw [importsOf, importsOf, unitOf_outline]

theorem packageOf_outline (id : TypeId) : c.outline.packageOf id = c.packageOf id := by
  rw [packageOf, packageOf, unitOf_outline]

theorem enclosing_outline (id : TypeId) : c.outline.enclosing id = c.enclosing id := by
  fun_induction enclosing c id with
  | case1 id ih =>
    have houter : (c.outline.decl id).outer = (c.decl id).outer := by
      rw [decl_outline]
      rfl
    rw [enclosing, houter]
    refine congrArg (id :: ·) ?_
    cases (c.decl id).outer with
    | none => rfl
    | some o =>
      by_cases hlt : o.index < id.index
      · simp only [hlt, if_true, ih o hlt]
      · simp only [hlt, if_false]

theorem resolveType?_outline (n : String) : c.outline.resolveType? n = c.resolveType? n := by
  rw [resolveType?, resolveType?, outline, List.findIdx?_map]
  rfl

theorem outline_sourceType (id : TypeId) : (c.sourceType id).outline = c.outline.sourceType id := by
  rw [sourceType, sourceType, decl_outline]
  rfl

theorem typeScope_outline (id : TypeId) : c.outline.typeScope id = c.typeScope id := by
  rw [typeScope, typeScope, decl_outline]
  rfl

theorem lookup?_catalog_outline (n : String) :
    c.outline.catalog.lookup? n = (c.catalog.lookup? n).map CompiledType.outline := by
  rw [Catalog.lookup?, Catalog.lookup?, outline, Catalog.outline, List.find?_map]
  rfl

/-! ## Names -/

theorem outline_known? (n : String) : (c.known? n).map TypeInfo.outline = c.outline.known? n := by
  rw [known?, known?, resolveType?_outline]
  split
  · rw [Option.map_some, outline_sourceType]
  · rw [lookup?_catalog_outline, Option.map_map, Option.map_map]
    rfl

theorem outline_elementInfo (n : String) : (c.elementInfo n).outline = c.outline.elementInfo n := by
  rw [elementInfo, elementInfo]
  split
  · rfl
  · rw [← outline_known?]
    cases c.known? n <;> rfl

theorem outline_typeInfo (n : String) : (c.typeInfo n).outline = c.outline.typeInfo n := by
  rw [typeInfo, typeInfo, TypeInfo.outline_withDimensions, outline_elementInfo]

theorem outline_objectType : c.objectType.outline = c.outline.objectType := outline_typeInfo _

theorem outline_erased (t : TypeInfo) : (c.erased t).outline = c.outline.erased t.outline := by
  cases t with
  | typeVar n bounds =>
    cases bounds with
    | nil => exact outline_objectType
    | cons b bounds => rfl
  | _ => rfl

theorem outline_knownDotted? (n : String) :
    (c.knownDotted? n).map TypeInfo.outline = c.outline.knownDotted? n := by
  rw [knownDotted?, knownDotted?, List.map_findSome?]
  exact congrArg (List.findSome? · _) (funext outline_known?)

theorem outline_lookupAround? (n : String) (context : TypeId) :
    (c.lookupAround? n context).map TypeInfo.outline = c.outline.lookupAround? n context := by
  rw [lookupAround?, lookupAround?, List.map_findSome?, enclosing_outline]
  refine congrArg (List.findSome? · _) (funext fun t => ?_)
  rw [Function.comp_apply, Option.map_or, outline_known?, decl_outline, ← outline_sourceType]
  refine congrArg _ ?_
  show Option.map _ (if (c.decl t).name == n then _ else _) =
    if (c.decl t).outline.name == n then _ else _
  rw [TypeDecl.outline]
  split <;> rfl

theorem outline_lookupImported? (n : String) (context : TypeId) :
    (c.lookupImported? n context).map TypeInfo.outline = c.outline.lookupImported? n context := by
  rw [lookupImported?, lookupImported?, importsOf_outline, Option.map_map]
  refine congrArg (Option.map · _) (funext fun i => ?_)
  rw [Function.comp_apply, ← outline_knownDotted?]
  cases c.knownDotted? i.name <;> rfl

theorem inPackageOf_outline (n : String) (context : TypeId) :
    c.outline.inPackageOf n context = c.inPackageOf n context := by
  rw [inPackageOf, inPackageOf, packageOf_outline]

theorem outline_lookupOnDemand? (n : String) (context : TypeId) :
    (c.lookupOnDemand? n context).map TypeInfo.outline = c.outline.lookupOnDemand? n context := by
  rw [lookupOnDemand?, lookupOnDemand?, importsOf_outline, List.map_findSome?]
  exact congrArg (List.findSome? · _) (funext fun i => outline_knownDotted? _)

theorem outline_lookupSimple? (n : String) (context : TypeId) :
    (c.lookupSimple? n context).map TypeInfo.outline = c.outline.lookupSimple? n context := by
  simp only [lookupSimple?, Option.map_or, outline_lookupAround?, outline_lookupImported?,
    outline_known?, outline_lookupOnDemand?, inPackageOf_outline]

/-- **A name stands for the same in the outline.** -/
theorem outline_lookup? (n : String) (context : TypeId) :
    (c.lookup? n context).map TypeInfo.outline = c.outline.lookup? n context := by
  rw [lookup?, lookup?]
  split
  · exact outline_lookupSimple? n context
  · rw [Option.map_or, outline_knownDotted?, Option.map_bind, ← outline_lookupSimple?,
      Option.bind_map]
    refine congrArg _ (congrArg (Option.bind _) (funext fun outer => ?_))
    rw [Function.comp_apply, Function.comp_apply, outline_known?, TypeInfo.name_outline]

/-! ## Written types -/

theorem outline_qualifyName (scope : TypeScope) (n : String) :
    (c.qualifyName scope n).outline = c.outline.qualifyName scope n := by
  rw [qualifyName, qualifyName, ← outline_lookup?, inPackageOf_outline]
  cases c.lookup? n scope.type with
  | some t => rfl
  | none =>
    simp only [Option.map_none]
    split <;> rfl

theorem outline_qualifyWith {named named' : String → TypeInfo}
    (h : ∀ n, (named n).outline = named' n) (t : TypeRef) :
    (c.qualifyWith named t).outline = c.outline.qualifyWith named' t := by
  fun_induction qualifyWith c named t with
  | case1 => rfl
  | case2 => exact outline_objectType
  | case3 => exact outline_objectType
  | case4 bound ih => exact ih
  | case5 p => rfl
  | case6 t ih => exact congrArg TypeInfo.array ih
  | case7 n args => exact h n

theorem typeParam?_outline (scope : TypeScope) (n : String) :
    c.outline.typeParam? scope n = c.typeParam? scope n := by
  simp only [typeParam?, enclosing_outline, decl_outline]
  rfl

theorem outline_qualifyNameAt (scope : TypeScope) (depth : Nat) (n : String) :
    (c.qualifyNameAt scope depth n).outline = c.outline.qualifyNameAt scope depth n := by
  induction depth generalizing n with
  | zero =>
    rw [qualifyNameAt, qualifyNameAt, typeParam?_outline]
    split
    · exact outline_qualifyName scope n
    · rfl
  | succ depth ih =>
    rw [qualifyNameAt, qualifyNameAt, typeParam?_outline]
    split
    · exact outline_qualifyName scope n
    · next p _ =>
      rw [TypeInfo.outline, TypeInfo.outlines_eq_map, List.map_map]
      exact congrArg _ (List.map_congr_left fun b _ => outline_qualifyWith ih b)

/-- **A written type stands for the same in the outline.** -/
theorem outline_qualify (scope : TypeScope) (t : TypeRef) :
    (c.qualify scope t).outline = c.outline.qualify scope t :=
  outline_qualifyWith (outline_qualifyNameAt scope boundDepth) t

theorem outline_paramType (scope : TypeScope) (p : Param) :
    (c.paramType scope p).outline = c.outline.paramType scope p := by
  rw [paramType, paramType]
  split
  · rw [TypeInfo.outline, outline_qualify]
  · exact outline_qualify scope p.type

/-! ## Supertypes -/

theorem outline_superclass? (t : TypeInfo) :
    (c.superclass? t).map TypeInfo.outline = c.outline.superclass? t.outline := by
  cases t with
  | source id n =>
    rw [TypeInfo.outline, superclass?, superclass?, decl_outline, TypeDecl.outline]
    simp only
    split
    · rfl
    · rfl
    · rw [Option.map_some, outline_typeInfo]
    · rw [Option.map_some, outline_typeInfo]
    · split
      · rw [Option.map_some, outline_qualify, typeScope_outline]
      · rw [Option.map_some, outline_objectType]
  | compiled t =>
    rw [TypeInfo.outline, superclass?, superclass?, Option.map_map]
    exact congrArg (Option.map · _) (funext outline_typeInfo)
  | array t => exact congrArg some outline_objectType
  | typeVar n bounds => exact congrArg some (outline_erased (.typeVar n bounds))
  | _ => rfl

theorem outline_interfaces (t : TypeInfo) :
    (c.interfaces t).map TypeInfo.outline = c.outline.interfaces t.outline := by
  cases t with
  | source id n =>
    rw [TypeInfo.outline, interfaces, interfaces, List.map_map, decl_outline, typeScope_outline]
    exact congrArg (List.map · _) (funext fun r => outline_qualify _ r)
  | compiled t =>
    rw [TypeInfo.outline, interfaces, interfaces, List.map_map]
    exact congrArg (List.map · _) (funext outline_typeInfo)
  | _ => rfl

theorem searchBudget_outline : c.outline.searchBudget = c.searchBudget := by
  simp only [searchBudget, outline, Catalog.outline, Catalog.size, List.length_map, List.foldl_map]
  rfl

theorem outline_superclassChain (n : Nat) (seen : List String) (t : TypeInfo) :
    (c.superclassChain n seen t).map TypeInfo.outline = c.outline.superclassChain n seen t.outline := by
  induction n generalizing seen t with
  | zero => rfl
  | succ n ih =>
    rw [superclassChain, superclassChain, ← outline_superclass?]
    cases c.superclass? t with
    | none => rfl
    | some parent =>
      simp only [Option.map_some, TypeInfo.name_outline]
      split
      · rfl
      · rw [List.map_cons, ih]

theorem outline_superclasses (t : TypeInfo) :
    (c.superclasses t).map TypeInfo.outline = c.outline.superclasses t.outline := by
  rw [superclasses, superclasses, outline_superclassChain, searchBudget_outline,
    TypeInfo.name_outline]

theorem outline_ancestors (t : TypeInfo) :
    (c.ancestors t).map TypeInfo.outline = c.outline.ancestors t.outline := by
  have hchain : (t :: c.superclasses t).map TypeInfo.outline =
      t.outline :: c.outline.superclasses t.outline := by
    rw [List.map_cons, outline_superclasses]
  simp only [ancestors]
  have hnames : ((t :: c.superclasses t).map TypeInfo.outline).map TypeInfo.name =
      (t :: c.superclasses t).map TypeInfo.name := by
    rw [List.map_map]
    exact List.map_congr_left fun s _ => TypeInfo.name_outline s
  rw [← hchain, hnames, searchBudget_outline, Layers.layers_map (fun t => TypeInfo.name_outline t)
    (fun t => (outline_interfaces t).symm), ← List.map_flatten, List.map_append, List.map_tail]

/-- **The supertypes are the same in the outline**, in the same order. -/
theorem outline_withAncestors (t : TypeInfo) :
    (c.withAncestors t).map TypeInfo.outline = c.outline.withAncestors t.outline := by
  rw [withAncestors, withAncestors, List.map_cons, outline_ancestors]

/-! ## Values and variables -/

theorem any_name_ancestors_outline (n m : String) :
    ((c.outline.ancestors (c.outline.typeInfo n)).any fun a => a.name == m) =
      (c.ancestors (c.typeInfo n)).any fun a => a.name == m := by
  rw [← outline_typeInfo, ← outline_ancestors, List.any_map]
  exact congrArg (List.any _) (funext fun a => by rw [Function.comp_apply, TypeInfo.name_outline])

mutual

theorem isAssignable_outline (t : TypeInfo) (sub : String) :
    c.outline.isAssignable t.outline sub = c.isAssignable t sub := by
  cases t with
  | typeVar n bounds =>
    rw [TypeInfo.outline, isAssignable, isAssignable, allAssignable_outlines bounds sub]
  | primitive p => rfl
  | array t =>
    rw [TypeInfo.outline, isAssignable, isAssignable, TypeInfo.name, TypeInfo.name, TypeInfo.name_outline]
    cases componentName? sub with
    | none => rfl
    | some sub => exact congrArg _ (isAssignable_outline t sub)
  | source id n =>
    rw [isAssignable_nominal rfl, isAssignable_nominal rfl, any_name_ancestors_outline,
      TypeInfo.name_outline]
  | compiled t =>
    rw [isAssignable_nominal rfl, isAssignable_nominal rfl, any_name_ancestors_outline,
      TypeInfo.name_outline]
  | unresolved n =>
    rw [isAssignable_nominal rfl, isAssignable_nominal rfl, any_name_ancestors_outline,
      TypeInfo.name_outline]

theorem allAssignable_outlines (ts : List TypeInfo) (sub : String) :
    c.outline.allAssignable (TypeInfo.outlines ts) sub = c.allAssignable ts sub := by
  cases ts with
  | nil => rfl
  | cons t ts =>
    rw [TypeInfo.outlines, allAssignable, allAssignable, isAssignable_outline t sub,
      allAssignable_outlines ts sub]

end

theorem acceptsNamed_outline (p : TypeInfo) (arg : String) :
    c.outline.acceptsNamed p.outline arg = c.acceptsNamed p arg := by
  cases p with
  | primitive p => rfl
  | _ => exact isAssignable_outline _ _

/-- **A parameter accepts the same arguments in the outline.** -/
theorem accepts_outline (p a : TypeInfo) : c.outline.accepts p.outline a.outline = c.accepts p a := by
  cases ha : a.primitive? with
  | none =>
    have ha' : a.outline.primitive? = none := by rw [TypeInfo.primitive?_outline, ha]
    rw [accepts_eq_acceptsNamed ha, accepts_eq_acceptsNamed ha', TypeInfo.name_outline,
      acceptsNamed_outline]
  | some q =>
    obtain rfl := TypeInfo.eq_primitive ha
    cases p with
    | primitive p => rfl
    | typeVar n bounds => rfl
    | _ => exact isAssignable_outline _ _

theorem acceptsAll_outline (ps args : List TypeInfo) :
    c.outline.acceptsAll (ps.map TypeInfo.outline) (args.map TypeInfo.outline) = c.acceptsAll ps args := by
  rw [acceptsAll, acceptsAll, List.zip_map, List.all_map]
  exact congrArg (List.all _) (funext fun x => accepts_outline x.1 x.2)

/-! ## Fields -/

theorem outline_declaredFieldType? (t : TypeInfo) (n : String) :
    (c.declaredFieldType? t n).map TypeInfo.outline = c.outline.declaredFieldType? t.outline n := by
  cases t with
  | source id m =>
    rw [TypeInfo.outline, declaredFieldType?, declaredFieldType?, decl_outline, typeScope_outline,
      TypeDecl.outline]
    simp only
    split
    · rfl
    · rw [Option.map_map]
      exact congrArg (Option.map · _) (funext fun f => outline_qualify _ f.type)
  | compiled t =>
    rw [TypeInfo.outline, declaredFieldType?, declaredFieldType?, Option.map_map]
    exact congrArg (Option.map · _) (funext fun f => outline_typeInfo f.type)
  | _ => rfl

/-- **A field has the same type in the outline.** -/
theorem outline_fieldType? (t : TypeInfo) (n : String) :
    (c.fieldType? t n).map TypeInfo.outline = c.outline.fieldType? t.outline n := by
  have hinherited : ((c.withAncestors (c.erased t)).findSome? fun s =>
      c.declaredFieldType? s n).map TypeInfo.outline =
        (c.outline.withAncestors (c.outline.erased t.outline)).findSome? fun s =>
          c.outline.declaredFieldType? s n := by
    rw [List.map_findSome?, ← outline_erased, ← outline_withAncestors, List.findSome?_map]
    exact congrArg (List.findSome? · _) (funext fun s => outline_declaredFieldType? s n)
  cases t with
  | array t =>
    rw [TypeInfo.outline, fieldType?, fieldType?]
    split <;> rfl
  | _ => exact hinherited

/-! ## Inside a method body -/

theorem outline_thisType (ctx : ExprContext) :
    (c.thisType ctx).outline = c.outline.thisType ctx := by
  rw [thisType, thisType]
  split
  · exact outline_qualify _ _
  · exact outline_sourceType _

theorem outline_superType? (ctx : ExprContext) :
    (c.superType? ctx).map TypeInfo.outline = c.outline.superType? ctx := by
  rw [superType?, superType?]
  split
  · rw [Option.map_some, outline_qualify]
  · rw [outline_superclass?, outline_sourceType]

theorem outline_literalType? (l : Literal) :
    (c.literalType? l).map TypeInfo.outline = c.outline.literalType? l := by
  cases l with
  | string => exact congrArg some (outline_typeInfo _)
  | _ => rfl

theorem field?_decl_outline (id : TypeId) (n : String) :
    (c.outline.decl id).field? n = (c.decl id).field? n := by
  rw [decl_outline]
  rfl

theorem isTypeName_outline (ctx : ExprContext) (n : String) :
    c.outline.isTypeName ctx n = c.isTypeName ctx n := by
  rw [isTypeName, isTypeName, field?_decl_outline]

theorem outline_certainNameType? (ctx : ExprContext) (n : String) :
    (c.certainNameType? ctx n).map TypeInfo.outline = c.outline.certainNameType? ctx n := by
  rw [certainNameType?, certainNameType?]
  split
  · split
    · rfl
    · rw [Option.map_some, outline_qualify]
  · rw [Option.map_map]
    exact congrArg (Option.map · _) (funext fun r => outline_qualify _ r)
  · rw [Option.map_some, outline_paramType]
  · rw [Option.map_map, field?_decl_outline, typeScope_outline]
    exact congrArg (Option.map · _) (funext fun f => outline_qualify _ f.type)

end Codebase

end JavaCallGraph
