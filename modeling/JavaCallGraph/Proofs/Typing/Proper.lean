import JavaCallGraph.Codebase.Hierarchy
import JavaCallGraph.Proofs.Names

/-!
# The types that a code base hands out

A resolved type is *proper* when it says the truth about its code base: a declared type has a place
there and goes by the qualified name of its declaration, a described one is what its name stands for, and
every name in it obeys the rule that all names of the code base obey.  Looking names up, qualifying
written types and walking up the hierarchy give proper types only.

* `Codebase.Obeys.lookup`, `Codebase.Obeys.qualify` — what a name and what a written type stand for
  inside a declared type;
* `Codebase.Obeys.mem_ancestors` — every supertype is proper.  For a declared type this needs no
  assumption on the type itself, since its supertypes are read off its declaration; `Rooted` is the
  part of properness that a walk up the hierarchy starts from.
-/

set_option autoImplicit false

namespace JavaCallGraph

/-- A type that the code base `c` can hand out, with names that obey `Q`. -/
inductive TypeInfo.Proper (c : Codebase) (Q : String → Prop) : TypeInfo → Prop
  | source {id : TypeId} {n : String} (hid : id.index < c.types.length)
      (hn : n = (c.decl id).qualifiedName) (hq : Q n) : Proper c Q (.source id n)
  | compiled {t : CompiledType} (hn : c.known? t.name = some (.compiled t)) (hq : Q t.name) :
      Proper c Q (.compiled t)
  | primitive (p : Primitive) : Proper c Q (.primitive p)
  | array {t : TypeInfo} (ht : Proper c Q t) : Proper c Q (.array t)
  | typeVar {n : String} {bounds : List TypeInfo} (hv : n ∈ c.variableNames) (hq : Q n)
      (hb : ∀ b ∈ bounds, Proper c Q b) : Proper c Q (.typeVar n bounds)
  | unresolved {n : String} (hq : Q n) : Proper c Q (.unresolved n)

/-- **The name of a proper type is a name.** -/
theorem TypeInfo.Proper.isName {c : Codebase} {t : TypeInfo} (h : t.Proper c IsName) :
    IsName t.name := by
  induction h with
  | source hid hn hq => exact hq
  | compiled hn hq => exact hq
  | primitive p => cases p <;> decide
  | array ht ih => exact ih.array
  | typeVar hv hq hb ih => exact hq
  | unresolved hq => exact hq

/-- The name of an array ends with a dimension. -/
theorem TypeInfo.getLast?_name_array (t : TypeInfo) :
    (TypeInfo.array t).name.toList.getLast? = some ']' := by
  have hbracket : "[]".toList.getLast? = some ']' := by decide
  rw [TypeInfo.name, String.toList_append, List.getLast?_append, hbracket, Option.some_or]

/-- A proper type variable is declared somewhere. -/
theorem TypeInfo.Proper.mem_variableNames {c : Codebase} {Q : String → Prop} {t : TypeInfo}
    (h : t.Proper c Q) (hv : t.isVariable = true) : t.name ∈ c.variableNames := by
  cases h with
  | typeVar hmem _ _ => exact hmem
  | _ => exact absurd hv (by simp [TypeInfo.isVariable])

namespace Codebase

variable {c : Codebase} {Q : String → Prop}

/-! ## Canonical names -/

theorem resolveType?_eq_some {n : String} {id : TypeId} (h : c.resolveType? n = some id) :
    id.index < c.types.length ∧ (c.decl id).qualifiedName = n := by
  rw [resolveType?, Option.map_eq_some_iff] at h
  obtain ⟨i, hi, rfl⟩ := h
  obtain ⟨hlt, hp, -⟩ := List.findIdx?_eq_some_iff_getElem.mp hi
  refine ⟨hlt, ?_⟩
  rw [decl_eq_getElem hlt]
  exact beq_iff_eq.mp hp

/-- **What is known** is declared, or else described. -/
theorem known?_cases {n : String} {t : TypeInfo} (h : c.known? n = some t) :
    (∃ id, c.resolveType? n = some id ∧ t = c.sourceType id) ∨
      ∃ u, c.catalog.lookup? n = some u ∧ t = .compiled u := by
  rw [known?] at h
  split at h
  · next id hid => exact Or.inl ⟨id, hid, (Option.some.inj h).symm⟩
  · obtain ⟨u, hu, rfl⟩ := Option.map_eq_some_iff.mp h
    exact Or.inr ⟨u, hu, rfl⟩

theorem mem_types_of_known? {t : CompiledType} {n : String}
    (h : c.known? n = some (.compiled t)) : t ∈ c.catalog.types := by
  obtain ⟨id, -, ht⟩ | ⟨u, hu, ht⟩ := known?_cases h
  · exact absurd ht TypeInfo.noConfusion
  · rw [TypeInfo.compiled.inj ht]
    exact List.mem_of_find?_eq_some hu

theorem name_of_known? {n : String} {t : TypeInfo} (h : c.known? n = some t) : t.name = n := by
  obtain ⟨id, hid, rfl⟩ | ⟨u, hu, rfl⟩ := known?_cases h
  · exact (resolveType?_eq_some hid).2
  · rw [Catalog.lookup?] at hu
    simpa [TypeInfo.name] using List.find?_some hu

theorem name_elementInfo (n : String) : (c.elementInfo n).name = n := by
  rw [elementInfo]
  split
  · next p hp =>
    rw [Primitive.ofName?] at hp
    simpa [TypeInfo.name] using List.find?_some hp
  · cases hk : c.known? n with
    | none => rfl
    | some t => exact name_of_known? hk

/-- The types around a declared type have places before it. -/
theorem index_le_of_mem_enclosing {id t : TypeId} (h : t ∈ c.enclosing id) :
    t.index ≤ id.index := by
  fun_induction enclosing c id with
  | case1 id ih =>
    rcases List.mem_cons.mp h with rfl | h
    · exact Nat.le_refl _
    · split at h
      · exact absurd h List.not_mem_nil
      · next o _ =>
        split at h
        · next hlt => exact Nat.le_trans (ih o hlt h) (Nat.le_of_lt hlt)
        · exact absurd h List.not_mem_nil

theorem name_withDimensions (t : TypeInfo) (k : Nat) :
    (t.withDimensions k).name.toList = t.name.toList ++ (List.replicate k ['[', ']']).flatten := by
  induction k with
  | zero => rw [TypeInfo.withDimensions, List.replicate_zero, List.flatten_nil, List.append_nil]
  | succ k ih =>
    rw [TypeInfo.withDimensions, TypeInfo.name, String.toList_append, ih, List.append_assoc,
      List.replicate_succ', List.flatten_append]
    rfl

theorem countDimensions_spec (cs : List Char) :
    cs = (List.replicate (countDimensions cs).1 [']', '[']).flatten ++ (countDimensions cs).2 := by
  fun_induction countDimensions cs with
  | case1 cs n rest hn ih =>
    rw [hn] at ih
    rw [List.replicate_succ, List.flatten_cons, List.append_assoc, ← ih]
    rfl
  | case2 cs hcs => rfl

/-- **A canonical name stands for a type of that name.** -/
theorem name_typeInfo (n : String) : (c.typeInfo n).name = n := by
  have hspec := congrArg List.reverse (countDimensions_spec n.toList.reverse)
  rw [List.reverse_reverse, List.reverse_append, List.reverse_flatten, List.map_replicate,
    List.reverse_replicate] at hspec
  rw [← String.toList_inj, typeInfo, name_withDimensions, name_elementInfo,
    String.toList_ofList]
  exact hspec.symm

theorem proper_withDimensions {t : TypeInfo} (ht : t.Proper c Q) (k : Nat) :
    (t.withDimensions k).Proper c Q := by
  induction k with
  | zero => exact ht
  | succ k ih => exact .array ih

/-! ## What a name inside a type can stand for -/

theorem exists_known?_of_knownDotted? {n : String} {t : TypeInfo}
    (h : c.knownDotted? n = some t) : ∃ m, c.known? m = some t := by
  obtain ⟨m, -, hm⟩ := List.exists_of_findSome?_eq_some h
  exact ⟨m, hm⟩

theorem lookupSimple?_cases {n : String} {context : TypeId} {t : TypeInfo}
    (h : c.lookupSimple? n context = some t) :
    (∃ m, c.known? m = some t) ∨
      (∃ o ∈ c.enclosing context, (c.decl o).name = n ∧ t = c.sourceType o) ∨
      ∃ i ∈ c.importsOf context, c.knownDotted? i.name = none ∧ t = .unresolved i.name := by
  rcases Option.or_eq_some_iff.mp h with h | ⟨-, h⟩
  · obtain ⟨o, ho, hot⟩ := List.exists_of_findSome?_eq_some h
    rcases Option.or_eq_some_iff.mp hot with hot | ⟨-, hot⟩
    · exact Or.inl ⟨_, hot⟩
    · split at hot
      · next hname =>
        exact Or.inr (Or.inl ⟨o, ho, beq_iff_eq.mp hname, (Option.some.inj hot).symm⟩)
      · exact absurd hot (by simp)
  rcases Option.or_eq_some_iff.mp h with h | ⟨-, h⟩
  · obtain ⟨i, hi, rfl⟩ := Option.map_eq_some_iff.mp h
    cases hk : c.knownDotted? i.name with
    | none => exact Or.inr (Or.inr ⟨i, List.mem_of_find?_eq_some hi, hk, rfl⟩)
    | some t => exact Or.inl (exists_known?_of_knownDotted? hk)
  rcases Option.or_eq_some_iff.mp h with h | ⟨-, h⟩
  · exact Or.inl ⟨_, h⟩
  rcases Option.or_eq_some_iff.mp h with h | ⟨-, h⟩
  · obtain ⟨i, -, hi⟩ := List.exists_of_findSome?_eq_some h
    exact Or.inl (exists_known?_of_knownDotted? hi)
  · exact Or.inl ⟨_, h⟩

/-- **What a name inside a type stands for** is known under a canonical name, or one of the types
around, or else a type that is imported by its name and not known. -/
theorem lookup?_cases {n : String} {context : TypeId} {t : TypeInfo}
    (h : c.lookup? n context = some t) :
    (∃ m, c.known? m = some t) ∨
      (∃ o ∈ c.enclosing context, (c.decl o).name = n ∧ t = c.sourceType o) ∨
      ∃ i ∈ c.importsOf context, c.knownDotted? i.name = none ∧ t = .unresolved i.name := by
  rw [lookup?] at h
  split at h
  · exact lookupSimple?_cases h
  · rcases Option.or_eq_some_iff.mp h with h | ⟨-, h⟩
    · exact Or.inl (exists_known?_of_knownDotted? h)
    · obtain ⟨outer, -, ho⟩ := Option.bind_eq_some_iff.mp h
      exact Or.inl ⟨_, ho⟩

/-- **Case by case over a written type**: what holds of the missing result, the root class and the
primitive types, and of arrays of what it holds of, and of what the names in a written type stand for, holds
of what the written type stands for. -/
theorem qualifyWith_induction {motive : TypeInfo → Prop} {named : String → TypeInfo} (t : TypeRef)
    (void : motive .void) (object : motive c.objectType) (primitive : ∀ p, motive (.primitive p))
    (array : ∀ t, motive t → motive (.array t)) (names : ∀ n ∈ t.names, motive (named n)) :
    motive (c.qualifyWith named t) := by
  fun_induction Codebase.qualifyWith c named t with
  | case1 => exact void
  | case2 => exact object
  | case3 => exact object
  | case4 bound ih => exact ih fun n hn => names n (by rwa [TypeRef.names])
  | case5 p => exact primitive p
  | case6 t ih => exact array _ (ih fun n hn => names n (by rwa [TypeRef.names]))
  | case7 n args => exact names n (by simp [TypeRef.names])

namespace Obeys

theorem known (h : c.Obeys Q) {n : String} {t : TypeInfo} (ht : c.known? n = some t) :
    t.Proper c Q := by
  have hn := name_of_known? ht
  obtain ⟨id, hid, rfl⟩ | ⟨u, -, rfl⟩ := known?_cases ht
  · have hlt := (resolveType?_eq_some hid).1
    exact .source hlt rfl (h.declNames hlt List.mem_cons_self)
  · rw [← hn] at ht
    exact .compiled ht (h.catalogNames (mem_types_of_known? ht) List.mem_cons_self)

theorem typeInfo (h : c.Obeys Q) {n : String} (hn : Q (elementName n)) :
    (c.typeInfo n).Proper c Q := by
  rw [Codebase.typeInfo]
  refine proper_withDimensions ?_ _
  rw [elementInfo]
  split
  · exact .primitive _
  · cases hk : c.known? (elementName n) with
    | none =>
      rw [elementName] at hk
      rw [hk]
      exact .unresolved hn
    | some t =>
      rw [elementName] at hk
      rw [hk]
      exact h.known hk

theorem builtin (h : c.Obeys Q) {n : String} (hn : n ∈ builtinNames) :
    (c.typeInfo n).Proper c Q := by
  have he : ∀ m ∈ builtinNames, elementName m = m := by decide
  exact h.typeInfo (by rw [he n hn]; exact h.rule.builtin n hn)

theorem objectType (h : c.Obeys Q) : c.objectType.Proper c Q := h.builtin (by decide)

theorem mentioned (h : c.Obeys Q) {t : CompiledType} (ht : (TypeInfo.compiled t).Proper c Q)
    {n : String} (hn : n ∈ t.mentioned) : (c.typeInfo n).Proper c Q := by
  cases ht with
  | compiled hk _ =>
    refine h.typeInfo (h.catalogNames (mem_types_of_known? hk) ?_)
    exact List.mem_cons_of_mem _ (List.mem_map_of_mem hn)

theorem erased (h : c.Obeys Q) {t : TypeInfo} (ht : t.Proper c Q) : (c.erased t).Proper c Q := by
  cases ht with
  | @typeVar n bounds hv hq hb =>
    cases bounds with
    | nil => exact h.objectType
    | cons b bs => exact hb b List.mem_cons_self
  | source hid hn hq => exact .source hid hn hq
  | compiled hn hq => exact .compiled hn hq
  | primitive p => exact .primitive p
  | array ht => exact .array ht
  | unresolved hq => exact .unresolved hq

/-! ## Names inside a type -/

theorem knownDotted (h : c.Obeys Q) {n : String} {t : TypeInfo} (ht : c.knownDotted? n = some t) :
    t.Proper c Q := by
  obtain ⟨m, hm⟩ := exists_known?_of_knownDotted? ht
  exact h.known hm

/-- **A simple or dotted name inside a declared type stands for a proper type.** -/
theorem lookup (h : c.Obeys Q) {n : String} {context : TypeId}
    (hcontext : context.index < c.types.length) {t : TypeInfo} (ht : c.lookup? n context = some t) :
    t.Proper c Q := by
  obtain ⟨m, hm⟩ | ⟨o, ho, -, rfl⟩ | ⟨i, hi, -, rfl⟩ := lookup?_cases ht
  · exact h.known hm
  · have hid := Nat.lt_of_le_of_lt (index_le_of_mem_enclosing ho) hcontext
    exact .source hid rfl (h.declNames hid List.mem_cons_self)
  · refine .unresolved (h.unitNames context (List.mem_append_right _ ?_))
    exact List.mem_map_of_mem hi

theorem staticImportOwners (h : c.Obeys Q) {context : TypeId} {member : String} {t : TypeInfo}
    (ht : t ∈ c.staticImportOwners context member) : t.Proper c Q := by
  obtain ⟨i, -, hi⟩ := List.mem_filterMap.mp ht
  split at hi
  · exact h.knownDotted hi
  · split at hi
    · split at hi
      · exact h.knownDotted hi
      · exact absurd hi (by simp)
    · exact absurd hi (by simp)

/-! ## Written types -/

theorem inPackageOf (h : c.Obeys Q) {n : String} (hn : Q n) (context : TypeId) :
    Q (c.inPackageOf n context) := by
  rw [Codebase.inPackageOf]
  split
  · next p hp =>
    refine h.rule.dotted (h.unitNames context (List.mem_append_left _ ?_)) hn
    exact Option.mem_toList.mpr hp
  · exact hn

theorem qualifyName (h : c.Obeys Q) {n : String} (hn : Q n) {scope : TypeScope}
    (hs : scope.type.index < c.types.length) : (c.qualifyName scope n).Proper c Q := by
  rw [Codebase.qualifyName]
  split
  · next t ht => exact h.lookup hs ht
  · split
    · exact .unresolved hn
    · exact .unresolved (h.inPackageOf hn _)

theorem qualifyWith (h : c.Obeys Q) {named : String → TypeInfo}
    (hnamed : ∀ n, Q n → (named n).Proper c Q) {t : TypeRef} (ht : ∀ n ∈ t.names, Q n) :
    (c.qualifyWith named t).Proper c Q := by
  refine qualifyWith_induction t ?_ h.objectType .primitive (fun _ => .array) fun n hn => ?_
  · exact .unresolved (h.rule.builtin _ (by decide))
  · exact hnamed n (ht n hn)

/-- The type around a scope is declared.  So are the type parameters in it, and their names obey the
rule. -/
structure ScopeObeys (c : Codebase) (Q : String → Prop) (scope : TypeScope) : Prop where
  placed : scope.type.index < c.types.length
  declared : ∀ p ∈ scope.params, p.name ∈ c.variableNames
  names : ∀ p ∈ scope.params, ∀ n ∈ p.names, Q n

theorem typeParamNames (h : c.Obeys Q) {id : TypeId} {p : TypeParam}
    (hp : p ∈ (c.decl id).typeParams) {n : String} (hn : n ∈ p.names) : Q n := by
  refine h.innerNames id ?_
  simp only [TypeDecl.innerNames, List.append_assoc]
  exact List.mem_append_left _ (List.mem_flatMap.mpr ⟨p, hp, hn⟩)

theorem typeParam (h : c.Obeys Q) {scope : TypeScope} (hs : ScopeObeys c Q scope) {n : String}
    {p : TypeParam} (hp : c.typeParam? scope n = some p) :
    p.name ∈ c.variableNames ∧ ∀ m ∈ p.names, Q m := by
  rw [typeParam?] at hp
  split at hp
  · exact absurd hp (by simp)
  · rcases Option.or_eq_some_iff.mp hp with hp | ⟨-, hp⟩
    · have hmem := List.mem_of_find?_eq_some hp
      exact ⟨hs.declared p hmem, hs.names p hmem⟩
    · obtain ⟨t, -, ht⟩ := List.exists_of_findSome?_eq_some hp
      have hmem := List.mem_of_find?_eq_some ht
      exact ⟨mem_variableNames_of_decl hmem, fun m hm => h.typeParamNames hmem hm⟩

theorem qualifyNameAt (h : c.Obeys Q) {scope : TypeScope} (hs : ScopeObeys c Q scope) (depth : Nat)
    {n : String} (hn : Q n) : (c.qualifyNameAt scope depth n).Proper c Q := by
  induction depth generalizing n with
  | zero =>
    rw [Codebase.qualifyNameAt]
    split
    · exact h.qualifyName hn hs.placed
    · next p hp =>
      obtain ⟨hv, hnames⟩ := h.typeParam hs hp
      exact .typeVar hv (hnames _ List.mem_cons_self) fun b hb => absurd hb List.not_mem_nil
  | succ depth ih =>
    rw [Codebase.qualifyNameAt]
    split
    · exact h.qualifyName hn hs.placed
    · next p hp =>
      obtain ⟨hv, hnames⟩ := h.typeParam hs hp
      refine .typeVar hv (hnames _ List.mem_cons_self) fun b hb => ?_
      obtain ⟨r, hr, rfl⟩ := List.mem_map.mp hb
      refine h.qualifyWith (fun m hm => ih hm) fun m hm => ?_
      exact hnames m (List.mem_cons_of_mem _ (List.mem_flatMap.mpr ⟨r, hr, hm⟩))

/-- **A written type stands for a proper type.** -/
theorem qualify (h : c.Obeys Q) {scope : TypeScope} (hs : ScopeObeys c Q scope) {t : TypeRef}
    (ht : ∀ n ∈ t.names, Q n) : (c.qualify scope t).Proper c Q :=
  h.qualifyWith (fun _ hn => h.qualifyNameAt hs boundDepth hn) ht

theorem typeScope (h : c.Obeys Q) {id : TypeId} (hid : id.index < c.types.length) :
    ScopeObeys c Q (c.typeScope id) where
  placed := hid
  declared _ hp := mem_variableNames_of_decl hp
  names _ hp _ hn := h.typeParamNames hp hn

theorem methodScope (h : c.Obeys Q) {m : MethodRef} (hm : m.owner.index < c.types.length) :
    ScopeObeys c Q (c.methodScope m) where
  placed := hm
  declared _ hp := mem_variableNames_of_method hp
  names p hp n hn := by
    refine h.methodNames (m := m) ?_
    simp only [MethodDecl.innerNames, List.append_assoc]
    exact List.mem_append_left _ (List.mem_flatMap.mpr ⟨p, hp, hn⟩)

theorem paramType (h : c.Obeys Q) {scope : TypeScope} (hs : ScopeObeys c Q scope) {p : Param}
    (hp : ∀ n ∈ p.type.names, Q n) : (c.paramType scope p).Proper c Q := by
  rw [Codebase.paramType]
  split
  · exact .array (h.qualify hs hp)
  · exact h.qualify hs hp

theorem paramNames (h : c.Obeys Q) {m : MethodRef} {p : Param} (hp : p ∈ (c.method m).params)
    {n : String} (hn : n ∈ p.type.names) : Q n := by
  refine h.methodNames (m := m) ?_
  simp only [MethodDecl.innerNames, List.append_assoc]
  exact List.mem_append_right _ (List.mem_append_left _ (List.mem_flatMap.mpr ⟨p, hp, hn⟩))

/-- **The parameter types of a method are proper.** -/
theorem paramTypes (h : c.Obeys Q) {m : MethodRef} {t : TypeInfo} (ht : t ∈ c.paramTypes m) :
    t.Proper c Q := by
  obtain ⟨p, hp, rfl⟩ := List.mem_map.mp ht
  have hm : m.owner.index < c.types.length := by
    by_contra hlt
    rw [method_eq_default hlt] at hp
    exact absurd hp List.not_mem_nil
  exact h.paramType (h.methodScope hm) fun n hn => h.paramNames hp hn

/-! ## The hierarchy -/

end Obeys

theorem supertypes_array (t : TypeInfo) : c.supertypes (.array t) = [c.objectType] := rfl

/-- What has no place has the supertypes of an empty class. -/
theorem supertypes_of_unplaced {id : TypeId} (h : ¬id.index < c.types.length) (n : String) :
    c.supertypes (.source id n) = [c.objectType] := by
  rw [supertypes, superclass?, interfaces, decl_eq_default h]
  rfl

theorem supertypes_typeVar (n : String) (bounds : List TypeInfo) :
    c.supertypes (.typeVar n bounds) = [c.erased (.typeVar n bounds)] := rfl

/-- The chain of superclasses comes first, and behind it what is found through interfaces. -/
theorem withAncestors_eq_append (t : TypeInfo) : c.withAncestors t = (t :: c.superclasses t) ++
    (Layers.layers TypeInfo.name c.interfaces c.searchBudget
      ((t :: c.superclasses t).map TypeInfo.name) (t :: c.superclasses t)).flatten := rfl

/-- The types one step up are proper. -/
def Rooted (c : Codebase) (Q : String → Prop) (t : TypeInfo) : Prop :=
  ∀ s ∈ c.supertypes t, s.Proper c Q

namespace Obeys

theorem rooted_source (h : c.Obeys Q) (id : TypeId) (n : String) : c.Rooted Q (.source id n) := by
  intro s hs
  by_cases hid : id.index < c.types.length
  case neg =>
    rw [supertypes_of_unplaced hid, List.mem_singleton] at hs
    rw [hs]
    exact h.objectType
  rcases List.mem_append.mp hs with hs | hs
  · have hsuper := Option.mem_toList.mp hs
    rw [superclass?] at hsuper
    split at hsuper
    · exact absurd hsuper (by simp)
    · exact absurd hsuper (by simp)
    · rw [← Option.some.inj hsuper]
      exact h.builtin (by decide)
    · rw [← Option.some.inj hsuper]
      exact h.builtin (by decide)
    · split at hsuper
      · next parent _ he =>
        rw [← Option.some.inj hsuper]
        refine h.qualify (h.typeScope hid) fun m hm => h.innerNames id ?_
        simp only [TypeDecl.innerNames, he, List.flatMap_cons, List.mem_append]
        tauto
      · rw [← Option.some.inj hsuper]
        exact h.objectType
  · obtain ⟨r, hr, rfl⟩ := List.mem_map.mp hs
    refine h.qualify (h.typeScope hid) fun m hm => h.innerNames id ?_
    have hmem : m ∈ (c.decl id).extended.flatMap TypeRef.names ∨
        m ∈ (c.decl id).implemented.flatMap TypeRef.names := by
      rw [writtenInterfaces] at hr
      split at hr
      · exact Or.inl (List.mem_flatMap.mpr ⟨r, hr, hm⟩)
      · exact Or.inr (List.mem_flatMap.mpr ⟨r, hr, hm⟩)
    simp only [TypeDecl.innerNames, List.mem_append]
    tauto

theorem rooted (h : c.Obeys Q) {t : TypeInfo} (ht : t.Proper c Q) : c.Rooted Q t := by
  cases ht with
  | @source id n hid hn hq => exact h.rooted_source id n
  | @compiled t hn hq =>
    have ht : (TypeInfo.compiled t).Proper c Q := .compiled hn hq
    intro s hs
    rcases List.mem_append.mp hs with hs | hs
    · have hsuper := Option.mem_toList.mp hs
      rw [superclass?, Option.map_eq_some_iff] at hsuper
      obtain ⟨n, hn, rfl⟩ := hsuper
      rw [CompiledType.superclassName?] at hn
      split at hn
      · exact absurd hn (by simp)
      · rw [← Option.some.inj hn]
        cases hsup : t.superclass with
        | none => exact h.objectType
        | some n => exact h.mentioned ht (by simp [CompiledType.mentioned, hsup])
    · obtain ⟨n, hn, rfl⟩ := List.mem_map.mp hs
      exact h.mentioned ht (by simp [CompiledType.mentioned, hn])
  | primitive p => exact fun s hs => absurd hs List.not_mem_nil
  | array ht =>
    intro s hs
    rw [supertypes_array, List.mem_singleton] at hs
    rw [hs]
    exact h.objectType
  | typeVar hv hq hb =>
    intro s hs
    rw [supertypes_typeVar, List.mem_singleton] at hs
    rw [hs]
    exact h.erased (.typeVar hv hq hb)
  | unresolved hq => exact fun s hs => absurd hs List.not_mem_nil

end Obeys

theorem superclass?_mem_supertypes {t s : TypeInfo} (h : c.superclass? t = some s) :
    s ∈ c.supertypes t :=
  List.mem_append_left _ (Option.mem_toList.mpr h)

theorem interfaces_subset_supertypes {t s : TypeInfo} (h : s ∈ c.interfaces t) :
    s ∈ c.supertypes t :=
  List.mem_append_right _ h

namespace Obeys

theorem mem_superclassChain (h : c.Obeys Q) {n : Nat} {seen : List String} {t s : TypeInfo}
    (ht : c.Rooted Q t) (hs : s ∈ c.superclassChain n seen t) : s.Proper c Q := by
  induction n generalizing seen t with
  | zero => exact absurd hs List.not_mem_nil
  | succ n ih =>
    rw [superclassChain] at hs
    split at hs
    · exact absurd hs List.not_mem_nil
    · next parent hp =>
      have hparent := ht parent (superclass?_mem_supertypes hp)
      split at hs
      · exact absurd hs List.not_mem_nil
      · rcases List.mem_cons.mp hs with rfl | hs
        · exact hparent
        · exact ih (h.rooted hparent) hs

end Obeys

end Codebase

/-- What holds of the first layer and is handed on by a step holds of all layers. -/
theorem Layers.forall_mem_layers {α : Type} {key : α → String} {next : α → List α} {P : α → Prop}
    (hstep : ∀ a, P a → ∀ b ∈ next a, P b) {n : Nat} {seen : List String} {frontier : List α}
    (hf : ∀ a ∈ frontier, ∀ b ∈ next a, P b) :
    ∀ a ∈ (layers key next n seen frontier).flatten, P a := by
  induction n generalizing seen frontier with
  | zero => exact fun a ha => absurd ha List.not_mem_nil
  | succ n ih =>
    have hfresh : ∀ b ∈ fresh key seen (frontier.flatMap next), P b := by
      intro b hb
      obtain ⟨a, ha, hab⟩ := List.mem_flatMap.mp (mem_of_mem_fresh hb)
      exact hf a ha b hab
    rw [layers]
    split
    · exact fun a ha => absurd ha List.not_mem_nil
    · next b bs hbs =>
      rw [hbs] at hfresh
      intro a ha
      rw [List.flatten_cons, List.mem_append] at ha
      rcases ha with ha | ha
      · exact hfresh a ha
      · exact ih (fun b hb d hd => hstep b (hfresh b hb) d hd) a ha

namespace Codebase

variable {c : Codebase} {Q : String → Prop}

namespace Obeys

/-- **Every supertype is proper.** -/
theorem mem_ancestors (h : c.Obeys Q) {t s : TypeInfo} (ht : c.Rooted Q t)
    (hs : s ∈ c.ancestors t) : s.Proper c Q := by
  have hchain : ∀ s ∈ c.superclasses t, s.Proper c Q := fun s hs => h.mem_superclassChain ht hs
  rw [ancestors, List.tail_cons, List.mem_append] at hs
  rcases hs with hs | hs
  · exact hchain s hs
  · refine Layers.forall_mem_layers (P := fun a => a.Proper c Q)
      (fun a ha b hb => h.rooted ha b (interfaces_subset_supertypes hb)) ?_ s hs
    intro a ha b hb
    rcases List.mem_cons.mp ha with rfl | ha
    · exact ht b (interfaces_subset_supertypes hb)
    · exact h.rooted (hchain a ha) b (interfaces_subset_supertypes hb)

theorem mem_withAncestors (h : c.Obeys Q) {t s : TypeInfo} (ht : t.Proper c Q)
    (hs : s ∈ c.withAncestors t) : s.Proper c Q := by
  rcases List.mem_cons.mp hs with rfl | hs
  · exact ht
  · exact h.mem_ancestors (h.rooted ht) hs

/-! ## Fields -/

theorem fieldNames (h : c.Obeys Q) {id : TypeId} {f : FieldDecl} (hf : f ∈ (c.decl id).fields)
    {n : String} (hn : n ∈ f.type.names) : Q n := by
  refine h.innerNames id ?_
  have hmem : n ∈ (c.decl id).fields.flatMap fun f => f.type.names :=
    List.mem_flatMap.mpr ⟨f, hf, hn⟩
  simp only [TypeDecl.innerNames, List.mem_append]
  tauto

theorem fieldDecl (h : c.Obeys Q) {id : TypeId} (hid : id.index < c.types.length) {n : String}
    {f : FieldDecl} (hf : (c.decl id).field? n = some f) :
    (c.qualify (c.typeScope id) f.type).Proper c Q :=
  h.qualify (h.typeScope hid) fun _ hm => h.fieldNames (List.mem_of_find?_eq_some hf) hm

theorem sourceType (h : c.Obeys Q) {id : TypeId} (hid : id.index < c.types.length) :
    (c.sourceType id).Proper c Q :=
  .source hid rfl (h.declNames hid List.mem_cons_self)

theorem declaredFieldType (h : c.Obeys Q) {t f : TypeInfo} {n : String} (ht : t.Proper c Q)
    (hf : c.declaredFieldType? t n = some f) : f.Proper c Q := by
  cases ht with
  | @source id n hid hn hq =>
    rw [declaredFieldType?] at hf
    split at hf
    · rw [← Option.some.inj hf]
      exact .source hid hn hq
    · obtain ⟨d, hd, rfl⟩ := Option.map_eq_some_iff.mp hf
      exact h.fieldDecl hid hd
  | @compiled t hn hq =>
    obtain ⟨d, hd, rfl⟩ := Option.map_eq_some_iff.mp hf
    refine h.mentioned (.compiled hn hq) (List.mem_append_right _ ?_)
    exact List.mem_map_of_mem (List.mem_of_find?_eq_some hd)
  | _ => exact absurd hf (by simp [declaredFieldType?])

theorem fieldType (h : c.Obeys Q) {t f : TypeInfo} {n : String} (ht : t.Proper c Q)
    (hf : c.fieldType? t n = some f) : f.Proper c Q := by
  unfold fieldType? at hf
  split at hf
  · split at hf
    · rw [← Option.some.inj hf]
      exact .primitive _
    · exact absurd hf (by simp)
  · obtain ⟨s, hs, hsf⟩ := List.exists_of_findSome?_eq_some hf
    exact h.declaredFieldType (h.mem_withAncestors (h.erased ht) hs) hsf

end Obeys

end Codebase

end JavaCallGraph
