import JavaCallGraph.Proofs.Outline
import JavaCallGraph.Proofs.Typing.Certain

/-!
# Code bases that differ in the order of methods

`Codebase.Reordered` relates code bases that are the same up to the order in which the methods stand in
their types, declared and described ones.  They have one and the same outline, so they hand out the same
types (`Codebase.SameType`) in the same order.

* `Codebase.Reordered.outline_eq` — the outlines are the same;
* `Codebase.Reordered.exists_ancestor` — so are the supertypes;
* `Codebase.Reordered.exists_declaredCandidate` — and every method of a type is a method of the other
  one, with the same parameters and the same result.
-/

set_option autoImplicit false

namespace JavaCallGraph

/-- The same description, with the methods in some order. -/
structure CompiledType.Reordered (t t' : CompiledType) : Prop where
  outline : t.outline = t'.outline
  methods : t.methods.Perm t'.methods

/-- The same declaration, with the methods in some order. -/
structure TypeDecl.Reordered (t t' : TypeDecl) : Prop where
  outline : t.outline = t'.outline
  methods : t.methods.Perm t'.methods

/-- **The same code base, with the methods of every type in some order.** -/
structure Codebase.Reordered (c c' : Codebase) : Prop where
  units : c.units = c'.units
  types : List.Forall₂ TypeDecl.Reordered c.types c'.types
  catalog : List.Forall₂ CompiledType.Reordered c.catalog.types c'.catalog.types

/-- The same type in two code bases: each of them hands it out, and but for methods it is the same. -/
structure Codebase.SameType (c c' : Codebase) (t t' : TypeInfo) : Prop where
  left : t.Proper c fun _ => True
  right : t'.Proper c' fun _ => True
  outline : t.outline = t'.outline

/-- Parameters and result are the same. -/
structure Candidate.Same (k k' : Candidate) : Prop where
  params : k.params.map TypeInfo.outline = k'.params.map TypeInfo.outline
  returnType : k.returnType.map TypeInfo.outline = k'.returnType.map TypeInfo.outline

namespace Codebase

variable {c c' : Codebase} {t t' : TypeInfo}

theorem SameType.symm (h : c.SameType c' t t') : c'.SameType c t' t := ⟨h.right, h.left, h.outline.symm⟩

theorem SameType.name (h : c.SameType c' t t') : t.name = t'.name := by
  rw [← TypeInfo.name_outline, h.outline, TypeInfo.name_outline]

theorem SameType.eq_source {id : TypeId} {n : String} (h : c.SameType c' (.source id n) t') :
    t' = .source id n := by
  have houtline := h.outline
  cases t' <;> simp_all [TypeInfo.outline]

theorem SameType.exists_compiled {u : CompiledType} (h : c.SameType c' (.compiled u) t') :
    ∃ u', t' = .compiled u' := by
  have houtline := h.outline
  cases t' <;> simp_all [TypeInfo.outline]

namespace Reordered

theorem symm (h : c.Reordered c') : c'.Reordered c where
  units := h.units.symm
  types := h.types.flip.imp fun _ _ ht => ⟨ht.outline.symm, ht.methods.symm⟩
  catalog := h.catalog.flip.imp fun _ _ ht => ⟨ht.outline.symm, ht.methods.symm⟩

/-- **The outlines are the same.** -/
theorem outline_eq (h : c.Reordered c') : c.outline = c'.outline := by
  have htypes : c.types.map TypeDecl.outline = c'.types.map TypeDecl.outline := by
    rw [← List.forall₂_eq_eq_eq, List.forall₂_map_left_iff, List.forall₂_map_right_iff]
    exact h.types.imp fun _ _ ht => ht.outline
  have hcatalog : c.catalog.types.map CompiledType.outline =
      c'.catalog.types.map CompiledType.outline := by
    rw [← List.forall₂_eq_eq_eq, List.forall₂_map_left_iff, List.forall₂_map_right_iff]
    exact h.catalog.imp fun _ _ ht => ht.outline
  rw [outline, outline, Catalog.outline, Catalog.outline, h.units, htypes, hcatalog]

/-! ## The methods of a type -/

theorem methods_decl (h : c.Reordered c') (id : TypeId) :
    (c.decl id).methods.Perm (c'.decl id).methods := by
  rw [decl, decl]
  have htypes := h.types
  generalize c.types = ts, c'.types = ts', id.index = i at htypes ⊢
  induction htypes generalizing i with
  | nil => exact .refl _
  | cons ht _ ih =>
    cases i with
    | zero => exact ht.methods
    | succ i => exact ih i

theorem methods_lookup? (h : c.Reordered c') {n : String} {t t' : CompiledType}
    (ht : c.catalog.lookup? n = some t) (ht' : c'.catalog.lookup? n = some t') :
    t.methods.Perm t'.methods := by
  rw [Catalog.lookup?] at ht ht'
  have hcatalog := h.catalog
  generalize c.catalog.types = us, c'.catalog.types = us' at hcatalog ht ht'
  induction hcatalog with
  | nil => exact absurd ht (by simp)
  | @cons u u' us us' hu _ ih =>
    have hname : u.name = u'.name := (congrArg CompiledType.name hu.outline :)
    rw [List.find?_cons] at ht ht'
    rw [← hname] at ht'
    split at ht
    · next hn =>
      rw [hn] at ht'
      rw [← Option.some.inj ht, ← Option.some.inj ht']
      exact hu.methods
    · next hn =>
      rw [hn] at ht'
      exact ih ht ht'

/-- A described type that is handed out is described in the catalog. -/
theorem lookup?_of_proper {t : CompiledType} {Q : String → Prop} (ht : (TypeInfo.compiled t).Proper c Q) :
    c.catalog.lookup? t.name = some t := by
  cases ht with
  | compiled hknown _ =>
    rw [known?] at hknown
    split at hknown
    · exact absurd (Option.some.inj hknown) TypeInfo.noConfusion
    · obtain ⟨u, hu, hut⟩ := Option.map_eq_some_iff.mp hknown
      rwa [TypeInfo.compiled.inj hut] at hu

theorem methods_described (h : c.Reordered c') {t t' : CompiledType}
    (ht : c.SameType c' (.compiled t) (.compiled t')) : t.methods.Perm t'.methods := by
  have hname : t.name = t'.name := ht.name
  refine h.methods_lookup? (lookup?_of_proper ht.left) ?_
  rw [hname]
  exact lookup?_of_proper ht.right

/-! ## Types by name -/

theorem outline_typeInfo (h : c.Reordered c') (n : String) :
    (c.typeInfo n).outline = (c'.typeInfo n).outline := by
  rw [Codebase.outline_typeInfo, Codebase.outline_typeInfo, h.outline_eq]

/-- **The supertypes are the same**, in the same order. -/
theorem outline_withAncestors (h : c.Reordered c') (ht : c.SameType c' t t') :
    (c.withAncestors t).map TypeInfo.outline = (c'.withAncestors t').map TypeInfo.outline := by
  rw [Codebase.outline_withAncestors, Codebase.outline_withAncestors, h.outline_eq, ht.outline]

theorem sameType_of_mem_withAncestors (_ : c.Reordered c') (ht : c.SameType c' t t') {s s' : TypeInfo}
    (hs : s ∈ c.withAncestors t) (hs' : s' ∈ c'.withAncestors t') (houtline : s.outline = s'.outline) :
    c.SameType c' s s' :=
  ⟨(Obeys.trivial c).mem_withAncestors ht.left hs, (Obeys.trivial c').mem_withAncestors ht.right hs',
    houtline⟩

theorem exists_ancestor (h : c.Reordered c') (ht : c.SameType c' t t') {s : TypeInfo}
    (hs : s ∈ c.withAncestors t) : ∃ s' ∈ c'.withAncestors t', c.SameType c' s s' := by
  have hmem := List.mem_map_of_mem (f := TypeInfo.outline) hs
  rw [h.outline_withAncestors ht] at hmem
  obtain ⟨s', hs', houtline⟩ := List.mem_map.mp hmem
  exact ⟨s', hs', h.sameType_of_mem_withAncestors ht hs hs' houtline.symm⟩

/-! ## Parameters -/

theorem acceptsAll_eq (h : c.Reordered c') {ps ps' args args' : List TypeInfo}
    (hps : ps.map TypeInfo.outline = ps'.map TypeInfo.outline)
    (hargs : args.map TypeInfo.outline = args'.map TypeInfo.outline) :
    c.acceptsAll ps args = c'.acceptsAll ps' args' := by
  rw [← acceptsAll_outline, h.outline_eq, hps, hargs, acceptsAll_outline]

theorem outline_compiledParamTypes (h : c.Reordered c') (m : CompiledMethod) :
    (c.compiledParamTypes m).map TypeInfo.outline = (c'.compiledParamTypes m).map TypeInfo.outline := by
  rw [compiledParamTypes, compiledParamTypes, List.map_map, List.map_map]
  refine List.map_congr_left fun n _ => ?_
  exact h.outline_typeInfo n

/-! ## Candidates -/

/-- **A declared method stands in the other code base, too.** -/
theorem exists_method (h : c.Reordered c') {id : TypeId} {m : MethodRef} (hm : m ∈ c.methodsOf id) :
    ∃ m' ∈ c'.methodsOf id, c'.method m' = c.method m := by
  have hmem := (declared_of_mem_methodsOf hm).method_mem
  rw [(mem_methodsOf.mp hm).1, (h.methods_decl id).mem_iff] at hmem
  obtain ⟨i, hi, hget⟩ := List.mem_iff_getElem.mp hmem
  refine ⟨⟨id, i⟩, mem_methodsOf.mpr ⟨rfl, hi⟩, ?_⟩
  rw [Codebase.method, List.getElem?_eq_getElem hi, Option.getD_some, hget]

theorem same_of_method_eq (h : c.Reordered c') {m m' : MethodRef} (howner : m'.owner = m.owner)
    (hm : c'.method m' = c.method m) (d d' : TypeInfo) (o o' : Option MethodRef) :
    Candidate.Same ⟨d, c.paramTypes m, o, c.returnType? m⟩ ⟨d', c'.paramTypes m', o', c'.returnType? m'⟩
    where
  params := by
    rw [paramTypes, paramTypes, hm, List.map_map, List.map_map]
    refine List.map_congr_left fun p _ => ?_
    rw [Function.comp_apply, Function.comp_apply, outline_paramType, outline_paramType, h.outline_eq,
      methodScope, methodScope, hm, howner]
  returnType := by
    simp only [returnType?, methodScope, hm, howner]
    split
    · rfl
    · rw [Option.map_some, Option.map_some, outline_qualify, outline_qualify, h.outline_eq]

theorem same_asCandidate (h : c.Reordered c') (m : CompiledMethod) (d d' : TypeInfo)
    (o o' : Option MethodRef) : Candidate.Same ⟨d, c.compiledParamTypes m, o, c.compiledReturnType? m⟩
      ⟨d', c'.compiledParamTypes m, o', c'.compiledReturnType? m⟩ where
  params := h.outline_compiledParamTypes m
  returnType := by
    rw [compiledReturnType?, compiledReturnType?]
    split
    · rfl
    · rw [Option.map_some, Option.map_some, h.outline_typeInfo]

/-- **A candidate on a type is a candidate on the same type in the other code base.** -/
theorem exists_declaredCandidate (h : c.Reordered c') (ht : c.SameType c' t t') {name : String}
    {arity : Nat} {k : Candidate} (hk : k ∈ c.declaredCandidates t name arity) :
    ∃ k' ∈ c'.declaredCandidates t' name arity, k.Same k' := by
  cases t with
  | source id n =>
    obtain rfl := ht.eq_source
    obtain ⟨m, hm, rfl⟩ := List.mem_map.mp hk
    obtain ⟨hmem, hp⟩ := List.mem_filter.mp hm
    obtain ⟨m', hm', hsame⟩ := h.exists_method hmem
    have howner : m'.owner = m.owner := by rw [(mem_methodsOf.mp hm').1, (mem_methodsOf.mp hmem).1]
    refine ⟨_, List.mem_map_of_mem (List.mem_filter.mpr ⟨hm', ?_⟩),
      h.same_of_method_eq howner hsame _ _ _ _⟩
    rwa [hsame]
  | compiled u =>
    obtain ⟨u', rfl⟩ := ht.exists_compiled
    obtain ⟨m, hm, rfl⟩ := List.mem_map.mp hk
    have hm' : m ∈ ((u'.methodsNamed name).filter fun m => m.params.length == arity && !m.varargs) :=
      (((h.methods_described ht).filter _).filter _).mem_iff.mp hm
    exact ⟨_, List.mem_map_of_mem hm', h.same_asCandidate m _ _ _ _⟩
  | _ => exact absurd hk List.not_mem_nil

end Reordered

end Codebase

/-- Candidates with the same parameters have the same signature. -/
theorem Candidate.Same.signature {k k' : Candidate} (h : k.Same k') : k.signature = k'.signature :=
  TypeInfo.map_name_eq h.params

end JavaCallGraph
