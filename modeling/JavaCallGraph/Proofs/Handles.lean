import JavaCallGraph.Proofs.Supertypes
import JavaCallGraph.Proofs.Typing.Acceptance
import JavaCallGraph.Syntax.Erasure

/-!
# Names as handles

Much of the library hands a type on by its name and asks `typeInfo` later what that name stands for.
Nothing is lost by this if `typeInfo` gives the type back, which `Codebase.Recovers` says.  It does so for
every written type without type variables, but for one reason: a name that ends with `[]`, or that is the
keyword of a primitive type, is never read as the name of a class.

* `Codebase.OwnsName` — a class or interface that is what its name is known as, or not known at all.
  Whatever a name inside a type is looked up to owns its name (`Codebase.ownsName_qualifyName`): the lookup
  makes up an unknown type only for a name that is unknown everywhere.
* `Codebase.OwnsName.recovers_iff` — such a type is given back if and only if it has a name of a class.
* `Codebase.handles_qualify` — hence the main statement, `Codebase.Handles`.
* `Codebase.lost_handle_sample` — a written type that is lost.  An annotation with a `<` in its text hides
  the rest of the type from `eraseGenerics`, and what is left ends with `[]`.
-/

set_option autoImplicit false

namespace JavaCallGraph

/-- The type inside all the dimensions. -/
def TypeInfo.element : TypeInfo → TypeInfo
  | .array t => t.element
  | t => t

theorem TypeInfo.element_of_isNominal {t : TypeInfo} (h : t.isNominal = true) : t.element = t := by
  cases t with
  | array t => exact absurd h (by simp [TypeInfo.isNominal])
  | _ => rfl

/-- The written type inside all the dimensions and bounds of wildcards. -/
def TypeRef.element : TypeRef → TypeRef
  | .array t => t.element
  | .wildcard (some bound) => bound.element
  | t => t

/-- A name that a class or interface can have. -/
structure NominalName (n : String) : Prop where
  /-- It is not that of an array. -/
  undimensioned : Undimensioned n
  /-- It is not that of a primitive type. -/
  notPrimitive : Primitive.ofName? n = none

theorem nominalName_iff {n : String} :
    NominalName n ↔ Undimensioned n ∧ Primitive.ofName? n = none :=
  ⟨fun h => ⟨h.undimensioned, h.notPrimitive⟩, fun h => ⟨h.1, h.2⟩⟩

instance (n : String) : Decidable (NominalName n) := decidable_of_iff _ nominalName_iff.symm

/-- The rule for names holds of the name of a class. -/
theorem TypeInfo.Proper.nominal {c : Codebase} {Q : String → Prop} {t : TypeInfo}
    (h : t.Proper c Q) (ht : t.isNominal = true) : Q t.name := by
  cases h with
  | source _ _ hq => exact hq
  | compiled _ hq => exact hq
  | unresolved hq => exact hq
  | _ => exact absurd ht (by simp [TypeInfo.isNominal])

namespace Codebase

/-- **The name of a type stands for that very type.** -/
def Recovers (c : Codebase) (t : TypeInfo) : Prop := c.typeInfo t.name = t

/-- A class or interface that is what its name is known as, or of which nothing is known. -/
structure OwnsName (c : Codebase) (t : TypeInfo) : Prop where
  /-- It is neither primitive nor an array nor a variable. -/
  nominal : t.isNominal = true
  /-- What is known under its name is the type itself. -/
  known : c.known? t.name = t.known?

variable {c : Codebase}

/-! ## Types that own their names -/

theorem ownsName_unresolved {n : String} (h : c.known? n = none) : c.OwnsName (.unresolved n) :=
  ⟨rfl, h⟩

theorem ownsName_of_known? {n : String} {t : TypeInfo} (h : c.known? n = some t) : c.OwnsName t := by
  have hname := name_of_known? h
  subst hname
  obtain ⟨id, -, rfl⟩ | ⟨u, -, rfl⟩ := known?_cases h
  · exact ⟨rfl, h⟩
  · exact ⟨rfl, h⟩

/-- A type that owns its name can be told from the name. -/
theorem OwnsName.getD_known? {t : TypeInfo} (h : c.OwnsName t) :
    (c.known? t.name).getD (.unresolved t.name) = t := by
  rw [h.known]
  cases t with
  | source id n => rfl
  | compiled t => rfl
  | unresolved n => rfl
  | _ => exact absurd h.nominal (by simp [TypeInfo.isNominal])

/-- **Types that own their names are equal when their names are.** -/
theorem OwnsName.eq_of_name {s t : TypeInfo} (hs : c.OwnsName s) (ht : c.OwnsName t)
    (hname : s.name = t.name) : s = t := by
  rw [← hs.getD_known?, ← ht.getD_known?, hname]

/-- **A name that is no type variable stands for a type that owns its name.** -/
theorem ownsName_qualifyName (h : c.UniqueNames) {scope : TypeScope}
    (hscope : scope.type.index < c.types.length) (n : String) :
    c.OwnsName (c.qualifyName scope n) := by
  have hunknown : ∀ m, c.qualifyName scope n = .unresolved m → c.OwnsName (.unresolved m) :=
    fun m hm => ownsName_unresolved (known?_of_qualifyName hm)
  cases hl : c.lookup? n scope.type with
  | none =>
    rw [qualifyName, hl] at hunknown ⊢
    dsimp only at hunknown ⊢
    split
    · next hd => exact hunknown _ (if_pos hd)
    · next hd => exact hunknown _ (if_neg hd)
  | some t =>
    have ht : c.qualifyName scope n = t := by rw [qualifyName, hl]
    rw [ht] at hunknown ⊢
    obtain ⟨m, hm⟩ | ⟨o, ho, -, rfl⟩ | ⟨i, -, -, rfl⟩ := lookup?_cases hl
    · exact ownsName_of_known? hm
    · have hlt := Nat.lt_of_le_of_lt (index_le_of_mem_enclosing ho) hscope
      exact ownsName_of_known? (h.known?_qualifiedName hlt)
    · exact hunknown _ rfl

/-! ## What a canonical name stands for -/

/-- Inside its dimensions a canonical name means a primitive type or one that owns its name. -/
def OwnsElement (c : Codebase) (t : TypeInfo) : Prop :=
  (∃ p, t.element = .primitive p) ∨ c.OwnsName t.element

theorem OwnsName.ownsElement {t : TypeInfo} (h : c.OwnsName t) : c.OwnsElement t :=
  Or.inr ((TypeInfo.element_of_isNominal h.nominal).symm ▸ h)

theorem ownsElement_typeInfo (n : String) : c.OwnsElement (c.typeInfo n) := by
  induction n using dimension_induction with
  | element n hn =>
    rw [typeInfo_of_undimensioned hn, elementInfo]
    split
    · exact Or.inl ⟨_, rfl⟩
    · cases hk : c.known? n with
      | none => exact (ownsName_unresolved hk).ownsElement
      | some t => exact (ownsName_of_known? hk).ownsElement
  | array n ih =>
    rw [typeInfo_array]
    exact ih

/-! ## Which types their names give back -/

theorem recovers_array_iff {t : TypeInfo} : c.Recovers (.array t) ↔ c.Recovers t := by
  rw [Recovers, Recovers, TypeInfo.name, typeInfo_array, TypeInfo.array.injEq]

theorem recovers_element_iff (t : TypeInfo) : c.Recovers t.element ↔ c.Recovers t := by
  fun_induction TypeInfo.element t with
  | case1 t ih => rw [ih, recovers_array_iff]
  | case2 t ht => exact Iff.rfl

theorem recovers_typeInfo (n : String) : c.Recovers (c.typeInfo n) := by
  rw [Recovers, name_typeInfo]

theorem recovers_primitive (p : Primitive) : c.Recovers (.primitive p) := typeInfo_primitive p

/-- A name that no class can have never stands for one. -/
theorem nominalName_of_isNominal {n : String} (h : (c.typeInfo n).isNominal = true) :
    NominalName n := by
  have hn : Undimensioned n := by
    cases hm : componentName? n with
    | none => exact hm
    | some m =>
      rw [componentName?_eq_some_iff.mp hm, typeInfo_array] at h
      exact absurd h (by simp [TypeInfo.isNominal])
  refine ⟨hn, ?_⟩
  rw [typeInfo_of_undimensioned hn, elementInfo] at h
  split at h
  · exact absurd h (by simp [TypeInfo.isNominal])
  · assumption

/-- **A type that owns its name is given back if and only if the name is that of a class.** -/
theorem OwnsName.recovers_iff {t : TypeInfo} (h : c.OwnsName t) :
    c.Recovers t ↔ NominalName t.name := by
  constructor
  · intro hrec
    exact nominalName_of_isNominal (c := c) (by rw [hrec]; exact h.nominal)
  · intro hname
    rw [Recovers, typeInfo_of_undimensioned hname.undimensioned, elementInfo, hname.notPrimitive]
    exact h.getD_known?

theorem OwnsElement.recovers_iff {t : TypeInfo} (h : c.OwnsElement t) :
    c.Recovers t ↔ (t.element.isNominal = true → NominalName t.element.name) := by
  rw [← recovers_element_iff]
  obtain ⟨p, hp⟩ | h := h
  · rw [hp]
    exact iff_of_true (recovers_primitive p) fun hp => absurd hp (by simp [TypeInfo.isNominal])
  · rw [h.recovers_iff]
    exact ⟨fun hname _ => hname, fun hname => hname h.nominal⟩

/-! ## Written types -/

theorem ownsElement_qualify (h : c.UniqueNames) {scope : TypeScope} (hscope : scope.type ∈ c.typeIds)
    {r : TypeRef} (hvoid : r.element ≠ .void) (hvar : ∀ n ∈ r.names, c.typeParam? scope n = none) :
    c.OwnsElement (c.qualify scope r) := by
  rw [qualify]
  fun_induction qualifyWith c (c.qualifyNameAt scope boundDepth) r with
  | case1 => exact absurd rfl hvoid
  | case2 => exact ownsElement_typeInfo _
  | case3 => exact ownsElement_typeInfo _
  | case4 bound ih => exact ih hvoid fun n hn => hvar n (by rwa [TypeRef.names])
  | case5 p => exact Or.inl ⟨p, rfl⟩
  | case6 t ih => exact ih hvoid fun n hn => hvar n (by rwa [TypeRef.names])
  | case7 n args =>
    rw [qualifyNameAt, hvar n (by simp [TypeRef.names])]
    exact (ownsName_qualifyName h (mem_typeIds.mp hscope) n).ownsElement

/-! ## Names of classes -/

theorem ofName?_of_isDotted {n : String} (h : isDotted n = true) : Primitive.ofName? n = none := by
  cases hp : Primitive.ofName? n with
  | none => rfl
  | some p =>
    have hname : p.name = n := by simpa using List.find?_some hp
    rw [← hname] at h
    cases p <;> exact absurd h (by decide)

theorem isDotted_append (p n : String) : isDotted (p ++ "." ++ n) = true := by
  simp [isDotted]

/-- **A canonical name means one type.** -/
structure CanonicalNames (c : Codebase) : Prop where
  /-- No two declared types have the same name. -/
  types : ∀ s ∈ c.typeIds, ∀ t ∈ c.typeIds,
    (c.decl s).qualifiedName = (c.decl t).qualifiedName → s = t
  /-- No class or interface has the name of a primitive type. -/
  keywords : ∀ n ∈ keywords, c.known? n = none
  /-- Only arrays have names of arrays. -/
  dimensions : ∀ n ∈ c.names, Undimensioned n

theorem CanonicalNames.obeys (h : c.CanonicalNames) : c.Obeys Undimensioned :=
  ⟨.undimensioned, h.dimensions⟩

theorem CanonicalNames.classNames (h : c.CanonicalNames) : c.ClassNames where
  unique := h.types
  keywords := h.keywords
  dimensions t ht := by
    rcases List.mem_append.mp ht with ht | ht
    · obtain ⟨id, hid, rfl⟩ := List.mem_map.mp ht
      exact h.obeys.declNames (mem_typeIds.mp hid) List.mem_cons_self
    · obtain ⟨u, hu, rfl⟩ := List.mem_map.mp ht
      exact h.obeys.catalogNames hu List.mem_cons_self

/-- What is written with the name of a class has the name of a class. -/
theorem CanonicalNames.nominalName_qualifyName (h : c.CanonicalNames) {scope : TypeScope}
    (hscope : scope.type.index < c.types.length)
    (himports : ∀ i ∈ c.importsOf scope.type, Primitive.ofName? i.name = none) {n : String}
    (hn : NominalName n) : NominalName (c.qualifyName scope n).name := by
  refine ⟨(h.obeys.qualifyName hn.undimensioned hscope).nominal
    (ownsName_qualifyName h.types hscope n).nominal, ?_⟩
  rw [qualifyName]
  split
  · next t ht =>
    obtain ⟨m, hm⟩ | ⟨o, ho, -, rfl⟩ | ⟨i, hi, -, rfl⟩ := lookup?_cases ht
    · rw [name_of_known? hm]
      exact h.classNames.ofName?_of_known? hm
    · have hlt := Nat.lt_of_le_of_lt (index_le_of_mem_enclosing ho) hscope
      exact h.classNames.ofName?_of_known? (h.classNames.unique.known?_qualifiedName hlt)
    · exact himports i hi
  · split
    · exact hn.notPrimitive
    · rw [TypeInfo.name, inPackageOf]
      split
      · exact ofName?_of_isDotted (isDotted_append _ _)
      · exact hn.notPrimitive

theorem CanonicalNames.recovers_qualify (h : c.CanonicalNames) {scope : TypeScope}
    (hscope : scope.type ∈ c.typeIds)
    (himports : ∀ i ∈ c.importsOf scope.type, Primitive.ofName? i.name = none) {r : TypeRef}
    (hvar : ∀ n ∈ r.names, c.typeParam? scope n = none) (hnames : ∀ n ∈ r.names, NominalName n) :
    c.Recovers (c.qualify scope r) := by
  have hvoid : c.known? "void" = none := h.keywords _ List.mem_cons_self
  refine qualifyWith_induction r ?_ (recovers_typeInfo _) recovers_primitive
    (fun _ => recovers_array_iff.mpr) fun n hn => ?_
  · exact (ownsName_unresolved hvoid).recovers_iff.mpr (by decide)
  · rw [qualifyNameAt, hvar n hn]
    have hlt := mem_typeIds.mp hscope
    exact (ownsName_qualifyName h.types hlt n).recovers_iff.mpr
      (h.nominalName_qualifyName hlt himports (hnames n hn))

/-! ## The main statement -/

/-- **What becomes of a written type that is handed on by its name.** -/
structure Handles (c : Codebase) (scope : TypeScope) (r : TypeRef) : Prop where
  /-- The name stays the same in any case. -/
  name : (c.typeInfo (c.qualify scope r).name).name = (c.qualify scope r).name
  /-- The type is given back if and only if a class inside its dimensions has a name that classes can
  have. -/
  exactly : c.Recovers (c.qualify scope r) ↔
    ((c.qualify scope r).element.isNominal = true → NominalName (c.qualify scope r).element.name)
  /-- It is given back if all names of the code base and those that the type is written with are such
  names. -/
  always : c.CanonicalNames →
    (∀ i ∈ c.importsOf scope.type, Primitive.ofName? i.name = none) →
      (∀ n ∈ r.names, NominalName n) → c.Recovers (c.qualify scope r)

/-- **Names are handles of all written types without type variables** in a code base in which no two
types have one name. -/
theorem handles_qualify (h : c.UniqueNames) {scope : TypeScope} (hscope : scope.type ∈ c.typeIds)
    {r : TypeRef} (hvoid : r.element ≠ .void) (hvar : ∀ n ∈ r.names, c.typeParam? scope n = none) :
    c.Handles scope r where
  name := name_typeInfo _
  exactly := (ownsElement_qualify h hscope hvoid hvar).recovers_iff
  always hnames himports hr := hnames.recovers_qualify hscope himports hvar hr

end Codebase

/-! ## A size and a box

The method `fit` takes a `lib.@Size("byte[] < 4") Box` and an array of `D`. -/

namespace Sample

/-- What is left of the written type. -/
def sizedBox : TypeRef := .simple (Syntax.eraseGenerics "lib.@Size(\"byte[] < 4\") Box")

/-- The two types. -/
def fittings : Codebase where
  units := [⟨"D.java", some "demo", [], none⟩]
  types :=
    [{ classDecl "D" [] [unary "fit" sizedBox [], unary "fitAll" (.array (.simple "D")) []] with
        qualifiedName := "demo.D" }]
  catalog := .empty

end Sample

namespace Codebase

/-- The array of `D` is given back. -/
theorem handles_qualify_sample :
    Sample.fittings.qualify ⟨⟨0⟩, []⟩ (.array (.simple "D")) = .array (.source ⟨0⟩ "demo.D") ∧
      Sample.fittings.typeInfo "demo.D[]" = .array (.source ⟨0⟩ "demo.D") := by
  have hhandles : Sample.fittings.Handles ⟨⟨0⟩, []⟩ (.array (.simple "D")) :=
    handles_qualify (by decide +kernel) (by decide +kernel)
      (by simp [TypeRef.element, TypeRef.simple]) (by decide +kernel)
  have hqualify : Sample.fittings.qualify ⟨⟨0⟩, []⟩ (.array (.simple "D")) =
      .array (.source ⟨0⟩ "demo.D") := by with_unfolding_all rfl
  have hrec := hhandles.exactly
  rw [hqualify] at hrec
  exact ⟨hqualify, hrec.mpr fun _ => by decide +kernel⟩

/-- **A written type that is lost.**  What is left of the sized box is an unknown class, but its name
stands for an array. -/
theorem lost_handle_sample :
    ¬∀ (c : Codebase) (scope : TypeScope) (r : TypeRef), c.UniqueNames → scope.type ∈ c.typeIds →
      r.element ≠ .void → (∀ n ∈ r.names, c.typeParam? scope n = none) →
      c.Recovers (c.qualify scope r) := by
  intro h
  have hrec := h Sample.fittings ⟨⟨0⟩, []⟩ Sample.sizedBox (by decide +kernel) (by decide +kernel)
    (by simp [Sample.sizedBox, TypeRef.element, TypeRef.simple]) (by decide +kernel)
  have hqualify : Sample.fittings.qualify ⟨⟨0⟩, []⟩ Sample.sizedBox =
      .unresolved "lib.@Size(\"byte[]" := by with_unfolding_all rfl
  have hinfo : Sample.fittings.typeInfo "lib.@Size(\"byte[]" =
      .array (.unresolved "lib.@Size(\"byte") := by with_unfolding_all rfl
  rw [hqualify] at hrec
  exact absurd (hinfo.symm.trans hrec) TypeInfo.noConfusion

end Codebase

end JavaCallGraph
