import JavaCallGraph.Proofs.Ancestry
import JavaCallGraph.Proofs.Handles

/-!
# Assignability is a preorder

`Codebase.isAssignable` takes a type and a name.  Read as a relation on names it mixes five rules: equal
names; arrays by their components; everything but a primitive under the root class; nothing else under or
above a primitive; and for the rest the list of all supertypes.  Every two of them may meet when two
assignments are put together.

The supertypes of what is found under a name are asked for again under that name, so the list must be
closed: whatever is above a listed type is listed.  In a hierarchy of classes and interfaces it is, since
all types on the way up own their names (`Codebase.OwnsName`), and such types are equal when their names
are.

* `Codebase.SortedHierarchy` — only interfaces stand where interfaces belong, and only classes and
  interfaces are supertypes.
* `Codebase.SortedHierarchy.mem_names_of_reaches` — the list of supertypes is closed.
* `Codebase.SortedHierarchy.assigns_trans` — two assignments make one.
* `Codebase.SortedHierarchy.assignability_is_preorder` — the main statement.
-/

set_option autoImplicit false

namespace JavaCallGraph

namespace Codebase

/-- A class or an interface, or a name that nothing is known under. -/
def isClassOrUnknown (c : Codebase) : TypeInfo → Bool
  | .source _ _ => true
  | .compiled _ => true
  | .unresolved n => (c.known? n).isNone
  | _ => false

/-- **A hierarchy of classes and interfaces** in which each name is that of one type.  It may be cyclic. -/
structure SortedHierarchy (c : Codebase) : Prop where
  /-- No two declared types have the same name. -/
  unique : c.UniqueNames
  /-- A type in the position of an interface is an interface or unknown. -/
  interfaces : ∀ t ∈ c.allTypes, ∀ s ∈ c.interfaces t, c.isOpenInterface s = true
  /-- All supertypes are classes and interfaces or unknown, so none is a type variable.  Those that are
  not written, as the root class, always are. -/
  supertypes : ∀ t ∈ c.allTypes, ∀ s ∈ c.supertypes t, c.isClassOrUnknown s = true
  /-- The root class has no supertypes but possibly itself. -/
  root : ∀ s ∈ c.supertypes c.objectType, s.name = objectName

variable {c : Codebase}

/-! ## Types that own their names -/

/-- More is known of it than its name, or it has no supertypes. -/
theorem OwnsName.mem_allTypes {t s : TypeInfo} (h : c.OwnsName t) (hs : s ∈ c.supertypes t) :
    t ∈ c.allTypes := by
  cases t with
  | source id n => exact mem_allTypes_of_known? h.known
  | compiled t => exact mem_allTypes_of_known? h.known
  | unresolved n => exact absurd hs List.not_mem_nil
  | _ => exact absurd h.nominal (by simp [TypeInfo.isNominal])

theorem ownsName_typeInfo {n : String} (h : (c.typeInfo n).isNominal = true) :
    c.OwnsName (c.typeInfo n) := by
  have helement := TypeInfo.element_of_isNominal h
  obtain ⟨p, hp⟩ | howns := c.ownsElement_typeInfo n
  · rw [← helement, hp] at h
    exact absurd h (by simp [TypeInfo.isNominal])
  · rwa [helement] at howns

theorem ownsName_objectType : c.OwnsName c.objectType :=
  ownsName_typeInfo (TypeInfo.isNominal_of_name (isVariable_typeInfo _) (name_typeInfo _))

/-- A class that a written type stands for owns its name. -/
theorem ownsName_qualify (h : c.UniqueNames) {scope : TypeScope}
    (hscope : scope.type.index < c.types.length) {r : TypeRef} :
    c.isClassOrUnknown (c.qualify scope r) = true → c.OwnsName (c.qualify scope r) := by
  refine qualifyWith_induction (motive := fun t => c.isClassOrUnknown t = true → c.OwnsName t) r
    (fun hclass => ?_) (fun _ => ownsName_objectType)
    (fun _ hclass => absurd hclass Bool.false_ne_true)
    (fun _ _ hclass => absurd hclass Bool.false_ne_true) fun n _ hclass => ?_
  · exact ownsName_unresolved (Option.isNone_iff_eq_none.mp hclass)
  · cases hp : c.typeParam? scope n with
    | none =>
      rw [qualifyNameAt, hp]
      exact ownsName_qualifyName h hscope n
    | some p =>
      rw [qualifyNameAt, hp] at hclass
      exact absurd hclass Bool.false_ne_true

theorem isNominal_of_isClassOrUnknown {t : TypeInfo} (h : c.isClassOrUnknown t = true) :
    t.isNominal = true := by
  cases t <;> simp_all [isClassOrUnknown, TypeInfo.isNominal]

namespace SortedHierarchy

/-! ## The way up -/

/-- A supertype owns its name. -/
theorem ownsName_of_mem_supertypes (h : c.SortedHierarchy) {t s : TypeInfo} (ht : c.OwnsName t)
    (hs : s ∈ c.supertypes t) : c.OwnsName s := by
  have hclass := h.supertypes t (ht.mem_allTypes hs) s hs
  have hv : t.isVariable = false := by
    have hnominal := ht.nominal
    cases t <;> simp_all [TypeInfo.isNominal, TypeInfo.isVariable]
  obtain ⟨n, rfl⟩ | ⟨id, r, hid, rfl⟩ := mem_supertypes_cases hv hs
  · exact ownsName_typeInfo (isNominal_of_isClassOrUnknown hclass)
  · have hknown : t.known? = some t := by
      cases t with
      | source id n => rfl
      | _ => exact absurd hid (by simp [TypeInfo.sourceId?])
    exact ownsName_qualify h.unique (placed_of_known? (ht.known.trans hknown) id hid) hclass

theorem climbable (h : c.SortedHierarchy) : c.Climbable c.OwnsName where
  up _ ht _ hs := h.ownsName_of_mem_supertypes ht hs
  leading t ht := by
    by_cases hs : ∃ s, s ∈ c.supertypes t
    · obtain ⟨s, hs⟩ := hs
      exact Or.inl (name_mem_leadingNames (ht.mem_allTypes hs))
    · exact Or.inr fun s hmem => absurd ⟨s, hmem⟩ hs

theorem isOpenInterface (h : c.SortedHierarchy) {t s : TypeInfo} (ht : c.OwnsName t)
    (hs : s ∈ c.interfaces t) : c.isOpenInterface s = true :=
  h.interfaces t (ht.mem_allTypes (interfaces_subset_supertypes hs)) s hs

theorem ownsName_of_mem_ancestors (h : c.SortedHierarchy) {t s : TypeInfo} (ht : c.OwnsName t)
    (hs : s ∈ c.withAncestors t) : c.OwnsName s := by
  rcases List.mem_cons.mp hs with rfl | hs
  · exact ht
  · exact h.climbable.of_reaches ht (stepsUp_of_mem_ancestorsWithin hs).to_reflTransGen

/-- **The list of supertypes is closed**: what is above a listed type is listed. -/
theorem mem_names_of_reaches (h : c.SortedHierarchy) {t a s : TypeInfo} (ht : c.OwnsName t)
    (ha : a ∈ c.withAncestors t) (hs : Relation.ReflTransGen c.StepsUp a s) :
    s.name ∈ (c.withAncestors t).map TypeInfo.name := by
  have hclosed {b : TypeInfo} (hb : b ∈ c.withAncestors t) {u : TypeInfo} (hu : u ∈ c.supertypes b) :=
    h.climbable.supertype_mem_ancestors (fun _ ht _ hs => h.isOpenInterface ht hs) ht hb hu
  induction hs with
  | refl => exact List.mem_map_of_mem ha
  | @tail b s hab hbs ih =>
    -- the listed type of the same name is the very same
    obtain ⟨b', hb', hname⟩ := List.mem_map.mp ih
    have howns := h.climbable.of_reaches (h.ownsName_of_mem_ancestors ht ha) hab
    rw [(h.ownsName_of_mem_ancestors ht hb').eq_of_name howns hname] at hb'
    exact hclosed hb' hbs

/-- Above the root class there is nothing but the root class. -/
theorem eq_objectType_of_reaches (h : c.SortedHierarchy) {s : TypeInfo}
    (hs : Relation.ReflTransGen c.StepsUp c.objectType s) : s = c.objectType := by
  induction hs with
  | refl => rfl
  | @tail b s _ hbs ih =>
    subst ih
    refine (h.ownsName_of_mem_supertypes ownsName_objectType hbs).eq_of_name ownsName_objectType ?_
    rw [h.root s hbs, objectType, name_typeInfo]

end SortedHierarchy

/-! ## Assignments by name -/

/-- **What a name stands for can be assigned to a variable of what another one stands for.** -/
def Assigns (c : Codebase) (super sub : String) : Prop :=
  c.isAssignable (c.typeInfo super) sub = true

/-- The first name is that of a supertype of what the second one stands for. -/
def Above (c : Codebase) (super sub : String) : Prop :=
  ∃ s ∈ c.ancestors (c.typeInfo sub), s.name = super

theorem assigns_array_iff {a b : String} :
    c.Assigns (a ++ "[]") b ↔ ∃ m, b = m ++ "[]" ∧ c.Assigns a m := by
  have hname : (TypeInfo.array (c.typeInfo a)).name = a ++ "[]" := by
    rw [TypeInfo.name, name_typeInfo]
  rw [Assigns, typeInfo_array, isAssignable, hname, Bool.or_eq_true, beq_iff_eq]
  constructor
  · rintro (rfl | h)
    · exact ⟨a, rfl, isAssignable_typeInfo a⟩
    · cases hm : componentName? b with
      | none =>
        rw [hm] at h
        exact absurd h Bool.false_ne_true
      | some m =>
        rw [hm] at h
        exact ⟨m, componentName?_eq_some_iff.mp hm, h⟩
  · rintro ⟨m, rfl, h⟩
    rw [componentName?_eq_some_iff.mpr rfl]
    exact Or.inr h

theorem assigns_primitive_iff {p : Primitive} {b : String} : c.Assigns p.name b ↔ p.name = b := by
  rw [Assigns, typeInfo_primitive, isAssignable, beq_iff_eq]

theorem assigns_nominal_iff {a b : String} (ha : (c.typeInfo a).isNominal = true) :
    c.Assigns a b ↔ a = b ∨ isPrimitiveName b = false ∧ (a = objectName ∨ c.Above a b) := by
  rw [Assigns, isAssignable_nominal ha, name_typeInfo]
  simp [Above]

/-- A canonical name is that of an array or of a primitive type, or stands for a class or interface. -/
theorem name_cases (c : Codebase) (n : String) :
    (∃ m, n = m ++ "[]") ∨ (∃ p : Primitive, n = p.name) ∨ (c.typeInfo n).isNominal = true := by
  cases hm : componentName? n with
  | some m => exact Or.inl ⟨m, componentName?_eq_some_iff.mp hm⟩
  | none =>
    rw [typeInfo_of_undimensioned hm, elementInfo]
    cases hp : Primitive.ofName? n with
    | some p =>
      have hname : p.name = n := by simpa using List.find?_some hp
      exact Or.inr (Or.inl ⟨p, hname.symm⟩)
    | none =>
      refine Or.inr (Or.inr ?_)
      cases hk : c.known? n with
      | none => rfl
      | some t => exact (ownsName_of_known? hk).nominal

theorem array_or_nominal (c : Codebase) {n : String} (hn : isPrimitiveName n = false) :
    (∃ m, n = m ++ "[]") ∨ (c.typeInfo n).isNominal = true := by
  obtain hm | ⟨p, rfl⟩ | hnominal := c.name_cases n
  · exact Or.inl hm
  · exact absurd hn (by simp [isPrimitiveName, Primitive.ofName?_name])
  · exact Or.inr hnominal

/-- What is assigned to something that is not primitive is not primitive. -/
theorem isPrimitiveName_of_assigns {a b : String} (ha : isPrimitiveName a = false)
    (h : c.Assigns a b) : isPrimitiveName b = false := by
  obtain ⟨m, rfl⟩ | hnominal := c.array_or_nominal ha
  · obtain ⟨k, rfl, -⟩ := assigns_array_iff.mp h
    exact isPrimitiveName_array (.unresolved k)
  · obtain rfl | ⟨hb, -⟩ := (assigns_nominal_iff hnominal).mp h
    · exact ha
    · exact hb

namespace SortedHierarchy

theorem eq_objectName_of_above (h : c.SortedHierarchy) {a : String} (ha : c.Above a objectName) :
    a = objectName := by
  obtain ⟨s, hs, rfl⟩ := ha
  have hreach := (stepsUp_of_mem_ancestorsWithin hs).to_reflTransGen
  rw [h.eq_objectType_of_reaches hreach, objectType, name_typeInfo]

/-- Only the root class is above an array. -/
theorem eq_objectName_of_above_array (h : c.SortedHierarchy) {a m : String}
    (ha : c.Above a (m ++ "[]")) : a = objectName := by
  obtain ⟨s, hs, rfl⟩ := ha
  rw [typeInfo_array] at hs
  obtain ⟨b, hb, hreach⟩ := Relation.TransGen.head'_iff.mp (stepsUp_of_mem_ancestorsWithin hs)
  have hb : b = c.objectType := List.mem_singleton.mp hb
  subst hb
  rw [h.eq_objectType_of_reaches hreach, objectType, name_typeInfo]

/-- **What is above something above is above**, unless it is the same or the root class. -/
theorem above_trans (h : c.SortedHierarchy) {a b d : String}
    (hb : (c.typeInfo b).isNominal = true) (hd : isPrimitiveName d = false) (hab : c.Above a b)
    (hbd : c.Above b d) : a = d ∨ a = objectName ∨ c.Above a d := by
  obtain ⟨m, rfl⟩ | hd := c.array_or_nominal hd
  · rw [h.eq_objectName_of_above_array hbd] at hab
    exact Or.inr (Or.inl (h.eq_objectName_of_above hab))
  obtain ⟨s, hs, rfl⟩ := hab
  obtain ⟨t, ht, hname⟩ := hbd
  -- what is found under the name is the listed type itself
  have hlisted := List.mem_cons_of_mem (c.typeInfo d) ht
  have ht : t = c.typeInfo b :=
    (h.ownsName_of_mem_ancestors (ownsName_typeInfo hd) hlisted).eq_of_name (ownsName_typeInfo hb)
      (by rw [hname, name_typeInfo])
  have hreach := (stepsUp_of_mem_ancestorsWithin hs).to_reflTransGen
  rw [← ht] at hreach
  have hmem := h.mem_names_of_reaches (ownsName_typeInfo hd) hlisted hreach
  rw [withAncestors, List.map_cons, List.mem_cons, name_typeInfo] at hmem
  exact hmem.imp_right fun hmem => Or.inr (List.mem_map.mp hmem)

/-- **Two assignments make one.** -/
theorem assigns_trans (h : c.SortedHierarchy) {a b d : String} (hab : c.Assigns a b)
    (hbd : c.Assigns b d) : c.Assigns a d := by
  induction a using dimension_induction generalizing b d with
  | array a ih =>
    obtain ⟨m, rfl, ham⟩ := assigns_array_iff.mp hab
    obtain ⟨k, rfl, hmk⟩ := assigns_array_iff.mp hbd
    exact assigns_array_iff.mpr ⟨k, rfl, ih ham hmk⟩
  | element a ha =>
    obtain ⟨m, rfl⟩ | ⟨p, rfl⟩ | ha := c.name_cases a
    · exact absurd (componentName?_eq_some_iff.mpr rfl) (by rw [ha]; simp)
    · rw [assigns_primitive_iff.mp hab]
      exact hbd
    · obtain rfl | ⟨hb, hab⟩ := (assigns_nominal_iff ha).mp hab
      · exact hbd
      have hd := isPrimitiveName_of_assigns hb hbd
      rw [assigns_nominal_iff ha]
      obtain rfl | hab := hab
      · exact Or.inr ⟨hd, Or.inl rfl⟩
      obtain ⟨m, rfl⟩ | hnominal := c.array_or_nominal hb
      · exact Or.inr ⟨hd, Or.inl (h.eq_objectName_of_above_array hab)⟩
      obtain rfl | ⟨-, rfl | hbd⟩ := (assigns_nominal_iff hnominal).mp hbd
      · exact Or.inr ⟨hd, Or.inr hab⟩
      · exact Or.inr ⟨hd, Or.inl (h.eq_objectName_of_above hab)⟩
      · exact (h.above_trans hnominal hd hab hbd).imp_right fun hup => ⟨hd, hup⟩

/-- **Assignability is a preorder** on canonical names, those of primitive types, arrays, classes and
unknown types alike. -/
theorem assignability_is_preorder (h : c.SortedHierarchy) :
    (∀ a, c.isAssignable (c.typeInfo a) a = true) ∧
      ∀ a b d, c.isAssignable (c.typeInfo a) b = true → c.isAssignable (c.typeInfo b) d = true →
        c.isAssignable (c.typeInfo a) d = true :=
  ⟨isAssignable_typeInfo, fun _ _ _ hab hbd => h.assigns_trans hab hbd⟩

end SortedHierarchy

/-- In the two cycles an array of `A` can be assigned to one of `B`, and that to one of `Ghost`, of which
nothing is known. -/
theorem assignability_is_preorder_ring :
    Sample.ring.SortedHierarchy ∧
      Sample.ring.isAssignable (Sample.ring.typeInfo "Ghost[]") "B[]" = true ∧
      Sample.ring.isAssignable (Sample.ring.typeInfo "B[]") "A[]" = true ∧
      Sample.ring.isAssignable (Sample.ring.typeInfo "Ghost[]") "A[]" = true := by
  have hsorted : Sample.ring.SortedHierarchy :=
    ⟨by decide +kernel, by decide +kernel, by decide +kernel, by decide +kernel⟩
  have hghost : Sample.ring.isAssignable (Sample.ring.typeInfo "Ghost[]") "B[]" = true := by
    decide +kernel
  have hb : Sample.ring.isAssignable (Sample.ring.typeInfo "B[]") "A[]" = true := by decide +kernel
  exact ⟨hsorted, hghost, hb, hsorted.assignability_is_preorder.2 _ _ _ hghost hb⟩

end Codebase

end JavaCallGraph
