import JavaCallGraph.Proofs.Graph.Termination
import JavaCallGraph.Proofs.Layers
import JavaCallGraph.Proofs.Supertypes
import JavaCallGraph.Syntax.Erasure
import Mathlib.Data.List.Chain

/-!
# All supertypes

`Codebase.ancestors` walks in two phases that share one list of seen names: up the chain of superclasses,
then from all types of the chain breadth-first through interfaces only.  Nothing is missed by that in a
*regular* hierarchy, where what stands in an interface position has no superclass.

Types are compared by their names, and an array may go by the name of an unknown type.  The two phases do
not care, since an array is met in the first phase only, and what is listed under its name there is the
array or leads to the root class as well.  `distance?` takes all supertypes in one phase and may stop at
the unknown type, so it needs the two to be told apart.

* `Codebase.PlainHierarchy` — a name means one class, and no type variable is a supertype.
* `Codebase.RegularHierarchy` — a plain hierarchy in which no class or array is an interface.
* `Codebase.TellsArrays` — no array above a type has the name of an unknown type above it.
* `Codebase.superclassChain_eq_layers` — the first phase is a search by layers as well, so all that is
  known of such searches applies to both phases.
* `Codebase.Climbable.closed` — the budget suffices: only declared and described types have
  supertypes other than the root class.
* `Codebase.RegularHierarchy.objectName_mem_chain` — below an array the first phase meets the root class.
* `Codebase.PlainHierarchy.mem_map_name_iff` — a list without missing names has those that can be
  reached.  This holds of `ancestors` and of the layers that `distance?` counts.
* `Codebase.RegularHierarchy.ancestors_are_reachable` — the main statement, `Codebase.ListsAncestors`.
* `Codebase.distance_stops_at_unknown_sample` — a distance that is missing, as an unknown interface hides
  an array.
-/

set_option autoImplicit false

namespace JavaCallGraph

namespace Codebase

/-- Declared or described as an interface, or unknown. -/
def isOpenInterface (c : Codebase) : TypeInfo → Bool
  | .source id _ => (c.decl id).isInterface
  | .compiled t => t.isInterface
  | .unresolved _ => true
  | _ => false

/-- **A hierarchy in which everything stands where it belongs.**  It may be cyclic. -/
structure RegularHierarchy (c : Codebase) : Prop where
  /-- The name of a class or interface means one type. -/
  names : c.ClassNames
  /-- No supertype of a declaration is a type variable. -/
  notVariable : ∀ id ∈ c.typeIds, ∀ s ∈ c.supertypes (c.sourceType id), s.isVariable = false
  /-- The interfaces of a declaration are interfaces or unknown. -/
  declared : ∀ id ∈ c.typeIds, ∀ s ∈ c.interfaces (c.sourceType id), c.isOpenInterface s = true
  /-- So are those of a description. -/
  described : ∀ t ∈ c.catalog.types, ∀ s ∈ c.interfaces (.compiled t), c.isOpenInterface s = true

/-- **A hierarchy in which a walk up cannot lose its way.**  It may be cyclic. -/
structure PlainHierarchy (c : Codebase) : Prop where
  /-- The name of a class or interface means one type. -/
  names : c.ClassNames
  /-- No supertype of a declaration is a type variable. -/
  notVariable : ∀ id ∈ c.typeIds, ∀ s ∈ c.supertypes (c.sourceType id), s.isVariable = false

theorem RegularHierarchy.plain {c : Codebase} (h : c.RegularHierarchy) : c.PlainHierarchy :=
  ⟨h.names, h.notVariable⟩

/-- One step up leads from `t` to `s`. -/
abbrev StepsUp (c : Codebase) (t s : TypeInfo) : Prop := Layers.Leads c.supertypes t s

/-- **No array above the type has the name of an unknown type above it.**  The type itself counts. -/
def TellsArrays (c : Codebase) (t : TypeInfo) : Prop :=
  ∀ u n, Relation.ReflTransGen c.StepsUp t (.array u) →
    Relation.ReflTransGen c.StepsUp t (.unresolved n) → (TypeInfo.array u).name ≠ n

/-- The supertypes as far as `n` steps of either phase lead. -/
def ancestorsWithin (c : Codebase) (n : Nat) (t : TypeInfo) : List TypeInfo :=
  let chain := t :: c.superclassChain n [t.name] t
  chain.tail ++ (Layers.layers TypeInfo.name c.interfaces n (chain.map TypeInfo.name) chain).flatten

variable {c : Codebase}

/-! ## The budget suffices -/

/-- The names of the types that have supertypes other than the root class. -/
def leadingNames (c : Codebase) : Finset String :=
  (c.types.map TypeDecl.qualifiedName ++ c.catalog.types.map CompiledType.name).toFinset

theorem le_foldl_searchBudget (types : List TypeDecl) (n : Nat) :
    n + types.length ≤ types.foldl
      (fun n t => n + (boundDepth + 3) * (1 + t.extended.length + t.implemented.length)) n := by
  induction types generalizing n with
  | nil => exact Nat.le_refl _
  | cons t types ih =>
    rw [List.foldl_cons, List.length_cons]
    refine Nat.le_trans ?_ (ih _)
    have hone : 1 ≤ (boundDepth + 3) * (1 + t.extended.length + t.implemented.length) :=
      Nat.mul_pos (by decide) (by omega)
    omega

theorem weight_lt_searchBudget (seen : List String) :
    Layers.weight c.leadingNames objectName seen < c.searchBudget := by
  have hcard : (c.leadingNames \ seen.toFinset).card ≤ c.types.length + c.catalog.size := by
    refine Nat.le_trans (Finset.card_le_card Finset.sdiff_subset) ?_
    refine Nat.le_trans (List.toFinset_card_le _) ?_
    rw [List.length_append, List.length_map, List.length_map, Catalog.size]
  have hbudget := le_foldl_searchBudget c.types (c.catalog.size + boundDepth + 3)
  rw [Layers.weight, searchBudget]
  split <;> omega

theorem name_mem_leadingNames {t : TypeInfo} (h : t ∈ c.allTypes) : t.name ∈ c.leadingNames := by
  rw [leadingNames, List.mem_toFinset, List.mem_append]
  rcases List.mem_append.mp h with h | h
  · obtain ⟨id, hid, rfl⟩ := List.mem_map.mp h
    refine Or.inl (List.mem_map.mpr ⟨c.decl id, ?_, rfl⟩)
    rw [decl_eq_getElem (mem_typeIds.mp hid)]
    exact List.getElem_mem _
  · obtain ⟨u, hu, rfl⟩ := List.mem_map.mp h
    exact Or.inr (List.mem_map_of_mem hu)

theorem HandsOut.leading {t : TypeInfo} (ht : c.HandsOut t) :
    t.name ∈ c.leadingNames ∨ ∀ s ∈ c.supertypes t, s.name = objectName := by
  cases t with
  | source id n =>
    cases ht.proper with
    | source hid hn _ =>
      subst hn
      have hmem := mem_typeIds.mpr hid
      exact Or.inl (name_mem_leadingNames (List.mem_append_left _ (List.mem_map_of_mem hmem)))
  | compiled t =>
    cases ht.proper with
    | compiled hk _ => exact Or.inl (name_mem_leadingNames (mem_allTypes_of_known? hk))
  | array t =>
    refine Or.inr fun s hs => ?_
    rw [supertypes_array, List.mem_singleton] at hs
    rw [hs, objectType, name_typeInfo]
  | typeVar n bounds => exact absurd ht.notVariable (by simp [TypeInfo.isVariable])
  | primitive p => exact Or.inr fun s hs => absurd hs List.not_mem_nil
  | unresolved n => exact Or.inr fun s hs => absurd hs List.not_mem_nil

/-- **Types that a walk up does not leave.** -/
structure Climbable (c : Codebase) (P : TypeInfo → Prop) : Prop where
  /-- The supertypes are among them. -/
  up : ∀ t, P t → ∀ s ∈ c.supertypes t, P s
  /-- Those with a supertype other than the root class are declared or described. -/
  leading : ∀ t, P t → t.name ∈ c.leadingNames ∨ ∀ s ∈ c.supertypes t, s.name = objectName

/-- **Nothing is missing in a search upwards** that has the budget, whichever of the supertypes it goes
to. -/
theorem Climbable.closed {P : TypeInfo → Prop} (h : c.Climbable P)
    {next : TypeInfo → List TypeInfo} (hnext : ∀ t, ∀ s ∈ next t, s ∈ c.supertypes t) {n : Nat}
    (hn : c.searchBudget ≤ n) {seen : List String} {frontier : List TypeInfo}
    (hfrontier : ∀ t ∈ frontier, P t) : Layers.Closed TypeInfo.name next n seen frontier := by
  refine Layers.closed_of_weight_lt (P := P) (fun t ht s hs => h.up t ht s (hnext t s hs))
    (fun t ht => (h.leading t ht).imp_right fun hroot s hs => hroot s (hnext t s hs)) hfrontier ?_
  exact Nat.lt_of_lt_of_le (c.weight_lt_searchBudget seen) hn

/-- All that is above such a type is such a type. -/
theorem Climbable.of_reaches {P : TypeInfo → Prop} (h : c.Climbable P) {t s : TypeInfo} (ht : P t)
    (hs : Relation.ReflTransGen c.StepsUp t s) : P s := by
  induction hs with
  | refl => exact ht
  | tail _ hstep ih => exact h.up _ ih _ hstep

/-! ## One step up in a regular hierarchy -/

theorem superclass?_of_isOpenInterface {t : TypeInfo} (h : c.isOpenInterface t = true) :
    c.superclass? t = none := by
  cases t with
  | source id n =>
    rw [isOpenInterface, TypeDecl.isInterface] at h
    rw [superclass?]
    split at h
    · next hk => rw [hk]
    · next hk => rw [hk]
    · exact absurd h (by simp)
  | compiled t =>
    rw [isOpenInterface] at h
    rw [superclass?, CompiledType.superclassName?, h]
    rfl
  | unresolved n => rfl
  | _ => exact absurd h (by simp [isOpenInterface])

namespace PlainHierarchy

/-- The supertypes of a type that the code base hands out are handed out as well. -/
theorem handsOut (h : c.PlainHierarchy) {t s : TypeInfo} (ht : c.HandsOut t)
    (hs : s ∈ c.supertypes t) : c.HandsOut s where
  proper := (Obeys.trivial c).rooted ht.proper s hs
  notVariable := by
    cases t with
    | source id n =>
      cases ht.proper with
      | source hid _ _ => exact h.notVariable id (mem_typeIds.mpr hid) s hs
    | _ =>
      obtain ⟨n, rfl⟩ | ⟨id, r, hid, -⟩ := mem_supertypes_cases ht.notVariable hs
      · exact isVariable_typeInfo n
      · exact absurd hid (by simp [TypeInfo.sourceId?])

theorem climbable (h : c.PlainHierarchy) : c.Climbable c.HandsOut :=
  ⟨fun _ ht _ hs => h.handsOut ht hs, fun _ ht => ht.leading⟩

theorem unknown_of_reaches (h : c.PlainHierarchy) {t : TypeInfo} (ht : c.HandsOut t) {n : String}
    (hn : Relation.TransGen c.StepsUp t (.unresolved n)) : c.known? n = none := by
  obtain ⟨b, hb, hstep⟩ := (Relation.TransGen.tail'_iff).mp hn
  exact h.names.known?_of_mem_supertypes (h.climbable.of_reaches ht hb).notVariable hstep

/-- **Types of one name that are met on the way up have the same supertypes**, unless one is an array and
the other is unknown. -/
theorem supertypes_subset (h : c.PlainHierarchy) {t a b : TypeInfo} (ht : c.HandsOut t)
    (ha : Relation.ReflTransGen c.StepsUp t a) (hb : Relation.ReflTransGen c.StepsUp t b)
    (hname : a.name = b.name) (hunknown : ∀ n, a = .unresolved n → b.component? = none) :
    c.supertypes b ⊆ c.supertypes a := by
  have hout : ∀ s, Relation.ReflTransGen c.StepsUp t s → c.HandsOut s := fun _ =>
    h.climbable.of_reaches ht
  rcases Relation.reflTransGen_iff_eq_or_transGen.mp ha with rfl | hsteps
  · rcases Relation.reflTransGen_iff_eq_or_transGen.mp hb with rfl | hsteps
    · exact List.Subset.refl _
    · refine h.names.supertypes_subset ht (hout b hb) hname ?_
      rintro n rfl
      -- nothing is above an unknown type
      obtain ⟨d, hd, -⟩ := Relation.TransGen.head'_iff.mp hsteps
      exact absurd hd List.not_mem_nil
  · refine h.names.supertypes_subset (hout a ha) (hout b hb) hname fun n hn => ⟨?_, hunknown n hn⟩
    exact h.unknown_of_reaches ht (hn ▸ hsteps)

/-- **Types of one name have the same supertypes** where arrays are told from unknown types. -/
theorem supertypes_subset_of_tellsArrays (h : c.PlainHierarchy) {t : TypeInfo} (ht : c.HandsOut t)
    (htells : c.TellsArrays t) {a b : TypeInfo} (ha : Relation.ReflTransGen c.StepsUp t a)
    (hb : Relation.ReflTransGen c.StepsUp t b) (hname : a.name = b.name) :
    c.supertypes b ⊆ c.supertypes a := by
  refine h.supertypes_subset ht ha hb hname ?_
  rintro n rfl
  cases b with
  | array u => exact absurd hname.symm (htells u n hb ha)
  | _ => rfl

/-- Arrays are told from unknown types where no array stands in the position of a supertype. -/
theorem tellsArrays_of_forall (h : c.PlainHierarchy) {t : TypeInfo} (ht : c.HandsOut t)
    (hstart : t.component? = none)
    (harray : ∀ u ∈ c.allTypes, ∀ s ∈ c.supertypes u, s.component? = none) : c.TellsArrays t := by
  have hnone : ∀ s, Relation.ReflTransGen c.StepsUp t s → s.component? = none := by
    intro s hs
    cases hs with
    | refl => exact hstart
    | @tail b _ hb hstep =>
      obtain hk | ⟨p, rfl⟩ | ⟨u, rfl⟩ | ⟨n, rfl⟩ := h.names.known?_or (h.climbable.of_reaches ht hb)
      · exact harray b (mem_allTypes_of_known? hk) s hstep
      · exact absurd hstep List.not_mem_nil
      · -- above an array there is the root class
        obtain rfl := List.mem_singleton.mp hstep
        cases ho : c.objectType with
        | array v =>
          have hname : (TypeInfo.array v).name = objectName := ho ▸ c.name_typeInfo objectName
          exact absurd (hname ▸ (by decide)) (not_undimensioned_array v)
        | _ => rfl
      · exact absurd hstep List.not_mem_nil
  intro u n hu
  exact absurd (hnone _ hu) (by simp [TypeInfo.component?])

end PlainHierarchy

theorem RegularHierarchy.isOpenInterface (h : c.RegularHierarchy) {t s : TypeInfo} (ht : c.HandsOut t)
    (hs : s ∈ c.interfaces t) : c.isOpenInterface s = true := by
  cases t with
  | source id n =>
    cases ht.proper with
    | source hid _ _ => exact h.declared id (mem_typeIds.mpr hid) s hs
  | compiled t =>
    cases ht.proper with
    | compiled hk _ => exact h.described t (mem_types_of_known? hk) s hs
  | _ => exact absurd hs List.not_mem_nil

/-! ## The chain of superclasses -/

/-- The superclass as a list. -/
def upper (c : Codebase) (t : TypeInfo) : List TypeInfo := (c.superclass? t).toList

theorem mem_supertypes_of_mem_upper (t : TypeInfo) : ∀ s ∈ c.upper t, s ∈ c.supertypes t :=
  fun _ hs => List.mem_append_left _ hs

/-- **The chain is what layers of superclasses list.** -/
theorem superclassChain_eq_layers (n : Nat) (seen : List String) (t : TypeInfo) :
    c.superclassChain n seen t = (Layers.layers TypeInfo.name c.upper n seen [t]).flatten := by
  induction n generalizing seen t with
  | zero => rfl
  | succ n ih =>
    have hnil : ∀ seen, Layers.layers TypeInfo.name c.upper n seen [] = [] := fun _ =>
      Layers.layers_of_still (fun a ha => absurd ha List.not_mem_nil) n
    rw [superclassChain, Layers.flatten_layers_succ, List.flatMap_singleton, upper]
    cases c.superclass? t with
    | none =>
      rw [Option.toList_none, Layers.fresh, List.map_nil, List.nil_append, hnil]
      rfl
    | some parent =>
      simp only [Option.toList_some, Layers.fresh]
      split
      · rw [List.map_nil, List.nil_append, hnil]
        rfl
      · rw [ih]
        rfl

theorem isChain_superclassChain (n : Nat) (seen : List String) (t : TypeInfo) :
    (t :: c.superclassChain n seen t).IsChain fun a b => c.superclass? a = some b := by
  induction n generalizing seen t with
  | zero => exact .singleton t
  | succ n ih =>
    rw [superclassChain]
    split
    · exact .singleton t
    · next parent hparent =>
      split
      · exact .singleton t
      · exact .cons_cons hparent (ih _ _)

/-! ## What is listed -/

/-- The types of the chain are above the first one. -/
theorem stepsUp_of_mem_superclassChain {n : Nat} {seen : List String} {t s : TypeInfo}
    (hs : s ∈ c.superclassChain n seen t) : Relation.TransGen c.StepsUp t s := by
  rw [superclassChain_eq_layers] at hs
  obtain ⟨a, ha, has⟩ := Layers.transGen_of_mem_layers hs
  rw [List.mem_singleton.mp ha] at has
  exact Relation.TransGen.mono (fun a b hab => mem_supertypes_of_mem_upper a b hab) _ _ has

/-- Everything that is listed is above the type. -/
theorem stepsUp_of_mem_ancestorsWithin {n : Nat} {t s : TypeInfo} (hs : s ∈ c.ancestorsWithin n t) :
    Relation.TransGen c.StepsUp t s := by
  rcases List.mem_append.mp hs with hs | hs
  · exact stepsUp_of_mem_superclassChain hs
  · obtain ⟨a, ha, has⟩ := Layers.transGen_of_mem_layers hs
    have has : Relation.TransGen c.StepsUp a s :=
      Relation.TransGen.mono (fun _ _ hab => interfaces_subset_supertypes hab) _ _ has
    rcases List.mem_cons.mp ha with rfl | ha
    · exact has
    · exact (stepsUp_of_mem_superclassChain ha).trans has

theorem nodup_superclassChain (n : Nat) (seen : List String) (t : TypeInfo) :
    ((c.superclassChain n seen t).map TypeInfo.name).Nodup ∧
      ∀ s ∈ c.superclassChain n seen t, s.name ∉ seen := by
  rw [superclassChain_eq_layers]
  exact Layers.nodup_map_key n seen [t]

/-- **No name is listed twice**, and not that of the type itself. -/
theorem nodup_ancestorsWithin (n : Nat) (t : TypeInfo) :
    ((t :: c.ancestorsWithin n t).map TypeInfo.name).Nodup := by
  obtain ⟨hchain, hnew⟩ := c.nodup_superclassChain n [t.name] t
  rw [ancestorsWithin, List.tail_cons, ← List.cons_append, List.map_append, List.nodup_append]
  refine ⟨?_, (Layers.nodup_map_key _ _ _).1, fun a ha b hb hab => ?_⟩
  · rw [List.map_cons, List.nodup_cons]
    refine ⟨fun hmem => ?_, hchain⟩
    obtain ⟨s, hs, hname⟩ := List.mem_map.mp hmem
    exact hnew s hs (hname ▸ List.mem_singleton_self _)
  · obtain ⟨s, hs, rfl⟩ := List.mem_map.mp hb
    exact (Layers.nodup_map_key _ _ _).2 s hs (hab ▸ ha)

/-- **A list without missing names has those that can be reached.**  Under the name of an array an unknown
type may be listed, which leads nowhere, so the root class is asked for separately. -/
theorem PlainHierarchy.mem_map_name_iff (h : c.PlainHierarchy) {t : TypeInfo} (ht : c.HandsOut t)
    {listed : List TypeInfo} (hsound : ∀ s ∈ listed, Relation.TransGen c.StepsUp t s)
    (hnew : t.name ∉ listed.map TypeInfo.name)
    (hclosed : ∀ a ∈ t :: listed, ∀ s ∈ c.supertypes a,
      s.name ∈ (t :: listed).map TypeInfo.name)
    (harray : ∀ u, Relation.ReflTransGen c.StepsUp t (.array u) →
      (TypeInfo.array u).name ∈ (t :: listed).map TypeInfo.name →
        objectName ∈ (t :: listed).map TypeInfo.name) (n : String) :
    n ∈ listed.map TypeInfo.name ↔
      n ≠ t.name ∧ ∃ s, Relation.TransGen c.StepsUp t s ∧ s.name = n := by
  refine Layers.mem_map_key_iff hsound hnew fun b hb hmem s hs => ?_
  obtain ⟨a, ha, hname⟩ := List.mem_map.mp hmem
  have hreach : Relation.ReflTransGen c.StepsUp t a := by
    rcases List.mem_cons.mp ha with rfl | ha
    · exact .refl
    · exact (hsound a ha).to_reflTransGen
  cases b with
  | array u =>
    rw [List.mem_singleton.mp hs, objectType, name_typeInfo]
    exact harray u hb hmem
  | _ => exact hclosed a ha s (h.supertypes_subset ht hreach hb hname (fun _ _ => rfl) hs)

namespace Climbable

variable {P : TypeInfo → Prop}

/-- A superclass of the chain is on the chain. -/
theorem superclass_mem_chain (h : c.Climbable P) {t : TypeInfo} (ht : P t) {n : Nat}
    (hn : c.searchBudget ≤ n) {a s : TypeInfo} (ha : a ∈ t :: c.superclassChain n [t.name] t)
    (hs : c.superclass? a = some s) :
    s.name ∈ (t :: c.superclassChain n [t.name] t).map TypeInfo.name := by
  have hclosed : Layers.Closed TypeInfo.name c.upper n [t.name] [t] :=
    h.closed mem_supertypes_of_mem_upper hn (by simpa using ht)
  rw [Layers.Closed, ← superclassChain_eq_layers] at hclosed
  exact hclosed a ha s (by rw [upper, hs]; exact List.mem_cons_self)

theorem of_mem_chain (h : c.Climbable P) {t a : TypeInfo} (ht : P t) {n : Nat}
    (ha : a ∈ t :: c.superclassChain n [t.name] t) : P a := by
  rcases List.mem_cons.mp ha with rfl | ha
  · exact ht
  · exact h.of_reaches ht (stepsUp_of_mem_superclassChain ha).to_reflTransGen

/-- **No supertype of what is listed is missing**, where only interfaces stand in the positions of
interfaces. -/
theorem supertype_mem_ancestors (h : c.Climbable P)
    (hopen : ∀ t, P t → ∀ s ∈ c.interfaces t, c.isOpenInterface s = true) {t : TypeInfo} (ht : P t)
    {a s : TypeInfo} (ha : a ∈ c.withAncestors t) (hs : s ∈ c.supertypes a) :
    s.name ∈ (c.withAncestors t).map TypeInfo.name := by
  have hclosed : Layers.Closed TypeInfo.name c.interfaces c.searchBudget
      ((t :: c.superclasses t).map TypeInfo.name) (t :: c.superclasses t) :=
    h.closed (fun _ _ => interfaces_subset_supertypes) (Nat.le_refl _)
      fun a ha => h.of_mem_chain ht ha
  rw [Layers.Closed, ← List.map_append, ← withAncestors_eq_append] at hclosed
  rcases List.mem_append.mp hs with hsuper | hs
  · rw [withAncestors_eq_append] at ha
    rcases List.mem_append.mp ha with ha | ha
    · have hmem := h.superclass_mem_chain ht (Nat.le_refl _) ha (Option.mem_toList.mp hsuper)
      rw [withAncestors_eq_append, List.map_append]
      exact List.mem_append_left _ hmem
    · -- the second phase meets interfaces only, and they have no superclass
      have hinterface {a : TypeInfo} (ha : P a) :
          ∀ b ∈ c.interfaces a, P b ∧ c.isOpenInterface b = true := fun b hb =>
        ⟨h.up a ha b (interfaces_subset_supertypes hb), hopen a ha b hb⟩
      have hphase := Layers.forall_mem_layers (P := fun a => P a ∧ c.isOpenInterface a = true)
        (fun a ha => hinterface ha.1) (fun a ha => hinterface (h.of_mem_chain ht ha)) a ha
      rw [superclass?_of_isOpenInterface hphase.2] at hsuper
      exact absurd hsuper List.not_mem_nil
  · exact hclosed a ha s hs

end Climbable

/-! ## Arrays on the way up -/

/-- The superclass of `t` is `s`. -/
abbrev Extends (c : Codebase) (t s : TypeInfo) : Prop := c.superclass? t = some s

/-- An element of a chain has a successor in it, or it is the last one. -/
theorem exists_next_or_getLast {α : Type} {R : α → α → Prop} {as : List α} (h : as.IsChain R) {a : α}
    (ha : a ∈ as) : (∃ b ∈ as, R a b) ∨ as.getLast? = some a := by
  induction h with
  | nil => exact absurd ha List.not_mem_nil
  | singleton b => exact .inr (by rw [List.mem_singleton.mp ha]; rfl)
  | @cons_cons b d as hbd _ ih =>
    rcases List.mem_cons.mp ha with rfl | ha
    · exact .inl ⟨d, List.mem_cons_of_mem _ List.mem_cons_self, hbd⟩
    · rcases ih ha with ⟨e, he, hae⟩ | hlast
      · exact .inl ⟨e, List.mem_cons_of_mem _ he, hae⟩
      · exact .inr (by rwa [List.getLast?_cons_cons])

/-- The chain ends at a type without a superclass, and until then it goes on. -/
theorem mem_chain_of_extends {t a b x : TypeInfo} (ha : a ∈ t :: c.superclasses t)
    (hab : c.Extends a b) (hx : x ∈ t :: c.superclasses t) (htop : c.superclass? x = none) :
    b ∈ t :: c.superclasses t := by
  have hchain : (t :: c.superclasses t).IsChain c.Extends := isChain_superclassChain _ _ _
  have hlast : (t :: c.superclasses t).getLast? = some x := by
    refine (exists_next_or_getLast hchain hx).resolve_left ?_
    rintro ⟨y, -, hy⟩
    exact nomatch htop.symm.trans hy
  rcases exists_next_or_getLast hchain ha with ⟨d, hd, had⟩ | ha
  · rwa [Option.some.inj (hab.symm.trans had)]
  · rw [Option.some.inj (ha.symm.trans hlast)] at hab
    exact nomatch htop.symm.trans hab

/-- **A superclass that has a superclass itself is on the chain**, or an array is there in its place. -/
theorem PlainHierarchy.mem_chain_or (h : c.PlainHierarchy) {t s : TypeInfo} (ht : c.HandsOut t)
    (hpath : Relation.ReflTransGen c.Extends t s) (hs : c.superclass? s ≠ none) :
    s ∈ t :: c.superclasses t ∨ ∃ u, .array u ∈ t :: c.superclasses t := by
  induction hpath with
  | refl => exact .inl List.mem_cons_self
  | @tail a b hpath hab ih =>
    obtain ha | harray := ih (by rw [hab]; exact Option.some_ne_none b)
    · have hreach : Relation.ReflTransGen c.StepsUp t b := by
        refine Relation.ReflTransGen.mono (fun _ _ hstep => ?_) _ _ (hpath.tail hab)
        exact superclass?_mem_supertypes hstep
      obtain ⟨x, hx, hname⟩ :=
        List.mem_map.mp (h.climbable.superclass_mem_chain ht (Nat.le_refl _) ha hab)
      obtain hk | ⟨p, rfl⟩ | ⟨u, rfl⟩ | ⟨n, rfl⟩ :=
        h.names.known?_or (h.climbable.of_mem_chain ht hx)
      · have hb := h.climbable.of_reaches ht hreach
        rw [h.names.eq_of_known? hb hk hname.symm ?_]
        · exact .inl hx
        · rintro n rfl
          exact absurd rfl hs
      · exact .inl (mem_chain_of_extends ha hab hx rfl)
      · exact .inr ⟨u, hx⟩
      · exact .inl (mem_chain_of_extends ha hab hx rfl)
    · exact .inr harray

namespace RegularHierarchy

/-- What is above a type is reached from superclass to superclass, or it is an interface or unknown. -/
theorem extends_or_isOpenInterface (h : c.RegularHierarchy) {t s : TypeInfo} (ht : c.HandsOut t)
    (hs : Relation.ReflTransGen c.StepsUp t s) :
    Relation.ReflTransGen c.Extends t s ∨ c.isOpenInterface s = true := by
  induction hs with
  | refl => exact .inl .refl
  | tail hb hstep ih =>
    rcases List.mem_append.mp hstep with hsuper | hinterface
    · have hsuper := Option.mem_toList.mp hsuper
      rcases ih with ih | hopen
      · exact .inl (ih.tail hsuper)
      · rw [superclass?_of_isOpenInterface hopen] at hsuper
        exact nomatch hsuper
    · exact .inr (h.isOpenInterface (h.plain.climbable.of_reaches ht hb) hinterface)

/-- **Below an array the chain has the root class.** -/
theorem objectName_mem_chain (h : c.RegularHierarchy) {t u : TypeInfo} (ht : c.HandsOut t)
    (hu : Relation.ReflTransGen c.StepsUp t (.array u)) :
    objectName ∈ (t :: c.superclasses t).map TypeInfo.name := by
  have hpath : Relation.ReflTransGen c.Extends t (.array u) :=
    (h.extends_or_isOpenInterface ht hu).resolve_right Bool.false_ne_true
  obtain ⟨v, hv⟩ : ∃ v, .array v ∈ t :: c.superclasses t := by
    obtain hmem | harray := h.plain.mem_chain_or ht hpath (Option.some_ne_none _)
    · exact ⟨u, hmem⟩
    · exact harray
  have hmem := h.plain.climbable.superclass_mem_chain ht (Nat.le_refl _) hv (s := c.objectType) rfl
  rwa [objectType, name_typeInfo] at hmem

theorem mem_ancestors_iff (h : c.RegularHierarchy) {t : TypeInfo} (ht : c.HandsOut t) (n : String) :
    n ∈ (c.ancestors t).map TypeInfo.name ↔
      n ≠ t.name ∧ ∃ s, Relation.TransGen c.StepsUp t s ∧ s.name = n := by
  have hsound : ∀ s ∈ c.ancestors t, Relation.TransGen c.StepsUp t s := fun _ hs =>
    stepsUp_of_mem_ancestorsWithin hs
  have hnodup : ((t :: c.ancestors t).map TypeInfo.name).Nodup := c.nodup_ancestorsWithin _ t
  rw [List.map_cons, List.nodup_cons] at hnodup
  refine h.plain.mem_map_name_iff ht hsound hnodup.1
    (fun a ha s hs => h.plain.climbable.supertype_mem_ancestors
      (fun _ ht _ hs => h.isOpenInterface ht hs) ht ha hs) (fun u hu _ => ?_) n
  change objectName ∈ (c.withAncestors t).map TypeInfo.name
  rw [withAncestors_eq_append, List.map_append]
  exact List.mem_append_left _ (h.objectName_mem_chain ht hu)

end RegularHierarchy

/-! ## Distances -/

theorem isSome_layerOf?_iff (n : String) (layers : List (List TypeInfo)) :
    (layerOf? n layers).isSome ↔ n ∈ layers.flatten.map TypeInfo.name := by
  rw [layerOf?, Option.isSome_map, List.findIdx?_isSome, List.any_eq_true]
  simp only [List.any_eq_true, beq_iff_eq, List.mem_map, List.mem_flatten]
  constructor
  · rintro ⟨l, hl, t, ht, rfl⟩
    exact ⟨t, ⟨l, hl, ht⟩, rfl⟩
  · rintro ⟨t, ⟨l, hl, ht⟩, rfl⟩
    exact ⟨l, hl, t, ht, rfl⟩

theorem distance?_of_notPrimitive {t : TypeInfo} (hp : t.primitive? = none) (n : String) :
    c.distance? t n = c.distanceUp? t n := by
  cases t with
  | primitive p => exact absurd hp (by simp [TypeInfo.primitive?])
  | _ => rfl

namespace PlainHierarchy

/-- Nothing is missing in the layers above a type. -/
theorem closed_above (h : c.PlainHierarchy) {t : TypeInfo} (ht : c.HandsOut t) :
    Layers.Closed TypeInfo.name c.supertypes c.searchBudget [t.name] [t] :=
  h.climbable.closed (fun _ _ hs => hs) (Nat.le_refl _) (by simpa using ht)

/-- **There is a distance to the names that can be reached**, where arrays are told from unknown types. -/
theorem isSome_distanceUp?_iff (h : c.PlainHierarchy) {t : TypeInfo} (ht : c.HandsOut t)
    (htells : c.TellsArrays t) (n : String) :
    (c.distanceUp? t n).isSome ↔
      n = t.name ∨ n ≠ t.name ∧ ∃ s, Relation.TransGen c.StepsUp t s ∧ s.name = n := by
  have hsound : ∀ s ∈ (Layers.layers TypeInfo.name c.supertypes c.searchBudget [t.name] [t]).flatten,
      Relation.TransGen c.StepsUp t s := by
    intro s hs
    obtain ⟨a, ha, has⟩ := Layers.transGen_of_mem_layers hs
    exact List.mem_singleton.mp ha ▸ has
  rw [distanceUp?]
  split
  · next hname => simp [beq_iff_eq.mp hname]
  · next hname =>
    rw [beq_iff_eq] at hname
    rw [isSome_layerOf?_iff, or_iff_right (Ne.symm hname)]
    refine h.mem_map_name_iff ht hsound (fun hmem => ?_) (h.closed_above ht)
      (fun u hu hmem => ?_) n
    · obtain ⟨s, hs, hsame⟩ := List.mem_map.mp hmem
      exact (Layers.nodup_map_key _ _ _).2 s hs (hsame ▸ List.mem_singleton_self _)
    · obtain ⟨a, ha, hname⟩ := List.mem_map.mp hmem
      have hreach : Relation.ReflTransGen c.StepsUp t a := by
        rcases List.mem_cons.mp ha with rfl | ha
        · exact .refl
        · exact (hsound a ha).to_reflTransGen
      have hobject := h.supertypes_subset_of_tellsArrays ht htells hreach hu hname
        (List.mem_singleton_self c.objectType)
      rw [← c.name_typeInfo objectName]
      exact h.closed_above ht a ha _ hobject

end PlainHierarchy

/-! ## The main statement -/

/-- **All supertypes are listed**, by a search that ends. -/
structure ListsAncestors (c : Codebase) (t : TypeInfo) : Prop where
  /-- Further steps would find nothing more. -/
  ends : ∀ n, c.searchBudget ≤ n → c.ancestorsWithin n t = c.ancestors t
  /-- No name is listed twice, and not that of the type itself. -/
  once : ((c.withAncestors t).map TypeInfo.name).Nodup
  /-- The other names are those that one or more steps up lead to. -/
  reachable : ∀ n, n ∈ (c.ancestors t).map TypeInfo.name ↔
    n ≠ t.name ∧ ∃ s, Relation.TransGen c.StepsUp t s ∧ s.name = n
  /-- The superclasses come first. -/
  first : ∃ others, c.ancestors t = c.superclasses t ++ others
  /-- Each of them is the superclass of the one before it. -/
  chain : (t :: c.superclasses t).IsChain fun a b => c.superclass? a = some b
  /-- None of them is left out. -/
  whole : ∀ a ∈ t :: c.superclasses t, ∀ s, c.superclass? a = some s →
    s.name ∈ (t :: c.superclasses t).map TypeInfo.name
  /-- A type that is not primitive has a distance to the same names, and to its own, where arrays are told
  from unknown types. -/
  distance : t.primitive? = none → c.TellsArrays t → ∀ n,
    (c.distance? t n).isSome ↔ n = t.name ∨ n ∈ (c.ancestors t).map TypeInfo.name

/-- **The supertypes that are listed are those that can be reached**, for every type that is not a type
variable. -/
theorem RegularHierarchy.ancestors_are_reachable (h : c.RegularHierarchy) {t : TypeInfo}
    (ht : c.HandsOut t) : c.ListsAncestors t where
  ends := fun n hn => by
    have hclimb := h.plain.climbable
    have hchain : c.superclassChain n [t.name] t = c.superclasses t := by
      rw [superclasses, superclassChain_eq_layers, superclassChain_eq_layers]
      exact congrArg List.flatten (Layers.layers_eq_of_closed
        (hclimb.closed mem_supertypes_of_mem_upper (Nat.le_refl _) (by simpa using ht)) hn)
    rw [ancestorsWithin, ancestors, hchain]
    refine congrArg (fun layers => _ ++ List.flatten layers) (Layers.layers_eq_of_closed ?_ hn)
    exact hclimb.closed (fun _ _ => interfaces_subset_supertypes) (Nat.le_refl _)
      fun a ha => hclimb.of_mem_chain ht ha
  once := c.nodup_ancestorsWithin c.searchBudget t
  reachable := h.mem_ancestors_iff ht
  first := ⟨_, rfl⟩
  chain := isChain_superclassChain _ _ _
  whole := fun a ha s hs => h.plain.climbable.superclass_mem_chain ht (Nat.le_refl _) ha hs
  distance := fun hp htells n => by
    rw [distance?_of_notPrimitive hp, h.plain.isSome_distanceUp?_iff ht htells, h.mem_ancestors_iff ht]

end Codebase

/-! ## Two cycles

`A` is above itself through a declared and a described class, and so are the interfaces `I` and `J`.
Nothing is known of `Ghost`. -/

namespace Sample

/-- Four declared types and one in the catalog. -/
def ring : Codebase where
  units := [⟨"Ring.java", none, [], none⟩]
  types :=
    [{ classDecl "A" [.simple "B"] [] with implemented := [.simple "I"] },
     { classDecl "B" [.simple "lib.Base"] [] with implemented := [.simple "Ghost"] },
     { classDecl "I" [.simple "J"] [] with kind := .interface },
     { classDecl "J" [.simple "I"] [] with kind := .interface }]
  catalog := ⟨[⟨"lib.Base", false, some "A", ["J"], [], []⟩]⟩

theorem regularHierarchy_ring : ring.RegularHierarchy where
  names := ⟨by decide +kernel, by decide +kernel, by decide +kernel⟩
  notVariable := by decide +kernel
  declared := by decide +kernel
  described := by decide +kernel

theorem tellsArrays_ring : ring.TellsArrays (ring.sourceType ⟨0⟩) :=
  regularHierarchy_ring.plain.tellsArrays_of_forall (Codebase.handsOut_sourceType (by decide)) rfl
    (by decide +kernel)

end Sample

/-- The superclasses of `A` come first and end before `A` itself; then come the interfaces, of which `J`
is met through the described class. -/
theorem Codebase.ancestors_are_reachable_sample :
    (Sample.ring.ancestors (Sample.ring.sourceType ⟨0⟩)).map TypeInfo.name =
        ["B", "lib.Base", "I", "Ghost", "J"] ∧
      (∃ s, Relation.TransGen Sample.ring.StepsUp (Sample.ring.sourceType ⟨0⟩) s ∧ s.name = "J") ∧
      (Sample.ring.distance? (Sample.ring.sourceType ⟨0⟩) "J").isSome ∧
      ¬(Sample.ring.distance? (Sample.ring.sourceType ⟨0⟩) objectName).isSome := by
  have hlists := Sample.regularHierarchy_ring.ancestors_are_reachable
    (t := Sample.ring.sourceType ⟨0⟩) (handsOut_sourceType (by decide))
  have hnames : (Sample.ring.ancestors (Sample.ring.sourceType ⟨0⟩)).map TypeInfo.name =
      ["B", "lib.Base", "I", "Ghost", "J"] := by decide +kernel
  have hdistance := hlists.distance rfl Sample.tellsArrays_ring
  have hreachable := hlists.reachable "J"
  rw [hnames] at hdistance hreachable
  exact ⟨hnames, (hreachable.mp (by decide)).2, (hdistance "J").mpr (Or.inr (by decide)),
    fun hsome => absurd ((hdistance objectName).mp hsome) (by decide)⟩

/-! ## An array behind an unknown interface

The superclass of `A` is an array of `lib.@Size("byte < 4") Box`, and the interface of `D` is a
`lib.@Size("byte[] < 4") Box`.  What is left of either name ends at the `<`, so both supertypes are called
`lib.@Size("byte[]`. -/

namespace Sample

/-- The two classes. -/
def sized : Codebase where
  units := [⟨"Sized.java", none, [], none⟩]
  types :=
    [classDecl "A" [.array (.simple (Syntax.eraseGenerics "lib.@Size(\"byte < 4\") Box"))] [],
     { classDecl "D" [.simple "A"] [] with
        implemented := [.simple (Syntax.eraseGenerics "lib.@Size(\"byte[] < 4\") Box")] }]
  catalog := .empty

theorem regularHierarchy_sized : sized.RegularHierarchy where
  names := ⟨by decide +kernel, by decide +kernel, by decide +kernel⟩
  notVariable := by decide +kernel
  declared := by decide +kernel
  described := by decide +kernel

end Sample

/-- **A distance that is missing.**  From `D` the interface is met before the array of the same name, and
nothing is above it, so the root class is not met at all.  It is listed, since the superclasses come
first. -/
theorem Codebase.distance_stops_at_unknown_sample :
    ¬∀ c : Codebase, c.RegularHierarchy → ∀ t, c.HandsOut t → t.primitive? = none → ∀ n,
      (c.distance? t n).isSome ↔ n = t.name ∨ n ∈ (c.ancestors t).map TypeInfo.name := by
  intro h
  have hsame := h Sample.sized Sample.regularHierarchy_sized (Sample.sized.sourceType ⟨1⟩)
    (handsOut_sourceType (by decide)) rfl objectName
  have hlisted : objectName ∈ (Sample.sized.ancestors (Sample.sized.sourceType ⟨1⟩)).map
      TypeInfo.name := by decide +kernel
  exact absurd (hsame.mpr (Or.inr hlisted)) (by decide +kernel)

end JavaCallGraph
