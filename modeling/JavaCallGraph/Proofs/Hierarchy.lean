import JavaCallGraph.Codebase.Index
import JavaCallGraph.Graph.Link
import JavaCallGraph.Proofs.Typing.Proper

/-!
# The hierarchy of declared types, read upwards and downwards

Two parts of the library look at the declared hierarchy from opposite ends.  A method is linked to
the declarations *above* it by asking each type for its supertypes; overriding methods are searched
*below* a type in the table that an index keeps.  This file says that both see the same hierarchy.

* `Codebase.index_lt_of_mem_sourceParents` — a declared supertype has a place in the code base, since
  whatever a name is looked up to does (`Codebase.Placed`).
* `Index.mem_directSubtypes` — the table lists a type below exactly its declared direct supertypes.
* `Codebase.Climbs` — a path up the declared hierarchy; every declared superclass is at the end of
  one (`Codebase.exists_climbs_of_mem_declaredSuperclasses`).
-/

set_option autoImplicit false

namespace JavaCallGraph

namespace Codebase

variable {c : Codebase}

/-! ## Types that have a place in the code base -/

/-- If the type is a declared one, then it has a place in the code base. -/
def Placed (c : Codebase) (t : TypeInfo) : Prop :=
  ∀ id, t.sourceId? = some id → id.index < c.types.length

theorem placed_of_sourceId?_eq_none {t : TypeInfo} (h : t.sourceId? = none) : c.Placed t := by
  intro id hid
  rw [h] at hid
  exact absurd hid (by simp)

theorem placed_of_known? {n : String} {t : TypeInfo} (h : c.known? n = some t) : c.Placed t := by
  obtain ⟨k, hk, rfl⟩ | ⟨u, -, rfl⟩ := known?_cases h
  · intro id hid
    rw [← Option.some.inj hid]
    exact (resolveType?_eq_some hk).1
  · exact placed_of_sourceId?_eq_none rfl

theorem placed_typeInfo (n : String) : c.Placed (c.typeInfo n) := by
  rw [typeInfo]
  generalize countDimensions n.toList.reverse = d
  obtain ⟨k, rest⟩ := d
  cases k with
  | succ k => exact placed_of_sourceId?_eq_none rfl
  | zero =>
    show c.Placed (c.elementInfo (String.ofList rest.reverse))
    rw [elementInfo]
    split
    · exact placed_of_sourceId?_eq_none rfl
    · cases hk : c.known? (String.ofList rest.reverse) with
      | none => exact placed_of_sourceId?_eq_none rfl
      | some t => exact placed_of_known? hk

theorem placed_of_lookup? {n : String} {context : TypeId} (hc : context.index < c.types.length)
    {t : TypeInfo} (ht : c.lookup? n context = some t) : c.Placed t := by
  obtain ⟨m, hm⟩ | ⟨o, ho, -, rfl⟩ | ⟨i, -, -, rfl⟩ := lookup?_cases ht
  · exact placed_of_known? hm
  · intro id hid
    rw [← Option.some.inj hid]
    exact Nat.lt_of_le_of_lt (index_le_of_mem_enclosing ho) hc
  · exact placed_of_sourceId?_eq_none rfl

theorem placed_qualifyNameAt {scope : TypeScope} (hs : scope.type.index < c.types.length)
    (depth : Nat) (n : String) : c.Placed (c.qualifyNameAt scope depth n) := by
  cases hp : c.typeParam? scope n with
  | none =>
    simp only [qualifyNameAt.eq_def, hp]
    rw [qualifyName]
    split
    · next t ht => exact placed_of_lookup? hs ht
    · split <;> exact placed_of_sourceId?_eq_none rfl
  | some p =>
    simp only [qualifyNameAt.eq_def, hp]
    cases depth <;> exact placed_of_sourceId?_eq_none rfl

/-- **A written type is looked up to one that has a place.** -/
theorem placed_qualify {scope : TypeScope} (hs : scope.type.index < c.types.length) (t : TypeRef) :
    c.Placed (c.qualify scope t) :=
  qualifyWith_induction t (placed_of_sourceId?_eq_none rfl) (placed_typeInfo _)
    (fun _ => placed_of_sourceId?_eq_none rfl) (fun _ _ => placed_of_sourceId?_eq_none rfl)
    fun n _ => placed_qualifyNameAt hs boundDepth n

theorem placed_superclass {s : TypeId} (hs : s.index < c.types.length) {t : TypeInfo}
    (ht : c.superclass? (c.sourceType s) = some t) : c.Placed t := by
  have hscope : (c.typeScope s).type.index < c.types.length := hs
  rw [sourceType, superclass?] at ht
  split at ht
  · exact absurd ht (by simp)
  · exact absurd ht (by simp)
  · rw [← Option.some.inj ht]
    exact placed_typeInfo _
  · rw [← Option.some.inj ht]
    exact placed_typeInfo _
  · split at ht <;> rw [← Option.some.inj ht]
    · exact placed_qualify hscope _
    · exact placed_typeInfo _

/-- **The declared supertypes of a declared type have a place in the code base.** -/
theorem index_lt_of_mem_sourceParents {s t : TypeId} (hs : s.index < c.types.length)
    (ht : t ∈ c.sourceParents s) : t.index < c.types.length := by
  have hscope : (c.typeScope s).type.index < c.types.length := hs
  obtain ⟨p, hp, hpt⟩ := List.mem_filterMap.mp ht
  rcases List.mem_append.mp hp with hp | hp
  · exact placed_superclass hs (Option.mem_toList.mp hp) t hpt
  · obtain ⟨r, -, rfl⟩ := List.mem_map.mp hp
    exact placed_qualify hscope r t hpt

/-! ## Subtypes -/

theorem mem_typeIds {s : TypeId} : s ∈ c.typeIds ↔ s.index < c.types.length := by
  rw [typeIds, List.mem_map]
  constructor
  · rintro ⟨k, hk, rfl⟩
    exact List.mem_range.mp hk
  · exact fun h => ⟨s.index, List.mem_range.mpr h, rfl⟩

theorem mem_subtypesOf {s t : TypeId} :
    s ∈ c.subtypesOf t ↔ s.index < c.types.length ∧ t ∈ c.sourceParents s := by
  rw [subtypesOf, List.mem_flatMap]
  constructor
  · rintro ⟨u, hu, hmem⟩
    obtain ⟨p, hp, rfl⟩ := List.mem_map.mp hmem
    obtain ⟨hp, he⟩ := List.mem_filter.mp hp
    rw [beq_iff_eq] at he
    exact ⟨mem_typeIds.mp hu, he ▸ hp⟩
  · rintro ⟨hs, ht⟩
    refine ⟨s, mem_typeIds.mpr hs, List.mem_map.mpr ⟨t, ?_, rfl⟩⟩
    exact List.mem_filter.mpr ⟨ht, beq_self_eq_true t⟩

end Codebase

namespace Index

variable {c : Codebase}

/-- The table has no row for a type that has no place in the code base. -/
theorem directSubtypes_eq_nil {t : TypeId} (ht : ¬t.index < c.types.length) :
    (ofCodebase c).directSubtypes t = [] := by
  have hlen : (ofCodebase c).subtypes.length = c.types.length := by
    simp [ofCodebase, Codebase.typeIds]
  rw [directSubtypes, List.getElem?_eq_none (by omega), Option.getD_none]

/-- **The table of an index lists a type below exactly its declared direct supertypes.** -/
theorem mem_directSubtypes {s t : TypeId} :
    s ∈ (ofCodebase c).directSubtypes t ↔ s.index < c.types.length ∧ t ∈ c.sourceParents s := by
  by_cases ht : t.index < c.types.length
  · rw [directSubtypes_ofCodebase c ht]
    exact Codebase.mem_subtypesOf
  · -- no type has such a type as a supertype either
    rw [directSubtypes_eq_nil ht]
    refine iff_of_false List.not_mem_nil fun h => ht ?_
    exact Codebase.index_lt_of_mem_sourceParents h.1 h.2

end Index

namespace Codebase

variable {c : Codebase}

/-! ## Paths up the hierarchy -/

/-- A path up the declared hierarchy, from one declared supertype to the next: the types that it
passes, beginning with the lower end; the upper end is left out. -/
inductive Climbs (c : Codebase) : TypeId → List TypeId → TypeId → Prop
  /-- One step up. -/
  | step {s t : TypeId} (h : t ∈ c.sourceParents s) : Climbs c s [s] t
  /-- A step up, and the way on from there. -/
  | cons {s u t : TypeId} {path : List TypeId} (h : u ∈ c.sourceParents s)
      (rest : Climbs c u path t) : Climbs c s (s :: path) t

theorem Climbs.lower_mem {s t : TypeId} {path : List TypeId} (h : c.Climbs s path t) :
    s ∈ path := by
  cases h <;> exact List.mem_cons_self

theorem sourceParents_of_superclass {id : TypeId} {n : String} {t : TypeInfo} {s : TypeId}
    (ht : c.superclass? (.source id n) = some t) (hs : t.sourceId? = some s) :
    s ∈ c.sourceParents id := by
  refine List.mem_filterMap.mpr ⟨t, List.mem_append_left _ (Option.mem_toList.mpr ?_), hs⟩
  -- the superclass is read off the declaration, whatever name the type goes by
  rw [superclass?] at ht
  rw [sourceType, superclass?]
  exact ht

/-- By induction on the chain, of which only the declared beginning counts. -/
theorem exists_climbs_of_mem_superclassChain {k : Nat} {seen : List String} {id t : TypeId}
    {n : String}
    (h : t ∈ ((c.superclassChain k seen (.source id n)).takeWhile
      fun a => a.sourceId?.isSome).filterMap TypeInfo.sourceId?) :
    ∃ path, c.Climbs id path t := by
  induction k generalizing seen id n with
  | zero => exact absurd h List.not_mem_nil
  | succ k ih =>
    rw [superclassChain] at h
    split at h
    · exact absurd h List.not_mem_nil
    · next parent hparent =>
      split at h
      · exact absurd h List.not_mem_nil
      · cases parent with
        | source up m =>
          have hup : up ∈ c.sourceParents id := sourceParents_of_superclass hparent rfl
          rw [List.takeWhile_cons_of_pos rfl,
            List.filterMap_cons_some (f := TypeInfo.sourceId?) rfl] at h
          rcases List.mem_cons.mp h with rfl | h
          · exact ⟨[id], .step hup⟩
          · obtain ⟨path, hpath⟩ := ih h
            exact ⟨id :: path, .cons hup hpath⟩
        | _ => exact absurd h List.not_mem_nil

/-- **A declared superclass is at the end of a path.** -/
theorem exists_climbs_of_mem_declaredSuperclasses {s t : TypeId}
    (h : t ∈ c.declaredSuperclasses s) : ∃ path, c.Climbs s path t :=
  exists_climbs_of_mem_superclassChain h

end Codebase

end JavaCallGraph
