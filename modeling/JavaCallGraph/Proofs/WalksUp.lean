import JavaCallGraph.Proofs.Ancestry
import JavaCallGraph.Proofs.Typing.Conditional
import Mathlib.Algebra.Order.BigOperators.Group.List
import Mathlib.Algebra.Order.Ring.Nat

/-!
# Walks up the hierarchy end

Three loops go up the hierarchy, and none of them counts its steps: from superclass to superclass,
with a queue through interfaces, and once more from superclass to superclass for the branches of a
conditional.  They end because no name is listed twice.  `Codebase.searchBudget` bounds them
instead, and here it is seen to cut none of them short, in any hierarchy: it may be cyclic,
interfaces and classes may stand in each other's places, and a supertype may be a type variable.

* `Layers.Drains` — a search with a queue, by as many steps as it takes; it lists what the layers
  list one after the other (`Layers.drains_of_closed`).
* `Codebase.Yields` — the types that a code base yields.  The bounds of their type variables do not
  nest deeper than a given number of levels; `Codebase.Yielded` is the depth that `qualify` gives.
* `Codebase.weight_climbedNames_lt` — the count.  A walk comes through declared and described types,
  through the type variables at its start, and through those written in the position of a supertype.
* `Codebase.Yielded.endsUpwards` — the main statement, `Codebase.EndsUpwards`.
-/

set_option autoImplicit false

namespace JavaCallGraph

/-! ## A search with a queue -/

namespace Layers

variable {α : Type} {key : α → String} {next : α → List α}

/-- **A breadth-first search with a queue**, until the queue is empty: what is found.  The first of
the queue is taken, and what it leads to goes to the end of the queue, except for keys that were
seen before. -/
inductive Drains (key : α → String) (next : α → List α) : List String → List α → List α → Prop
  | empty {seen : List String} : Drains key next seen [] []
  | take {seen : List String} {a : α} {queue found : List α}
    (rest : Drains key next ((fresh key seen (next a)).map key ++ seen)
      (queue ++ fresh key seen (next a)) found) :
    Drains key next seen (a :: queue) (fresh key seen (next a) ++ found)

/-- A search has one result at most. -/
theorem Drains.unique {seen : List String} {queue found found' : List α}
    (h : Drains key next seen queue found) (h' : Drains key next seen queue found') :
    found = found' := by
  induction h generalizing found' with
  | empty =>
    cases h'
    rfl
  | take _ ih =>
    cases h' with
    | take rest' => rw [ih rest']

/-- Only the elements of the list of seen keys matter. -/
theorem Drains.congr {seen seen' : List String} {queue found : List α}
    (h : Drains key next seen queue found) (hseen : ∀ k, k ∈ seen ↔ k ∈ seen') :
    Drains key next seen' queue found := by
  induction h generalizing seen' with
  | empty => exact .empty
  | @take seen a queue found _ ih =>
    rw [fresh_congr hseen]
    refine .take ?_
    rw [← fresh_congr hseen]
    exact ih fun k => by simp [hseen]

/-- **A layer at the front of the queue is taken as a whole.** -/
theorem Drains.layer {seen : List String} {frontier later found : List α}
    (h : Drains key next ((fresh key seen (frontier.flatMap next)).map key ++ seen)
      (later ++ fresh key seen (frontier.flatMap next)) found) :
    Drains key next seen (frontier ++ later)
      (fresh key seen (frontier.flatMap next) ++ found) := by
  induction frontier generalizing seen later with
  | nil => simpa [fresh] using h
  | cons a frontier ih =>
    have hseen : ∀ k, k ∈ (next a).map key ++ seen ↔
        k ∈ (fresh key seen (next a)).map key ++ seen := by
      intro k
      rw [List.mem_append, List.mem_append]
      exact mem_map_fresh_or.symm
    rw [List.flatMap_cons, fresh_append, fresh_congr hseen] at h ⊢
    rw [List.cons_append, List.append_assoc]
    refine .take ?_
    rw [List.append_assoc]
    refine ih ?_
    rw [List.append_assoc]
    refine h.congr fun k => ?_
    simp only [List.map_append, List.mem_append]
    tauto

/-- **Layers from which nothing is missing** list what the search with a queue finds. -/
theorem drains_of_closed {n : Nat} {seen : List String} {frontier : List α}
    (h : Closed key next n seen frontier) :
    Drains key next seen frontier (layers key next n seen frontier).flatten := by
  induction n generalizing seen frontier with
  | zero =>
    have hnone : fresh key seen (frontier.flatMap next) = [] := by
      refine fresh_eq_nil_of_forall fun b hb => ?_
      obtain ⟨a, ha, hab⟩ := List.mem_flatMap.mp hb
      simpa [layers] using h a (List.mem_append_left _ ha) b hab
    have hdrains : Drains key next seen (frontier ++ [])
        (fresh key seen (frontier.flatMap next) ++ []) :=
      .layer (by simpa [hnone] using Drains.empty)
    simpa [hnone, layers] using hdrains
  | succ n ih =>
    rw [flatten_layers_succ]
    have hdrains : Drains key next seen (frontier ++ []) _ :=
      .layer (by simpa using ih (closed_succ_iff.mp h))
    simpa using hdrains

end Layers

/-! ## What a code base yields -/

namespace Codebase

/-- **A type that a code base yields**, with at most `k` type variables inside each other. -/
inductive Yields (c : Codebase) : Nat → TypeInfo → Prop
  | source {k : Nat} {id : TypeId} {n : String} (hn : n = (c.decl id).qualifiedName) :
    Yields c k (.source id n)
  | compiled {k : Nat} {t : CompiledType} (ht : t ∈ c.catalog.types) : Yields c k (.compiled t)
  | primitive {k : Nat} (p : Primitive) : Yields c k (.primitive p)
  | array {k : Nat} {t : TypeInfo} (ht : Yields c k t) : Yields c k (.array t)
  | typeVar {k : Nat} {n : String} {bounds : List TypeInfo} (hb : ∀ b ∈ bounds, Yields c k b) :
    Yields c (k + 1) (.typeVar n bounds)
  | unresolved {k : Nat} (n : String) : Yields c k (.unresolved n)

/-- **A type that a code base yields**, with type variables as deep as bounds are followed. -/
abbrev Yielded (c : Codebase) (t : TypeInfo) : Prop := c.Yields (boundDepth + 1) t

variable {c : Codebase} {k : Nat} {t s : TypeInfo}

theorem Yields.mono (h : c.Yields k t) {j : Nat} (hj : k ≤ j) : c.Yields j t := by
  induction h generalizing j with
  | source hn => exact .source hn
  | compiled ht => exact .compiled ht
  | primitive p => exact .primitive p
  | array _ ih => exact .array (ih hj)
  | typeVar _ ih =>
    obtain ⟨j, rfl⟩ : ∃ i, j = i + 1 := ⟨j - 1, by omega⟩
    exact .typeVar fun b hb => ih b hb (by omega)
  | unresolved n => exact .unresolved n

theorem yields_sourceType (k : Nat) (id : TypeId) : c.Yields k (c.sourceType id) := .source rfl

theorem yields_of_known? (k : Nat) {n : String} (h : c.known? n = some t) : c.Yields k t := by
  obtain ⟨id, -, rfl⟩ | ⟨u, hu, rfl⟩ := known?_cases h
  · exact yields_sourceType k id
  · exact .compiled (List.mem_of_find?_eq_some hu)

theorem Yields.withDimensions (h : c.Yields k t) (n : Nat) : c.Yields k (t.withDimensions n) := by
  induction n with
  | zero => exact h
  | succ n ih => exact .array ih

/-- **What a canonical name stands for is yielded.** -/
theorem yields_typeInfo (k : Nat) (n : String) : c.Yields k (c.typeInfo n) := by
  rw [typeInfo]
  refine Yields.withDimensions ?_ _
  rw [elementInfo]
  split
  · exact .primitive _
  · cases hk : c.known? (String.ofList (countDimensions n.toList.reverse).2.reverse) with
    | none => exact .unresolved _
    | some t => exact yields_of_known? k hk

/-- **What a name stands for inside a type is yielded.** -/
theorem yields_of_lookup? (k : Nat) {n : String} {context : TypeId}
    (h : c.lookup? n context = some t) : c.Yields k t := by
  obtain ⟨m, hm⟩ | ⟨o, -, -, rfl⟩ | ⟨i, -, -, rfl⟩ := lookup?_cases h
  · exact yields_of_known? k hm
  · exact yields_sourceType k o
  · exact .unresolved _

theorem yields_of_mem_staticImportOwners (k : Nat) {context : TypeId} {member : String}
    (h : t ∈ c.staticImportOwners context member) : c.Yields k t := by
  have hdotted : ∀ n, c.knownDotted? n = some t → c.Yields k t := by
    intro n hn
    obtain ⟨m, hm⟩ := exists_known?_of_knownDotted? hn
    exact yields_of_known? k hm
  obtain ⟨i, -, hi⟩ := List.mem_filterMap.mp h
  split at hi
  · exact hdotted _ hi
  · split at hi
    · split at hi
      · exact hdotted _ hi
      · exact absurd hi (by simp)
    · exact absurd hi (by simp)

theorem yields_qualifyName (k : Nat) (scope : TypeScope) (n : String) :
    c.Yields k (c.qualifyName scope n) := by
  rw [qualifyName]
  split
  · next t ht => exact yields_of_lookup? k ht
  · split <;> exact .unresolved _

theorem yields_qualifyWith {named : String → TypeInfo} (hnamed : ∀ n, c.Yields k (named n))
    (r : TypeRef) : c.Yields k (c.qualifyWith named r) :=
  qualifyWith_induction r (.unresolved _) (yields_typeInfo k _) .primitive (fun _ => .array)
    fun n _ => hnamed n

/-- The induction is on the depth: the bounds of a variable are one level less deep. -/
theorem yields_qualifyNameAt (scope : TypeScope) (depth : Nat) (n : String) :
    c.Yields (depth + 1) (c.qualifyNameAt scope depth n) := by
  induction depth generalizing n with
  | zero =>
    rw [qualifyNameAt]
    split
    · exact yields_qualifyName _ scope n
    · exact .typeVar fun b hb => absurd hb List.not_mem_nil
  | succ depth ih =>
    rw [qualifyNameAt]
    split
    · exact yields_qualifyName _ scope n
    · refine .typeVar fun b hb => ?_
      obtain ⟨r, -, rfl⟩ := List.mem_map.mp hb
      exact yields_qualifyWith ih r

/-- **What a written type stands for is yielded.** -/
theorem yielded_qualify (scope : TypeScope) (r : TypeRef) : c.Yielded (c.qualify scope r) :=
  yields_qualifyWith (yields_qualifyNameAt scope boundDepth) r

theorem Yields.erased (h : c.Yields k t) : c.Yields k (c.erased t) := by
  cases h with
  | @typeVar k n bounds hb =>
    cases bounds with
    | nil => exact yields_typeInfo _ _
    | cons b bs => exact (hb b List.mem_cons_self).mono (Nat.le_succ k)
  | source hn => exact .source hn
  | compiled ht => exact .compiled ht
  | primitive p => exact .primitive p
  | array ht => exact .array ht
  | unresolved n => exact .unresolved n

/-! ## One step up -/

theorem supertypes_source (id : TypeId) (n : String) :
    c.supertypes (.source id n) = c.supertypes (c.sourceType id) := rfl

theorem yielded_of_mem_supertypes_source {id : TypeId} (hs : s ∈ c.supertypes (c.sourceType id)) :
    c.Yielded s := by
  rcases List.mem_append.mp hs with hs | hs
  · have hsuper := Option.mem_toList.mp hs
    rw [sourceType, superclass?] at hsuper
    split at hsuper
    · exact absurd hsuper (by simp)
    · exact absurd hsuper (by simp)
    · exact Option.some.inj hsuper ▸ yields_typeInfo _ _
    · exact Option.some.inj hsuper ▸ yields_typeInfo _ _
    · split at hsuper
      · exact Option.some.inj hsuper ▸ yielded_qualify _ _
      · exact Option.some.inj hsuper ▸ yields_typeInfo _ _
  · obtain ⟨r, -, rfl⟩ := List.mem_map.mp hs
    exact yielded_qualify _ r

theorem exists_typeInfo_of_mem_supertypes_compiled {ct : CompiledType}
    (hs : s ∈ c.supertypes (.compiled ct)) : ∃ n, s = c.typeInfo n := by
  rcases List.mem_append.mp hs with hs | hs
  · obtain ⟨n, -, rfl⟩ := Option.map_eq_some_iff.mp (Option.mem_toList.mp hs)
    exact ⟨n, rfl⟩
  · obtain ⟨n, -, rfl⟩ := List.mem_map.mp hs
    exact ⟨n, rfl⟩

/-- **The supertypes of a yielded type are yielded.** -/
theorem Yielded.of_mem_supertypes (h : c.Yielded t) (hs : s ∈ c.supertypes t) : c.Yielded s := by
  cases t with
  | source id n => exact yielded_of_mem_supertypes_source hs
  | compiled ct =>
    obtain ⟨n, rfl⟩ := exists_typeInfo_of_mem_supertypes_compiled hs
    exact yields_typeInfo _ n
  | primitive p => exact absurd hs List.not_mem_nil
  | array t => exact List.mem_singleton.mp hs ▸ yields_typeInfo _ _
  | typeVar n bounds =>
    rw [supertypes_typeVar, List.mem_singleton] at hs
    exact hs ▸ h.erased
  | unresolved n => exact absurd hs List.not_mem_nil

/-! ## Type variables on the way up -/

/-- **The type variables that a walk up from a type comes through** before any other type: the first
bound of a type variable is the superclass of it. -/
def firstBounds : TypeInfo → List String
  | .typeVar n [] => [n]
  | .typeVar n (b :: _) => n :: firstBounds b
  | _ => []

theorem firstBounds_of_notVariable (h : t.isVariable = false) : firstBounds t = [] := by
  cases t with
  | typeVar n bounds => exact absurd h (by simp [TypeInfo.isVariable])
  | _ => simp [firstBounds]

theorem firstBounds_typeInfo (n : String) : firstBounds (c.typeInfo n) = [] :=
  firstBounds_of_notVariable (isVariable_typeInfo n)

theorem Yields.length_firstBounds_le (h : c.Yields k t) : (firstBounds t).length ≤ k := by
  induction h with
  | @typeVar k n bounds _ ih =>
    cases bounds with
    | nil => simp [firstBounds]
    | cons b bs => simpa [firstBounds] using ih b List.mem_cons_self
  | _ => simp [firstBounds]

/-- Only the first of them can be the type itself. -/
theorem mem_tail_firstBounds {n : String} (hn : n ∈ firstBounds t) (hname : n ≠ t.name) :
    n ∈ (firstBounds t).tail := by
  cases t with
  | typeVar m bounds =>
    cases bounds with
    | nil => exact absurd (show n = m by simpa [firstBounds] using hn) hname
    | cons b bs =>
      rw [firstBounds] at hn ⊢
      exact (List.mem_cons.mp hn).resolve_left hname
  | _ => simp [firstBounds] at hn

/-- The type variables in the positions of supertypes. -/
def writtenVariables (c : Codebase) : List String :=
  c.typeIds.flatMap fun id => (c.supertypes (c.sourceType id)).flatMap firstBounds

/-- **The names of all types that a walk up from `t` may go on from**, other than to the root
class. -/
def climbedNames (c : Codebase) (t : TypeInfo) : Finset String :=
  c.leadingNames ∪ (firstBounds t ++ c.writtenVariables).toFinset

/-- A type of a walk up from `t`. -/
def OnTheWayUp (c : Codebase) (t a : TypeInfo) : Prop :=
  c.Yielded a ∧ ∀ n ∈ firstBounds a, n ∈ c.climbedNames t

theorem onTheWayUp_self (h : c.Yielded t) : c.OnTheWayUp t t := by
  refine ⟨h, fun n hn => ?_⟩
  simp [climbedNames, hn]

/-- **A walk up does not leave these types.** -/
theorem OnTheWayUp.up {a : TypeInfo} (h : c.OnTheWayUp t a) (hs : s ∈ c.supertypes a) :
    c.OnTheWayUp t s := by
  refine ⟨h.1.of_mem_supertypes hs, ?_⟩
  have hnamed : ∀ m, s = c.typeInfo m → ∀ n ∈ firstBounds s, n ∈ c.climbedNames t := by
    rintro m rfl n hn
    rw [firstBounds_typeInfo] at hn
    exact absurd hn List.not_mem_nil
  cases a with
  | source id n =>
    by_cases hid : id.index < c.types.length
    · rw [supertypes_source] at hs
      intro m hm
      have hwritten : m ∈ c.writtenVariables :=
        List.mem_flatMap.mpr ⟨id, mem_typeIds.mpr hid, List.mem_flatMap.mpr ⟨s, hs, hm⟩⟩
      simp [climbedNames, hwritten]
    · rw [supertypes_of_unplaced hid, List.mem_singleton] at hs
      exact hnamed _ hs
  | compiled ct =>
    obtain ⟨n, hn⟩ := exists_typeInfo_of_mem_supertypes_compiled hs
    exact hnamed n hn
  | primitive p => exact absurd hs List.not_mem_nil
  | array t => exact hnamed _ (List.mem_singleton.mp hs)
  | typeVar n bounds =>
    rw [supertypes_typeVar, List.mem_singleton] at hs
    cases bounds with
    | nil => exact hnamed _ hs
    | cons b bs =>
      obtain rfl : s = b := hs
      exact fun m hm => h.2 m (by rw [firstBounds]; exact List.mem_cons_of_mem _ hm)
  | unresolved n => exact absurd hs List.not_mem_nil

/-- **Those that go on have one of the names**, or there is only the root class above them. -/
theorem OnTheWayUp.leading {a : TypeInfo} (h : c.OnTheWayUp t a) :
    a.name ∈ c.climbedNames t ∨ ∀ s ∈ c.supertypes a, s.name = objectName := by
  have hroot : (c.objectType).name = objectName := name_typeInfo objectName
  have hknown : ∀ u ∈ c.allTypes, u.name ∈ c.climbedNames t := by
    intro u hu
    simp [climbedNames, name_mem_leadingNames hu]
  cases a with
  | source id n =>
    cases h.1 with
    | source hn =>
      subst hn
      by_cases hid : id.index < c.types.length
      · refine .inl (hknown (c.sourceType id) (List.mem_append_left _ ?_))
        exact List.mem_map_of_mem (mem_typeIds.mpr hid)
      · refine .inr fun s hs => ?_
        rw [supertypes_of_unplaced hid, List.mem_singleton] at hs
        rw [hs, hroot]
  | compiled ct =>
    cases h.1 with
    | compiled hct => exact .inl (hknown _ (List.mem_append_right _ (List.mem_map_of_mem hct)))
  | primitive p => exact .inr fun s hs => absurd hs List.not_mem_nil
  | array t => exact .inr fun s hs => (List.mem_singleton.mp hs).symm ▸ hroot
  | typeVar n bounds => exact .inl (h.2 n (by cases bounds <;> simp [firstBounds]))
  | unresolved n => exact .inr fun s hs => absurd hs List.not_mem_nil

/-! ## The count -/

/-- How many types are written in the positions of supertypes of a declaration, and one more. -/
def positions (d : TypeDecl) : Nat := 1 + d.extended.length + d.implemented.length

theorem length_supertypes_source_le (id : TypeId) :
    (c.supertypes (c.sourceType id)).length ≤ positions (c.decl id) := by
  have hsuper : (c.superclass? (c.sourceType id)).toList.length ≤ 1 := Option.length_toList_le
  have hinterfaces : (c.interfaces (c.sourceType id)).length ≤
      (c.decl id).extended.length + (c.decl id).implemented.length := by
    rw [sourceType, interfaces, List.length_map, writtenInterfaces]
    split <;> omega
  rw [supertypes, List.length_append, positions]
  omega

theorem length_firstBounds_supertypes_le (id : TypeId) :
    ((c.supertypes (c.sourceType id)).flatMap firstBounds).length ≤
      (boundDepth + 1) * positions (c.decl id) := by
  have hall : ((c.supertypes (c.sourceType id)).map fun s => (firstBounds s).length).sum ≤
      ((c.supertypes (c.sourceType id)).map fun _ => boundDepth + 1).sum :=
    List.sum_le_sum fun s hs => (yielded_of_mem_supertypes_source hs).length_firstBounds_le
  rw [List.map_const', List.sum_replicate_nat, Nat.mul_comm] at hall
  rw [List.length_flatMap]
  exact Nat.le_trans hall (Nat.mul_le_mul_left _ (length_supertypes_source_le id))

theorem length_writtenVariables_le :
    c.writtenVariables.length ≤ (c.types.map fun d => (boundDepth + 1) * positions d).sum := by
  rw [← c.map_decl_typeIds, List.map_map, writtenVariables, List.length_flatMap]
  exact List.sum_le_sum fun id _ => length_firstBounds_supertypes_le id

theorem searchBudget_eq : c.searchBudget = c.catalog.size + boundDepth + 3 +
    (c.types.map fun d => (boundDepth + 3) * positions d).sum := by
  have hfoldl : ∀ (types : List TypeDecl) (n : Nat), types.foldl
      (fun n t => n + (boundDepth + 3) * (1 + t.extended.length + t.implemented.length)) n =
        n + (types.map fun d => (boundDepth + 3) * positions d).sum := by
    intro types
    induction types with
    | nil => simp
    | cons d types ih =>
      intro n
      rw [List.foldl_cons, ih, List.map_cons, List.sum_cons, positions, Nat.add_assoc]
  exact hfoldl c.types _

/-- Each declaration counts once and with the variables in its positions. -/
theorem length_types_add_sum_le (types : List TypeDecl) :
    types.length + (types.map fun d => (boundDepth + 1) * positions d).sum ≤
      (types.map fun d => (boundDepth + 3) * positions d).sum := by
  induction types with
  | nil => simp
  | cons d types ih =>
    have hone : 1 + (boundDepth + 1) * positions d ≤ (boundDepth + 3) * positions d := by
      rw [boundDepth, positions]
      omega
    simp only [List.length_cons, List.map_cons, List.sum_cons]
    omega

/-- **The budget exceeds the number of names that a walk up goes on from.**  That of the start has
been seen already. -/
theorem weight_climbedNames_lt (h : c.Yielded t) {seen : List String} (hseen : t.name ∈ seen) :
    Layers.weight (c.climbedNames t) objectName seen < c.searchBudget := by
  have hsub : c.climbedNames t \ seen.toFinset ⊆
      c.leadingNames ∪ ((firstBounds t).tail ++ c.writtenVariables).toFinset := by
    intro n hn
    obtain ⟨hn, hnew⟩ := Finset.mem_sdiff.mp hn
    have hname : n ≠ t.name := by
      rintro rfl
      exact hnew (List.mem_toFinset.mpr hseen)
    simp only [climbedNames, Finset.mem_union, List.mem_toFinset, List.mem_append] at hn ⊢
    rcases hn with hn | hn | hn
    · exact .inl hn
    · exact .inr (.inl (mem_tail_firstBounds hn hname))
    · exact .inr (.inr hn)
  have hcard := Nat.le_trans (Finset.card_le_card hsub) (Finset.card_union_le _ _)
  have hleading : c.leadingNames.card ≤ c.types.length + c.catalog.size := by
    refine Nat.le_trans (List.toFinset_card_le _) ?_
    rw [List.length_append, List.length_map, List.length_map, Catalog.size]
  have hvariables := List.toFinset_card_le ((firstBounds t).tail ++ c.writtenVariables)
  rw [List.length_append, List.length_tail] at hvariables
  have hstart : (firstBounds t).length ≤ boundDepth + 1 := h.length_firstBounds_le
  have hwritten := c.length_writtenVariables_le
  have hcount := length_types_add_sum_le c.types
  rw [Layers.weight, searchBudget_eq]
  split <;> omega

/-! ## The main statement -/

/-- **Nothing is missing in a walk up** from a yielded type, in whichever of the directions it
goes. -/
theorem Yielded.closed (h : c.Yielded t) {next : TypeInfo → List TypeInfo}
    (hnext : ∀ a, ∀ s ∈ next a, s ∈ c.supertypes a) {seen : List String} (hseen : t.name ∈ seen)
    {frontier : List TypeInfo} (hfrontier : ∀ a ∈ frontier, c.OnTheWayUp t a) :
    Layers.Closed TypeInfo.name next c.searchBudget seen frontier :=
  Layers.closed_of_weight_lt (P := c.OnTheWayUp t) (fun a ha s hs => ha.up (hnext a s hs))
    (fun _ ha => ha.leading.imp_right fun hroot s hs => hroot s (hnext _ s hs)) hfrontier
    (weight_climbedNames_lt h hseen)

/-- What is above a type of the walk is on the walk. -/
theorem OnTheWayUp.of_mem_superclassChain {n : Nat} {seen : List String} {a : TypeInfo}
    (h : c.OnTheWayUp t a) (hs : s ∈ c.superclassChain n seen a) : c.OnTheWayUp t s := by
  have hpath := stepsUp_of_mem_superclassChain hs
  clear hs
  induction hpath with
  | single hstep => exact h.up hstep
  | tail _ hstep ih => exact ih.up hstep

/-- **The walks up from a type end**, and they list what the bounded ones list. -/
structure EndsUpwards (c : Codebase) (t : TypeInfo) : Prop where
  /-- From superclass to superclass. -/
  superclasses : ∀ found, Layers.Drains TypeInfo.name c.upper [t.name] [t] found ↔
    found = c.superclasses t
  /-- Then from all of these through interfaces. -/
  ancestors : ∀ found, Layers.Drains TypeInfo.name c.interfaces
      ((t :: c.superclasses t).map TypeInfo.name) (t :: c.superclasses t) found ↔
    c.superclasses t ++ found = c.ancestors t
  /-- Once more from superclass to superclass, but not to the root class. -/
  below : ∀ found, c.ClimbsClasses [t.name] t found ↔ found = c.superclassesBelowObject t

/-- **The walks up from a yielded type end**, whatever the hierarchy is like. -/
theorem Yielded.endsUpwards (h : c.Yielded t) : c.EndsUpwards t := by
  have hstart : ∀ a ∈ [t], c.OnTheWayUp t a := by
    intro a ha
    rw [List.mem_singleton.mp ha]
    exact onTheWayUp_self h
  have hchain : ∀ a ∈ t :: c.superclasses t, c.OnTheWayUp t a := by
    intro a ha
    rcases List.mem_cons.mp ha with hself | ha
    · rw [hself]
      exact onTheWayUp_self h
    · exact (onTheWayUp_self h).of_mem_superclassChain ha
  have hup : Layers.Closed TypeInfo.name c.upper c.searchBudget [t.name] [t] :=
    h.closed mem_supertypes_of_mem_upper (List.mem_singleton_self _) hstart
  have hacross : Layers.Closed TypeInfo.name c.interfaces c.searchBudget
      ((t :: c.superclasses t).map TypeInfo.name) (t :: c.superclasses t) :=
    h.closed (fun _ _ => interfaces_subset_supertypes) List.mem_cons_self hchain
  have hsuperclasses := Layers.drains_of_closed hup
  rw [← superclassChain_eq_layers] at hsuperclasses
  have hancestors := Layers.drains_of_closed hacross
  have hbelow : c.ClimbsClasses [t.name] t (c.superclassesBelowObject t) := by
    refine climbsClasses_takeWhile fun u hu s hs => ?_
    rw [Layers.Closed, ← superclassChain_eq_layers] at hup
    exact List.mem_append.mp (hup u hu s (Option.mem_toList.mpr hs))
  constructor
  · intro found
    constructor
    · exact fun hfound => hfound.unique hsuperclasses
    · rintro rfl
      exact hsuperclasses
  · intro found
    constructor
    · intro hfound
      rw [hfound.unique hancestors]
      rfl
    · intro hfound
      rw [List.append_cancel_left (hfound.trans rfl)]
      exact hancestors
  · intro found
    constructor
    · exact fun hfound => hfound.unique hbelow
    · rintro rfl
      exact hbelow

end Codebase

end JavaCallGraph
