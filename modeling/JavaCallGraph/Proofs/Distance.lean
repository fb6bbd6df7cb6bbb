import JavaCallGraph.Proofs.Ancestry
import JavaCallGraph.Proofs.Typing.Acceptance
import Mathlib.Order.Nat

/-!
# The distance to a supertype is the length of a shortest path

`Codebase.distance?` reads a distance off the layers of a breadth-first search.  In a plain hierarchy it
is the least number of steps that lead from a type to a type of the given name, on cyclic hierarchies
and where several paths of different lengths lead to the name.  The search takes types of one name for the
same, so it may miss a path through an array that has the name of an unknown type
(`Codebase.TellsArrays`).

* `Codebase.stepCounts` — the numbers of steps that lead to a name.
* `Codebase.PlainHierarchy.distanceUp?_eq_some_iff` — the search finds the least of them.
* `Codebase.PlainHierarchy.distanceUp?_eq_min?` — hence the distance is one more than the least
  distance from a direct supertype.
* `Codebase.PlainHierarchy.distance_is_least` — the main statement, `Codebase.MeasuresDistance`.
* `Codebase.distance_not_least_sample` — two ways in which a distance differs from what one would expect.
  A primitive type in a supertype position leads nowhere, although a distance that is asked of the
  primitive type itself goes on to its wrapper, and an unknown interface hides an array.
-/

set_option autoImplicit false

namespace JavaCallGraph

namespace Codebase

/-- `n` steps up lead from `t` to `s`. -/
abbrev StepsUpIn (c : Codebase) (n : Nat) (t s : TypeInfo) : Prop :=
  Layers.LeadsIn c.supertypes n t s

/-- The numbers of steps up that lead from `t` to a type of the given name. -/
def stepCounts (c : Codebase) (t : TypeInfo) (ancestor : String) : Set Nat :=
  {n | ∃ s, c.StepsUpIn n t s ∧ s.name = ancestor}

/-- The distance up as far as `n` layers show it. -/
def distanceUpWithin? (c : Codebase) (n : Nat) (t : TypeInfo) (ancestor : String) : Option Nat :=
  if t.name == ancestor then some 0
  else layerOf? ancestor (Layers.layers TypeInfo.name c.supertypes n [t.name] [t])

/-- The distance as far as `n` layers show it. -/
def distanceWithin? (c : Codebase) (n : Nat) (t : TypeInfo) (ancestor : String) : Option Nat :=
  match t with
  | .primitive p =>
    if p.name == ancestor then some 0
    else (c.distanceUpWithin? n (c.typeInfo p.wrapper) ancestor).map (· + 1)
  | t => c.distanceUpWithin? n t ancestor

variable {c : Codebase} {t : TypeInfo} {a : String}

/-! ## Numbers of steps -/

theorem zero_mem_stepCounts_iff : 0 ∈ c.stepCounts t a ↔ t.name = a := by
  constructor
  · rintro ⟨s, hs, rfl⟩
    cases hs
    rfl
  · intro hname
    exact ⟨t, .refl t, hname⟩

/-- A path that is not empty begins with a step to a supertype. -/
theorem succ_mem_stepCounts_iff {n : Nat} :
    n + 1 ∈ c.stepCounts t a ↔ ∃ s ∈ c.supertypes t, n ∈ c.stepCounts s a := by
  constructor
  · rintro ⟨u, hu, hname⟩
    obtain ⟨s, hs, hsu⟩ := Layers.leadsIn_succ_iff.mp hu
    exact ⟨s, hs, u, hsu, hname⟩
  · rintro ⟨s, hs, u, hsu, hname⟩
    exact ⟨u, hsu.head hs, hname⟩

theorem isLeast_zero_stepCounts (h : t.name = a) : IsLeast (c.stepCounts t a) 0 :=
  ⟨zero_mem_stepCounts_iff.mpr h, fun _ _ => Nat.zero_le _⟩

/-- What is above a supertype is above the type. -/
theorem TellsArrays.of_mem_supertypes {s : TypeInfo} (h : c.TellsArrays t) (hs : s ∈ c.supertypes t) :
    c.TellsArrays s := fun u n hu hn => h u n (.head hs hu) (.head hs hn)

/-! ## A longer search -/

namespace PlainHierarchy

theorem distanceUpWithin?_eq (h : c.PlainHierarchy) (ht : c.HandsOut t) {n : Nat}
    (hn : c.searchBudget ≤ n) : c.distanceUpWithin? n t a = c.distanceUp? t a := by
  rw [distanceUpWithin?, distanceUp?, Layers.layers_eq_of_closed (h.closed_above ht) hn]

theorem distanceWithin?_eq (h : c.PlainHierarchy) (ht : c.HandsOut t) {n : Nat}
    (hn : c.searchBudget ≤ n) : c.distanceWithin? n t a = c.distance? t a := by
  cases t with
  | primitive p =>
    rw [distanceWithin?, distance?, h.distanceUpWithin?_eq (handsOut_typeInfo p.wrapper) hn]
  | _ => exact h.distanceUpWithin?_eq ht hn

/-! ## The least number of steps -/

/-- **The search finds the least number of steps.** -/
theorem distanceUp?_eq_some_iff (h : c.PlainHierarchy) (ht : c.HandsOut t) (htells : c.TellsArrays t)
    {d : Nat} :
    c.distanceUp? t a = some d ↔ IsLeast (c.stepCounts t a) d := by
  rw [distanceUp?]
  split
  · next hname =>
    have hzero := isLeast_zero_stepCounts (c := c) (beq_iff_eq.mp hname)
    constructor
    · intro hd
      rwa [← Option.some.inj hd]
    · intro hd
      rw [hzero.unique hd]
  · next hname =>
    rw [beq_iff_eq] at hname
    have hlayer : ∀ i, _ ↔ IsLeast (c.stepCounts t a) (i + 1) := fun i =>
      Layers.findIdx?_layers_eq_some_iff (h.closed_above ht)
        (fun _ _ hs hu => h.supertypes_subset_of_tellsArrays ht htells hs hu) (Ne.symm hname) (i := i)
    rw [layerOf?, Option.map_eq_some_iff]
    constructor
    · rintro ⟨i, hi, rfl⟩
      exact (hlayer i).mp hi
    · intro hd
      cases d with
      | zero => exact absurd (zero_mem_stepCounts_iff.mp hd.1) hname
      | succ i => exact ⟨i, (hlayer i).mpr hd, rfl⟩

/-- A number of steps is no smaller than the distance. -/
theorem exists_distanceUp?_le (h : c.PlainHierarchy) (ht : c.HandsOut t) (htells : c.TellsArrays t)
    {n : Nat} (hn : n ∈ c.stepCounts t a) : ∃ d ≤ n, c.distanceUp? t a = some d := by
  classical
  have hleast := Set.Nonempty.isLeast_natFind (s := c.stepCounts t a) ⟨n, hn⟩
  exact ⟨_, hleast.2 hn, (h.distanceUp?_eq_some_iff ht htells).mpr hleast⟩

/-- There is no distance to a name that no path leads to. -/
theorem distanceUp?_eq_none_iff (h : c.PlainHierarchy) (ht : c.HandsOut t)
    (htells : c.TellsArrays t) :
    c.distanceUp? t a = none ↔ ∀ n s, c.StepsUpIn n t s → s.name ≠ a := by
  constructor
  · intro hnone n s hs hname
    obtain ⟨d, -, hd⟩ := h.exists_distanceUp?_le ht htells ⟨s, hs, hname⟩
    rw [hnone] at hd
    exact absurd hd (by simp)
  · intro hnone
    rw [Option.eq_none_iff_forall_ne_some]
    intro d hd
    obtain ⟨s, hs, hname⟩ := ((h.distanceUp?_eq_some_iff ht htells).mp hd).1
    exact hnone d s hs hname

/-- **The distance is one more than the least distance from a direct supertype.** -/
theorem distanceUp?_eq_min? (h : c.PlainHierarchy) (ht : c.HandsOut t) (htells : c.TellsArrays t)
    (hne : t.name ≠ a) :
    c.distanceUp? t a =
      ((c.supertypes t).filterMap fun s => c.distanceUp? s a).min?.map (· + 1) := by
  have hsuper : ∀ s ∈ c.supertypes t, ∀ m, c.distanceUp? s a = some m ↔
      IsLeast (c.stepCounts s a) m := fun s hs m =>
    h.distanceUp?_eq_some_iff (h.handsOut ht hs) (htells.of_mem_supertypes hs)
  refine Option.ext fun d => ?_
  rw [h.distanceUp?_eq_some_iff ht htells, Option.map_eq_some_iff]
  constructor
  · intro hd
    cases d with
    | zero => exact absurd (zero_mem_stepCounts_iff.mp hd.1) hne
    | succ m =>
      obtain ⟨s, hs, hm⟩ := succ_mem_stepCounts_iff.mp hd.1
      have hbound : ∀ u ∈ c.supertypes t, ∀ k ∈ c.stepCounts u a, m ≤ k := fun u hu k hk =>
        Nat.le_of_succ_le_succ (hd.2 (succ_mem_stepCounts_iff.mpr ⟨u, hu, hk⟩))
      refine ⟨m, List.min?_eq_some_iff.mpr ⟨?_, fun k hk => ?_⟩, rfl⟩
      · refine List.mem_filterMap.mpr ⟨s, hs, ?_⟩
        exact (hsuper s hs m).mpr ⟨hm, hbound s hs⟩
      · obtain ⟨u, hu, hk⟩ := List.mem_filterMap.mp hk
        exact hbound u hu k ((hsuper u hu k).mp hk).1
  · rintro ⟨m, hm, rfl⟩
    obtain ⟨hmem, hmin⟩ := List.min?_eq_some_iff.mp hm
    obtain ⟨s, hs, hm⟩ := List.mem_filterMap.mp hmem
    refine ⟨succ_mem_stepCounts_iff.mpr ⟨s, hs, ?_⟩, fun k hk => ?_⟩
    · exact ((hsuper s hs m).mp hm).1
    · cases k with
      | zero => exact absurd (zero_mem_stepCounts_iff.mp hk) hne
      | succ k =>
        obtain ⟨u, hu, hk⟩ := succ_mem_stepCounts_iff.mp hk
        obtain ⟨l, hl, hul⟩ := h.exists_distanceUp?_le (h.handsOut ht hu) (htells.of_mem_supertypes hu) hk
        have hle := hmin l (List.mem_filterMap.mpr ⟨u, hu, hul⟩)
        omega

end PlainHierarchy

/-! ## Primitive types -/

/-- From a primitive type no step leads up. -/
theorem distanceUp?_primitive (p : Primitive) (ancestor : String) :
    c.distanceUp? (.primitive p) ancestor = if p.name == ancestor then some 0 else none := by
  have hstill : Layers.layers TypeInfo.name c.supertypes c.searchBudget [p.name] [.primitive p] = [] :=
    Layers.layers_of_still (by simp [supertypes, superclass?, interfaces]) _
  rw [distanceUp?, TypeInfo.name, hstill]
  rfl

theorem distance?_primitive_of_ne {p : Primitive} (hne : p.name ≠ a) :
    c.distance? (.primitive p) a = (c.distance? (c.typeInfo p.wrapper) a).map (· + 1) := by
  have hwrapper : (c.typeInfo p.wrapper).primitive? = none :=
    primitive?_typeInfo (by cases p <;> decide)
  rw [distance?_of_notPrimitive hwrapper, distance?, if_neg (by simpa using hne)]

theorem distance?_eq_zero_iff : c.distance? t a = some 0 ↔ t.name = a := by
  have hup : c.distanceUp? t a = some 0 ↔ t.name = a := by
    rw [distanceUp?]
    split
    · next hname => simpa using hname
    · next hname => simpa [layerOf?] using hname
  cases t with
  | primitive p =>
    rw [distance?, TypeInfo.name]
    split
    · next hname => simpa using hname
    · next hname => simpa using hname
  | _ => exact hup

/-- A supertype counts from where it stands; a primitive one leads no further. -/
theorem distanceUp?_eq_distance? (s : TypeInfo) :
    c.distanceUp? s a = if s.primitive?.isNone || s.name == a then c.distance? s a else none := by
  cases s with
  | primitive p =>
    rw [distanceUp?_primitive, distance?]
    by_cases hname : p.name = a <;> simp [TypeInfo.primitive?, TypeInfo.name, hname]
  | _ => rfl

/-! ## The main statement -/

/-- **What a distance measures.** -/
structure MeasuresDistance (c : Codebase) (t : TypeInfo) : Prop where
  /-- Further layers would show nothing more. -/
  ends : ∀ n, c.searchBudget ≤ n → ∀ a, c.distanceWithin? n t a = c.distance? t a
  /-- The distance of a type that is not primitive is the least number of steps to the name, where arrays
  are told from unknown types. -/
  least : t.primitive? = none → c.TellsArrays t → ∀ a d,
    c.distance? t a = some d ↔ IsLeast (c.stepCounts t a) d
  /-- There is none if no path leads there. -/
  unreachable : t.primitive? = none → c.TellsArrays t → ∀ a,
    c.distance? t a = none ↔ ∀ n s, c.StepsUpIn n t s → s.name ≠ a
  /-- A primitive type is one step below its wrapper. -/
  boxed : ∀ p, t = .primitive p → ∀ a, p.name ≠ a →
    c.distance? t a = (c.distance? (c.typeInfo p.wrapper) a).map (· + 1)
  /-- Only the type itself is no step away. -/
  zero : ∀ a, c.distance? t a = some 0 ↔ t.name = a
  /-- All other names are one step further than from the nearest direct supertype.  A primitive
  supertype is near to its own name only. -/
  next : t.primitive? = none → c.TellsArrays t → ∀ a, t.name ≠ a → c.distance? t a =
    ((c.supertypes t).filterMap fun s =>
      if s.primitive?.isNone || s.name == a then c.distance? s a else none).min?.map (· + 1)

/-- **The distance is the length of a shortest path**, for every type that is not a type variable. -/
theorem PlainHierarchy.distance_is_least (h : c.PlainHierarchy) {t : TypeInfo}
    (ht : c.HandsOut t) : c.MeasuresDistance t where
  ends n hn a := h.distanceWithin?_eq ht hn
  least hp htells a d := by rw [distance?_of_notPrimitive hp, h.distanceUp?_eq_some_iff ht htells]
  unreachable hp htells a := by
    rw [distance?_of_notPrimitive hp, h.distanceUp?_eq_none_iff ht htells]
  boxed p hp a hne := by
    subst hp
    exact distance?_primitive_of_ne hne
  zero a := distance?_eq_zero_iff
  next hp htells a hne := by
    rw [distance?_of_notPrimitive hp, h.distanceUp?_eq_min? ht htells hne]
    simp only [distanceUp?_eq_distance?]

/-- `J` is two steps above `A`, through the interface `I`, although it is two steps above the superclass
`B` of `A` as well. -/
theorem distance_is_least_sample :
    Sample.ring.distance? (Sample.ring.sourceType ⟨0⟩) "J" = some 2 ∧
      IsLeast (Sample.ring.stepCounts (Sample.ring.sourceType ⟨0⟩) "J") 2 ∧
      (∃ s ∈ Sample.ring.supertypes (Sample.ring.sourceType ⟨0⟩),
        s.name = "B" ∧ Sample.ring.distance? s "J" = some 2) ∧
      ∀ n s, Sample.ring.StepsUpIn n (Sample.ring.sourceType ⟨0⟩) s → s.name ≠ objectName := by
  have hmeasures := Sample.regularHierarchy_ring.plain.distance_is_least
    (t := Sample.ring.sourceType ⟨0⟩) (handsOut_sourceType (by decide))
  have htells := Sample.tellsArrays_ring
  have htwo : Sample.ring.distance? (Sample.ring.sourceType ⟨0⟩) "J" = some 2 := by decide +kernel
  exact ⟨htwo, (hmeasures.least rfl htells "J" 2).mp htwo, by decide +kernel,
    (hmeasures.unreachable rfl htells objectName).mp (by decide +kernel)⟩

end Codebase

/-! ## A class below a number -/

namespace Sample

/-- A class whose superclass is said to be primitive. -/
def count : CompiledType := ⟨"lib.Count", false, some "int", [], [], []⟩

/-- No source, and this class in the catalog. -/
def counts : Codebase := ⟨[], [], ⟨[count]⟩⟩

theorem plainHierarchy_counts : counts.PlainHierarchy where
  names := ⟨by decide +kernel, by decide +kernel, by decide +kernel⟩
  notVariable := by decide +kernel

/-- The root class is three steps above `D`. -/
theorem stepsUpIn_sized : sized.StepsUpIn 3 (sized.sourceType ⟨1⟩) sized.objectType :=
  Layers.LeadsIn.head (b := sized.sourceType ⟨0⟩) (by with_unfolding_all exact List.mem_cons_self) <|
    .head (b := .array (.unresolved "lib.@Size(\"byte")) (by with_unfolding_all exact List.mem_cons_self) <|
      .tail (.refl _) List.mem_cons_self

end Sample

/-- **The distance from a primitive supertype does not count, and there may be none where a path leads
through an array.**  A number is one step below its wrapper, and a class that is one step below the number
is not below the wrapper.  The root class is three steps above `D`, but an unknown interface hides the
array on the way. -/
theorem Codebase.distance_not_least_sample :
    (¬∀ c : Codebase, c.PlainHierarchy → ∀ t, c.HandsOut t → t.primitive? = none → ∀ a, t.name ≠ a →
      c.distance? t a = ((c.supertypes t).filterMap fun s => c.distance? s a).min?.map (· + 1)) ∧
    ¬∀ c : Codebase, c.PlainHierarchy → ∀ t, c.HandsOut t → t.primitive? = none → ∀ a,
      c.distance? t a = none ↔ ∀ n s, c.StepsUpIn n t s → s.name ≠ a := by
  constructor
  · intro h
    have hout : Sample.counts.HandsOut (.compiled Sample.count) :=
      ⟨.compiled (by with_unfolding_all rfl) trivial, rfl⟩
    have hsame := h Sample.counts Sample.plainHierarchy_counts (.compiled Sample.count) hout rfl
      "java.lang.Integer" (by decide)
    exact absurd hsame (by decide +kernel)
  · intro h
    have hnone := (h Sample.sized Sample.regularHierarchy_sized.plain (Sample.sized.sourceType ⟨1⟩)
      (handsOut_sourceType (by decide)) rfl objectName).mp (by decide +kernel)
    exact hnone 3 _ Sample.stepsUpIn_sized (Sample.sized.name_typeInfo objectName)

end JavaCallGraph
