import JavaCallGraph.Proofs.Graph.Memory
import JavaCallGraph.Proofs.Graph.Unambiguous
import JavaCallGraph.Proofs.Hierarchy
import Mathlib.Data.List.Forall2

/-!
# No override is missed from above

Overriding is decided twice, and in opposite directions.  `Codebase.link` looks up from a method and
collects the declarations above whose parameters accept its own.  `Index.overriding` looks down from
a method, through the table of subtypes, for methods that answer to its identity; a type that has one
hides the types below it.  A method is missed if it links to a declaration that does not find it.

* `Codebase.isCompatible_of_mem_all` — a method answers to the identity of every declaration that it
  links to, whatever the types of their parameters are, because that declaration is one of those that
  it may be taken for.
* `Index.exists_searched` — the search leaves out a type only below one that has a method.
* `Index.mem_searched_or_hidden` — so on a path up to the type where the search begins, either the
  lower end is searched or a type on the path has a method that is found.
* `Session.overrides_reach_below` — the methods that link to a declaration are found from it or hidden
  behind a nearer one, and the nodes of the methods that are found are those of the answers.
-/

set_option autoImplicit false

namespace JavaCallGraph

/-! ## Answering from below -/

namespace Codebase

variable {c : Codebase}

/-- A declaration that a method can override has the same name and number of parameters. -/
theorem name_and_length_of_mem_all {m n : MethodRef} (h : n ∈ (c.link m).all) :
    (c.method m).name = (c.method n).name ∧
      (c.method m).params.length = (c.method n).params.length := by
  rcases List.mem_cons.mp h with rfl | h
  · exact ⟨rfl, rfl⟩
  · have hup : ∃ t, n ∈ c.compatibleIn t m := by
      rcases List.mem_append.mp h with h | h <;> obtain ⟨t, -, ht⟩ := List.mem_flatMap.mp h <;>
        exact ⟨t, ht⟩
    obtain ⟨t, ht⟩ := hup
    have hfits := (List.mem_filter.mp ht).2
    simp only [Bool.and_eq_true, beq_iff_eq] at hfits
    exact ⟨hfits.1.1.symm, hfits.1.2.symm⟩

/-- **A method answers to the identity of every declaration that it links to.**  Each position fits
by the parameter of that declaration itself. -/
theorem isCompatible_of_mem_all {m n : MethodRef} (h : n ∈ (c.link m).all) :
    c.isCompatible (c.link m) (c.methodId n) = true := by
  obtain ⟨hname, hlen⟩ := name_and_length_of_mem_all h
  simp only [isCompatible, Bool.and_eq_true, beq_iff_eq, List.all_eq_true, List.any_eq_true]
  refine ⟨⟨hname, ?_⟩, fun named hnamed => ?_⟩
  · rw [methodId, List.length_map, length_paramTypes]
    exact hlen
  · obtain ⟨expected, k⟩ := named
    have hget := List.mk_mem_zipIdx_iff_getElem?.mp hnamed
    rw [methodId, List.getElem?_map] at hget
    obtain ⟨p, hp, rfl⟩ := Option.map_eq_some_iff.mp hget
    refine ⟨c.paramTypes n, List.mem_map_of_mem h, ?_⟩
    simp only [hp]
    exact isTypeOf_name p

/-- So its type has a method that the identity means. -/
theorem findIn?_ne_none_of_mem_all {m n : MethodRef} (hm : c.Declared m)
    (h : n ∈ (c.link m).all) : c.findIn? m.owner (c.methodId n) ≠ none := by
  intro hnone
  have hmem : m ∈ c.candidatesIn m.owner (c.methodId n) := by
    refine List.mem_filter.mpr ⟨hm, ?_⟩
    rw [Bool.and_eq_true, beq_iff_eq]
    exact ⟨(name_and_length_of_mem_all h).1, isCompatible_of_mem_all h⟩
  rw [findIn?_eq_none.mp hnone] at hmem
  exact absurd hmem List.not_mem_nil

theorem owner_of_findIn? {t : TypeId} {id : MethodId} {m : MethodRef}
    (h : c.findIn? t id = some m) : m.owner = t :=
  (mem_methodsOf.mp (List.mem_filter.mp (mem_candidatesIn_of_findIn? h)).1).1

end Codebase

/-! ## Searching from above -/

namespace Index

variable {i : Index} {g : GraphConfig}

/-- **The search leaves out a type only below one that has a method.**  Of the types that the search
takes up, each has a method, which is found, or has all its subtypes taken up too. -/
theorem exists_searched (id : MethodId) {n : Nat} {visited pending : List TypeId}
    (hn : pending.length + unvisitedEntries visited 0 i.subtypes < n) :
    ∃ seen : List TypeId, visited ⊆ seen ∧ pending ⊆ seen ∧ ∀ t ∈ seen, t ∉ visited →
      (∃ m ∈ i.overridingFrom g id n visited pending, i.code.findIn? t id = some m) ∨
        i.code.findIn? t id = none ∧ i.searchedSubtypes g t ⊆ seen := by
  induction n generalizing visited pending with
  | zero => exact absurd hn (Nat.not_lt_zero _)
  | succ n ih =>
    cases pending with
    | nil => exact ⟨visited, List.Subset.refl _, List.nil_subset _, fun t ht hv => absurd ht hv⟩
    | cons t pending =>
      rw [List.length_cons] at hn
      rw [overridingFrom]
      by_cases hv : visited.contains t = true
      · rw [if_pos hv]
        rw [List.contains_iff_mem] at hv
        have hrest : pending.length + unvisitedEntries visited 0 i.subtypes < n := by omega
        obtain ⟨seen, hvisited, hpending, hseen⟩ := ih hrest
        exact ⟨seen, hvisited, List.cons_subset.mpr ⟨hvisited hv, hpending⟩, hseen⟩
      · rw [if_neg hv]
        rw [List.contains_iff_mem] at hv
        have hadd := unvisitedEntries_cons_add hv (Nat.zero_le _) i.subtypes
        rw [Nat.sub_zero] at hadd
        have hlen := length_searchedSubtypes_le (i := i) (g := g) t
        cases hfind : i.code.findIn? t id with
        | some m =>
          have hrest : pending.length + unvisitedEntries (t :: visited) 0 i.subtypes < n := by omega
          obtain ⟨seen, hvisited, hpending, hseen⟩ := ih hrest
          obtain ⟨ht, hvisited⟩ := List.cons_subset.mp hvisited
          refine ⟨seen, hvisited, List.cons_subset.mpr ⟨ht, hpending⟩, fun u hu hnew => ?_⟩
          by_cases hut : u = t
          · exact Or.inl ⟨m, List.mem_cons_self, hut ▸ hfind⟩
          · refine (hseen u hu fun hmem => ?_).imp_left ?_
            · exact hnew ((List.mem_cons.mp hmem).resolve_left hut)
            · rintro ⟨k, hk, hku⟩
              exact ⟨k, List.mem_cons_of_mem _ hk, hku⟩
        | none =>
          have hrest : (i.searchedSubtypes g t ++ pending).length +
              unvisitedEntries (t :: visited) 0 i.subtypes < n := by
            rw [List.length_append]
            omega
          obtain ⟨seen, hvisited, hpending, hseen⟩ := ih hrest
          obtain ⟨ht, hvisited⟩ := List.cons_subset.mp hvisited
          obtain ⟨hsubs, hpending⟩ := List.append_subset.mp hpending
          refine ⟨seen, hvisited, List.cons_subset.mpr ⟨ht, hpending⟩, fun u hu hnew => ?_⟩
          by_cases hut : u = t
          · exact Or.inr (by rw [hut]; exact ⟨hfind, hsubs⟩)
          · exact hseen u hu fun hmem => hnew ((List.mem_cons.mp hmem).resolve_left hut)

/-- What the search for the methods that override `m` takes up. -/
structure Searched (i : Index) (g : GraphConfig) (m : MethodRef) (seen : List TypeId) : Prop where
  below : i.searchedSubtypes g m.owner ⊆ seen
  closed : ∀ t ∈ seen, t ≠ m.owner →
    (∃ k ∈ i.overriding g m, k.owner = t) ∨
      i.code.findIn? t (i.code.methodId m) = none ∧ i.searchedSubtypes g t ⊆ seen

theorem exists_searched_overriding (i : Index) (g : GraphConfig) (m : MethodRef) :
    ∃ seen, i.Searched g m seen := by
  obtain ⟨seen, -, hpending, hseen⟩ :=
    exists_searched (i.code.methodId m) (i.searchedSubtypes_lt_budget g m)
  refine ⟨seen, hpending, fun t ht hne => ?_⟩
  refine (hseen t ht (fun hmem => hne (List.mem_singleton.mp hmem))).imp_left ?_
  rintro ⟨k, hk, hkt⟩
  exact ⟨k, hk, Codebase.owner_of_findIn? hkt⟩

theorem searchedSubtypes_all (hg : g.subtypes = .all) (t : TypeId) :
    i.searchedSubtypes g t = i.directSubtypes t := by
  simp only [searchedSubtypes, hg]

variable {c : Codebase}

/-- **Along a path up to the type of a method**, either the lower end is searched, or a type on the
path has a method that is found.  By induction on the path, from its upper end. -/
theorem mem_searched_or_hidden (hg : g.subtypes = .all) {m : MethodRef} {seen : List TypeId}
    (hseen : (ofCodebase c).Searched g m seen) {s : TypeId} {path : List TypeId}
    (hpath : c.Climbs s path m.owner) (hs : s.index < c.types.length) :
    s ∈ seen ∨ ∃ k ∈ (ofCodebase c).overriding g m, k.owner ∈ path ∧ k.owner ≠ m.owner := by
  generalize htop : m.owner = t at hpath
  induction hpath with
  | @step s t hstep =>
    subst htop
    refine Or.inl (hseen.below ?_)
    rw [searchedSubtypes_all hg]
    exact mem_directSubtypes.mpr ⟨hs, hstep⟩
  | @cons s u t path hstep hrest ih =>
    subst htop
    have hsub : s ∈ (ofCodebase c).searchedSubtypes g u := by
      rw [searchedSubtypes_all hg]
      exact mem_directSubtypes.mpr ⟨hs, hstep⟩
    rcases ih (Codebase.index_lt_of_mem_sourceParents hs hstep) rfl with hu | ⟨k, hk, hmem, hne⟩
    · by_cases hum : u = m.owner
      · exact Or.inl (hseen.below (hum ▸ hsub))
      · rcases hseen.closed u hu hum with ⟨k, hk, rfl⟩ | ⟨-, hbelow⟩
        · exact Or.inr ⟨k, hk, List.mem_cons_of_mem _ hrest.lower_mem, hum⟩
        · exact Or.inl (hbelow hsub)
    · exact Or.inr ⟨k, hk, List.mem_cons_of_mem _ hmem, hne⟩

/-- **A method that links to a declaration above is found from it, or hidden.** -/
theorem found_or_hidden (hg : g.subtypes = .all) {m n : MethodRef} (hm : c.Declared m)
    (hne : m.owner ≠ n.owner) (h : n ∈ (c.link m).all) :
    (∃ k ∈ (ofCodebase c).overriding g n, k.owner = m.owner) ∨
      ∀ path, c.Climbs m.owner path n.owner →
        ∃ k ∈ (ofCodebase c).overriding g n,
          k.owner ∈ path ∧ k.owner ≠ m.owner ∧ k.owner ≠ n.owner := by
  obtain ⟨seen, hseen⟩ := exists_searched_overriding (ofCodebase c) g n
  by_cases hfound : ∃ k ∈ (ofCodebase c).overriding g n, k.owner = m.owner
  · exact Or.inl hfound
  · refine Or.inr fun path hpath => ?_
    rcases mem_searched_or_hidden hg hseen hpath hm.owner_lt with hs | ⟨k, hk, hmem, hkn⟩
    · -- a type that is searched and answers to the identity has a method that is found
      rcases hseen.closed m.owner hs hne with hfound' | ⟨hnone, -⟩
      · exact absurd hfound' hfound
      · exact absurd hnone (Codebase.findIn?_ne_none_of_mem_all hm h)
    · exact ⟨k, hk, hmem, fun he => hfound ⟨k, hk, he⟩, hkn⟩

/-! ## The nodes of overriding methods -/

/-- The node at which an overriding method is listed: a bare one while the method is in flight, else
the one that is kept under its identity. -/
def ListedAs (i : Index) (c : Cache) (k : MethodRef) (o : MethodInfo) : Prop :=
  o = .reference (i.code.methodId k) ∨ c.find? (i.code.methodId k).canonical = some o

/-- A built node lists the overriding methods of its method, in their order. -/
def ListsOverriding (i : Index) (g : GraphConfig) (c : Cache) (b : MethodInfo) : Prop :=
  ∀ m ∈ b.declaration, List.Forall₂ (i.ListedAs c) (i.overriding g m) b.overrides

variable {x : ResolutionContext}

theorem ListedAs.mono {c c' : Cache} (hkept : ∀ key v, c.find? key = some v → c'.find? key = some v)
    {k : MethodRef} {o : MethodInfo} (h : i.ListedAs c k o) : i.ListedAs c' k o :=
  h.imp_right (hkept _ o)

theorem lasting_listsOverriding (i : Index) (g : GraphConfig) :
    MethodInfo.Lasting (i.ListsOverriding g) where
  mono hkept hb m hm := (hb m hm).imp fun _ _ => ListedAs.mono hkept
  reference _ _ m hm := absurd hm (by simp [MethodInfo.declaration_reference])

/-- In a run of overriding methods every one gets its node. -/
theorem listedAs_of_overridesRun {ms : List MethodRef} {c c' : Cache} {nodes : List MethodInfo}
    {P : MethodRef → Cache → MethodInfo → Cache → Prop}
    (hP : ∀ {m c node c'}, P m c node c' → c'.find? (i.code.methodId m).canonical = some node)
    (h : i.OverridesRun x P ms c nodes c') : List.Forall₂ (i.ListedAs c') ms nodes := by
  induction h with
  | nil c => exact .nil
  | @cons m ms node nodes c c' c'' hstep hrun ih =>
    refine .cons ?_ ih
    cases hstep with
    | recursive hin => exact Or.inl rfl
    | expanded hn => exact Or.inr (hrun.frame.kept _ node (hP hn.holds))

theorem holdsOfNew_listsOverriding (i : Index) (g : GraphConfig) :
    i.HoldsOfNew g (i.ListsOverriding g) := by
  intro P hP x m c edges c₁ nodes c₂ hmiss _ k hk
  rw [← Option.some.inj hk]
  have hlisted := listedAs_of_overridesRun (fun h => (hP h).finished) hmiss.overrides
  exact hlisted.imp fun _ _ => ListedAs.mono (Cache.kept_insertNew _ _ _)

end Index

namespace Session

/-- The built nodes of all answers list the overriding methods. -/
theorem listsOverriding_of_occurs {i : Index} {g : GraphConfig} {texts : List String}
    {root b : MethodInfo} (hroot : .ok root ∈ Command.resolveAll (start i g) texts)
    (hb : b.Occurs root) : i.ListsOverriding g ((start i g).after texts).cache b :=
  holds_in_answers (Index.lasting_listsOverriding i g) (Index.holdsOfNew_listsOverriding i g) hroot hb

/-- **No overriding method is missed from above.**  A method answers to the identity of every
declaration that it links to.  Let `m` link to a declaration `n` of another type, by superclasses, or
by interfaces on a path of declared types, and let all subtypes be searched.  Then there is such a
path, and among the methods that override `n` there is one of the type of `m`, or on every path one
of a type strictly between.  In all answers of a session the node of `n` lists these methods. -/
theorem overrides_reach_below (c : Codebase) (g : GraphConfig) (hg : g.subtypes = .all) :
    (∀ m n, n ∈ (c.link m).all → c.isCompatible (c.link m) (c.methodId n) = true) ∧
      (∀ m n, c.Declared m → m.owner ≠ n.owner →
        n ∈ (c.link m).fromExtend ∨
          n ∈ (c.link m).fromImpl ∧ (∃ path, c.Climbs m.owner path n.owner) →
        (∃ path, c.Climbs m.owner path n.owner) ∧
          ((∃ k ∈ (Index.ofCodebase c).overriding g n, k.owner = m.owner) ∨
            ∀ path, c.Climbs m.owner path n.owner →
              ∃ k ∈ (Index.ofCodebase c).overriding g n,
                k.owner ∈ path ∧ k.owner ≠ m.owner ∧ k.owner ≠ n.owner)) ∧
      ∀ texts root (b : MethodInfo), .ok root ∈ Command.resolveAll (start (.ofCodebase c) g) texts →
        b.Occurs root → ∀ n, b.declaration = some n →
          List.Forall₂
            ((Index.ofCodebase c).ListedAs ((start (.ofCodebase c) g).after texts).cache)
            ((Index.ofCodebase c).overriding g n) b.overrides := by
  refine ⟨fun m n h => Codebase.isCompatible_of_mem_all h, fun m n hm hne h => ?_, ?_⟩
  · have hall : n ∈ (c.link m).all := by
      refine List.mem_cons_of_mem _ (List.mem_append.mpr ?_)
      exact h.imp_right And.left
    have hpath : ∃ path, c.Climbs m.owner path n.owner := by
      rcases h with h | ⟨-, h⟩
      · obtain ⟨t, ht, hmem⟩ := List.mem_flatMap.mp h
        have howner := (Codebase.mem_methodsOf.mp (List.mem_filter.mp hmem).1).1
        rw [howner]
        exact Codebase.exists_climbs_of_mem_declaredSuperclasses ht
      · exact h
    exact ⟨hpath, Index.found_or_hidden hg hm hne hall⟩
  · intro texts root b hroot hb n hn
    exact listsOverriding_of_occurs hroot hb n hn

end Session

/-! ## A method behind a type variable

`Low.put` overrides `Top.put`, whose parameter is a type variable, and stands below a type that does
not have the method. -/

namespace Sample

/-- Three classes, one below the other. -/
def generic : Codebase where
  units := [⟨"Generic.java", none, [], none⟩]
  types :=
    [{ classDecl "Top" [] [unary "put" (.simple "T") []] with typeParams := [⟨"T", []⟩] },
     classDecl "Middle" [.named "Top" [.simple "Integer"]] [],
     classDecl "Low" [.simple "Middle"] [unary "put" (.simple "Integer") []]]
  catalog := .empty

end Sample

/-- The parameter of `Low.put` is no subtype of the one of `Top.put`. -/
theorem Session.overrides_reach_below_sample :
    ⟨⟨0⟩, 0⟩ ∈ (Sample.generic.link ⟨⟨2⟩, 0⟩).fromExtend ∧
      Sample.generic.isCompatible (Sample.generic.link ⟨⟨2⟩, 0⟩) ⟨"Top", "put", ["T"]⟩ = true ∧
      (∃ k ∈ (Index.ofCodebase Sample.generic).overriding .default ⟨⟨0⟩, 0⟩, k.owner = ⟨2⟩) ∧
      ∃ root, .ok root ∈ Command.resolveAll (.start (.ofCodebase Sample.generic) .default)
          ["Top#put(T)"] ∧
        ∃ o ∈ root.overrides, (Index.ofCodebase Sample.generic).ListedAs
          ((start (.ofCodebase Sample.generic) .default).after ["Top#put(T)"]).cache ⟨⟨2⟩, 0⟩ o := by
  obtain ⟨hanswers, hreach, hnodes⟩ :=
    overrides_reach_below Sample.generic GraphConfig.default rfl
  have hlow : Sample.generic.Declared ⟨⟨2⟩, 0⟩ := by
    rw [Codebase.Declared]
    decide +kernel
  have hlink : ⟨⟨0⟩, 0⟩ ∈ (Sample.generic.link ⟨⟨2⟩, 0⟩).fromExtend := by decide +kernel
  have hall : ⟨⟨0⟩, 0⟩ ∈ (Sample.generic.link ⟨⟨2⟩, 0⟩).all := by decide +kernel
  have hoverriding : (Index.ofCodebase Sample.generic).overriding .default ⟨⟨0⟩, 0⟩ =
      [⟨⟨2⟩, 0⟩] := by decide +kernel
  have hid : Sample.generic.methodId ⟨⟨0⟩, 0⟩ = ⟨"Top", "put", ["T"]⟩ := by decide +kernel
  refine ⟨hlink, hid ▸ hanswers _ _ hall, ?_, ?_⟩
  · obtain ⟨⟨path, hpath⟩, hfound⟩ :=
      hreach ⟨⟨2⟩, 0⟩ ⟨⟨0⟩, 0⟩ hlow (by decide) (Or.inl hlink)
    rcases hfound with hfound | hhidden
    · exact hfound
    · -- nothing between the two types hides the lower one
      obtain ⟨k, hk, -, hne, -⟩ := hhidden path hpath
      rw [hoverriding] at hk
      rw [List.mem_singleton.mp hk] at hne
      exact absurd rfl hne
  · have hview : ((start (.ofCodebase Sample.generic) .default).resolve
        "Top#put(T)").1.toOption.map MethodInfo.declaration = some (some ⟨⟨0⟩, 0⟩) := by
      decide +kernel
    obtain ⟨root, hres, hdecl⟩ := exists_answer hview
    have hroot := mem_resolveAll.mpr ⟨[], "Top#put(T)", [], rfl, hres⟩
    have hlisted := hnodes _ _ _ hroot .here ⟨⟨0⟩, 0⟩ hdecl
    rw [hoverriding] at hlisted
    obtain ⟨o, os, hfirst, -, hos⟩ := List.forall₂_cons_left_iff.mp hlisted
    refine ⟨_, hroot, o, ?_, hfirst⟩
    rw [hos]
    exact List.mem_cons_self

end JavaCallGraph
