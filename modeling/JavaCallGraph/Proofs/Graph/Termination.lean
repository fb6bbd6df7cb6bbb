import JavaCallGraph.Proofs.Graph.Traversal

/-!
# Resolution ends

A method that is entered is declared and not in flight, and the methods in flight are different
ones.  So there are never more of them than the code base declares methods, whatever cycles its
hierarchy or its calls have, and the depth that `Index.depthBudget` allows is never reached.

`Index.Calls` lists the calls of `build` that a call of `build` leads to, with the state in which
each of them is made.  `Index.Bracketed` is what is promised of every one of them: the context is a
stack of different methods, the method that is called is none of them, and the call returns, with
the context it was given.  The measure is the number of declared methods that are not in flight.

* `Index.build_total` — `build` gives a node if its budget exceeds that number;
* `Index.build_mono` — a larger budget gives the same node;
* `Session.traversal_ends` — every request ends, and every call on the way is bracketed.
-/

set_option autoImplicit false

namespace JavaCallGraph

/-! ## Counting methods -/

theorem Codebase.map_decl_typeIds (c : Codebase) : c.typeIds.map c.decl = c.types := by
  refine List.ext_getElem (by simp [typeIds]) fun k _ hk => ?_
  have hlt : (TypeId.mk k).index < c.types.length := hk
  simp only [typeIds, List.getElem_map, List.getElem_range]
  exact decl_eq_getElem hlt

namespace Index

variable {i : Index} {g : GraphConfig} {x : ResolutionContext}

/-- The written identities of all declared methods. -/
def declaredKeys (i : Index) : List String :=
  i.code.typeIds.flatMap fun t =>
    (i.code.methodsOf t).map fun m => (i.code.methodId m).canonical

theorem depthBudget_eq (i : Index) : i.depthBudget = i.declaredKeys.length + 1 := by
  have hlen : ∀ t, ((i.code.methodsOf t).map fun m => (i.code.methodId m).canonical).length =
      (i.code.decl t).methods.length := fun t => by simp [Codebase.methodsOf]
  have htypes : i.code.types.map (fun t => t.methods.length) =
      i.code.typeIds.map fun t => (i.code.decl t).methods.length := by
    have hmap := congrArg (List.map fun t => t.methods.length) i.code.map_decl_typeIds
    rw [List.map_map] at hmap
    exact hmap.symm
  rw [depthBudget, declaredKeys, List.length_flatMap, List.length_flatMap, htypes]
  simp only [hlen]

theorem mem_declaredKeys {m : MethodRef} (hm : i.code.Declared m) :
    (i.code.methodId m).canonical ∈ i.declaredKeys := by
  refine List.mem_flatMap.mpr ⟨m.owner, ?_, List.mem_map.mpr ⟨m, hm, rfl⟩⟩
  exact List.mem_map.mpr ⟨m.owner.index, List.mem_range.mpr hm.owner_lt, rfl⟩

/-- **There are never more methods in flight than declared methods.** -/
theorem depth_le (hx : x.Sound i.code) : x.depth ≤ i.declaredKeys.length := by
  have hsub : x.stack.map MethodId.canonical ⊆ i.declaredKeys := by
    intro key hkey
    obtain ⟨id, hid, rfl⟩ := List.mem_map.mp hkey
    obtain ⟨m, hm, rfl⟩ := hx.declared id hid
    exact mem_declaredKeys hm
  have hle := hx.nodup.length_le_of_subset hsub
  rwa [List.length_map] at hle

theorem depth_enter (x : ResolutionContext) (id : MethodId) : (x.enter id).depth = x.depth + 1 :=
  List.length_append

/-! ## Giving a node -/

/-- `build` gives a node in a context, and gives back the context. -/
def Total (i : Index) (x : ResolutionContext) (build : MethodRef → Traversal MethodInfo) : Prop :=
  ∀ m c, i.code.Declared m → x.isInFlight (i.code.methodId m) = false →
    ∃ node c', build m ⟨c, x⟩ = some (node, ⟨c', x⟩)

section Total

variable {build : MethodRef → Traversal MethodInfo}

theorem edgeTo_total (g : GraphConfig) (caller : TypeInfo) (hb : i.Total x build) {t : CallTarget}
    (hl : i.code.Lands t) (c : Cache) :
    ∃ e c', i.edgeTo g build caller t ⟨c, x⟩ = some (e, ⟨c', x⟩) := by
  rw [edgeTo]
  split
  · exact ⟨_, c, rfl⟩
  · next hin =>
    rw [Bool.not_eq_true] at hin
    split
    · next m hm =>
      obtain ⟨hd, hf⟩ := fresh_of_expandable? hl hm hin
      obtain ⟨callee, c', h⟩ := hb m c hd hf
      exact ⟨_, c', by rw [h]; rfl⟩
    · exact ⟨_, c, rfl⟩

theorem edgesTo_total (g : GraphConfig) (caller : TypeInfo) (hb : i.Total x build)
    {ts : List CallTarget} (hl : ∀ t ∈ ts, i.code.Lands t) (c : Cache) :
    ∃ es c', i.edgesTo g build caller ts ⟨c, x⟩ = some (es, ⟨c', x⟩) := by
  induction ts generalizing c with
  | nil => exact ⟨[], c, rfl⟩
  | cons t ts ih =>
    obtain ⟨e, c₁, h₁⟩ := edgeTo_total g caller hb (hl t List.mem_cons_self) c
    obtain ⟨es, c₂, h₂⟩ := ih (fun u hu => hl u (List.mem_cons_of_mem _ hu)) c₁
    refine ⟨if g.callingFilter e then e :: es else es, c₂, ?_⟩
    rw [edgesTo]
    refine Option.bind_eq_some_iff.mpr ⟨_, h₁, ?_⟩
    exact Option.map_eq_some_iff.mpr ⟨_, h₂, rfl⟩

theorem overridesBy_total (hb : i.Total x build) {ms : List MethodRef}
    (hd : ∀ m ∈ ms, i.code.Declared m) (c : Cache) :
    ∃ nodes c', i.overridesBy build ms ⟨c, x⟩ = some (nodes, ⟨c', x⟩) := by
  induction ms generalizing c with
  | nil => exact ⟨[], c, rfl⟩
  | cons m ms ih =>
    have hfirst : ∃ node c', (if x.isInFlight (i.code.methodId m) then
        some (.reference (i.code.methodId m), ⟨c, x⟩) else build m ⟨c, x⟩) =
          some (node, (⟨c', x⟩ : Resolution)) := by
      cases hin : x.isInFlight (i.code.methodId m) with
      | true => exact ⟨_, c, rfl⟩
      | false => exact hb m c (hd m List.mem_cons_self) hin
    obtain ⟨node, c₁, h₁⟩ := hfirst
    obtain ⟨nodes, c₂, h₂⟩ := ih (fun k hk => hd k (List.mem_cons_of_mem _ hk)) c₁
    refine ⟨node :: nodes, c₂, ?_⟩
    rw [overridesBy]
    refine Option.bind_eq_some_iff.mpr ⟨_, h₁, ?_⟩
    exact Option.map_eq_some_iff.mpr ⟨_, h₂, rfl⟩

end Total

/-- **`build` gives a node** if its budget exceeds the number of declared methods not in flight. -/
theorem build_total {n : Nat} (hx : x.Sound i.code) (hn : i.declaredKeys.length < n + x.depth) :
    i.Total x (i.build g n) := by
  induction n generalizing x with
  | zero =>
    have hle := depth_le hx
    omega
  | succ n ih =>
    intro m c hm hf
    rw [Index.build]
    cases hfound : c.find? (i.code.methodId m).canonical with
    | some node => exact ⟨node, c, rfl⟩
    | none =>
      -- the method itself is in flight from here on, which makes up for the lost budget
      have hb := ih (hx.enter hm hf) (by rw [depth_enter]; omega)
      obtain ⟨edges, c₁, h₁⟩ := edgesTo_total g (i.code.sourceType m.owner) hb
        (fun t ht => Codebase.lands_of_mem_targets hm ht) c
      obtain ⟨nodes, c₂, h₂⟩ :=
        overridesBy_total hb (fun k hk => declared_of_mem_overriding (g := g) (m := m) hk) c₁
      refine ⟨c₂.findOr (i.code.methodId m).canonical (i.nodeOf m edges nodes),
        c₂.insertNew (i.code.methodId m).canonical (i.nodeOf m edges nodes), ?_⟩
      refine Option.bind_eq_some_iff.mpr ⟨_, h₁, Option.map_eq_some_iff.mpr ⟨_, h₂, ?_⟩⟩
      simp only [Resolution.leave, Resolution.finish, ResolutionContext.leave_enter hf]
      rfl

/-! ## The budget does not matter -/

section Mono

variable {build build' : MethodRef → Traversal MethodInfo} {caller : TypeInfo}

theorem edgeTo_mono (hb : ∀ m s r, build m s = some r → build' m s = some r) {t : CallTarget}
    {s : Resolution} {r : Calling × Resolution} (h : i.edgeTo g build caller t s = some r) :
    i.edgeTo g build' caller t s = some r := by
  rw [edgeTo] at h ⊢
  split at h
  · next hin => rwa [if_pos hin]
  · next hin =>
    rw [if_neg hin]
    split at h
    · obtain ⟨⟨callee, s'⟩, hs', hr⟩ := Option.map_eq_some_iff.mp h
      exact Option.map_eq_some_iff.mpr ⟨_, hb _ _ _ hs', hr⟩
    · exact h

theorem edgesTo_mono (hb : ∀ m s r, build m s = some r → build' m s = some r)
    {ts : List CallTarget} {s : Resolution} {r : List Calling × Resolution}
    (h : i.edgesTo g build caller ts s = some r) : i.edgesTo g build' caller ts s = some r := by
  induction ts generalizing s r with
  | nil => exact h
  | cons t ts ih =>
    rw [edgesTo] at h ⊢
    obtain ⟨⟨e, s₁⟩, h₁, h⟩ := Option.bind_eq_some_iff.mp h
    obtain ⟨⟨es, s₂⟩, h₂, hr⟩ := Option.map_eq_some_iff.mp h
    refine Option.bind_eq_some_iff.mpr ⟨_, edgeTo_mono hb h₁, ?_⟩
    exact Option.map_eq_some_iff.mpr ⟨_, ih h₂, hr⟩

theorem overridesBy_mono (hb : ∀ m s r, build m s = some r → build' m s = some r)
    {ms : List MethodRef} {s : Resolution} {r : List MethodInfo × Resolution}
    (h : i.overridesBy build ms s = some r) : i.overridesBy build' ms s = some r := by
  induction ms generalizing s r with
  | nil => exact h
  | cons m ms ih =>
    rw [overridesBy] at h ⊢
    obtain ⟨⟨node, s₁⟩, h₁, h⟩ := Option.bind_eq_some_iff.mp h
    obtain ⟨⟨nodes, s₂⟩, h₂, hr⟩ := Option.map_eq_some_iff.mp h
    refine Option.bind_eq_some_iff.mpr ⟨(node, s₁), ?_, ?_⟩
    · split at h₁
      · next hin => rwa [if_pos hin]
      · next hin =>
        rw [if_neg hin]
        exact hb _ _ _ h₁
    · exact Option.map_eq_some_iff.mpr ⟨_, ih h₂, hr⟩

end Mono

theorem build_succ {n : Nat} {m : MethodRef} {s : Resolution} {r : MethodInfo × Resolution}
    (h : i.build g n m s = some r) : i.build g (n + 1) m s = some r := by
  induction n generalizing m s r with
  | zero => exact absurd h (by simp [Index.build])
  | succ n ih =>
    rw [Index.build] at h ⊢
    split at h
    · exact h
    · obtain ⟨⟨edges, s₁⟩, h₁, h⟩ := Option.bind_eq_some_iff.mp h
      obtain ⟨⟨nodes, s₂⟩, h₂, hr⟩ := Option.map_eq_some_iff.mp h
      have hb : ∀ m s r, i.build g n m s = some r → i.build g (n + 1) m s = some r :=
        fun _ _ _ hb => ih hb
      refine Option.bind_eq_some_iff.mpr ⟨_, edgesTo_mono hb h₁, ?_⟩
      exact Option.map_eq_some_iff.mpr ⟨_, overridesBy_mono hb h₂, hr⟩

/-- **A larger budget gives the same node.** -/
theorem build_mono {n k : Nat} (hnk : n ≤ k) {m : MethodRef} {s : Resolution}
    {r : MethodInfo × Resolution} (h : i.build g n m s = some r) : i.build g k m s = some r := by
  induction hnk with
  | refl => exact h
  | step _ ih => exact build_succ ih

/-! ## All calls of a traversal -/

/-- `i.Calls g n m s k m' t`: the call of `build` for `m` with budget `n` in the state `s` is, or
leads to, a call for `m'` with budget `k` in the state `t`. -/
inductive Calls (i : Index) (g : GraphConfig) :
    Nat → MethodRef → Resolution → Nat → MethodRef → Resolution → Prop
  | here {n : Nat} {m : MethodRef} {s : Resolution} : Calls i g n m s n m s
  | callee {n k : Nat} {m m' callee : MethodRef} {s s₁ t : Resolution} {target : CallTarget}
      {before after : List CallTarget} {edges : List Calling}
      (hmissing : s.cache.find? (i.code.methodId m).canonical = none)
      (htargets : i.code.targets g m = before ++ target :: after)
      (hbefore : i.edgesTo g (i.build g n) (i.code.sourceType m.owner) before
        (s.enter (i.code.methodId m)) = some (edges, s₁))
      (hin : s₁.context.isInFlight target.id = false) (hcallee : expandable? g target = some callee)
      (h : Calls i g n callee s₁ k m' t) : Calls i g (n + 1) m s k m' t
  | override {n k : Nat} {m m' lower : MethodRef} {s s₁ s₂ t : Resolution}
      {before after : List MethodRef} {edges : List Calling} {nodes : List MethodInfo}
      (hmissing : s.cache.find? (i.code.methodId m).canonical = none)
      (hedges : i.edgesTo g (i.build g n) (i.code.sourceType m.owner) (i.code.targets g m)
        (s.enter (i.code.methodId m)) = some (edges, s₁))
      (hlower : i.overriding g m = before ++ lower :: after)
      (hbefore : i.overridesBy (i.build g n) before s₁ = some (nodes, s₂))
      (hin : s₂.context.isInFlight (i.code.methodId lower) = false)
      (h : Calls i g n lower s₂ k m' t) : Calls i g (n + 1) m s k m' t

/-- What is promised of a call of `build`. -/
structure Bracketed (i : Index) (g : GraphConfig) (k : Nat) (m : MethodRef) (t : Resolution) :
    Prop where
  /-- The methods in flight are different ones, and are exactly those on the stack. -/
  sound : t.context.Sound i.code
  /-- The method is not in flight. -/
  fresh : t.context.isInFlight (i.code.methodId m) = false
  /-- So the stack still holds different methods when the method is on it. -/
  entered : (t.enter (i.code.methodId m)).context.Sound i.code
  /-- The call returns, and gives back the context. -/
  returns : ∃ node c', i.build g k m t = some (node, ⟨c', t.context⟩)
  /-- The search for overriding methods ends before its budget does. -/
  search : ∀ b, i.subtypeBudget ≤ b →
    i.overridingFrom g (i.code.methodId m) b [m.owner] (i.searchedSubtypes g m.owner) =
      i.overriding g m

/-- A call for a method that may be entered, with enough budget. -/
structure Enters (i : Index) (k : Nat) (m : MethodRef) (t : Resolution) : Prop where
  declared : i.code.Declared m
  sound : t.context.Sound i.code
  fresh : t.context.isInFlight (i.code.methodId m) = false
  budget : i.declaredKeys.length < k + t.context.depth

theorem Enters.bracketed {k : Nat} {m : MethodRef} {t : Resolution} (h : i.Enters k m t) :
    i.Bracketed g k m t where
  sound := h.sound
  fresh := h.fresh
  entered := h.sound.enter h.declared h.fresh
  returns := build_total h.sound h.budget m t.cache h.declared h.fresh
  search _ hb := overriding_eq m hb

/-- A call gives back its context, whatever the budget. -/
theorem build_nests (n : Nat) (hx : x.Sound i.code) :
    i.Nests x (fun _ _ _ _ => True) (i.build g n) :=
  build_induction (P := fun _ _ _ _ _ => True) (fun _ _ _ => trivial) (fun _ => trivial) n hx

/-- What is entered within a call has the lost budget made up for by the method in flight. -/
theorem Enters.nested {n : Nat} {m k : MethodRef} {s t : Resolution} (h : i.Enters (n + 1) m s)
    (ht : t.context = s.context.enter (i.code.methodId m)) (hk : i.code.Declared k)
    (hf : t.context.isInFlight (i.code.methodId k) = false) : i.Enters n k t where
  declared := hk
  sound := by
    rw [ht]
    exact h.sound.enter h.declared h.fresh
  fresh := hf
  budget := by
    have hbudget := h.budget
    rw [ht, depth_enter]
    omega

/-- **All nested calls enter a method that may be entered.** -/
theorem Calls.enters {n k : Nat} {m m' : MethodRef} {s t : Resolution}
    (h : i.Calls g n m s k m' t) (hs : i.Enters n m s) : i.Enters k m' t := by
  induction h with
  | here => exact hs
  | @callee n k m m' callee s s₁ t target before after edges _ htargets hbefore hin hcallee _ ih =>
    have hlands : ∀ t ∈ i.code.targets g m, i.code.Lands t := fun t ht =>
      Codebase.lands_of_mem_targets hs.declared ht
    rw [htargets] at hlands
    have hctx := (edgesRun_of_edgesTo (build_nests n (hs.sound.enter hs.declared hs.fresh))
      (fun t ht => hlands t (List.mem_append_left _ ht)) hbefore).1
    obtain ⟨hd, hf⟩ := fresh_of_expandable?
      (hlands target (List.mem_append_right _ List.mem_cons_self)) hcallee hin
    exact ih (hs.nested hctx hd hf)
  | @override n k m m' lower s s₁ s₂ t before after edges nodes _ hedges hlower hbefore hin _ ih =>
    have hnests := build_nests (g := g) n (hs.sound.enter hs.declared hs.fresh)
    have hdeclared : ∀ k ∈ i.overriding g m, i.code.Declared k := fun k hk =>
      declared_of_mem_overriding hk
    rw [hlower] at hdeclared
    have hctx₁ := (edgesRun_of_edgesTo hnests
      (fun t ht => Codebase.lands_of_mem_targets hs.declared ht) hedges).1
    have hs₁ : s₁ = ⟨s₁.cache, s.context.enter (i.code.methodId m)⟩ := by rw [← hctx₁]
    rw [hs₁] at hbefore
    have hctx₂ := (overridesRun_of_overridesBy hnests
      (fun k hk => hdeclared k (List.mem_append_left _ hk)) hbefore).1
    exact ih (hs.nested hctx₂ (hdeclared lower (List.mem_append_right _ List.mem_cons_self)) hin)

end Index

/-! ## Requests -/

namespace Session

theorem enters_of_declarationOf {s : Session} {text : String} {m : MethodRef}
    (hm : s.declarationOf text = .ok m) {n : Nat} (hn : s.index.depthBudget ≤ n) :
    s.index.Enters n m ⟨s.cache, .empty⟩ where
  declared := declared_of_declarationOf hm
  sound := .empty _
  fresh := rfl
  budget := by
    rw [Index.depthBudget_eq] at hn
    exact Nat.lt_of_lt_of_le (Nat.lt_of_succ_le hn) (Nat.le_add_right _ _)

/-- **What a request does**: it is answered from the cache, it fails and changes nothing, or it is
answered with a node that `build` gives. -/
theorem resolve_cases (s : Session) (text : String) :
    (∃ node, s.hit? text = some node ∧ s.resolve text = (.ok node, s)) ∨
      (∃ e, s.resolve text = (.error e, s)) ∨
        ∃ m node cache, s.hit? text = none ∧ s.declarationOf text = .ok m ∧
          s.index.build s.config s.index.depthBudget m ⟨s.cache, .empty⟩ =
            some (node, ⟨cache, .empty⟩) ∧
          s.resolve text =
            (.ok (cache.findOr text node), { s with cache := cache.insertNew text node }) := by
  cases hhit : s.hit? text with
  | some node => exact Or.inl ⟨node, rfl, by rw [resolve, hhit]⟩
  | none =>
    cases hm : s.declarationOf text with
    | error e => exact Or.inr (Or.inl ⟨e, by simp only [resolve, hhit, hm]⟩)
    | ok m =>
      have henters := enters_of_declarationOf hm (Nat.le_refl _)
      obtain ⟨node, cache, hbuild⟩ := (henters.bracketed (g := s.config)).returns
      refine Or.inr (Or.inr ⟨m, node, cache, rfl, rfl, hbuild, ?_⟩)
      simp only [resolve, hhit, hm, resolveAs, Index.resolveMethod, hbuild]

/-- A new session answers a text that means a declaration. -/
theorem resolve_start_of_declarationOf {i : Index} {g : GraphConfig} {text : String} {m : MethodRef}
    (hm : (start i g).declarationOf text = .ok m) :
    ∃ node cache,
      i.build g i.depthBudget m ⟨.empty, .empty⟩ = some (node, ⟨cache, .empty⟩) ∧
        (start i g).resolve text =
          (.ok (cache.findOr text node), ⟨i, g, cache.insertNew text node⟩) := by
  rcases resolve_cases (start i g) text with
    ⟨node, hhit, -⟩ | ⟨e, herror⟩ | ⟨k, node, cache, -, hk, hbuild, hok⟩
  · rw [hit?_start] at hhit
    exact absurd hhit (by simp)
  · simp only [resolve, hit?_start, hm] at herror
    exact absurd (Prod.mk.inj herror).1 (by simp)
  · rw [← Except.ok.inj (hm.symm.trans hk)] at hbuild
    exact ⟨node, cache, hbuild, hok⟩

/-- A new session answers nothing else. -/
theorem exists_build_of_resolve_start {i : Index} {g : GraphConfig} {text : String}
    {root : MethodInfo} {s : Session} (hres : (start i g).resolve text = (.ok root, s)) :
    ∃ m node cache, (start i g).declarationOf text = .ok m ∧
      i.build g i.depthBudget m ⟨.empty, .empty⟩ = some (node, ⟨cache, .empty⟩) ∧
        root = cache.findOr text node := by
  cases hm : (start i g).declarationOf text with
  | error e =>
    simp only [resolve, hit?_start, hm] at hres
    exact absurd (Prod.mk.inj hres).1 (by simp)
  | ok m =>
    obtain ⟨node, cache, hbuild, hok⟩ := resolve_start_of_declarationOf hm
    rw [hres] at hok
    exact ⟨m, node, cache, rfl, hbuild, Except.ok.inj (Prod.mk.inj hok).1⟩

/-- **Every request ends, and never enters a method twice.**  For a text that means a declared
method `build` gives a node, the same one whatever budget it is given from `depthBudget` on, and
every call of `build` that it leads to is bracketed.  The node is the answer, if the text was not
answered before. -/
theorem traversal_ends (s : Session) {text : String} {m : MethodRef}
    (hm : s.declarationOf text = .ok m) :
    ∃ node cache,
      (∀ n, s.index.depthBudget ≤ n →
        s.index.build s.config n m ⟨s.cache, .empty⟩ = some (node, ⟨cache, .empty⟩) ∧
          ∀ k m' t, s.index.Calls s.config n m ⟨s.cache, .empty⟩ k m' t →
            s.index.Bracketed s.config k m' t) ∧
        (s.hit? text = none → (s.resolve text).1 = .ok (cache.findOr text node)) := by
  have henters := enters_of_declarationOf hm (Nat.le_refl _)
  obtain ⟨node, cache, hbuild⟩ := (henters.bracketed (g := s.config)).returns
  refine ⟨node, cache, fun n hn => ⟨Index.build_mono hn hbuild, ?_⟩, fun hmiss => ?_⟩
  · exact fun k m' t hcall => (hcall.enters (enters_of_declarationOf hm hn)).bracketed
  · simp only [resolve, hmiss, hm, resolveAs, Index.resolveMethod, hbuild]

end Session

/-! ## A code base with cycles

`Sub.foo` overrides `Base.foo` and calls it, so it is in flight when the methods that override
`Base.foo` are resolved.  And `Sub.leaf`, which is only called by `Sub.foo`, leads back to
`Sub.root`, where everything begins. -/

namespace Sample

/-- A call without arguments. -/
def call (receiver : Option Expr) (name : String) : CallSite := ⟨⟨receiver, name, []⟩, 0, 1⟩

/-- A method without parameters that makes some calls. -/
def method (name : String) (calls : List CallSite) : MethodDecl where
  name := name
  typeParams := []
  params := []
  returnType := .void
  modifiers := []
  annotations := []
  body := some ⟨[⟨none, .method, [], []⟩], calls⟩
  lineStart := 1
  lineEnd := 1
  synthetic := false

/-- A method with one parameter. -/
def unary (name : String) (type : TypeRef) (calls : List CallSite) : MethodDecl :=
  { method name calls with params := [⟨"p", type, false⟩] }

/-- A class in the default package. -/
def classDecl (name : String) (extended : List TypeRef) (methods : List MethodDecl) : TypeDecl where
  name := name
  qualifiedName := name
  kind := .plainClass
  unit := ⟨0⟩
  outer := none
  typeParams := []
  extended := extended
  implemented := []
  fields := []
  methods := methods
  enumConstants := []
  annotations := []
  modifiers := []
  line := 1

/-- The two classes. -/
def code : Codebase where
  units := [⟨"Sample.java", none, [], none⟩]
  types :=
    [classDecl "Base" [] [method "foo" []],
     classDecl "Sub" [.simple "Base"]
      [method "foo" [call (some .super) "foo", call none "leaf"],
       method "leaf" [call none "root"],
       method "b" [call none "foo"],
       method "a" [call none "b"],
       method "root" [call none "a", call (some .super) "foo"]]]
  catalog := .empty

/-- A new session on the two classes. -/
def start : Session := .start (.ofCodebase code) .default

end Sample

/-- The cycles are no obstacle to an answer. -/
theorem Session.traversal_ends_sample :
    Sample.start.declarationOf "Sub#root()" = .ok ⟨⟨1⟩, 4⟩ ∧
      ∃ node, (Sample.start.resolve "Sub#root()").1 = .ok node := by
  have hm : Sample.start.declarationOf "Sub#root()" = .ok ⟨⟨1⟩, 4⟩ := by decide +kernel
  obtain ⟨node, cache, -, hanswer⟩ := Session.traversal_ends Sample.start hm
  exact ⟨hm, _, hanswer (Session.hit?_start _ _ _)⟩

end JavaCallGraph
