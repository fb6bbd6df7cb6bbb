import JavaCallGraph.Graph.Session
import JavaCallGraph.Proofs.Graph.Target

/-!
# The traversal, step by step

`Index.build` is looked into here and nowhere else.  It carries a cache and a context, and the two
behave quite differently:

* the context is a stack.  `ResolutionContext.Sound` says what it is a stack of: different declared
  methods, with their written identities beside them.  A method is entered only if it is not in
  flight, and leaving it gives back the context from before (`ResolutionContext.leave_enter`);
* the cache only grows, and never at a method in flight (`Cache.Frame`).

So within one method the context is the same for all nested calls, and what remains of a run is what
happens to the cache.  `Index.EdgesRun` and `Index.OverridesRun` describe this for the calls and the
overriding methods, in terms of any relation `P` that describes the nested calls of `build`, and
`Index.build_induction` is the induction over the traversal: a property of a cache hit that is
handed on by a run holds of every call of `build`.
-/

set_option autoImplicit false

namespace JavaCallGraph

/-! ## The context -/

namespace ResolutionContext

/-- The stack holds different declared methods, and their written identities are in flight. -/
structure Sound (c : Codebase) (x : ResolutionContext) : Prop where
  nodup : (x.stack.map MethodId.canonical).Nodup
  mem_inFlight : ∀ key, key ∈ x.inFlight ↔ key ∈ x.stack.map MethodId.canonical
  declared : ∀ id ∈ x.stack, ∃ m, c.Declared m ∧ id = c.methodId m

variable {c : Codebase} {x : ResolutionContext} {id : MethodId}

theorem Sound.empty (c : Codebase) : Sound c .empty where
  nodup := List.nodup_nil
  mem_inFlight _ := Iff.rfl
  declared _ h := absurd h List.not_mem_nil

theorem isInFlight_iff : x.isInFlight id = true ↔ id.canonical ∈ x.inFlight :=
  List.contains_iff_mem

theorem not_isInFlight_iff : x.isInFlight id = false ↔ id.canonical ∉ x.inFlight := by
  rw [← isInFlight_iff, Bool.not_eq_true]

theorem inFlight_enter (h : x.isInFlight id = false) :
    (x.enter id).inFlight = id.canonical :: x.inFlight :=
  if_neg (by rw [List.contains_iff_mem]; exact not_isInFlight_iff.mp h)

theorem mem_inFlight_enter (h : x.isInFlight id = false) {key : String} :
    key ∈ (x.enter id).inFlight ↔ key = id.canonical ∨ key ∈ x.inFlight := by
  rw [inFlight_enter h, List.mem_cons]

theorem Sound.enter (hx : x.Sound c) {m : MethodRef} (hm : c.Declared m)
    (h : x.isInFlight (c.methodId m) = false) : (x.enter (c.methodId m)).Sound c where
  nodup := by
    rw [ResolutionContext.enter, List.map_append, List.nodup_append]
    refine ⟨hx.nodup, List.nodup_cons.mpr ⟨List.not_mem_nil, List.nodup_nil⟩, ?_⟩
    intro a ha b hb hab
    rw [List.map_singleton, List.mem_singleton] at hb
    rw [hab, hb] at ha
    exact not_isInFlight_iff.mp h ((hx.mem_inFlight _).mpr ha)
  mem_inFlight key := by
    rw [mem_inFlight_enter h, hx.mem_inFlight, ResolutionContext.enter, List.map_append,
      List.mem_append, List.map_singleton, List.mem_singleton, or_comm]
  declared id hid := by
    rcases List.mem_append.mp hid with hid | hid
    · exact hx.declared id hid
    · exact ⟨m, hm, List.mem_singleton.mp hid⟩

/-- **Leaving a method gives back the context from before it was entered.** -/
theorem leave_enter (h : x.isInFlight id = false) : (x.enter id).leave id = x := by
  have hstack : (x.enter id).stack.reverse.eraseP (fun m => m.canonical == id.canonical)
      = x.stack.reverse := by
    rw [enter, List.reverse_concat]
    exact List.eraseP_cons_of_pos (beq_self_eq_true id.canonical)
  have hflight : (x.enter id).inFlight.filter (· != id.canonical) = x.inFlight := by
    rw [inFlight_enter h, List.filter_cons_of_neg (by simp), List.filter_eq_self]
    intro key hkey
    rw [bne_iff_ne]
    rintro rfl
    exact not_isInFlight_iff.mp h hkey
  rw [leave, hstack, hflight, List.reverse_reverse]

/-- A method in flight is a declared one. -/
theorem Sound.exists_of_mem_inFlight (hx : x.Sound c) {key : String} (h : key ∈ x.inFlight) :
    ∃ m, c.Declared m ∧ key = (c.methodId m).canonical := by
  obtain ⟨id, hid, rfl⟩ := List.mem_map.mp ((hx.mem_inFlight key).mp h)
  obtain ⟨m, hm, rfl⟩ := hx.declared id hid
  exact ⟨m, hm, rfl⟩

end ResolutionContext

/-! ## The cache -/

namespace Cache

variable {c c' c'' : Cache} {key : String} {node : MethodInfo}

@[simp] theorem find?_empty (key : String) : Cache.empty.find? key = none := rfl

theorem find?_insertNew_self (node : MethodInfo) (h : c.find? key = none) :
    (c.insertNew key node).find? key = some node := by
  rw [find?_insertNew, findOr, h, Option.getD_none]

theorem find?_insertNew_of_ne {other : String} (h : other ≠ key) :
    (c.insertNew key node).find? other = c.find? other := by
  rw [insertNew]
  split
  · rfl
  · rw [find?, find?, List.lookup_cons, beq_false_of_ne h]

theorem find?_insertNew_eq_some {other : String} {v : MethodInfo}
    (h : (c.insertNew key node).find? other = some v) :
    (other = key ∧ v = node) ∨ c.find? other = some v := by
  by_cases hne : other = key
  · rw [hne] at h ⊢
    rw [find?_insertNew, findOr] at h
    cases hc : c.find? key with
    | none =>
      rw [hc, Option.getD_none] at h
      exact Or.inl ⟨rfl, (Option.some.inj h).symm⟩
    | some w =>
      rw [hc, Option.getD_some] at h
      exact Or.inr h
  · rw [find?_insertNew_of_ne hne] at h
    exact Or.inr h

/-- Adding a node takes none away. -/
theorem kept_insertNew (c : Cache) (key : String) (node : MethodInfo) :
    ∀ other v, c.find? other = some v → (c.insertNew key node).find? other = some v := by
  intro other v hv
  by_cases he : other = key
  · rw [← he, find?_insertNew, findOr, hv, Option.getD_some]
  · rw [find?_insertNew_of_ne he]
    exact hv

/-- What is true of the new node and of all nodes in the cache is true of the one that is kept. -/
theorem findOr_of_forall {P : MethodInfo → Prop} (hnew : P node)
    (hold : ∀ v, c.find? key = some v → P v) : P (c.findOr key node) := by
  rw [findOr]
  cases h : c.find? key with
  | none => exact hnew
  | some v => exact hold v h

/-- What `c` has is kept, and nothing is added at a key that is in flight. -/
structure Frame (x : ResolutionContext) (c c' : Cache) : Prop where
  kept : ∀ key node, c.find? key = some node → c'.find? key = some node
  absent : ∀ key ∈ x.inFlight, c.find? key = none → c'.find? key = none

variable {x : ResolutionContext}

theorem Frame.refl (x : ResolutionContext) (c : Cache) : Frame x c c :=
  ⟨fun _ _ h => h, fun _ _ h => h⟩

theorem Frame.trans (h : Frame x c c') (h' : Frame x c' c'') : Frame x c c'' :=
  ⟨fun key node hk => h'.kept key node (h.kept key node hk),
   fun key hx hk => h'.absent key hx (h.absent key hx hk)⟩

theorem Frame.isSome (h : Frame x c c') (hk : (c.find? key).isSome) : (c'.find? key).isSome := by
  obtain ⟨node, hnode⟩ := Option.isSome_iff_exists.mp hk
  exact Option.isSome_iff_exists.mpr ⟨node, h.kept key node hnode⟩

/-- Finishing a method ends its being in flight. -/
theorem Frame.finish {id : MethodId} (hx : x.isInFlight id = false) (h : Frame (x.enter id) c c')
    (hc : c.find? id.canonical = none) : Frame x c (c'.insertNew id.canonical node) where
  kept key v hv := by
    have hne : key ≠ id.canonical := by
      rintro rfl
      rw [hc] at hv
      exact absurd hv (by simp)
    rw [find?_insertNew_of_ne hne]
    exact h.kept key v hv
  absent key hkey hnone := by
    have hne : key ≠ id.canonical := by
      rintro rfl
      exact ResolutionContext.not_isInFlight_iff.mp hx hkey
    rw [find?_insertNew_of_ne hne]
    exact h.absent key ((ResolutionContext.mem_inFlight_enter hx).mpr (Or.inr hkey)) hnone

end Cache

/-! ## Runs -/

namespace Index

/-- A call of `build` for a declared method that is not in flight, of which `P` holds. -/
structure Nested (i : Index) (x : ResolutionContext)
    (P : MethodRef → Cache → MethodInfo → Cache → Prop)
    (m : MethodRef) (c : Cache) (node : MethodInfo) (c' : Cache) : Prop where
  declared : i.code.Declared m
  fresh : x.isInFlight (i.code.methodId m) = false
  frame : Cache.Frame x c c'
  holds : P m c node c'

/-- How the edge to one target comes about. -/
inductive EdgeStep (i : Index) (g : GraphConfig) (x : ResolutionContext)
    (P : MethodRef → Cache → MethodInfo → Cache → Prop) (caller : TypeInfo) (t : CallTarget)
    (c : Cache) : Calling → Cache → Prop
  | recursive (hin : x.isInFlight t.id = true) :
      EdgeStep i g x P caller t c (.recursiveAt t.id (i.code.classify t.declaring caller)) c
  | expanded {m : MethodRef} {callee : MethodInfo} {c' : Cache} (hin : x.isInFlight t.id = false)
      (hm : expandable? g t = some m) (hn : i.Nested x P m c callee c') :
      EdgeStep i g x P caller t c (.method callee (i.targetRelation caller t)) c'
  | reference (hin : x.isInFlight t.id = false) (hm : expandable? g t = none) :
      EdgeStep i g x P caller t c (.method (.reference t.id) (i.targetRelation caller t)) c

/-- How the edges to some targets come about, one after the other. -/
inductive EdgesRun (i : Index) (g : GraphConfig) (x : ResolutionContext)
    (P : MethodRef → Cache → MethodInfo → Cache → Prop) (caller : TypeInfo) :
    List CallTarget → Cache → List Calling → Cache → Prop
  | nil (c : Cache) : EdgesRun i g x P caller [] c [] c
  | cons {t : CallTarget} {ts : List CallTarget} {e : Calling} {es : List Calling}
      {c c' c'' : Cache} (hstep : i.EdgeStep g x P caller t c e c')
      (hrun : EdgesRun i g x P caller ts c' es c'') :
      EdgesRun i g x P caller (t :: ts) c (if g.callingFilter e then e :: es else es) c''

/-- How the node of one overriding method comes about. -/
inductive OverrideStep (i : Index) (x : ResolutionContext)
    (P : MethodRef → Cache → MethodInfo → Cache → Prop) (m : MethodRef) (c : Cache) :
    MethodInfo → Cache → Prop
  | recursive (hin : x.isInFlight (i.code.methodId m) = true) :
      OverrideStep i x P m c (.reference (i.code.methodId m)) c
  | expanded {node : MethodInfo} {c' : Cache} (hn : i.Nested x P m c node c') :
      OverrideStep i x P m c node c'

/-- How the nodes of some overriding methods come about, one after the other. -/
inductive OverridesRun (i : Index) (x : ResolutionContext)
    (P : MethodRef → Cache → MethodInfo → Cache → Prop) :
    List MethodRef → Cache → List MethodInfo → Cache → Prop
  | nil (c : Cache) : OverridesRun i x P [] c [] c
  | cons {m : MethodRef} {ms : List MethodRef} {node : MethodInfo} {nodes : List MethodInfo}
      {c c' c'' : Cache} (hstep : i.OverrideStep x P m c node c')
      (hrun : OverridesRun i x P ms c' nodes c'') :
      OverridesRun i x P (m :: ms) c (node :: nodes) c''

variable {i : Index} {g : GraphConfig} {x : ResolutionContext}
  {P : MethodRef → Cache → MethodInfo → Cache → Prop} {caller : TypeInfo}

theorem EdgeStep.frame {t : CallTarget} {c c' : Cache} {e : Calling}
    (h : i.EdgeStep g x P caller t c e c') : Cache.Frame x c c' := by
  cases h with
  | recursive hin => exact .refl x c
  | expanded hin hm hn => exact hn.frame
  | reference hin hm => exact .refl x c

theorem EdgesRun.frame {ts : List CallTarget} {c c' : Cache} {es : List Calling}
    (h : i.EdgesRun g x P caller ts c es c') : Cache.Frame x c c' := by
  induction h with
  | nil c => exact .refl x c
  | cons hstep hrun ih => exact hstep.frame.trans ih

theorem OverrideStep.frame {m : MethodRef} {c c' : Cache} {node : MethodInfo}
    (h : i.OverrideStep x P m c node c') : Cache.Frame x c c' := by
  cases h with
  | recursive hin => exact .refl x c
  | expanded hn => exact hn.frame

theorem OverridesRun.frame {ms : List MethodRef} {c c' : Cache} {nodes : List MethodInfo}
    (h : i.OverridesRun x P ms c nodes c') : Cache.Frame x c c' := by
  induction h with
  | nil c => exact .refl x c
  | cons hstep hrun ih => exact hstep.frame.trans ih

/-! ## From the traversal to its runs -/

/-- What is known of the nested calls of `build`: they give back the context they were given. -/
def Nests (i : Index) (x : ResolutionContext) (P : MethodRef → Cache → MethodInfo → Cache → Prop)
    (build : MethodRef → Traversal MethodInfo) : Prop :=
  ∀ m c node s, i.code.Declared m → x.isInFlight (i.code.methodId m) = false →
    build m ⟨c, x⟩ = some (node, s) → s.context = x ∧ Cache.Frame x c s.cache ∧ P m c node s.cache

theorem Nests.and {P Q : MethodRef → Cache → MethodInfo → Cache → Prop}
    {build : MethodRef → Traversal MethodInfo} (hp : i.Nests x P build) (hq : i.Nests x Q build) :
    i.Nests x (fun m c node c' => P m c node c' ∧ Q m c node c') build := by
  intro m c node s hm hf h
  obtain ⟨hcontext, hframe, hpm⟩ := hp m c node s hm hf h
  exact ⟨hcontext, hframe, hpm, (hq m c node s hm hf h).2.2⟩

/-- A declared target that is to be expanded is not in flight as a method if it is not as a
target. -/
theorem fresh_of_expandable? {t : CallTarget} {m : MethodRef} (hl : i.code.Lands t)
    (hm : expandable? g t = some m) (hin : x.isInFlight t.id = false) :
    i.code.Declared m ∧ x.isInFlight (i.code.methodId m) = false := by
  obtain ⟨hd, hid, -⟩ := hl.declared m (Option.mem_filter_iff.mp hm).1
  rw [← hid]
  exact ⟨hd, hin⟩

variable {build : MethodRef → Traversal MethodInfo}

theorem edgeStep_of_edgeTo (hb : i.Nests x P build) {t : CallTarget} (hl : i.code.Lands t)
    {c : Cache} {e : Calling} {s : Resolution}
    (h : i.edgeTo g build caller t ⟨c, x⟩ = some (e, s)) :
    s.context = x ∧ i.EdgeStep g x P caller t c e s.cache := by
  rw [edgeTo] at h
  split at h
  · next hin =>
    obtain ⟨rfl, rfl⟩ := Prod.mk.inj (Option.some.inj h)
    exact ⟨rfl, .recursive hin⟩
  · next hin =>
    rw [Bool.not_eq_true] at hin
    split at h
    · next m hm =>
      obtain ⟨⟨callee, s'⟩, hs', he⟩ := Option.map_eq_some_iff.mp h
      obtain ⟨rfl, rfl⟩ := Prod.mk.inj he
      obtain ⟨hd, hf⟩ := fresh_of_expandable? hl hm hin
      obtain ⟨hx, hframe, hp⟩ := hb m c callee s' hd hf hs'
      exact ⟨hx, .expanded hin hm ⟨hd, hf, hframe, hp⟩⟩
    · next hm =>
      obtain ⟨rfl, rfl⟩ := Prod.mk.inj (Option.some.inj h)
      exact ⟨rfl, .reference hin hm⟩

theorem edgesRun_of_edgesTo (hb : i.Nests x P build) {ts : List CallTarget}
    (hl : ∀ t ∈ ts, i.code.Lands t) {c : Cache} {es : List Calling} {s : Resolution}
    (h : i.edgesTo g build caller ts ⟨c, x⟩ = some (es, s)) :
    s.context = x ∧ i.EdgesRun g x P caller ts c es s.cache := by
  induction ts generalizing c es s with
  | nil =>
    rw [edgesTo] at h
    obtain ⟨rfl, rfl⟩ := Prod.mk.inj (Option.some.inj h)
    exact ⟨rfl, .nil c⟩
  | cons t ts ih =>
    rw [edgesTo] at h
    obtain ⟨⟨e, s₁⟩, h₁, h⟩ := Option.bind_eq_some_iff.mp h
    obtain ⟨⟨es', s₂⟩, h₂, h⟩ := Option.map_eq_some_iff.mp h
    obtain ⟨rfl, rfl⟩ := Prod.mk.inj h
    obtain ⟨hx₁, hstep⟩ := edgeStep_of_edgeTo hb (hl t List.mem_cons_self) h₁
    have hs₁ : s₁ = ⟨s₁.cache, x⟩ := by rw [← hx₁]
    rw [hs₁] at h₂
    obtain ⟨hx₂, hrun⟩ := ih (fun u hu => hl u (List.mem_cons_of_mem _ hu)) h₂
    exact ⟨hx₂, .cons hstep hrun⟩

theorem overridesRun_of_overridesBy (hb : i.Nests x P build) {ms : List MethodRef}
    (hd : ∀ m ∈ ms, i.code.Declared m) {c : Cache} {nodes : List MethodInfo} {s : Resolution}
    (h : i.overridesBy build ms ⟨c, x⟩ = some (nodes, s)) :
    s.context = x ∧ i.OverridesRun x P ms c nodes s.cache := by
  induction ms generalizing c nodes s with
  | nil =>
    rw [overridesBy] at h
    obtain ⟨rfl, rfl⟩ := Prod.mk.inj (Option.some.inj h)
    exact ⟨rfl, .nil c⟩
  | cons m ms ih =>
    rw [overridesBy] at h
    obtain ⟨⟨node, s₁⟩, h₁, h⟩ := Option.bind_eq_some_iff.mp h
    obtain ⟨⟨nodes', s₂⟩, h₂, h⟩ := Option.map_eq_some_iff.mp h
    obtain ⟨rfl, rfl⟩ := Prod.mk.inj h
    have hstep : s₁.context = x ∧ i.OverrideStep x P m c node s₁.cache := by
      split at h₁
      · next hin =>
        obtain ⟨rfl, rfl⟩ := Prod.mk.inj (Option.some.inj h₁)
        exact ⟨rfl, .recursive hin⟩
      · next hin =>
        rw [Bool.not_eq_true] at hin
        have hm := hd m List.mem_cons_self
        obtain ⟨hx, hframe, hp⟩ := hb m c node s₁ hm hin h₁
        exact ⟨hx, .expanded ⟨hm, hin, hframe, hp⟩⟩
    have hs₁ : s₁ = ⟨s₁.cache, x⟩ := by rw [← hstep.1]
    rw [hs₁] at h₂
    obtain ⟨hx₂, hrun⟩ := ih (fun k hk => hd k (List.mem_cons_of_mem _ hk)) h₂
    exact ⟨hx₂, .cons hstep.2 hrun⟩

/-! ## Induction over the traversal -/

/-- The node that a run gives. -/
def nodeOf (i : Index) (m : MethodRef) (edges : List Calling) (nodes : List MethodInfo) :
    MethodInfo :=
  .mk (i.code.methodId m) (some m) edges nodes

/-- A method that is not in the cache gets a node from the runs of its calls and of its overriding
methods, under a context in which it is in flight itself. -/
structure Miss (i : Index) (g : GraphConfig)
    (P : ResolutionContext → MethodRef → Cache → MethodInfo → Cache → Prop) (x : ResolutionContext)
    (m : MethodRef) (c : Cache) (edges : List Calling) (c₁ : Cache) (nodes : List MethodInfo)
    (c₂ : Cache) : Prop where
  sound : x.Sound i.code
  declared : i.code.Declared m
  fresh : x.isInFlight (i.code.methodId m) = false
  missing : c.find? (i.code.methodId m).canonical = none
  calls : i.EdgesRun g (x.enter (i.code.methodId m)) (P (x.enter (i.code.methodId m)))
    (i.code.sourceType m.owner) (i.code.targets g m) c edges c₁
  overrides : i.OverridesRun (x.enter (i.code.methodId m)) (P (x.enter (i.code.methodId m)))
    (i.overriding g m) c₁ nodes c₂

namespace Miss

variable {P : ResolutionContext → MethodRef → Cache → MethodInfo → Cache → Prop} {m : MethodRef}
  {c c₁ c₂ : Cache} {edges : List Calling} {nodes : List MethodInfo}

theorem frame (h : i.Miss g P x m c edges c₁ nodes c₂) :
    Cache.Frame (x.enter (i.code.methodId m)) c c₂ :=
  h.calls.frame.trans h.overrides.frame

/-- A method is not finished while it is in flight. -/
theorem missing_still (h : i.Miss g P x m c edges c₁ nodes c₂) :
    c₂.find? (i.code.methodId m).canonical = none :=
  h.frame.absent _ ((ResolutionContext.mem_inFlight_enter h.fresh).mpr (Or.inl rfl)) h.missing

end Miss

/-- **One step of the traversal.**  Let the nested calls be described by `P`.  A hit gives what the
cache has; a miss gives a new node, and adds it to the cache under its own identity. -/
theorem build_succ_cases
    {P : ResolutionContext → MethodRef → Cache → MethodInfo → Cache → Prop} {n : Nat} {m : MethodRef}
    {c : Cache} {node : MethodInfo} {s : Resolution} (hx : x.Sound i.code) (hm : i.code.Declared m)
    (hf : x.isInFlight (i.code.methodId m) = false)
    (hb : i.Nests (x.enter (i.code.methodId m)) (P (x.enter (i.code.methodId m))) (i.build g n))
    (h : i.build g (n + 1) m ⟨c, x⟩ = some (node, s)) :
    (c.find? (i.code.methodId m).canonical = some node ∧ s = ⟨c, x⟩) ∨
      ∃ edges c₁ nodes c₂,
        i.edgesTo g (i.build g n) (i.code.sourceType m.owner) (i.code.targets g m)
            ⟨c, x.enter (i.code.methodId m)⟩ = some (edges, ⟨c₁, x.enter (i.code.methodId m)⟩) ∧
          i.overridesBy (i.build g n) (i.overriding g m) ⟨c₁, x.enter (i.code.methodId m)⟩ =
            some (nodes, ⟨c₂, x.enter (i.code.methodId m)⟩) ∧
          i.Miss g P x m c edges c₁ nodes c₂ ∧ node = i.nodeOf m edges nodes ∧
          s = ⟨c₂.insertNew (i.code.methodId m).canonical (i.nodeOf m edges nodes), x⟩ := by
  rw [Index.build] at h
  split at h
  · next found hfound =>
    obtain ⟨rfl, rfl⟩ := Prod.mk.inj (Option.some.inj h)
    exact Or.inl ⟨hfound, rfl⟩
  · next hmissing =>
    obtain ⟨⟨edges, ⟨c₁, x₁⟩⟩, h₁, h⟩ := Option.bind_eq_some_iff.mp h
    obtain ⟨⟨nodes, ⟨c₂, x₂⟩⟩, h₂, h⟩ := Option.map_eq_some_iff.mp h
    obtain ⟨hnode, hs⟩ := Prod.mk.inj h
    obtain ⟨rfl, hedges⟩ :=
      edgesRun_of_edgesTo hb (fun t ht => Codebase.lands_of_mem_targets hm ht) h₁
    obtain ⟨rfl, hnodes⟩ :=
      overridesRun_of_overridesBy hb (fun k hk => declared_of_mem_overriding hk) h₂
    have hmiss : i.Miss g P x m c edges c₁ nodes c₂ := ⟨hx, hm, hf, hmissing, hedges, hnodes⟩
    rw [Cache.findOr, hmiss.missing_still, Option.getD_none] at hnode
    refine Or.inr ⟨edges, c₁, nodes, c₂, h₁, h₂, hmiss, hnode.symm, ?_⟩
    rw [← hs, Resolution.finish, Resolution.leave, ResolutionContext.leave_enter hf]
    rfl

/-- If the nested calls are described by `P`, then a call is described by what holds of a hit and of
such a miss. -/
theorem nests_succ {P R : ResolutionContext → MethodRef → Cache → MethodInfo → Cache → Prop}
    (hit : ∀ {x m c node}, x.Sound i.code → i.code.Declared m →
      c.find? (i.code.methodId m).canonical = some node → R x m c node c)
    (miss : ∀ {x m c edges c₁ nodes c₂}, i.Miss g P x m c edges c₁ nodes c₂ →
      R x m c (i.nodeOf m edges nodes)
        (c₂.insertNew (i.code.methodId m).canonical (i.nodeOf m edges nodes)))
    {n : Nat} (hb : ∀ {x : ResolutionContext}, x.Sound i.code → i.Nests x (P x) (i.build g n))
    {x : ResolutionContext} (hx : x.Sound i.code) : i.Nests x (R x) (i.build g (n + 1)) := by
  intro m c node s hm hf h
  rcases build_succ_cases hx hm hf (hb (hx.enter hm hf)) h with
    ⟨hfound, rfl⟩ | ⟨edges, c₁, nodes, c₂, -, -, hmiss, rfl, rfl⟩
  · exact ⟨rfl, .refl x c, hit hx hm hfound⟩
  · exact ⟨rfl, hmiss.frame.finish hf hmiss.missing, miss hmiss⟩

/-- **Induction over the traversal.**  Let `P` hold of every hit, and of every miss whose nested
calls it holds of.  Then it holds of every call of `build`, and such a call gives back its
context. -/
theorem build_induction
    {P : ResolutionContext → MethodRef → Cache → MethodInfo → Cache → Prop}
    (hit : ∀ {x m c node}, x.Sound i.code → i.code.Declared m →
      c.find? (i.code.methodId m).canonical = some node → P x m c node c)
    (miss : ∀ {x m c edges c₁ nodes c₂}, i.Miss g P x m c edges c₁ nodes c₂ →
      P x m c (i.nodeOf m edges nodes)
        (c₂.insertNew (i.code.methodId m).canonical (i.nodeOf m edges nodes)))
    (n : Nat) {x : ResolutionContext} (hx : x.Sound i.code) : i.Nests x (P x) (i.build g n) := by
  induction n generalizing x with
  | zero => exact fun m c node s _ _ h => absurd h (by simp [Index.build])
  | succ n ih => exact nests_succ hit miss ih hx

/-- The same when something else, `Q`, is known of all calls of `build` already. -/
theorem build_induction_with
    {P Q : ResolutionContext → MethodRef → Cache → MethodInfo → Cache → Prop}
    (known : ∀ n {x : ResolutionContext}, x.Sound i.code → i.Nests x (Q x) (i.build g n))
    (hit : ∀ {x m c node}, x.Sound i.code → i.code.Declared m →
      c.find? (i.code.methodId m).canonical = some node → P x m c node c)
    (miss : ∀ {x m c edges c₁ nodes c₂},
      i.Miss g (fun x m c node c' => Q x m c node c' ∧ P x m c node c') x m c edges c₁ nodes c₂ →
      Q x m c (i.nodeOf m edges nodes)
        (c₂.insertNew (i.code.methodId m).canonical (i.nodeOf m edges nodes)) →
      P x m c (i.nodeOf m edges nodes)
        (c₂.insertNew (i.code.methodId m).canonical (i.nodeOf m edges nodes)))
    (n : Nat) {x : ResolutionContext} (hx : x.Sound i.code) : i.Nests x (P x) (i.build g n) := by
  induction n generalizing x with
  | zero => exact fun m c node s _ _ h => absurd h (by simp [Index.build])
  | succ n ih =>
    have hnested : ∀ {x : ResolutionContext}, x.Sound i.code →
        i.Nests x (fun m c node c' => Q x m c node c' ∧ P x m c node c') (i.build g n) :=
      fun hx => (known n hx).and (ih hx)
    have hstep := nests_succ (R := fun x m c node c' => Q x m c node c' → P x m c node c')
      (fun hx hm hfound _ => hit hx hm hfound) miss hnested hx
    exact fun m c node s hm hf h =>
      have hknown := known (n + 1) hx m c node s hm hf h
      ⟨hknown.1, hknown.2.1, (hstep m c node s hm hf h).2.2 hknown.2.2⟩

end Index

/-! ## Requests -/

/-- A new session answers nothing from its cache. -/
theorem Session.hit?_start (i : Index) (g : GraphConfig) (text : String) :
    (Session.start i g).hit? text = none := by
  have hnone : ∀ key, (Session.start i g).cached? key = none := fun _ => rfl
  rw [hit?, hnone, Option.none_or, Option.bind_eq_none_iff]
  exact fun id _ => hnone id.canonical

/-- A declaration that a text means is one. -/
theorem Session.declared_of_declarationOf {s : Session} {text : String} {m : MethodRef}
    (hm : s.declarationOf text = .ok m) : s.index.code.Declared m := by
  simp only [declarationOf, bind, Except.bind] at hm
  split at hm
  · exact absurd hm (by simp)
  · split at hm
    · next k hk =>
      rw [← Except.ok.inj hm]
      exact Codebase.declared_of_findDeclaration? hk
    · exact absurd hm (by simp)

end JavaCallGraph
