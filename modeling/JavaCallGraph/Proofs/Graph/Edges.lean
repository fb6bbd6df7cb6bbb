import JavaCallGraph.Command.Run
import JavaCallGraph.Proofs.Graph.Runs
import JavaCallGraph.Proofs.Graph.Termination
import JavaCallGraph.Proofs.Graph.Unambiguous
import Mathlib.Data.List.Forall2

/-!
# The edges of a method are its own

The edges of a node could depend on how the method was reached: on what was in flight then, on what
the cache held, on the texts of earlier requests.  In an unambiguous code base they do not.

`Index.Accurate` says of a node that its edges are what the body and the hierarchy say, target by
target; the only thing left open is whether an edge leads to a built node or merely names its
callee.  A cache is *faithful* if all nodes in it are accurate and the written identity of a method
is only ever the key of a node of that method.  The second part is what makes a hit as good as a new
node, and it is at stake when a node is kept under the requested text, which may be any text that
means the method.

* `Index.build_faithful` — the traversal keeps a cache faithful;
* `Session.resolve_faithful` — so does a request;
* `Session.edges_eq` — so all nodes in the answers to a sequence of requests are accurate.
-/

set_option autoImplicit false

namespace JavaCallGraph

namespace Index

theorem exists_of_mem_forall₂ {α β : Type} {R : α → β → Prop} {as : List α} {bs : List β}
    (h : List.Forall₂ R as bs) {b : β} (hb : b ∈ bs) : ∃ a ∈ as, R a b := by
  induction h with
  | nil => exact absurd hb List.not_mem_nil
  | cons hab _ ih =>
    rcases List.mem_cons.mp hb with rfl | hb
    · exact ⟨_, List.mem_cons_self, hab⟩
    · obtain ⟨a, ha, hab⟩ := ih hb
      exact ⟨a, List.mem_cons_of_mem _ ha, hab⟩

/-! ## Accurate nodes -/

/-- The edge says of a target what is true; if its callee is built, then for the declaration that is
to be expanded. -/
structure Draws (i : Index) (g : GraphConfig) (caller : TypeInfo) (t : CallTarget) (e : Calling) :
    Prop where
  calleeId : e.calleeId = t.id
  relation : e.relation = i.targetRelation caller t
  callee : ∀ k ∈ e.callee?, ∀ m ∈ k.declaration, expandable? g t = some m

/-- The node has the identity of a method; if it is built, then for that method. -/
structure StandsFor (i : Index) (m : MethodRef) (b : MethodInfo) : Prop where
  id : b.id = i.code.methodId m
  declaration : ∀ k ∈ b.declaration, k = m

/-- The node has the edges of a method: one for every target that the configuration keeps, and one
for every overriding method. -/
structure Describes (i : Index) (g : GraphConfig) (m : MethodRef) (b : MethodInfo) : Prop where
  declared : i.code.Declared m
  id : b.id = i.code.methodId m
  edges : ∃ es, List.Forall₂ (i.Draws g (i.code.sourceType m.owner)) (i.code.targets g m) es ∧
    b.dependencies = es.filter g.callingFilter
  overrides : List.Forall₂ i.StandsFor (i.overriding g m) b.overrides

/-- A built node has the edges of its method, a bare one has none. -/
structure Accurate (i : Index) (g : GraphConfig) (b : MethodInfo) : Prop where
  built : ∀ m ∈ b.declaration, i.Describes g m b
  bare : b.declaration = none → b.children = []

theorem lasting_accurate (i : Index) (g : GraphConfig) :
    MethodInfo.Lasting fun _ => i.Accurate g where
  mono _ hb := hb
  reference _ _ :=
    ⟨fun _ hm => absurd hm (by simp [MethodInfo.declaration_reference]), fun _ => rfl⟩

/-- **A cache from which a hit is as good as a new node.** -/
structure Faithful (i : Index) (g : GraphConfig) (c : Cache) : Prop where
  own : ∀ m node, i.code.Declared m → c.find? (i.code.methodId m).canonical = some node →
    node.declaration = some m
  accurate : ∀ key node, c.find? key = some node → node.Everywhere (i.Accurate g)

theorem Faithful.empty (i : Index) (g : GraphConfig) : i.Faithful g .empty where
  own m node _ h := absurd h (by simp)
  accurate key node h := absurd h (by simp)

variable {i : Index} {g : GraphConfig} {x : ResolutionContext} {m : MethodRef}

/-- A node can be added under a key, unless the key is the written identity of another method. -/
theorem Faithful.insertNew {c : Cache} (hc : i.Faithful g c) {key : String} {node : MethodInfo}
    (hn : node.Everywhere (i.Accurate g))
    (hkey : ∀ k, i.code.Declared k → (i.code.methodId k).canonical = key →
      node.declaration = some k) : i.Faithful g (c.insertNew key node) where
  own k v hk hv := by
    rcases Cache.find?_insertNew_eq_some hv with ⟨he, rfl⟩ | hv
    · exact hkey k hk he
    · exact hc.own k v hk hv
  accurate other v hv := by
    rcases Cache.find?_insertNew_eq_some hv with ⟨-, rfl⟩ | hv
    · exact hn
    · exact hc.accurate other v hv

/-! ## The traversal -/

/-- A call of `build` for `m` gives an accurate node of `m` and keeps the cache faithful. -/
def KeepsFaithful (i : Index) (g : GraphConfig) (m : MethodRef) (c : Cache) (node : MethodInfo)
    (c' : Cache) : Prop :=
  i.Faithful g c →
    i.Faithful g c' ∧ node.declaration = some m ∧ node.Everywhere (i.Accurate g)

theorem draws_of_edgeStep (h : i.code.Unambiguous) (hx : x.Sound i.code) (hm : i.code.Declared m)
    {t : CallTarget} (ht : t ∈ i.code.targets g m) {c c' : Cache} {e : Calling}
    (hc : i.Faithful g c)
    (hstep : i.EdgeStep g x (i.KeepsFaithful g) (i.code.sourceType m.owner) t c e c') :
    i.Faithful g c' ∧ i.Draws g (i.code.sourceType m.owner) t e := by
  cases hstep with
  | recursive hin =>
    -- what is in flight is declared, so the target is classified by its declaration
    obtain ⟨k, hk, he⟩ :=
      hx.exists_of_mem_inFlight (ResolutionContext.isInFlight_iff.mp hin)
    have hd := h.declaration_of_key_eq hm (Codebase.mem_landings_of_mem_targets ht) hk he
    refine ⟨hc, ⟨rfl, ?_, nofun⟩⟩
    rw [targetRelation, hd]
    rfl
  | @expanded k callee _ hin hk hn =>
    obtain ⟨hc', hd, hall⟩ := hn.holds hc
    have hid := (hall.here.built k hd).id
    have hlands := Codebase.lands_of_mem_targets hm ht
    have htid := (hlands.declared k (Option.mem_filter_iff.mp hk).1).2.1
    refine ⟨hc', ⟨hid.trans htid.symm, rfl, ?_⟩⟩
    intro b hb k' hk'
    rw [← Option.some.inj hb, hd] at hk'
    rw [hk, Option.some.inj hk']
  | reference hin hk =>
    refine ⟨hc, ⟨rfl, rfl, ?_⟩⟩
    intro b hb k' hk'
    rw [← Option.some.inj hb] at hk'
    exact absurd hk' (by simp [MethodInfo.declaration_reference])

theorem draws_of_edgesRun (h : i.code.Unambiguous) (hx : x.Sound i.code) (hm : i.code.Declared m)
    {ts : List CallTarget} (hts : ∀ t ∈ ts, t ∈ i.code.targets g m) {c c' : Cache}
    {es : List Calling} (hc : i.Faithful g c)
    (hrun : i.EdgesRun g x (i.KeepsFaithful g) (i.code.sourceType m.owner) ts c es c') :
    i.Faithful g c' ∧
      ∃ all, List.Forall₂ (i.Draws g (i.code.sourceType m.owner)) ts all ∧
        es = all.filter g.callingFilter := by
  induction hrun with
  | nil c => exact ⟨hc, [], .nil, rfl⟩
  | @cons t ts e es c c' c'' hstep _ ih =>
    obtain ⟨hc', hdraws⟩ := draws_of_edgeStep h hx hm (hts t List.mem_cons_self) hc hstep
    obtain ⟨hc'', all, hrest, rfl⟩ := ih (fun u hu => hts u (List.mem_cons_of_mem _ hu)) hc'
    refine ⟨hc'', e :: all, .cons hdraws hrest, ?_⟩
    rw [List.filter_cons]

theorem standsFor_of_overridesRun {ms : List MethodRef} {c c' : Cache} {nodes : List MethodInfo}
    (hc : i.Faithful g c) (hrun : i.OverridesRun x (i.KeepsFaithful g) ms c nodes c') :
    List.Forall₂ i.StandsFor ms nodes := by
  induction hrun with
  | nil c => exact .nil
  | @cons k ms node nodes c c' c'' hstep _ ih =>
    have hfirst : i.Faithful g c' ∧ i.StandsFor k node := by
      cases hstep with
      | recursive hin =>
        refine ⟨hc, ⟨rfl, fun k' hk' => ?_⟩⟩
        exact absurd hk' (by simp [MethodInfo.declaration_reference])
      | expanded hn =>
        obtain ⟨hc', hd, hall⟩ := hn.holds hc
        refine ⟨hc', ⟨(hall.here.built k hd).id, fun k' hk' => ?_⟩⟩
        rw [hd] at hk'
        exact (Option.some.inj hk').symm
    exact .cons hfirst.2 (ih hfirst.1)

/-- **The traversal keeps a cache faithful**, and gives an accurate node. -/
theorem build_faithful (h : i.code.Unambiguous) (n : Nat) (hx : x.Sound i.code) :
    i.Nests x (i.KeepsFaithful g) (i.build g n) := by
  refine build_induction (P := fun _ => i.KeepsFaithful g) ?_ ?_ n hx
  · intro x m c node _ hm hfound hc
    exact ⟨hc, hc.own m node hm hfound, hc.accurate _ node hfound⟩
  · intro x m c edges c₁ nodes c₂ hmiss hc
    have hx' := hmiss.sound.enter hmiss.declared hmiss.fresh
    obtain ⟨hc₁, all, hdraws, hedges⟩ :=
      draws_of_edgesRun h hx' hmiss.declared (fun t ht => ht) hc hmiss.calls
    have hstands := standsFor_of_overridesRun hc₁ hmiss.overrides
    obtain ⟨hc₂, hchildren⟩ := hmiss.everywhere (lasting_accurate i g) (fun hn ha => by
      obtain ⟨hb, -, hall⟩ := hn.holds ha
      exact ⟨hb, hall⟩) hc
    have haccurate : i.Accurate g (i.nodeOf m edges nodes) := by
      refine ⟨fun k hk => ?_, fun hnone => absurd hnone (by simp [nodeOf, MethodInfo.declaration])⟩
      rw [← Option.some.inj hk]
      exact ⟨hmiss.declared, rfl, ⟨all, hdraws, hedges⟩, hstands⟩
    have hall : (i.nodeOf m edges nodes).Everywhere (i.Accurate g) :=
      .of_children haccurate hchildren
    refine ⟨hc₂.insertNew hall fun k hk he => ?_, rfl, hall⟩
    rw [h.eq_of_canonical_eq hk hmiss.declared he]
    rfl

end Index

/-! ## Requests -/

namespace Index

variable {i : Index} {g : GraphConfig}

theorem map_of_draws {caller : TypeInfo} {ts : List CallTarget} {es : List Calling}
    (h : List.Forall₂ (i.Draws g caller) ts es) :
    ts.map (fun t => (t.id, i.targetRelation caller t)) =
      es.map fun e => (e.calleeId, e.relation) := by
  induction h with
  | nil => rfl
  | cons hdraws _ ih => rw [List.map_cons, List.map_cons, ih, hdraws.calleeId, hdraws.relation]

theorem map_of_standsFor {ms : List MethodRef} {nodes : List MethodInfo}
    (h : List.Forall₂ i.StandsFor ms nodes) : nodes.map MethodInfo.id = ms.map i.code.methodId := by
  induction h with
  | nil => rfl
  | cons hstands _ ih => rw [List.map_cons, List.map_cons, ih, hstands.id]

end Index

namespace Session

variable {i : Index} {g : GraphConfig} {c : Cache}

/-- **A request keeps the cache faithful**, and its answer is accurate. -/
theorem resolve_faithful (h : i.code.Unambiguous) (hc : i.Faithful g c) (text : String) :
    ∃ c', ((Session.mk i g c).resolve text).2 = ⟨i, g, c'⟩ ∧ i.Faithful g c' ∧
      ∀ root, ((Session.mk i g c).resolve text).1 = .ok root → root.Everywhere (i.Accurate g) := by
  rcases resolve_cases ⟨i, g, c⟩ text with ⟨node, hhit, hres⟩ | ⟨e, hres⟩ | hbuilt
  · refine ⟨c, by rw [hres], hc, fun root hroot => ?_⟩
    rw [hres] at hroot
    rw [← Except.ok.inj hroot]
    rcases Option.or_eq_some_iff.mp hhit with hhit | ⟨-, hhit⟩
    · exact hc.accurate _ node hhit
    · obtain ⟨id, -, hid⟩ := Option.bind_eq_some_iff.mp hhit
      exact hc.accurate _ node hid
  · refine ⟨c, by rw [hres], hc, fun root hroot => ?_⟩
    rw [hres] at hroot
    exact absurd hroot (by simp)
  · obtain ⟨m, node, c', -, hm, hbuild, hres⟩ := hbuilt
    have hd := declared_of_declarationOf hm
    obtain ⟨-, -, hkeeps⟩ := Index.build_faithful h _ (.empty _) m c node _ hd rfl hbuild
    obtain ⟨hc', hnode, hall⟩ := hkeeps hc
    refine ⟨c'.insertNew text node, by rw [hres], hc'.insertNew hall fun k hk he => ?_, ?_⟩
    · -- a text that is the written identity of a method means that method
      have hk' := declarationOf_methodId (s := ⟨i, g, c⟩) h hk
      simp only [he] at hk'
      rw [hnode, Except.ok.inj (hm.symm.trans hk')]
    · intro root hroot
      rw [hres] at hroot
      rw [← Except.ok.inj hroot]
      exact Cache.findOr_of_forall hall (hc'.accurate text)

theorem accurate_of_mem_resolveAll (h : i.code.Unambiguous) (hc : i.Faithful g c)
    {texts : List String} {root : MethodInfo}
    (hroot : .ok root ∈ Command.resolveAll ⟨i, g, c⟩ texts) : root.Everywhere (i.Accurate g) := by
  induction texts generalizing c with
  | nil => exact absurd hroot List.not_mem_nil
  | cons text texts ih =>
    obtain ⟨c', hs, hc', hanswer⟩ := resolve_faithful h hc text
    rw [Command.resolveAll, hs] at hroot
    rcases List.mem_cons.mp hroot with hroot | hroot
    · exact hanswer root hroot.symm
    · exact ih hc' hroot

/-- In a new session the written identity of a method is answered with a node of that method. -/
theorem resolve_start_methodId (h : i.code.Unambiguous) {m : MethodRef} (hm : i.code.Declared m) :
    ∃ root s, (start i g).resolve (i.code.methodId m).canonical = (.ok root, s) ∧
      root.declaration = some m ∧ root.Everywhere (i.Accurate g) := by
  have hdecl : (start i g).declarationOf (i.code.methodId m).canonical = .ok m :=
    declarationOf_methodId (s := start i g) h hm
  obtain ⟨node, c', hbuild, hres⟩ := resolve_start_of_declarationOf hdecl
  obtain ⟨-, -, hkeeps⟩ := Index.build_faithful h _ (.empty _) m .empty node _ hm rfl hbuild
  obtain ⟨hc', hnode, hall⟩ := hkeeps (.empty i g)
  exact ⟨_, _, hres, Cache.findOr_of_forall hnode fun v hv => hc'.own m v hm hv,
    Cache.findOr_of_forall hall (hc'.accurate _)⟩

/-! ## The edges of a built node -/

/-- **The edges of a built node do not depend on how it was reached.**  Let the configuration look
at nothing but the relation of an edge.  Then in all answers to a sequence of requests a node for
`m` has the identity of `m`; its calls are the landings of the calls in the body of `m`, the first
of each identity, each with the relation of its target to the type of `m`, without those that the
configuration drops; and its overriding methods are those of the node that a new session gives. -/
theorem edges_eq (h : i.code.Unambiguous) (keep : Relation → Bool)
    (hkeep : ∀ e, g.callingFilter e = keep e.relation) {texts : List String} {root : MethodInfo}
    (hroot : .ok root ∈ Command.resolveAll (start i g) texts) {b : MethodInfo}
    (hb : b.Occurs root) {m : MethodRef} (hm : b.declaration = some m) :
    b.id = i.code.methodId m ∧
      b.dependencies.map (fun e => (e.calleeId, e.relation)) =
        ((((i.code.landings g m).eraseDupsBy fun s t => s.key == t.key).map fun t =>
          (t.id, i.targetRelation (i.code.sourceType m.owner) t)).filter fun p => keep p.2) ∧
      ∃ fresh s, (start i g).resolve (i.code.methodId m).canonical = (.ok fresh, s) ∧
        fresh.declaration = some m ∧
        b.overrides.map MethodInfo.id = fresh.overrides.map MethodInfo.id := by
  have hdesc := (accurate_of_mem_resolveAll h (.empty i g) hroot b hb).built m hm
  obtain ⟨fresh, s, hres, hfresh, hall⟩ := resolve_start_methodId (g := g) h hdesc.declared
  refine ⟨hdesc.id, ?_, fresh, s, hres, hfresh, ?_⟩
  · obtain ⟨es, hes, hdeps⟩ := hdesc.edges
    have hfilter : g.callingFilter = fun e => keep e.relation := funext hkeep
    rw [hdeps, hfilter, ← i.code.targets_eq, Index.map_of_draws hes, List.filter_map]
    rfl
  · have hdesc' := hall.here.built m hfresh
    rw [Index.map_of_standsFor hdesc.overrides, Index.map_of_standsFor hdesc'.overrides]

/-- In the code base with cycles `Sub.root` is first met below `Sub.foo`, while this is in flight,
and then asked for itself. -/
theorem edges_eq_sample : Sample.code.Unambiguous ∧
    ∃ root, .ok root ∈ Command.resolveAll Sample.start ["Sub#foo()", "Sub#root()"] ∧
      root.declaration = some ⟨⟨1⟩, 4⟩ ∧
      root.dependencies.map (fun e => (e.calleeId, e.relation)) =
        [(⟨"Sub", "a", []⟩, .self), (⟨"Base", "foo", []⟩, .super)] := by
  have hu : Sample.code.Unambiguous := by decide +kernel
  have hsecond : ((Command.resolveAll Sample.start ["Sub#foo()", "Sub#root()"])[1]?.bind
      Except.toOption).bind MethodInfo.declaration = some ⟨⟨1⟩, 4⟩ := by decide +kernel
  obtain ⟨root, hroot, hm⟩ := Option.bind_eq_some_iff.mp hsecond
  obtain ⟨answer, hanswer, hroot⟩ := Option.bind_eq_some_iff.mp hroot
  have hok : answer = .ok root := by
    cases answer with
    | error e => exact absurd hroot (by simp [Except.toOption])
    | ok n => rw [Option.some.inj hroot]
  rw [hok] at hanswer
  have hmem := List.mem_of_getElem? hanswer
  obtain ⟨-, hedges, -⟩ := edges_eq (i := .ofCodebase Sample.code) (g := .default) hu
    (fun _ => true) (fun _ => rfl) hmem .here hm
  refine ⟨hu, root, hmem, hm, hedges.trans ?_⟩
  decide +kernel

end Session

end JavaCallGraph
