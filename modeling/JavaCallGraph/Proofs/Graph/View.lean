import JavaCallGraph.Proofs.Graph.Runs
import JavaCallGraph.Proofs.Graph.Termination
import JavaCallGraph.Proofs.Graph.Walk
import Mathlib.Data.List.Nodup
import Mathlib.Data.List.Perm.Basic

/-!
# What the flat view loses

A graph can have two different nodes of one identity: the built node of a method, and a bare node
that stands for the method where it overrides another one while it is in flight.  The flat view
keeps the node that is met first.  If that is the bare one, the edges of the built one are lost, and
with them all methods that are reached only through these.

`GraphView.lossless_iff` shows that this is all that can go wrong: the view of an answer has every
method, every edge once and every overriding method if and only if every built node that has edges
is met before the bare nodes of its identity (`MethodInfo.MetBuilt`).  It rests on two facts about
the graphs that a new session answers with, `Cache.Settled`: there is only one built node of an
identity, because it is the one in the cache, and a bare node has no edges.
-/

set_option autoImplicit false

namespace JavaCallGraph

/-! ## The nodes of an answer -/

/-- A built node is the one that the cache has for its identity, and calls every identity once; a
bare node has no edges. -/
structure Cache.Settled (c : Cache) (b : MethodInfo) : Prop where
  cached : b.IsBuilt → c.find? b.key = some b
  nodup : (b.dependencies.map fun e => e.calleeId.canonical).Nodup
  bare : ¬b.IsBuilt → b.dependencies = [] ∧ b.overrides = []

/-- Every node in the cache is a built one under its own identity, with a settled graph. -/
def Cache.Regular (c : Cache) : Prop :=
  ∀ key node, c.find? key = some node →
    node.key = key ∧ node.IsBuilt ∧ node.Everywhere c.Settled

namespace Cache

theorem regular_empty : Cache.empty.Regular := fun _ _ h =>
  absurd h (by simp)

theorem lasting_settled : MethodInfo.Lasting Cache.Settled where
  mono hkept hb := ⟨fun hbuilt => hkept _ _ (hb.cached hbuilt), hb.nodup, hb.bare⟩
  reference _ id :=
    ⟨fun hbuilt => absurd hbuilt (MethodInfo.not_isBuilt_reference id), List.nodup_nil,
      fun _ => ⟨rfl, rfl⟩⟩

end Cache

namespace Index

variable {i : Index} {g : GraphConfig} {x : ResolutionContext} {m : MethodRef}

/-- A call of `build` keeps the cache regular and gives a settled graph with a built root. -/
def KeepsRegular (i : Index) (m : MethodRef) (c : Cache) (node : MethodInfo) (c' : Cache) : Prop :=
  c.Regular → c'.Regular ∧ node.key = (i.code.methodId m).canonical ∧ node.IsBuilt ∧
    node.Everywhere c'.Settled

/-- The callees of a run of edges are among its targets, in their order. -/
theorem sublist_of_edgesRun {caller : TypeInfo} {ts : List CallTarget} {c c' : Cache}
    {es : List Calling} (hl : ∀ t ∈ ts, i.code.Lands t) (hc : c.Regular)
    (hrun : i.EdgesRun g x i.KeepsRegular caller ts c es c') :
    (es.map fun e => e.calleeId.canonical).Sublist (ts.map CallTarget.key) := by
  induction hrun with
  | nil c => exact .slnil
  | @cons t ts e es c c' c'' hstep hrun ih =>
    have hfirst : c'.Regular ∧ e.calleeId.canonical = t.key := by
      cases hstep with
      | recursive hin => exact ⟨hc, rfl⟩
      | @expanded m callee _ hin hm hn =>
        obtain ⟨hc', hkey, -, -⟩ := hn.holds hc
        obtain ⟨-, hid, -⟩ :=
          (hl t List.mem_cons_self).declared m (Option.mem_filter_iff.mp hm).1
        refine ⟨hc', ?_⟩
        rw [CallTarget.key, hid, ← hkey]
        rfl
      | reference hin hm => exact ⟨hc, rfl⟩
    have hrest := ih (fun u hu => hl u (List.mem_cons_of_mem _ hu)) hfirst.1
    split
    · rw [List.map_cons, List.map_cons, hfirst.2]
      exact hrest.cons_cons _
    · exact hrest.cons _

/-- **The traversal keeps a cache regular**, and gives a settled graph. -/
theorem build_regular (n : Nat) (hx : x.Sound i.code) :
    i.Nests x i.KeepsRegular (i.build g n) := by
  refine build_induction (P := fun _ => i.KeepsRegular) ?_ ?_ n hx
  · intro x m c node _ _ hfound hc
    exact ⟨hc, hc _ node hfound⟩
  · intro x m c edges c₁ nodes c₂ hmiss hc
    have hsub := sublist_of_edgesRun
      (fun t ht => Codebase.lands_of_mem_targets hmiss.declared ht) hc hmiss.calls
    obtain ⟨hc₂, hchildren⟩ := hmiss.everywhere Cache.lasting_settled (fun hn ha => by
      obtain ⟨hb, -, -, hall⟩ := hn.holds ha
      exact ⟨hb, hall⟩) hc
    have hself := Cache.find?_insertNew_self (i.nodeOf m edges nodes) hmiss.missing_still
    have hkept := Cache.kept_insertNew c₂ (i.code.methodId m).canonical (i.nodeOf m edges nodes)
    have hall : (i.nodeOf m edges nodes).Everywhere
        (c₂.insertNew (i.code.methodId m).canonical (i.nodeOf m edges nodes)).Settled := by
      refine .of_children ⟨fun _ => hself, ?_, fun hb => absurd rfl hb⟩ fun k hk => ?_
      · exact hsub.nodup (i.code.nodup_targets g m)
      · exact (hchildren k hk).imp fun _ => Cache.lasting_settled.mono hkept
    refine ⟨fun key v hv => ?_, rfl, rfl, hall⟩
    rcases Cache.find?_insertNew_eq_some hv with ⟨rfl, rfl⟩ | hv
    · exact ⟨rfl, rfl, hall⟩
    · obtain ⟨hkey, hbuilt, hv'⟩ := hc₂ key v hv
      exact ⟨hkey, hbuilt, hv'.imp fun _ => Cache.lasting_settled.mono hkept⟩

end Index

/-- **The answer of a new session is settled.** -/
theorem Session.exists_settled {i : Index} {g : GraphConfig} {text : String} {root : MethodInfo}
    {s : Session} (hres : (Session.start i g).resolve text = (.ok root, s)) :
    ∃ c : Cache, root.Everywhere c.Settled := by
  obtain ⟨m, node, c, hm, hbuild, hroot⟩ := exists_build_of_resolve_start hres
  obtain ⟨-, -, hkeeps⟩ :=
    Index.build_regular _ (.empty _) m .empty node _ (declared_of_declarationOf hm) rfl hbuild
  obtain ⟨hc, -, -, hall⟩ := hkeeps Cache.regular_empty
  refine ⟨c, ?_⟩
  rw [hroot]
  exact Cache.findOr_of_forall hall fun v hv => (hc text v hv).2.2

/-! ## Losing nothing -/

/-- The node has an edge to a called or an overriding method. -/
def MethodInfo.HasEdges (b : MethodInfo) : Prop := b.dependencies ≠ [] ∨ b.overrides ≠ []

/-- **Every built node with edges is met before the bare nodes of its identity**: breadth-first, the
first node of its identity is a built one. -/
def MethodInfo.MetBuilt (root : MethodInfo) : Prop :=
  ∀ b : MethodInfo, b.Occurs root → b.IsBuilt → b.HasEdges →
    ∃ f, root.levelOrder.find? (fun n => n.key == b.key) = some f ∧ f.IsBuilt

/-- **The view loses nothing of a graph**: every node is listed, every edge of a built node is
listed once, and so are its overriding methods. -/
structure GraphView.Lossless (v : GraphView) (root : MethodInfo) : Prop where
  methods : ∀ b : MethodInfo, b.Occurs root → b.key ∈ v.methods.map MethodView.id
  edges : ∀ b : MethodInfo, b.Occurs root → b.IsBuilt → ∀ e ∈ b.dependencies,
    (v.callings ++ v.recursions).count (GraphView.edgeView b e) = 1
  overrides : ∀ b : MethodInfo, b.Occurs root → b.IsBuilt → ∀ o ∈ b.overrides,
    ∃ os, (b.key, os) ∈ v.overrides ∧ o.key ∈ os

namespace MethodInfo

variable {root b : MethodInfo} {c : Cache}

theorem hasEdges_of_mem_children {k : MethodInfo} (hk : k ∈ b.children) : b.HasEdges := by
  rcases mem_children.mp hk with ⟨e, he, -⟩ | hk
  · exact Or.inl (List.ne_nil_of_mem he)
  · exact Or.inr (List.ne_nil_of_mem hk)

/-- It can be read off the walk that every built node is met before the bare ones. -/
theorem metBuilt_of_all (h : (root.levelOrder.all fun b => !b.declaration.isSome ||
    (root.levelOrder.find? fun n => n.key == b.key).any fun f => f.declaration.isSome) = true) :
    root.MetBuilt := by
  intro b hb hbuilt _
  have hb' := List.all_eq_true.mp h b (mem_levelOrder.mpr hb)
  rw [hbuilt, Bool.not_true, Bool.false_or, Option.any_eq_true] at hb'
  exact hb'

/-- There is only one built node of an identity, and a bare node has no edges. -/
structure Coherent (root : MethodInfo) : Prop where
  unique : ∀ b b' : MethodInfo, b.Occurs root → b.IsBuilt → b'.Occurs root → b'.IsBuilt →
    b.key = b'.key → b = b'
  bare : ∀ b : MethodInfo, b.Occurs root → ¬b.IsBuilt → b.dependencies = [] ∧ b.overrides = []

theorem coherent_of_settled (hs : root.Everywhere c.Settled) : root.Coherent where
  unique b b' hb hbuilt hb' hbuilt' hkey := by
    have hfound := (hs b hb).cached hbuilt
    rw [hkey, (hs b' hb').cached hbuilt'] at hfound
    exact (Option.some.inj hfound).symm
  bare b hb := (hs b hb).bare

section Coherent

variable (hs : root.Coherent)

include hs

theorem isBuilt_of_hasEdges (hb : b.Occurs root) (he : b.HasEdges) : b.IsBuilt := by
  by_contra hbare
  obtain ⟨hdeps, hovers⟩ := hs.bare b hb hbare
  exact he.elim (fun h => h hdeps) (fun h => h hovers)

/-- The view keeps the first node of every identity, if it keeps no other node of the identity of a
built node with edges. -/
theorem expanded_eq_of_coherent
    (h : ∀ f ∈ root.expanded, f ∈ Layers.fresh key [] root.levelOrder →
      ∀ b : MethodInfo, b.Occurs root → b.IsBuilt → b.HasEdges → b.key = f.key → b = f) :
    root.expanded = Layers.fresh key [] root.levelOrder := by
  refine expanded_eq fun f hf hf' n hn b hb hkey k hk => ?_
  rw [List.mem_singleton.mp hn] at hb
  have he := hasEdges_of_mem_children hk
  rw [← h f hf hf' b hb (isBuilt_of_hasEdges hs hb he) he hkey]
  exact List.mem_map_of_mem hk

/-- A built node with edges that is met first is kept. -/
theorem expanded_eq_of_metBuilt (h : root.MetBuilt) :
    root.expanded = Layers.fresh key [] root.levelOrder := by
  refine expanded_eq_of_coherent hs fun f _ hf b hb hbuilt he hkey => ?_
  obtain ⟨f', hfind, hbuilt'⟩ := h b hb hbuilt he
  rw [hkey, (Layers.mem_fresh_iff.mp hf).2] at hfind
  rw [← Option.some.inj hfind] at hbuilt'
  have hocc := mem_levelOrder.mp (Layers.mem_of_mem_fresh hf)
  exact hs.unique b f hb hbuilt hocc hbuilt' hkey

theorem mem_expanded_of_metBuilt (h : root.MetBuilt) (hb : b.Occurs root) (hbuilt : b.IsBuilt)
    (he : b.HasEdges) : b ∈ root.expanded := by
  obtain ⟨f, hfind, hbuilt'⟩ := h b hb hbuilt he
  have hkey : f.key = b.key := by simpa using List.find?_some hfind
  have hocc := mem_levelOrder.mp (List.mem_of_find?_eq_some hfind)
  rw [expanded_eq_of_metBuilt hs h, Layers.mem_fresh_iff, hfind,
    hs.unique f b hocc hbuilt' hb hbuilt hkey]
  exact ⟨List.not_mem_nil, rfl⟩

end Coherent

end MethodInfo

namespace GraphView

variable {root : MethodInfo} {c : Cache} (code : Codebase)

/-- All edges of the nodes that the view keeps, node by node. -/
theorem callings_recursions_perm (root : MethodInfo) :
    List.Perm ((ofRoot code root).callings ++ (ofRoot code root).recursions)
      (root.expanded.flatMap fun n => n.dependencies.map (edgeView n)) := by
  refine (List.flatMap_append_perm root.expanded callingsOf recursionsOf).trans ?_
  refine List.Perm.flatMap_left _ fun n _ => ?_
  have hperm := List.filter_append_perm (fun e => !Calling.isRecursive e) n.dependencies
  simp only [Bool.not_not] at hperm
  rw [callingsOf, recursionsOf, ← List.map_append]
  exact hperm.map _

/-- No edge is listed twice. -/
theorem nodup_edges (hs : root.Everywhere c.Settled) :
    (root.expanded.flatMap fun n => n.dependencies.map (edgeView n)).Nodup := by
  refine List.nodup_flatMap.mpr ⟨fun n hn => ?_, ?_⟩
  · have hnodup := (hs n (root.expanded_spec.2 n hn)).nodup
    refine List.Nodup.of_map EdgeView.target ?_
    rw [List.map_map]
    exact hnodup
  · have hkeys := List.pairwise_map.mp root.expanded_spec.1
    refine hkeys.imp fun {n n'} hne v hv hv' => hne ?_
    obtain ⟨e, -, rfl⟩ := List.mem_map.mp hv
    obtain ⟨e', -, he'⟩ := List.mem_map.mp hv'
    exact congrArg EdgeView.source he'.symm

/-- Every node is listed. -/
theorem mem_methods_of_metBuilt (hs : root.Coherent) (h : root.MetBuilt) {b : MethodInfo}
    (hb : b.Occurs root) : b.key ∈ (ofRoot code root).methods.map MethodView.id := by
  have hsome : (root.levelOrder.find? fun n => n.key == b.key).isSome := by
    rw [List.find?_isSome]
    exact ⟨b, MethodInfo.mem_levelOrder.mpr hb, beq_self_eq_true b.key⟩
  obtain ⟨f, hfind⟩ := Option.isSome_iff_exists.mp hsome
  have hkey : f.key = b.key := by simpa using List.find?_some hfind
  have hf : f ∈ root.expanded := by
    rw [MethodInfo.expanded_eq_of_metBuilt hs h, Layers.mem_fresh_iff, hkey]
    exact ⟨List.not_mem_nil, hfind⟩
  rw [← hkey, ofRoot, List.map_map]
  exact List.mem_map.mpr ⟨f, hf, rfl⟩

theorem lossless_of_metBuilt (hs : root.Everywhere c.Settled) (h : root.MetBuilt) :
    (ofRoot code root).Lossless root where
  methods b hb := mem_methods_of_metBuilt code (MethodInfo.coherent_of_settled hs) h hb
  edges b hb hbuilt e he := by
    have hmem := MethodInfo.mem_expanded_of_metBuilt (MethodInfo.coherent_of_settled hs) h hb hbuilt
      (Or.inl (List.ne_nil_of_mem he))
    rw [(callings_recursions_perm code root).count_eq]
    refine List.count_eq_one_of_mem (nodup_edges hs) ?_
    exact List.mem_flatMap.mpr ⟨b, hmem, List.mem_map_of_mem he⟩
  overrides b hb hbuilt o ho := by
    have hmem := MethodInfo.mem_expanded_of_metBuilt (MethodInfo.coherent_of_settled hs) h hb hbuilt
      (Or.inr (List.ne_nil_of_mem ho))
    refine ⟨b.overrides.map MethodInfo.key, ?_, List.mem_map_of_mem ho⟩
    refine List.mem_filterMap.mpr ⟨b, hmem, ?_⟩
    rw [overridesOf, if_neg]
    simpa using List.ne_nil_of_mem ho

/-- What a view that loses nothing shows of a built node with edges must come from this node. -/
theorem mem_expanded_of_lossless (hs : root.Coherent)
    (h : (ofRoot code root).Lossless root) {b : MethodInfo} (hb : b.Occurs root)
    (hbuilt : b.IsBuilt) (he : b.HasEdges) : b ∈ root.expanded := by
  have hkept : ∃ f ∈ root.expanded, f.key = b.key ∧ f.HasEdges := by
    rcases he with he | he
    · obtain ⟨e, he⟩ := List.exists_mem_of_ne_nil _ he
      have hcount := h.edges b hb hbuilt e he
      rw [(callings_recursions_perm code root).count_eq] at hcount
      have hmem :
          edgeView b e ∈ root.expanded.flatMap fun n => n.dependencies.map (edgeView n) := by
        rw [← List.count_pos_iff, hcount]
        exact Nat.one_pos
      obtain ⟨f, hf, hfe⟩ := List.mem_flatMap.mp hmem
      obtain ⟨e', he', heq⟩ := List.mem_map.mp hfe
      exact ⟨f, hf, congrArg EdgeView.source heq, Or.inl (List.ne_nil_of_mem he')⟩
    · obtain ⟨o, ho⟩ := List.exists_mem_of_ne_nil _ he
      obtain ⟨os, hos, -⟩ := h.overrides b hb hbuilt o ho
      obtain ⟨f, hf, hfos⟩ := List.mem_filterMap.mp hos
      rw [overridesOf] at hfos
      split at hfos
      · exact absurd hfos (by simp)
      · next hne =>
        refine ⟨f, hf, (Prod.mk.inj (Option.some.inj hfos)).1, Or.inr fun hnil => hne ?_⟩
        rw [hnil, List.isEmpty_nil]
  obtain ⟨f, hf, hkey, hedges⟩ := hkept
  have hocc := root.expanded_spec.2 f hf
  have hfbuilt := MethodInfo.isBuilt_of_hasEdges hs hocc hedges
  rw [hs.unique b f hb hbuilt hocc hfbuilt hkey.symm]
  exact hf

theorem metBuilt_of_lossless (hs : root.Everywhere c.Settled)
    (h : (ofRoot code root).Lossless root) : root.MetBuilt := by
  have hone := MethodInfo.coherent_of_settled hs
  have hexpanded : root.expanded = Layers.fresh MethodInfo.key [] root.levelOrder := by
    refine MethodInfo.expanded_eq_of_coherent hone fun f hf _ b hb hbuilt he hkey => ?_
    exact List.inj_on_of_nodup_map root.expanded_spec.1
      (mem_expanded_of_lossless code hone h hb hbuilt he) hf hkey
  intro b hb hbuilt he
  have hmem := mem_expanded_of_lossless code hone h hb hbuilt he
  rw [hexpanded, Layers.mem_fresh_iff] at hmem
  exact ⟨b, hmem.2, hbuilt⟩

/-- **When the flat view loses nothing.**  The view of an answer of a new session has every method,
every edge of a built node once and all overriding methods exactly if every built node with edges is
met before the bare nodes of its identity. -/
theorem lossless_iff {i : Index} {g : GraphConfig} {text : String} {s : Session}
    (hres : (Session.start i g).resolve text = (.ok root, s)) :
    (ofRoot i.code root).Lossless root ↔ root.MetBuilt := by
  obtain ⟨c, hs⟩ := Session.exists_settled hres
  exact ⟨metBuilt_of_lossless i.code hs, lossless_of_metBuilt i.code hs⟩

/-- The graph of `Sub.foo` has a bare node of `Sub.foo` too, as the method that overrides
`Base.foo`; but the root is met before it. -/
theorem lossless_iff_sample :
    ∃ root s, Sample.start.resolve "Sub#foo()" = (.ok root, s) ∧
      (root.levelOrder.filter fun n => n.key == root.key).map MethodInfo.declaration =
        [some ⟨⟨1⟩, 0⟩, none, none] ∧
      (ofRoot Sample.code root).Lossless root := by
  have hm : Sample.start.declarationOf "Sub#foo()" = .ok ⟨⟨1⟩, 0⟩ := by decide +kernel
  obtain ⟨node, cache, -, hres⟩ := Session.resolve_start_of_declarationOf hm
  have hwalk : (Sample.start.resolve "Sub#foo()").1.toOption.map (fun root =>
      ((root.levelOrder.filter fun n => n.key == root.key).map MethodInfo.declaration,
        root.levelOrder.all fun b => !b.declaration.isSome ||
          (root.levelOrder.find? fun n => n.key == b.key).any fun f => f.declaration.isSome)) =
      some ([some ⟨⟨1⟩, 0⟩, none, none], true) := by decide +kernel
  rw [Sample.start, hres] at hwalk
  obtain ⟨htwins, hfirst⟩ := Prod.mk.inj (Option.some.inj hwalk)
  refine ⟨_, _, hres, htwins, (lossless_iff hres).mpr fun b hb hbuilt _ => ?_⟩
  have hb' := List.all_eq_true.mp hfirst b (MethodInfo.mem_levelOrder.mpr hb)
  rw [hbuilt, Bool.not_true, Bool.false_or, Option.any_eq_true] at hb'
  exact hb'

/-- **The flat view can lose a method.**  In the graph of `Sub.root` the bare node of `Sub.foo` is
met before the built one, and the call of `Sub.leaf` is lost with `Sub.leaf` itself. -/
theorem not_lossless_sample :
    ∃ root s, Sample.start.resolve "Sub#root()" = (.ok root, s) ∧
      ¬(ofRoot Sample.code root).Lossless root := by
  have hm : Sample.start.declarationOf "Sub#root()" = .ok ⟨⟨1⟩, 4⟩ := by decide +kernel
  obtain ⟨node, cache, -, hres⟩ := Session.resolve_start_of_declarationOf hm
  have hlost : (Sample.start.resolve "Sub#root()").1.toOption.map (fun root =>
      (root.levelOrder.any fun b => b.key == "Sub#leaf()",
        ((ofRoot Sample.code root).methods.map MethodView.id).contains "Sub#leaf()")) =
      some (true, false) := by decide +kernel
  rw [Sample.start, hres] at hlost
  obtain ⟨hoccurs, hmissing⟩ := Prod.mk.inj (Option.some.inj hlost)
  refine ⟨_, _, hres, fun hlossless => ?_⟩
  obtain ⟨b, hb, hkey⟩ := List.any_eq_true.mp hoccurs
  have hlisted := hlossless.methods b (MethodInfo.mem_levelOrder.mp hb)
  rw [beq_iff_eq.mp hkey, ← List.contains_iff_mem, hmissing] at hlisted
  exact absurd hlisted (by decide)

end GraphView

end JavaCallGraph
