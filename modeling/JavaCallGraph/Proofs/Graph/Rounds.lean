import JavaCallGraph.Proofs.Graph.Walk
import Mathlib.Data.List.Dedup
import Mathlib.Data.List.Perm.Subperm

/-!
# The flat view of every graph is well-formed

A graph may have many nodes of one identity, the root's among them, and they need not agree.  The view
is written in rounds: a round takes a node from the queue, lists it with its edges, and puts those of
its children into the queue whose identities were not visited before.

* `MethodInfo.Rounds` — the rounds, as a relation between where they stand and what they take out.
  They end, and in one way only (`MethodInfo.rounds_iff`).
* `MethodInfo.expandFrom_spec` (in the module on the walk) and `MethodInfo.key_mem_expandFrom` — what
  a round keeps: an identity is visited if it is listed or waiting, it waits only once, and what a
  listed node leads to is visited.
* `GraphView.WellFormed` — the main statement, proved of every graph.  Whether the view is also
  complete is another matter: a node that is not listed takes its edges with it.
-/

set_option autoImplicit false

namespace JavaCallGraph

namespace MethodInfo

variable {visited : List String} {queue nodes : List MethodInfo} {root m n : MethodInfo}

/-! ## The rounds -/

/-- **With the queue `queue`, and when the identities `visited` were visited, the rounds take out
`nodes` and end.** -/
inductive Rounds : List String → List MethodInfo → List MethodInfo → Prop where
  | done (visited : List String) : Rounds visited [] []
  | round {visited : List String} {m : MethodInfo} {queue nodes : List MethodInfo}
      (rest : Rounds ((Layers.fresh key visited m.children).map key ++ visited)
        (queue ++ Layers.fresh key visited m.children) nodes) :
      Rounds visited (m :: queue) (m :: nodes)

/-- **The rounds end, and in one way only.** -/
theorem rounds_iff : Rounds visited queue nodes ↔ nodes = expandFrom visited queue := by
  constructor
  · intro h
    induction h with
    | done visited => rw [expandFrom]
    | round rest ih => rw [expandFrom_cons, ih]
  · rintro rfl
    fun_induction expandFrom visited queue with
    | case1 visited => exact .done visited
    | case2 visited m queue new ih => exact .round ih

/-- Everything in the queue is taken out. -/
theorem mem_expandFrom (hn : n ∈ queue) : n ∈ expandFrom visited queue := by
  fun_induction expandFrom visited queue with
  | case1 => exact absurd hn List.not_mem_nil
  | case2 visited m queue new ih =>
    rcases List.mem_cons.mp hn with rfl | hn
    · exact List.mem_cons_self
    · exact List.mem_cons_of_mem _ (ih (List.mem_append_left _ hn))

/-- The children of a node that is taken out were visited before or are taken out. -/
theorem key_mem_expandFrom (hn : n ∈ expandFrom visited queue) (hm : m ∈ n.children) :
    m.key ∈ visited ∨ m.key ∈ (expandFrom visited queue).map key := by
  fun_induction expandFrom visited queue with
  | case1 => exact absurd hn List.not_mem_nil
  | case2 visited n' queue new ih =>
    have hnew : m.key ∈ new.map key → m.key ∈ (expandFrom (new.map key ++ visited)
        (queue ++ new)).map key := fun hmem => by
      obtain ⟨m', hm', hkey⟩ := List.mem_map.mp hmem
      exact List.mem_map.mpr ⟨m', mem_expandFrom (List.mem_append_right _ hm'), hkey⟩
    rw [List.map_cons, List.mem_cons]
    rcases List.mem_cons.mp hn with rfl | hn
    · exact (Layers.key_mem_of_mem hm).imp_right fun hmem => Or.inr (hnew hmem)
    · rcases ih hn with hvisited | hlisted
      · exact (List.mem_append.mp hvisited).symm.imp_right fun hmem => Or.inr (hnew hmem)
      · exact Or.inr (Or.inr hlisted)

theorem self_mem_expanded (root : MethodInfo) : root ∈ root.expanded :=
  mem_expandFrom List.mem_cons_self

/-- The children of a listed node have listed identities. -/
theorem key_mem_expanded (hn : n ∈ root.expanded) (hm : m ∈ n.children) :
    m.key ∈ root.expanded.map key := by
  rcases key_mem_expandFrom hn hm with hvisited | hlisted
  · rw [List.mem_singleton.mp hvisited]
    exact List.mem_map_of_mem (self_mem_expanded root)
  · exact hlisted

/-- There are no more rounds than there are identities in the graph. -/
theorem length_expanded_le (root : MethodInfo) :
    root.expanded.length ≤ (root.levelOrder.map key).dedup.length := by
  have hsubset : root.expanded.map key ⊆ (root.levelOrder.map key).dedup := fun k hk => by
    obtain ⟨n, hn, rfl⟩ := List.mem_map.mp hk
    exact List.mem_dedup.mpr (List.mem_map_of_mem (mem_levelOrder.mpr (root.expanded_spec.2 n hn)))
  have hle := (List.subperm_of_subset root.expanded_spec.1 hsubset).length_le
  rwa [List.length_map] at hle

end MethodInfo

/-! ## The view -/

namespace GraphView

/-- The identities of the listed methods. -/
def keys (v : GraphView) : List String := v.methods.map MethodView.id

/-- **The view `v` of the graph of `root` is well-formed**, and `nodes` are the nodes it is written
from. -/
structure WellFormed (code : Codebase) (v : GraphView) (root : MethodInfo)
    (nodes : List MethodInfo) : Prop where
  /-- The root is listed. -/
  rooted : v.root = root.key ∧ root.key ∈ v.keys
  /-- The edges in the graph lead from listed methods to listed methods. -/
  callings : ∀ e ∈ v.callings, e.source ∈ v.keys ∧ e.target ∈ v.keys
  /-- The edges that only name their target lead from listed methods. -/
  recursions : ∀ e ∈ v.recursions, e.source ∈ v.keys
  /-- The overridden and the overriding methods are listed. -/
  overrides : ∀ o ∈ v.overrides, o.1 ∈ v.keys ∧ ∀ k ∈ o.2, k ∈ v.keys
  /-- What is listed is in the graph. -/
  occurs : ∀ n ∈ nodes, n.Occurs root
  /-- Every method is listed for one of the nodes, under its identity, and no identity twice. -/
  methods : v.methods = nodes.map (methodView code) ∧ v.keys = nodes.map MethodInfo.key ∧
    v.keys.Nodup
  /-- The edges from a listed method are those of its node, in their order, … -/
  callings_of : ∀ n ∈ nodes, v.callings.filter (·.source == n.key) =
    n.dependencies.filterMap fun d => d.callee?.map fun m => ⟨n.key, m.key, d.relation⟩
  /-- … those that only name their target apart from the others. -/
  recursions_of : ∀ n ∈ nodes, v.recursions.filter (·.source == n.key) =
    (n.dependencies.filter Calling.isRecursive).map fun d =>
      ⟨n.key, d.calleeId.canonical, d.relation⟩
  /-- The methods overriding a listed one are those of its node; there is no entry without any. -/
  overrides_of : ∀ n ∈ nodes, v.overrides.filter (·.1 == n.key) =
    if n.overrides = [] then [] else [(n.key, n.overrides.map MethodInfo.key)]

/-- In a list that is put together key by key, the elements from one of the keys. -/
theorem filter_flatMap_of_nodup {α β : Type} {key : α → String} {source : β → String}
    {f : α → List β} (hsource : ∀ a, ∀ b ∈ f a, source b = key a) {as : List α}
    (hnodup : (as.map key).Nodup) {a : α} (ha : a ∈ as) :
    (as.flatMap f).filter (fun b => source b == key a) = f a := by
  induction as with
  | nil => exact absurd ha List.not_mem_nil
  | cons a' as ih =>
    rw [List.map_cons, List.nodup_cons] at hnodup
    rw [List.flatMap_cons, List.filter_append]
    rcases List.mem_cons.mp ha with rfl | ha
    · have hrest : (as.flatMap f).filter (fun b => source b == key a) = [] := by
        refine List.filter_eq_nil_iff.mpr fun b hb heq => hnodup.1 ?_
        obtain ⟨a', ha', hb⟩ := List.mem_flatMap.mp hb
        rw [← beq_iff_eq.mp heq, hsource a' b hb]
        exact List.mem_map_of_mem ha'
      rw [hrest, List.append_nil]
      exact List.filter_eq_self.mpr fun b hb => beq_iff_eq.mpr (hsource a b hb)
    · have hfirst : (f a').filter (fun b => source b == key a) = [] := by
        refine List.filter_eq_nil_iff.mpr fun b hb heq => hnodup.1 ?_
        rw [← hsource a' b hb, beq_iff_eq.mp heq]
        exact List.mem_map_of_mem ha
      rw [hfirst, List.nil_append, ih hnodup.2 ha]

variable {n : MethodInfo}

theorem callingsOf_eq (n : MethodInfo) :
    callingsOf n =
      n.dependencies.filterMap fun d => d.callee?.map fun m => ⟨n.key, m.key, d.relation⟩ := by
  rw [callingsOf]
  induction n.dependencies with
  | nil => rfl
  | cons d ds ih =>
    cases d with
    | method m r =>
      rw [List.filter_cons_of_pos rfl, List.map_cons, ih, List.filterMap_cons]
      rfl
    | recursiveAt id r =>
      rw [List.filter_cons_of_neg Bool.false_ne_true, ih, List.filterMap_cons]
      rfl

theorem source_of_mem_callingsOf {e : EdgeView} (he : e ∈ callingsOf n) : e.source = n.key := by
  obtain ⟨d, -, rfl⟩ := List.mem_map.mp he
  rfl

theorem source_of_mem_recursionsOf {e : EdgeView} (he : e ∈ recursionsOf n) :
    e.source = n.key := by
  obtain ⟨d, -, rfl⟩ := List.mem_map.mp he
  rfl

theorem exists_child_of_mem_callingsOf {e : EdgeView} (he : e ∈ callingsOf n) :
    ∃ m ∈ n.children, m.key = e.target := by
  rw [callingsOf_eq] at he
  obtain ⟨d, hd, he⟩ := List.mem_filterMap.mp he
  obtain ⟨m, hm, rfl⟩ := Option.map_eq_some_iff.mp he
  exact ⟨m, List.mem_append_left _ (List.mem_filterMap.mpr ⟨d, hd, hm⟩), rfl⟩

theorem fst_of_mem_overridesOf {o : String × List String} (ho : o ∈ (overridesOf n).toList) :
    o.1 = n.key := by
  rw [overridesOf] at ho
  split at ho
  · exact absurd ho List.not_mem_nil
  · rw [List.mem_singleton.mp ho]

theorem overridesOf_toList (n : MethodInfo) :
    (overridesOf n).toList =
      if n.overrides = [] then [] else [(n.key, n.overrides.map MethodInfo.key)] := by
  rw [overridesOf]
  cases n.overrides <;> rfl

theorem keys_ofRoot (code : Codebase) (root : MethodInfo) :
    (ofRoot code root).keys = root.expanded.map MethodInfo.key := by
  rw [keys, ofRoot, List.map_map]
  rfl

/-- **The flat view of every graph is well-formed.**  It is written in finitely many rounds, in one
way only, and there are at most as many as there are identities in the graph. -/
theorem wellFormed_ofRoot (code : Codebase) (root : MethodInfo) :
    ∃ nodes : List MethodInfo,
      (∀ ns, MethodInfo.Rounds [root.key] [root] ns ↔ ns = nodes) ∧
        nodes.length ≤ (root.levelOrder.map MethodInfo.key).dedup.length ∧
          WellFormed code (ofRoot code root) root nodes := by
  obtain ⟨hnodup, hoccurs⟩ := root.expanded_spec
  refine ⟨root.expanded, fun ns => MethodInfo.rounds_iff, root.length_expanded_le, ?_⟩
  have hlisted : ∀ n ∈ root.expanded, n.key ∈ (ofRoot code root).keys := fun n hn => by
    rw [keys_ofRoot]
    exact List.mem_map_of_mem hn
  have hchildren : ∀ n ∈ root.expanded, ∀ m ∈ n.children, m.key ∈ (ofRoot code root).keys :=
    fun n hn m hm => by
      rw [keys_ofRoot]
      exact MethodInfo.key_mem_expanded hn hm
  constructor
  case rooted => exact ⟨rfl, hlisted root root.self_mem_expanded⟩
  case callings =>
    intro e he
    obtain ⟨n, hn, he⟩ := List.mem_flatMap.mp he
    obtain ⟨m, hm, hkey⟩ := exists_child_of_mem_callingsOf he
    rw [source_of_mem_callingsOf he, ← hkey]
    exact ⟨hlisted n hn, hchildren n hn m hm⟩
  case recursions =>
    intro e he
    obtain ⟨n, hn, he⟩ := List.mem_flatMap.mp he
    rw [source_of_mem_recursionsOf he]
    exact hlisted n hn
  case overrides =>
    intro o ho
    obtain ⟨n, hn, ho⟩ := List.mem_filterMap.mp ho
    rw [overridesOf] at ho
    split at ho
    · exact absurd ho (by simp)
    · rw [← Option.some.inj ho]
      refine ⟨hlisted n hn, fun k hk => ?_⟩
      obtain ⟨m, hm, rfl⟩ := List.mem_map.mp hk
      exact hchildren n hn m (List.mem_append_right _ hm)
  case occurs => exact hoccurs
  case methods => exact ⟨rfl, keys_ofRoot code root, keys_ofRoot code root ▸ hnodup⟩
  case callings_of =>
    intro n hn
    rw [← callingsOf_eq]
    exact filter_flatMap_of_nodup (fun n e he => source_of_mem_callingsOf he) hnodup hn
  case recursions_of =>
    intro n hn
    exact filter_flatMap_of_nodup (fun n e he => source_of_mem_recursionsOf he) hnodup hn
  case overrides_of =>
    intro n hn
    have hlist : (ofRoot code root).overrides =
        root.expanded.flatMap fun n => (overridesOf n).toList := List.filterMap_eq_flatMap_toList ..
    rw [hlist, ← overridesOf_toList]
    exact filter_flatMap_of_nodup (fun n o ho => fst_of_mem_overridesOf ho) hnodup hn

end GraphView

end JavaCallGraph
