import JavaCallGraph.Graph.View
import JavaCallGraph.Proofs.Graph.Occurrence
import JavaCallGraph.Proofs.Layers
import Mathlib.Tactic.Common

/-!
# Walking a graph breadth-first

`MethodInfo.expanded` lists the nodes of a graph breadth-first and each identity once.  It does two
things at a time: it walks the graph, and it leaves nodes out.  A node that is left out takes with
it whatever is reached only through it, so the list cannot be understood without looking at the
walk.

Here the two are taken apart.  `MethodInfo.walk` is the plain walk; it meets every node as often as
it occurs.  `MethodInfo.expandFrom_eq` says when leaving nodes out does not disturb it: if no node
that is left out has children that the first node of its identity does not have.  Then the list has
of every identity the node that the plain walk meets first.
-/

set_option autoImplicit false

namespace JavaCallGraph

namespace MethodInfo

/-! ## The plain walk -/

/-- All nodes of some graphs in breadth-first order, each as often as it occurs. -/
def walk : List MethodInfo → List MethodInfo
  | [] => []
  | m :: queue => m :: walk (queue ++ m.children)
termination_by queue => totalSize queue
decreasing_by
  simp only [totalSize_append, totalSize_cons]
  have h := totalSize_children_lt m
  omega

/-- All nodes of a graph in breadth-first order. -/
def levelOrder (root : MethodInfo) : List MethodInfo := walk [root]

/-- The walk meets every node. -/
theorem mem_walk_of_occurs {queue : List MethodInfo} {n b : MethodInfo} (hn : n ∈ queue)
    (hb : b.Occurs n) : b ∈ walk queue := by
  fun_induction walk queue generalizing n with
  | case1 => exact absurd hn List.not_mem_nil
  | case2 m queue ih =>
    rcases List.mem_cons.mp hn with rfl | hn
    · rcases hb.eq_or_child with rfl | ⟨k, hk, hb⟩
      · exact List.mem_cons_self
      · exact List.mem_cons_of_mem _ (ih (List.mem_append_right _ hk) hb)
    · exact List.mem_cons_of_mem _ (ih (List.mem_append_left _ hn) hb)

/-- The walk meets nothing else. -/
theorem exists_occurs_of_mem_walk {queue : List MethodInfo} {b : MethodInfo}
    (hb : b ∈ walk queue) : ∃ n ∈ queue, b.Occurs n := by
  fun_induction walk queue with
  | case1 => exact absurd hb List.not_mem_nil
  | case2 m queue ih =>
    rcases List.mem_cons.mp hb with rfl | hb
    · exact ⟨b, List.mem_cons_self, .here⟩
    · obtain ⟨n, hn, hb⟩ := ih hb
      rcases List.mem_append.mp hn with hn | hn
      · exact ⟨n, List.mem_cons_of_mem _ hn, hb⟩
      · exact ⟨m, List.mem_cons_self, .child hn hb⟩

theorem mem_levelOrder {root b : MethodInfo} : b ∈ root.levelOrder ↔ b.Occurs root := by
  constructor
  · intro hb
    obtain ⟨n, hn, hb⟩ := exists_occurs_of_mem_walk hb
    rwa [List.mem_singleton.mp hn] at hb
  · exact mem_walk_of_occurs List.mem_cons_self

/-! ## The walk that leaves nodes out -/

theorem expandFrom_cons (visited : List String) (m : MethodInfo) (queue : List MethodInfo) :
    expandFrom visited (m :: queue) =
      m :: expandFrom ((Layers.fresh key visited m.children).map key ++ visited)
        (queue ++ Layers.fresh key visited m.children) := by
  rw [expandFrom]

/-- **What is listed occurs, and no identity is listed twice.** -/
theorem expandFrom_spec {visited : List String} {queue : List MethodInfo}
    (hqueue : (queue.map key).Nodup) (hvisited : ∀ n ∈ queue, n.key ∈ visited) :
    ((expandFrom visited queue).map key).Nodup ∧
      ∀ b ∈ expandFrom visited queue,
        (∃ n ∈ queue, b.Occurs n) ∧ (b ∈ queue ∨ b.key ∉ visited) := by
  fun_induction expandFrom visited queue with
  | case1 => exact ⟨List.nodup_nil, nofun⟩
  | case2 visited m queue new ih =>
    rw [List.map_cons, List.nodup_cons] at hqueue
    have hnew : ∀ n ∈ new, n ∈ m.children ∧ n.key ∉ visited := fun n hn =>
      ⟨Layers.mem_of_mem_fresh hn, Layers.key_notMem_of_mem_fresh hn⟩
    have hqueue' : ((queue ++ new).map key).Nodup := by
      rw [List.map_append, List.nodup_append]
      refine ⟨hqueue.2, Layers.nodup_map_key_fresh _ _, fun k hk l hl hkl => ?_⟩
      obtain ⟨n, hn, rfl⟩ := List.mem_map.mp hk
      obtain ⟨n', hn', rfl⟩ := List.mem_map.mp hl
      exact (hnew n' hn').2 (hkl ▸ hvisited n (List.mem_cons_of_mem _ hn))
    have hvisited' : ∀ n ∈ queue ++ new, n.key ∈ new.map key ++ visited := fun n hn => by
      rcases List.mem_append.mp hn with hn | hn
      · exact List.mem_append_right _ (hvisited n (List.mem_cons_of_mem _ hn))
      · exact List.mem_append_left _ (List.mem_map_of_mem hn)
    obtain ⟨hnodup, hspec⟩ := ih hqueue' hvisited'
    have hrest : ∀ b ∈ expandFrom (new.map key ++ visited) (queue ++ new),
        b ∈ queue ∨ b.key ∉ visited := fun b hb => by
      rcases (hspec b hb).2 with hb | hb
      · exact (List.mem_append.mp hb).imp_right fun hb => (hnew b hb).2
      · exact Or.inr fun hmem => hb (List.mem_append_right _ hmem)
    refine ⟨?_, fun b hb => ?_⟩
    · rw [List.map_cons, List.nodup_cons]
      refine ⟨fun hmem => ?_, hnodup⟩
      obtain ⟨b, hb, hkey⟩ := List.mem_map.mp hmem
      rcases hrest b hb with hb | hb
      · exact hqueue.1 (hkey ▸ List.mem_map_of_mem hb)
      · exact hb (hkey ▸ hvisited m List.mem_cons_self)
    · rcases List.mem_cons.mp hb with rfl | hb
      · exact ⟨⟨b, List.mem_cons_self, .here⟩, Or.inl List.mem_cons_self⟩
      · refine ⟨?_, (hrest b hb).imp_left (List.mem_cons_of_mem _)⟩
        obtain ⟨n, hn, hbn⟩ := (hspec b hb).1
        rcases List.mem_append.mp hn with hn | hn
        · exact ⟨n, List.mem_cons_of_mem _ hn, hbn⟩
        · exact ⟨m, List.mem_cons_self, .child (hnew n hn).1 hbn⟩

/-- `f` has a child of every identity of which a node of its own identity has one. -/
def Outdoes (f : MethodInfo) (queue : List MethodInfo) : Prop :=
  ∀ n ∈ queue, ∀ b : MethodInfo, b.Occurs n → b.key = f.key →
    ∀ k ∈ b.children, k.key ∈ f.children.map key

theorem Outdoes.step {f m : MethodInfo} {queue : List MethodInfo} (h : f.Outdoes (m :: queue)) :
    f.Outdoes (queue ++ m.children) := by
  intro n hn b hb
  rcases List.mem_append.mp hn with hn | hn
  · exact h n (List.mem_cons_of_mem _ hn) b hb
  · exact h m List.mem_cons_self b (.child hn hb)

/-- Where the walk that leaves nodes out stands when the plain walk has the queue `queue`: `listed`
are the identities met so far, and what the nodes of these identities lead to is visited. -/
structure Keeps (listed visited : List String) (queue : List MethodInfo) : Prop where
  mem_visited : ∀ k, k ∈ visited ↔ k ∈ listed ∨ k ∈ queue.map key
  children : ∀ n ∈ queue, ∀ b : MethodInfo, b.Occurs n → b.key ∈ listed →
    ∀ k ∈ b.children, k.key ∈ visited

namespace Keeps

variable {listed visited : List String} {m : MethodInfo} {queue : List MethodInfo}

theorem start (root : MethodInfo) : Keeps [] [root.key] [root] where
  mem_visited k := by simp
  children n _ b _ hb := absurd hb List.not_mem_nil

/-- The children of a node that is left out are listed or waiting. -/
theorem children_of_listed (h : Keeps listed visited (m :: queue)) (hm : m.key ∈ listed)
    {k : MethodInfo} (hk : k ∈ m.children) : k.key ∈ listed ∨ k.key ∈ queue.map key := by
  rcases (h.mem_visited _).mp (h.children m List.mem_cons_self m .here hm k hk) with hl | hq
  · exact Or.inl hl
  · rcases List.mem_cons.mp hq with he | hq
    · exact Or.inl (he ▸ hm)
    · exact Or.inr hq

/-- Nodes that occur below the queue still do so one step later. -/
theorem occurs_step {n b : MethodInfo} (hn : n ∈ queue ++ m.children) (hb : b.Occurs n) :
    ∃ n ∈ m :: queue, b.Occurs n := by
  rcases List.mem_append.mp hn with hn | hn
  · exact ⟨n, List.mem_cons_of_mem _ hn, hb⟩
  · exact ⟨m, List.mem_cons_self, .child hn hb⟩

/-- One step, when a node is left out. -/
theorem skip (h : Keeps listed visited (m :: queue)) (hm : m.key ∈ listed) :
    Keeps listed visited (queue ++ m.children) where
  mem_visited k := by
    rw [h.mem_visited, List.map_cons, List.mem_cons, List.map_append, List.mem_append]
    constructor
    · rintro (hk | rfl | hk)
      · exact Or.inl hk
      · exact Or.inl hm
      · exact Or.inr (Or.inl hk)
    · rintro (hk | hk | hk)
      · exact Or.inl hk
      · exact Or.inr (Or.inr hk)
      · obtain ⟨n, hn, rfl⟩ := List.mem_map.mp hk
        exact (h.children_of_listed hm hn).imp_right Or.inr
  children n hn b hb := by
    obtain ⟨n', hn', hb'⟩ := occurs_step hn hb
    exact h.children n' hn' b hb'

/-- One step, when a node is listed that has all that the nodes of its identity have. -/
theorem list (h : Keeps listed visited (m :: queue)) (hm : m.Outdoes (m :: queue)) :
    Keeps (m.key :: listed) ((Layers.fresh key visited m.children).map key ++ visited)
      (queue ++ m.children) where
  mem_visited k := by
    rw [List.mem_append, Layers.mem_map_fresh_or, h.mem_visited, List.map_cons, List.map_append,
      List.mem_cons, List.mem_cons, List.mem_append]
    tauto
  children n hn b hb hkey k hk := by
    rw [List.mem_append, Layers.mem_map_fresh_or]
    obtain ⟨n', hn', hb'⟩ := occurs_step hn hb
    rcases List.mem_cons.mp hkey with hkey | hkey
    · exact Or.inl (hm n' hn' b hb' hkey k hk)
    · exact Or.inr (h.children n' hn' b hb' hkey k hk)

/-- A node that is left out leaves nothing fresh behind. -/
theorem fresh_skip (h : Keeps listed visited (m :: queue)) (hm : m.key ∈ listed) :
    Layers.fresh key listed (m :: queue) = Layers.fresh key listed (queue ++ m.children) := by
  have hnone : ∀ k ∈ m.children, k.key ∈ queue.map key ++ listed := fun k hk =>
    List.mem_append.mpr (h.children_of_listed hm hk).symm
  rw [Layers.fresh, if_pos (List.contains_iff_mem.mpr hm), Layers.fresh_append,
    Layers.fresh_eq_nil_of_forall hnone, List.append_nil]

/-- What is fresh after a node is listed is what was waiting and its new children. -/
theorem fresh_list (h : Keeps listed visited (m :: queue)) :
    Layers.fresh key (m.key :: listed) queue ++ Layers.fresh key visited m.children =
      Layers.fresh key (m.key :: listed) (queue ++ m.children) := by
  rw [Layers.fresh_append]
  refine congrArg _ (Layers.fresh_congr (fun k => ?_) m.children)
  rw [h.mem_visited, List.map_cons, List.mem_append, List.mem_cons, List.mem_cons]
  tauto

end Keeps

/-- **Leaving nodes out does not disturb the walk** if nothing is lost by it.  The queue of the walk
that leaves nodes out is what is fresh in the queue of the plain walk. -/
theorem expandFrom_eq {listed visited : List String} {queue : List MethodInfo}
    (hkeeps : Keeps listed visited queue)
    (hfirst : ∀ f ∈ expandFrom visited (Layers.fresh key listed queue),
      f ∈ Layers.fresh key listed (walk queue) → f.Outdoes queue) :
    expandFrom visited (Layers.fresh key listed queue) =
      Layers.fresh key listed (walk queue) := by
  fun_induction walk queue generalizing listed visited with
  | case1 => rw [Layers.fresh, expandFrom]
  | case2 m queue ih =>
    by_cases hm : m.key ∈ listed
    · have hwalk : Layers.fresh key listed (m :: walk (queue ++ m.children)) =
          Layers.fresh key listed (walk (queue ++ m.children)) := by
        rw [Layers.fresh, if_pos (List.contains_iff_mem.mpr hm)]
      rw [hkeeps.fresh_skip hm, hwalk] at hfirst
      rw [hkeeps.fresh_skip hm, hwalk]
      exact ih (hkeeps.skip hm) fun f hf hf' => (hfirst f hf hf').step
    · have hcons : ∀ ms, Layers.fresh key listed (m :: ms) =
          m :: Layers.fresh key (m.key :: listed) ms := fun ms => by
        rw [Layers.fresh, if_neg fun h => hm (List.contains_iff_mem.mp h)]
      rw [hcons, hcons, expandFrom_cons, hkeeps.fresh_list] at hfirst
      rw [hcons, hcons, expandFrom_cons, hkeeps.fresh_list]
      have hm' := hfirst m List.mem_cons_self List.mem_cons_self
      refine congrArg (m :: ·) (ih (hkeeps.list hm') fun f hf hf' => ?_)
      exact (hfirst f (List.mem_cons_of_mem _ hf) (List.mem_cons_of_mem _ hf')).step

/-- The nodes of a graph, each identity once, occur in it and have different identities. -/
theorem expanded_spec (root : MethodInfo) :
    (root.expanded.map key).Nodup ∧ ∀ b ∈ root.expanded, b.Occurs root := by
  have hspec : ((expandFrom [root.key] [root]).map key).Nodup ∧
      ∀ b ∈ expandFrom [root.key] [root], (∃ n ∈ [root], b.Occurs n) ∧ _ :=
    expandFrom_spec (by simp) (by simp)
  refine ⟨hspec.1, fun b hb => ?_⟩
  obtain ⟨⟨n, hn, hbn⟩, -⟩ := hspec.2 b hb
  rwa [List.mem_singleton.mp hn] at hbn

/-- **The nodes of a graph, each identity once, are those that the plain walk meets first**, if no
node has children that the listed node of its identity does not have. -/
theorem expanded_eq {root : MethodInfo}
    (h : ∀ f ∈ root.expanded, f ∈ Layers.fresh key [] root.levelOrder → f.Outdoes [root]) :
    root.expanded = Layers.fresh key [] root.levelOrder := by
  show expandFrom [root.key] (Layers.fresh key [] [root]) = Layers.fresh key [] (walk [root])
  exact expandFrom_eq (.start root) h

end MethodInfo

end JavaCallGraph
