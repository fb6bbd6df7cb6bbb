import JavaCallGraph.Proofs.Graph.BackReference
import JavaCallGraph.Proofs.Graph.Once
import Mathlib.Logic.Relation

/-!
# Every cycle is cut, and every cut closes a cycle

The nodes of a graph are a finite tree, while the methods that they stand for call and override each
other in cycles.  A cycle is cut in two places: a call of a method in flight becomes a back reference,
and an overriding method in flight becomes a bare node (`MethodInfo.CutAt`).  Apart from these a built
node leads on to built nodes, except where the configuration has a callee not expanded at all
(`Index.LeavesOut`).

* `Index.EdgesRun.bare` — a bare callee is one that is not expanded.
* `Session.Answers.key_ne_of_below` — below a built node there is no other one of its identity, for
  there is only one node of an identity, and it is larger than all that is below it.
* `Session.key_ne_of_walk` — so a walk that is nowhere cut never comes back.
* `Session.Answers.exists_request` — every built node of an answer is resolved anew by one of the
  requests.
* `Session.back_references_close_cycles` — when that request is over, its back references lead to nodes
  in whose graphs it occurs.
-/

set_option autoImplicit false

namespace JavaCallGraph

namespace MethodInfo

/-! ## Links -/

/-- The node names the method under the key, as a callee or as an overriding method. -/
def Names (n : MethodInfo) (key : String) : Prop :=
  (∃ e ∈ n.dependencies, e.calleeId.canonical = key) ∨ ∃ o ∈ n.overrides, o.key = key

/-- The node names the method under the key where it is in flight: by a back reference, or by a bare
overriding method. -/
def CutAt (n : MethodInfo) (key : String) : Prop :=
  (∃ e ∈ n.dependencies, e.isRecursive = true ∧ e.calleeId.canonical = key) ∨
    ∃ o ∈ n.overrides, ¬o.IsBuilt ∧ o.key = key

theorem names_of_mem_children {n k : MethodInfo} (hk : k ∈ n.children) : n.Names k.key := by
  rcases mem_children.mp hk with ⟨e, he, hke⟩ | ho
  · refine Or.inl ⟨e, he, ?_⟩
    cases e with
    | method b r =>
      rw [← Option.some.inj hke]
      rfl
    | recursiveAt id r => exact absurd hke (by simp [Calling.callee?])
  · exact Or.inr ⟨k, ho, rfl⟩

end MethodInfo

namespace Index

variable {i : Index} {g : GraphConfig} {x : ResolutionContext}

/-- A call of the node's method lands on the key but is not to be expanded. -/
def LeavesOut (i : Index) (g : GraphConfig) (n : MethodInfo) (key : String) : Prop :=
  ∃ m ∈ n.declaration, ∃ t ∈ i.code.targets g m, t.key = key ∧ expandable? g t = none

/-- A callee that is neither built nor in flight is one that is not expanded. -/
def BareLeftOut (i : Index) (g : GraphConfig) (_ : Cache) (n : MethodInfo) : Prop :=
  n.IsBuilt → ∀ e ∈ n.dependencies, ∀ k ∈ e.callee?, ¬k.IsBuilt → i.LeavesOut g n k.key

theorem lasting_bareLeftOut (i : Index) (g : GraphConfig) :
    MethodInfo.Lasting (i.BareLeftOut g) where
  mono _ hb := hb
  reference _ id hbuilt := absurd hbuilt (MethodInfo.not_isBuilt_reference id)

/-- **The bare callees of a run are those that are not to be expanded.** -/
theorem EdgesRun.bare {P : MethodRef → Cache → MethodInfo → Cache → Prop} {caller : TypeInfo}
    (hP : ∀ {m c node c'}, P m c node c' → i.Records m c node c') {ts : List CallTarget}
    {c c' : Cache} {es : List Calling} (h : i.EdgesRun g x P caller ts c es c') (hc : i.Owns c) :
    ∀ e ∈ es, ∀ k ∈ e.callee?, ¬k.IsBuilt →
      ∃ t ∈ ts, t.key = k.key ∧ expandable? g t = none := by
  induction h with
  | nil c => exact nofun
  | @cons t ts e es c c' c'' hstep hrun ih =>
    have hfirst : i.Owns c' ∧ ∀ k ∈ e.callee?, ¬k.IsBuilt →
        t.key = k.key ∧ expandable? g t = none := by
      cases hstep with
      | recursive hin => exact ⟨hc, nofun⟩
      | @expanded m callee _ hin hm hn =>
        have hrec := hP hn.holds
        have hc' := hrec.owns hc
        refine ⟨hc', fun k hk hbare => ?_⟩
        rw [← Option.some.inj hk] at hbare
        exact absurd (hc' _ callee hrec.finished).1 hbare
      | reference hin hm =>
        refine ⟨hc, fun k hk _ => ?_⟩
        rw [← Option.some.inj hk]
        exact ⟨rfl, hm⟩
    intro f hf k hk hbare
    rcases List.mem_cons.mp (mem_cons_of_mem_kept hf) with rfl | hf
    · exact ⟨t, List.mem_cons_self, hfirst.2 k hk hbare⟩
    · obtain ⟨u, hu, hrest⟩ := ih hfirst.1 f hf k hk hbare
      exact ⟨u, List.mem_cons_of_mem _ hu, hrest⟩

theorem holdsOfNew_bareLeftOut (i : Index) (g : GraphConfig) :
    i.HoldsOfNew g (i.BareLeftOut g) := by
  intro P hP x m c edges c₁ nodes c₂ hmiss hc _ e he k hk hbare
  exact ⟨m, rfl, hmiss.calls.bare hP hc e he k hk hbare⟩

end Index

namespace Session

variable {i : Index} {g : GraphConfig} {texts : List String}

/-! ## The built nodes of the answers -/

/-- A built node in the answers of a new session to some requests. -/
structure Answers (i : Index) (g : GraphConfig) (texts : List String) (n : MethodInfo) : Prop where
  built : n.IsBuilt
  occurs : ∃ root, .ok root ∈ Command.resolveAll (start i g) texts ∧ n.Occurs root

theorem Answers.cached {n : MethodInfo} (h : Answers i g texts n) :
    ((start i g).after texts).cached? n.key = some n := by
  obtain ⟨root, hroot, hn⟩ := h.occurs
  exact (holds_of_occurs hroot hn).cached h.built

theorem Answers.eq_of_key_eq {n d : MethodInfo} (hn : Answers i g texts n)
    (hd : Answers i g texts d) (hkey : d.key = n.key) : d = n := by
  have hcached := hd.cached
  rw [hkey, hn.cached] at hcached
  exact (Option.some.inj hcached).symm

theorem Answers.of_occurs {n d : MethodInfo} (hn : Answers i g texts n) (hd : d.Occurs n)
    (hbuilt : d.IsBuilt) : Answers i g texts d := by
  obtain ⟨root, hroot, hocc⟩ := hn.occurs
  exact ⟨hbuilt, root, hroot, hd.trans hocc⟩

/-- **No built node has a built node of the same identity properly below it.** -/
theorem Answers.key_ne_of_below {n k d : MethodInfo} (hn : Answers i g texts n)
    (hk : k ∈ n.children) (hd : d.Occurs k) (hbuilt : d.IsBuilt) : d.key ≠ n.key := by
  intro hkey
  have hanswer : Answers i g texts d := hn.of_occurs (.child hk hd) hbuilt
  exact MethodInfo.ne_of_occurs_child hk hd (hn.eq_of_key_eq hanswer hkey)

/-- A built node of the answers that names a method leads on to a built node of it, unless it is cut
there or the method is not expanded. -/
theorem Answers.exists_child {n : MethodInfo} (hn : Answers i g texts n) {key : String}
    (hnames : n.Names key) (hcut : ¬n.CutAt key) (hout : ¬i.LeavesOut g n key) :
    ∃ k ∈ n.children, k.IsBuilt ∧ k.key = key := by
  obtain ⟨root, hroot, hocc⟩ := hn.occurs
  have hbare := holds_in_answers (Index.lasting_bareLeftOut i g) (Index.holdsOfNew_bareLeftOut i g)
    hroot hocc
  rcases hnames with ⟨e, he, rfl⟩ | ⟨o, ho, rfl⟩
  · cases e with
    | recursiveAt id r => exact absurd (Or.inl ⟨_, he, rfl, rfl⟩) hcut
    | method k r =>
      by_cases hbuilt : k.IsBuilt
      · exact ⟨k, MethodInfo.mem_children.mpr (Or.inl ⟨_, he, rfl⟩), hbuilt, rfl⟩
      · exact absurd (hbare hn.built _ he k rfl hbuilt) hout
  · by_cases hbuilt : o.IsBuilt
    · exact ⟨o, MethodInfo.mem_children.mpr (Or.inr ho), hbuilt, rfl⟩
    · exact absurd (Or.inr ⟨o, ho, hbuilt, rfl⟩) hcut

/-- One step of a walk through the methods: from a built node of the answers to another one, whose
method it names and has expanded, where it is not cut. -/
structure Steps (i : Index) (g : GraphConfig) (texts : List String) (n d : MethodInfo) : Prop where
  source : Answers i g texts n
  target : Answers i g texts d
  names : n.Names d.key
  expanded : ¬i.LeavesOut g n d.key
  uncut : ¬n.CutAt d.key

theorem Steps.mem_children {n d : MethodInfo} (h : Steps i g texts n d) : d ∈ n.children := by
  obtain ⟨k, hk, hbuilt, hkey⟩ := h.source.exists_child h.names h.uncut h.expanded
  have hanswer : Answers i g texts k := h.source.of_occurs (.child hk .here) hbuilt
  rw [← h.target.eq_of_key_eq hanswer hkey]
  exact hk

theorem exists_child_of_walk {n d : MethodInfo} (h : Relation.TransGen (Steps i g texts) n d) :
    Answers i g texts n ∧ Answers i g texts d ∧ ∃ k ∈ n.children, d.Occurs k := by
  induction h with
  | single h => exact ⟨h.source, h.target, _, h.mem_children, .here⟩
  | @tail d d' _ hstep ih =>
    obtain ⟨hn, -, k, hk, hd⟩ := ih
    have hocc : d'.Occurs d := .child hstep.mem_children .here
    exact ⟨hn, hstep.target, k, hk, hocc.trans hd⟩

/-- **A walk that is nowhere cut does not come back.** -/
theorem key_ne_of_walk {n d : MethodInfo} (h : Relation.TransGen (Steps i g texts) n d) :
    d.key ≠ n.key := by
  obtain ⟨hn, hd, k, hk, hocc⟩ := exists_child_of_walk h
  exact hn.key_ne_of_below hk hocc hd.built

/-! ## The request that builds a node -/

theorem exists_newlyEntered {s : Session} {texts : List String} {key : String}
    (h : key ∈ s.entered texts) :
    ∃ before text more, texts = before ++ text :: more ∧
      key ∈ (s.after before).newlyEntered text := by
  induction texts generalizing s with
  | nil => exact absurd h List.not_mem_nil
  | cons text texts ih =>
    rw [entered] at h
    rcases List.mem_append.mp h with h | h
    · exact ⟨[], text, texts, rfl, h⟩
    · obtain ⟨before, text', more, rfl, hkey⟩ := ih h
      exact ⟨text :: before, text', more, rfl, hkey⟩

/-- The request resolves the node anew: its identity is entered, nothing was kept under it before,
and now the node is. -/
structure ResolvesAnew (s : Session) (text : String) (n : MethodInfo) : Prop where
  entered : n.key ∈ s.newlyEntered text
  missing : s.cached? n.key = none
  kept : (s.resolve text).2.cached? n.key = some n

/-- **Every built node of the answers is resolved anew by one of the requests.** -/
theorem Answers.exists_request {n : MethodInfo} (h : Answers i g texts n) :
    ∃ before text more, texts = before ++ text :: more ∧
      ((start i g).after before).ResolvesAnew text n := by
  have hentered : n.key ∈ (start i g).entered texts := by
    rcases (after_logs (start i g) texts).new _ n h.cached with ⟨key, hkey⟩ | hkey
    · exact absurd hkey (by simp [start])
    · exact hkey
  obtain ⟨before, text, more, rfl, hkey⟩ := exists_newlyEntered hentered
  have hlogs := resolve_logs ((start i g).after before) text
  refine ⟨before, text, more, rfl, hkey, hlogs.absent _ hkey, ?_⟩
  obtain ⟨v, hv⟩ := Option.isSome_iff_exists.mp (hlogs.found _ hkey)
  -- what is kept then is still kept in the end
  have hlater : ((start i g).after (before ++ text :: more)).cached? n.key = some v := by
    rw [after_append]
    exact (extends_after (((start i g).after before).resolve text).2 more).kept _ v hv
  rw [h.cached] at hlater
  rw [← Option.some.inj hlater] at hv
  exact hv

/-- The session keeps a built node of the method under the key, in whose graph `n` occurs; if it is the
method of `n`, then `n` itself. -/
def ClosesCycle (s : Session) (n : MethodInfo) (key : String) : Prop :=
  ∃ t, s.cached? key = some t ∧ t.IsBuilt ∧ t.key = key ∧ n.Occurs t ∧ (key = n.key → t = n)

/-- **A back reference closes a cycle, and every cycle is cut.**  Let no edge be dropped.

* A node with a back reference, in the answers to some requests, is resolved anew by one of them.  When
  that request is over, the back reference leads to a built node of the method that it names, in whose
  graph the first node occurs.
* No built node has a built node of the same identity properly below it.
* No walk through the methods of built nodes, by calls that are expanded and by overriding methods,
  comes back without a cut. -/
theorem back_references_close_cycles (hg : ∀ e, g.callingFilter e = true) (texts : List String) :
    (∀ root, .ok root ∈ Command.resolveAll (start i g) texts → ∀ n : MethodInfo, n.Occurs root →
      ∀ e ∈ n.dependencies, e.isRecursive = true →
        ∃ before text more, texts = before ++ text :: more ∧
          ((start i g).after before).ResolvesAnew text n ∧
          ((start i g).after (before ++ [text])).ClosesCycle n e.calleeId.canonical) ∧
      (∀ n, Answers i g texts n → ∀ k ∈ n.children, ∀ d : MethodInfo, d.Occurs k → d.IsBuilt →
        d.key ≠ n.key) ∧
      ∀ n d, Relation.TransGen (Steps i g texts) n d → d.key ≠ n.key := by
  refine ⟨fun root hroot n hn e he hrec => ?_, ?_, fun n d => key_ne_of_walk⟩
  · have hbuilt : n.IsBuilt := by
      by_contra hbare
      rw [((holds_of_occurs hroot hn).bare hbare).1] at he
      exact absurd he List.not_mem_nil
    have hanswer : Answers i g texts n := ⟨hbuilt, root, hroot, hn⟩
    obtain ⟨before, text, more, rfl, hnew⟩ := hanswer.exists_request
    refine ⟨before, text, more, rfl, hnew, ?_⟩
    have hkept := hnew.kept
    rw [← after_concat] at hkept
    have hanchored : ((start i g).after (before ++ [text])).cache.Anchored .empty :=
      anchored_after hg (Index.Owns.empty i) (Cache.anchored_empty _) _
    rcases hanchored n hbuilt hkept e he hrec with hin | ⟨t, ht, htbuilt, htkey, hocc⟩
    · exact absurd hin List.not_mem_nil
    · refine ⟨t, ht, htbuilt, htkey, hocc, fun hself => ?_⟩
      rw [hself] at ht
      exact Option.some.inj (ht.symm.trans hkept)
  · exact fun n hn k hk d hd hdbuilt => hn.key_ne_of_below hk hd hdbuilt

/-- In the code base with cycles `Sub.leaf` is resolved for `Sub.root`, with a back reference to it,
and asked for later.  A step from `Sub.root` leads to another method. -/
theorem back_references_close_cycles_sample :
    ∃ root leaf, .ok root ∈ Command.resolveAll Sample.start ["Sub#root()", "Sub#leaf()"] ∧
      .ok leaf ∈ Command.resolveAll Sample.start ["Sub#root()", "Sub#leaf()"] ∧
      (∃ e ∈ leaf.dependencies, e.isRecursive = true ∧ e.calleeId.canonical = "Sub#root()") ∧
      (∃ t : MethodInfo, t.IsBuilt ∧ t.key = "Sub#root()" ∧ leaf.Occurs t) ∧
      ∃ d ∈ root.children, d.IsBuilt ∧ d.key ≠ root.key ∧
        Steps (.ofCodebase Sample.code) .default ["Sub#root()", "Sub#leaf()"] root d := by
  have hfirst : (Sample.start.resolve "Sub#root()").1.toOption.map (fun root =>
      (root.declaration, root.dependencies.map Calling.isRecursive,
        root.overrides.length, root.children.map fun k => k.declaration.isSome)) =
      some (some ⟨⟨1⟩, 4⟩, [false, false], 0, [true, true]) := by decide +kernel
  have hsecond : ((Sample.start.after ["Sub#root()"]).resolve "Sub#leaf()").1.toOption.map
      (fun leaf => leaf.dependencies.map fun e => (e.isRecursive, e.calleeId.canonical)) =
      some [(true, "Sub#root()")] := by decide +kernel
  obtain ⟨root, hroot, hfacts⟩ := exists_answer hfirst
  obtain ⟨leaf, hleaf, hedges⟩ := exists_answer hsecond
  obtain ⟨hdecl, hfacts⟩ := Prod.mk.inj hfacts
  obtain ⟨hrecursive, hfacts⟩ := Prod.mk.inj hfacts
  obtain ⟨hoverrides, hchildren⟩ := Prod.mk.inj hfacts
  obtain ⟨d, ds, hd, hdbuilt, -⟩ := List.map_eq_cons_iff.mp hchildren
  obtain ⟨e, es, he, hefacts, -⟩ := List.map_eq_cons_iff.mp hedges
  obtain ⟨hrec, htarget⟩ := Prod.mk.inj hefacts
  have hrootmem : .ok root ∈ Command.resolveAll Sample.start ["Sub#root()", "Sub#leaf()"] :=
    mem_resolveAll.mpr ⟨[], "Sub#root()", ["Sub#leaf()"], rfl, hroot⟩
  have hleafmem : .ok leaf ∈ Command.resolveAll Sample.start ["Sub#root()", "Sub#leaf()"] :=
    mem_resolveAll.mpr ⟨["Sub#root()"], "Sub#leaf()", [], rfl, hleaf⟩
  have hemem : e ∈ leaf.dependencies := by
    rw [he]
    exact List.mem_cons_self
  have hdmem : d ∈ root.children := by
    rw [hd]
    exact List.mem_cons_self
  have hanswer : Answers (.ofCodebase Sample.code) .default ["Sub#root()", "Sub#leaf()"] root :=
    ⟨Option.isSome_iff_exists.mpr ⟨_, hdecl⟩, root, hrootmem, .here⟩
  have hcut : ¬root.CutAt d.key := by
    rintro (⟨f, hf, hfrec, -⟩ | ⟨o, ho, -, -⟩)
    · have hmem := List.mem_map_of_mem (f := Calling.isRecursive) hf
      rw [hrecursive, hfrec] at hmem
      exact absurd hmem (by decide)
    · rw [List.length_eq_zero_iff.mp hoverrides] at ho
      exact absurd ho List.not_mem_nil
  have hexpanded : ¬(Index.ofCodebase Sample.code).LeavesOut .default root d.key := by
    rintro ⟨m, hm, t, ht, -, hout⟩
    have hall : (Sample.code.targets .default ⟨⟨1⟩, 4⟩).all fun t =>
        (Index.expandable? .default t).isSome := by decide +kernel
    rw [hdecl] at hm
    rw [← Option.some.inj hm] at ht
    have hsome := List.all_eq_true.mp hall t ht
    rw [hout] at hsome
    exact absurd hsome (by simp)
  have hstep : Steps (.ofCodebase Sample.code) .default ["Sub#root()", "Sub#leaf()"] root d :=
    ⟨hanswer, hanswer.of_occurs (.child hdmem .here) hdbuilt,
      MethodInfo.names_of_mem_children hdmem, hexpanded, hcut⟩
  obtain ⟨hback, hbelow, hwalk⟩ := back_references_close_cycles (i := .ofCodebase Sample.code)
    (g := .default) (fun _ => rfl) ["Sub#root()", "Sub#leaf()"]
  obtain ⟨-, -, -, -, -, t, -, htbuilt, htkey, hocc, -⟩ :=
    hback leaf hleafmem leaf .here e hemem hrec
  exact ⟨root, leaf, hrootmem, hleafmem, ⟨e, hemem, hrec, htarget⟩,
    ⟨t, htbuilt, htkey.trans htarget, hocc⟩, d, hdmem, hdbuilt, hwalk root d (.single hstep), hstep⟩

end Session

end JavaCallGraph
