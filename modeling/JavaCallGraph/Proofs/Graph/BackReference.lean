import JavaCallGraph.Proofs.Graph.Memory
import JavaCallGraph.Proofs.Graph.View

/-!
# Where back references lead

A call of a method in flight is cut and only names the method.  What is it that is named?  At the
time of the cut it is a caller of the node, so when that is finished the node occurs in its graph.
`Cache.Anchored` says this of all nodes in a cache: a back reference leads to a method that is still
in flight, or to a node in the cache in whose graph it stands.

A node is kept with its back references.  Within the request that builds it they lead to nodes of the
answer.  But a later request may be answered with a part of that answer, and then they lead out of
the graph.  So the flat view of an answer can have a back reference to a method that it does not
list:

* `Index.build_anchored` — a back reference leads to a caller of its node;
* `Session.recursions_lead_back` — so it does in the view of every answer of a session, and the
  caller is listed if the node was not kept before the request;
* `Session.not_closed_sample` — else it need not be listed.
-/

set_option autoImplicit false

namespace JavaCallGraph

/-! ## Anchored nodes -/

/-- A back reference of a node in the cache leads to a method in flight, or to a node in the cache in
whose graph the first one occurs. -/
def Cache.Anchored (c : Cache) (x : ResolutionContext) : Prop :=
  ∀ b : MethodInfo, b.IsBuilt → c.find? b.key = some b →
    ∀ e ∈ b.dependencies, e.isRecursive = true →
      e.calleeId.canonical ∈ x.inFlight ∨
        ∃ t, c.find? e.calleeId.canonical = some t ∧ t.IsBuilt ∧
          t.key = e.calleeId.canonical ∧ b.Occurs t

namespace Cache

variable {c : Cache} {x : ResolutionContext}

theorem anchored_empty (x : ResolutionContext) : Cache.empty.Anchored x := fun b _ hb =>
  absurd hb (by simp)

theorem Anchored.enter {id : MethodId} (h : c.Anchored x) (hx : x.isInFlight id = false) :
    c.Anchored (x.enter id) := fun b hbuilt hb e he hrec =>
  (h b hbuilt hb e he hrec).imp_left fun hin =>
    (ResolutionContext.mem_inFlight_enter hx).mpr (Or.inr hin)

/-- A node that the cache has may be added under another key. -/
theorem Anchored.alias {i : Index} (h : c.Anchored x) (hc : i.Owns c) {key text : String}
    {node : MethodInfo} (hnode : c.find? key = some node) :
    (c.insertNew text node).Anchored x := by
  intro b hbuilt hb e he hrec
  have hold : c.find? b.key = some b := by
    rcases find?_insertNew_eq_some hb with ⟨-, rfl⟩ | hb
    · exact (hc key b hnode).2.here.cached hbuilt
    · exact hb
  refine (h b hbuilt hold e he hrec).imp_right ?_
  rintro ⟨t, ht, hrest⟩
  exact ⟨t, kept_insertNew _ _ _ _ t ht, hrest⟩

end Cache

namespace Index

variable {i : Index} {g : GraphConfig} {x : ResolutionContext} {m : MethodRef}

/-! ## The traversal -/

/-- The back references of a run lead to methods in flight. -/
theorem EdgesRun.mem_inFlight {P : MethodRef → Cache → MethodInfo → Cache → Prop}
    {caller : TypeInfo} {ts : List CallTarget} {c c' : Cache} {es : List Calling}
    (h : i.EdgesRun g x P caller ts c es c') :
    ∀ e ∈ es, e.isRecursive = true → e.calleeId.canonical ∈ x.inFlight := by
  induction h with
  | nil c => exact nofun
  | @cons t ts e es c c' c'' hstep hrun ih =>
    intro f hf hrec
    rcases List.mem_cons.mp (mem_cons_of_mem_kept hf) with rfl | hf
    · cases hstep with
      | recursive hin => exact ResolutionContext.isInFlight_iff.mp hin
      | expanded hin hm hn => exact absurd hrec (by simp [Calling.isRecursive])
      | reference hin hm => exact absurd hrec (by simp [Calling.isRecursive])
    · exact ih f hf hrec

/-- A node that gets into the cache while a method is resolved occurs in the node of that method. -/
theorem occurs_of_new {c c' : Cache} {node b : MethodInfo} (hc' : i.Owns c')
    (hcovers : Covers c node c') {key : String} (hnode : c'.find? key = some node)
    (hb : c'.find? b.key = some b) (hnew : c.find? b.key = none) : b.Occurs node := by
  have hsome : (c'.find? b.key).isSome := by rw [hb, Option.isSome_some]
  rcases hcovers b.key hsome with hold | ⟨b', hb', hbuilt', hkey⟩
  · rw [hnew] at hold
    exact absurd hold (by simp)
  · have hcached := ((hc' key node hnode).2 b' hb').cached hbuilt'
    rw [hkey, hb] at hcached
    rw [Option.some.inj hcached]
    exact hb'

/-- A call of `build` keeps the back references anchored. -/
def KeepsAnchored (i : Index) (x : ResolutionContext) (c c' : Cache) : Prop :=
  i.Owns c ∧ c.Anchored x → i.Owns c' ∧ c'.Anchored x

/-- When a method leaves, the back references to it are those of its own node, and of nodes that
occur in its node. -/
theorem anchored_of_miss
    {P : ResolutionContext → MethodRef → Cache → MethodInfo → Cache → Prop} {c c₁ c₂ : Cache}
    {edges : List Calling} {nodes : List MethodInfo} (hmiss : i.Miss g P x m c edges c₁ nodes c₂)
    (hc : c.Anchored x) (hc₂ : c₂.Anchored (x.enter (i.code.methodId m)))
    (howns : i.Owns (c₂.insertNew (i.code.methodId m).canonical (i.nodeOf m edges nodes)))
    (hcovers : Covers c (i.nodeOf m edges nodes)
      (c₂.insertNew (i.code.methodId m).canonical (i.nodeOf m edges nodes))) :
    (c₂.insertNew (i.code.methodId m).canonical (i.nodeOf m edges nodes)).Anchored x := by
  have hself := Cache.find?_insertNew_self (i.nodeOf m edges nodes) hmiss.missing_still
  have hleaves : ∀ {b : MethodInfo} {key : String}, b.Occurs (i.nodeOf m edges nodes) →
      key ∈ (x.enter (i.code.methodId m)).inFlight → key ∈ x.inFlight ∨
        ∃ t, (c₂.insertNew (i.code.methodId m).canonical (i.nodeOf m edges nodes)).find? key =
          some t ∧ t.IsBuilt ∧ t.key = key ∧ b.Occurs t := by
    intro b key hocc hin
    rcases (ResolutionContext.mem_inFlight_enter hmiss.fresh).mp hin with rfl | hin
    · exact Or.inr ⟨_, hself, rfl, rfl, hocc⟩
    · exact Or.inl hin
  intro b hbuilt hb e he hrec
  rcases Cache.find?_insertNew_eq_some hb with ⟨-, rfl⟩ | hb₂
  · exact hleaves .here (hmiss.calls.mem_inFlight e he hrec)
  · rcases hc₂ b hbuilt hb₂ e he hrec with hin | ⟨t, ht, hrest⟩
    · cases hold : c.find? b.key with
      | none => exact hleaves (occurs_of_new howns hcovers hself hb hold) hin
      | some v =>
        -- the node was there before, so this method was not in flight when it was resolved
        have hv := hmiss.frame.kept _ v hold
        rw [hb₂] at hv
        rw [← Option.some.inj hv] at hold
        rcases hc b hbuilt hold e he hrec with hin' | ⟨t, ht, hrest⟩
        · exact Or.inl hin'
        · exact Or.inr ⟨t, Cache.kept_insertNew _ _ _ _ t (hmiss.frame.kept _ t ht), hrest⟩
    · exact Or.inr ⟨t, Cache.kept_insertNew _ _ _ _ t ht, hrest⟩

/-- **The traversal keeps the back references anchored.** -/
theorem build_anchored (hg : ∀ e, g.callingFilter e = true) (n : Nat) (hx : x.Sound i.code) :
    i.Nests x (fun _ c _ c' => i.KeepsAnchored x c c') (i.build g n) := by
  refine build_induction_with (P := fun x _ c _ c' => i.KeepsAnchored x c c')
    (Q := fun _ m c node c' => i.Records m c node c' ∧ Covers c node c')
    (fun n x hx => (build_records n hx).and (build_covers hg n hx)) ?_ ?_ n hx
  · exact fun _ _ _ h => h
  · rintro x m c edges c₁ nodes c₂ hmiss ⟨hrec, hcovers⟩ ⟨hc, hanchored⟩
    have hnested : i.KeepsAnchored (x.enter (i.code.methodId m)) c c₂ :=
      hmiss.related (fun _ h => h) (fun hab hbc h => hbc (hab h)) fun hn => hn.holds.2
    obtain ⟨-, hanchored₂⟩ := hnested ⟨hc, hanchored.enter hmiss.fresh⟩
    exact ⟨hrec.owns hc, anchored_of_miss hmiss hanchored hanchored₂ (hrec.owns hc) hcovers⟩

end Index

/-! ## Requests -/

namespace Session

variable {i : Index} {g : GraphConfig}

theorem anchored_resolve {s : Session} (hg : ∀ e, s.config.callingFilter e = true)
    (hs : s.index.Owns s.cache) (ha : s.cache.Anchored .empty) (text : String) :
    (s.resolve text).2.cache.Anchored .empty := by
  rcases resolve_cases s text with ⟨node, -, hres⟩ | ⟨e, hres⟩ | ⟨m, node, c', -, hm, hbuild, hres⟩
  · rw [hres]
    exact ha
  · rw [hres]
    exact ha
  · have hd := declared_of_declarationOf hm
    obtain ⟨-, -, hrec⟩ := Index.build_records _ (.empty _) m s.cache node _ hd rfl hbuild
    obtain ⟨-, -, hkeeps⟩ := Index.build_anchored hg _ (.empty _) m s.cache node _ hd rfl hbuild
    rw [hres]
    exact (hkeeps ⟨hs, ha⟩).2.alias (hrec.owns hs) hrec.finished

theorem anchored_after {s : Session} (hg : ∀ e, s.config.callingFilter e = true)
    (hs : s.index.Owns s.cache) (ha : s.cache.Anchored .empty) (texts : List String) :
    (s.after texts).cache.Anchored .empty := by
  refine (after_induction (P := fun s => (∀ e, s.config.callingFilter e = true) ∧
    s.index.Owns s.cache ∧ s.cache.Anchored .empty) ?_ ⟨hg, hs, ha⟩ texts).2.2
  rintro s text ⟨hg, hs, ha⟩
  have hstep := extends_resolve s text
  refine ⟨?_, hstep.owns hs, anchored_resolve hg hs ha text⟩
  rw [hstep.config]
  exact hg

/-! ## Answers -/

theorem coherent_of_holds {c : Cache} {root : MethodInfo} (h : root.Everywhere (i.Holds c)) :
    root.Coherent where
  unique b b' hb hbuilt hb' hbuilt' hkey := by
    have hfound := (h b hb).cached hbuilt
    rw [hkey, (h b' hb').cached hbuilt'] at hfound
    exact (Option.some.inj hfound).symm
  bare b hb := (h b hb).bare

/-- An edge of the view that only names its callee is a back reference of a built node. -/
theorem exists_of_mem_recursions {root : MethodInfo} (hroot : root.Coherent) {e : EdgeView}
    (he : e ∈ (GraphView.ofRoot i.code root).recursions) :
    ∃ b : MethodInfo, b.Occurs root ∧ b.IsBuilt ∧ b.key = e.source ∧
      ∃ d ∈ b.dependencies, d.isRecursive = true ∧ d.calleeId.canonical = e.target := by
  obtain ⟨b, hb, hbe⟩ := List.mem_flatMap.mp he
  obtain ⟨d, hd, rfl⟩ := List.mem_map.mp hbe
  obtain ⟨hd, hrec⟩ := List.mem_filter.mp hd
  have hocc := root.expanded_spec.2 b hb
  refine ⟨b, hocc, ?_, rfl, d, hd, hrec, rfl⟩
  exact MethodInfo.isBuilt_of_hasEdges hroot hocc (Or.inl (List.ne_nil_of_mem hd))

/-- The answer to a text that is not answered from the cache is the node that `build` gives, if it is
one for the method that the text means. -/
theorem findOr_eq_of_declaration {s : Session} {text : String} {m : MethodRef} {node : MethodInfo}
    {c : Cache} (hs : s.index.Owns s.cache) (hmiss : s.hit? text = none)
    (hrec : s.index.Records m s.cache node c)
    (hroot : (c.findOr text node).declaration = some m) : c.findOr text node = node := by
  rw [Cache.findOr] at hroot ⊢
  cases hfound : c.find? text with
  | none => rfl
  | some v =>
    rw [hfound, Option.getD_some] at hroot
    rcases hrec.own text v hfound with hold | hkey
    · rw [hit?, Option.or_eq_none_iff] at hmiss
      have hcached : s.cached? text = some v := hold
      rw [hmiss.1] at hcached
      exact absurd hcached (by simp)
    · have hid := ((hrec.owns hs text v hfound).2.here.declared m hroot).2
      rw [MethodInfo.key, hid] at hkey
      rw [← hkey, hrec.finished] at hfound
      exact (Option.some.inj hfound).symm

/-- A kept node in whose graph a new node of the answer occurs is new itself, and so it occurs in the
answer. -/
theorem builds_of_new {s : Session} (hg : ∀ e, s.config.callingFilter e = true)
    (hs : s.index.Owns s.cache) {text : String} {root : MethodInfo}
    (hroot : (s.resolve text).1 = .ok root)
    (hdecl : ∀ m, s.declarationOf text = .ok m → root.declaration = some m) {b t : MethodInfo}
    (hb : b.Occurs root) (hbuilt : b.IsBuilt) (hnew : s.cached? b.key = none) (hbt : b.Occurs t)
    {key : String} (ht : (s.resolve text).2.cached? key = some t) (htbuilt : t.IsBuilt)
    (htkey : t.key = key) : root.Builds key := by
  -- a graph that was kept before has only nodes that were kept before
  have hold : ∀ {k : String} {v : MethodInfo}, s.cache.find? k = some v → ¬b.Occurs v := by
    intro k v hv hbv
    have hcached : s.cached? b.key = some b := ((hs k v hv).2 b hbv).cached hbuilt
    rw [hnew] at hcached
    exact absurd hcached (by simp)
  rcases resolve_cases s text with
    ⟨node, hhit, hres⟩ | ⟨e, hres⟩ | ⟨m, node, c', hmiss, hm, hbuild, hres⟩
  · rw [hres] at hroot
    obtain ⟨k, hk⟩ := exists_cached_of_hit? hhit
    rw [Except.ok.inj hroot] at hk
    exact absurd hb (hold hk)
  · rw [hres] at hroot
    exact absurd hroot (by simp)
  · have hd := declared_of_declarationOf hm
    obtain ⟨-, hframe, hrec⟩ := Index.build_records _ (.empty _) m s.cache node _ hd rfl hbuild
    obtain ⟨-, -, hcovers⟩ := Index.build_covers hg _ (.empty _) m s.cache node _ hd rfl hbuild
    rw [hres] at hroot ht
    have hanswer := Except.ok.inj hroot
    have hnode : c'.findOr text node = node :=
      findOr_eq_of_declaration hs hmiss hrec (by rw [hanswer]; exact hdecl m hm)
    rw [hnode] at hanswer
    rcases Cache.find?_insertNew_eq_some ht with ⟨-, rfl⟩ | ht
    · exact ⟨t, by rw [hanswer]; exact .here, htbuilt, htkey⟩
    · have hsome : (c'.find? key).isSome := by rw [ht, Option.isSome_some]
      rcases hcovers key hsome with hfound | hbuilds
      · obtain ⟨v, hv⟩ := Option.isSome_iff_exists.mp hfound
        have hkept := hframe.kept key v hv
        rw [ht] at hkept
        rw [← Option.some.inj hkept] at hv
        exact absurd hbt (hold hv)
      · rw [← hanswer]
        exact hbuilds

/-- **Back references lead to callers.**  Let the configuration keep all edges, and take any answer
of a session.  An edge of its view that only names its callee leads to a method that the session
answers from its cache, with a node in whose graph the source of the edge occurs.

The view lists this method, if the source was not kept before the request, unless the view loses
methods anyhow: the answer should be one for the method that the text means, and in its graph every
built node should be met before the bare nodes of its identity. -/
theorem recursions_lead_back (hg : ∀ e, g.callingFilter e = true) (before : List String)
    (text : String) {root : MethodInfo}
    (hroot : (((start i g).after before).resolve text).1 = .ok root) {e : EdgeView}
    (he : e ∈ (GraphView.ofRoot i.code root).recursions) :
    (∃ t b : MethodInfo, ((start i g).after (before ++ [text])).cached? e.target = some t ∧
        t.IsBuilt ∧ t.key = e.target ∧ b.Occurs t ∧ b.Occurs root ∧ b.IsBuilt ∧
          b.key = e.source) ∧
      (((start i g).after before).cached? e.source = none →
        (∀ m, ((start i g).after before).declarationOf text = .ok m → root.declaration = some m) →
          root.MetBuilt → e.target ∈ (GraphView.ofRoot i.code root).methods.map MethodView.id) := by
  have howns := owns_after_start i g before
  have hext := extends_after (start i g) before
  have hanchored := anchored_after (s := start i g) hg (.empty i) (Cache.anchored_empty _)
    (before ++ [text])
  have hmem : .ok root ∈ Command.resolveAll (start i g) (before ++ [text]) :=
    mem_resolveAll.mpr ⟨before, text, [], rfl, hroot⟩
  have hholds : root.Everywhere (i.Holds ((start i g).after (before ++ [text])).cache) :=
    fun b hb => holds_of_occurs hmem hb
  have hone := coherent_of_holds hholds
  obtain ⟨b, hb, hbuilt, hsource, d, hd, hrec, htarget⟩ := exists_of_mem_recursions hone he
  obtain ⟨t, ht, htbuilt, htkey, hbt⟩ :=
    (hanchored b hbuilt ((hholds b hb).cached hbuilt) d hd hrec).resolve_left List.not_mem_nil
  rw [htarget] at ht htkey
  refine ⟨⟨t, b, ht, htbuilt, htkey, hbt, hb, hbuilt, hsource⟩, fun hnew hdecl hmet => ?_⟩
  rw [← hsource] at hnew
  rw [after_append] at ht
  obtain ⟨f, hf, -, hfkey⟩ := builds_of_new (by rw [hext.config]; exact hg)
    (by rw [hext.index]; exact howns) hroot hdecl hb hbuilt hnew hbt ht htbuilt htkey
  rw [← hfkey]
  exact GraphView.mem_methods_of_metBuilt i.code hone hmet hf

/-- The only back reference in the graph of `Sub.foo` is a call of `Sub.foo`, by `Sub.b`. -/
theorem recursions_lead_back_sample :
    ∃ root, (Sample.start.resolve "Sub#foo()").1 = .ok root ∧
      ⟨"Sub#b()", "Sub#foo()", .self⟩ ∈ (GraphView.ofRoot Sample.code root).recursions ∧
      root.MetBuilt ∧
      "Sub#foo()" ∈ (GraphView.ofRoot Sample.code root).methods.map MethodView.id := by
  have hm : Sample.start.declarationOf "Sub#foo()" = .ok ⟨⟨1⟩, 0⟩ := by decide +kernel
  obtain ⟨node, cache, -, hres⟩ := resolve_start_of_declarationOf hm
  have hview : (Sample.start.resolve "Sub#foo()").1.toOption.map (fun root =>
      (root.declaration, (GraphView.ofRoot Sample.code root).recursions,
        root.levelOrder.all fun b => !b.declaration.isSome ||
          (root.levelOrder.find? fun n => n.key == b.key).any fun f => f.declaration.isSome)) =
      some (some ⟨⟨1⟩, 0⟩, [⟨"Sub#b()", "Sub#foo()", .self⟩], true) := by decide +kernel
  have hroot : (Sample.start.resolve "Sub#foo()").1 = .ok (cache.findOr "Sub#foo()" node) := by
    rw [Sample.start, hres]
  rw [hroot] at hview
  obtain ⟨hdecl, hview⟩ := Prod.mk.inj (Option.some.inj hview)
  obtain ⟨hedges, hfirst⟩ := Prod.mk.inj hview
  have hedge : ⟨"Sub#b()", "Sub#foo()", .self⟩ ∈
      (GraphView.ofRoot Sample.code (cache.findOr "Sub#foo()" node)).recursions := by
    rw [hedges]
    exact List.mem_singleton_self _
  have hmet := MethodInfo.metBuilt_of_all hfirst
  obtain ⟨-, hlisted⟩ := recursions_lead_back (fun _ => rfl) [] "Sub#foo()" hroot hedge
  refine ⟨_, hroot, hedge, hmet, hlisted rfl (fun k hk => ?_) hmet⟩
  rw [← Except.ok.inj (hm.symm.trans hk)]
  exact hdecl

/-- **A view need not be closed.**  When `Sub.root` was resolved before, the graph of `Sub.leaf`
consists of `Sub.leaf` alone, with a back reference to `Sub.root`. -/
theorem not_closed_sample :
    ¬∀ (before : List String) (text : String) (root : MethodInfo),
      ((Sample.start.after before).resolve text).1 = .ok root →
        ∀ e ∈ (GraphView.ofRoot Sample.code root).recursions,
          e.target ∈ (GraphView.ofRoot Sample.code root).methods.map MethodView.id := by
  intro h
  have hview : ((Sample.start.after ["Sub#root()"]).resolve "Sub#leaf()").1.toOption.map
      (fun root => ((GraphView.ofRoot Sample.code root).recursions,
        (GraphView.ofRoot Sample.code root).methods.map MethodView.id)) =
      some ([⟨"Sub#leaf()", "Sub#root()", .self⟩], ["Sub#leaf()"]) := by decide +kernel
  cases hres : ((Sample.start.after ["Sub#root()"]).resolve "Sub#leaf()").1 with
  | error e =>
    rw [hres] at hview
    exact absurd hview (by simp [Except.toOption])
  | ok root =>
    rw [hres] at hview
    obtain ⟨hedges, hmethods⟩ := Prod.mk.inj (Option.some.inj hview)
    have hclosed := h ["Sub#root()"] "Sub#leaf()" root hres
    rw [hedges, hmethods] at hclosed
    exact absurd (hclosed _ (List.mem_singleton_self _)) (by decide)

end Session

end JavaCallGraph
