import JavaCallGraph.Proofs.Graph.Edges
import JavaCallGraph.Proofs.Graph.Runs

/-!
# Exactly the reachable methods are built

Three things can cut the traversal short: a method in the cache, a called method in flight, and an
overriding method in flight.  None of them loses anything.

`Index.Reachable` is the least set of methods that has the root and is closed under the two ways of
getting from a method to another.  That nothing else is built is read off accurate nodes, one node
at a time.  That everything reachable is built is the usual argument about depth-first search:

* `Index.Closed` is the invariant of the cache: whatever a finished method leads to is finished or
  still in flight.  When the traversal is over nothing is in flight, so what is finished is closed;
* what gets finished occurs in the result (`Index.Explores`), since no edge is dropped.
-/

set_option autoImplicit false

namespace JavaCallGraph

namespace Index

/-- **The methods that a graph should have**: the root, the declarations on which the calls of a
method land, if the configuration has them expanded, and the methods that override a method. -/
inductive Reachable (i : Index) (g : GraphConfig) (root : MethodRef) : MethodRef → Prop
  | root : Reachable i g root root
  | call {m k : MethodRef} {s : CallSite} {t : CallTarget} (h : Reachable i g root m)
      (hs : s ∈ i.code.callSites m)
      (ht : i.code.resolveTarget? g (i.code.context m s.scope) s.call = some t)
      (hk : t.declaration = some k) (hf : g.methodFilter t.id t.declaring = true) :
      Reachable i g root k
  | override {m k : MethodRef} (h : Reachable i g root m) (hk : k ∈ i.overriding g m) :
      Reachable i g root k

/-- What the traversal goes on to from a method. -/
def Leads (i : Index) (g : GraphConfig) (m k : MethodRef) : Prop :=
  (∃ t ∈ i.code.targets g m, expandable? g t = some k) ∨ k ∈ i.overriding g m

variable {i : Index} {g : GraphConfig} {x : ResolutionContext} {m k : MethodRef}

theorem expandable?_eq_some {t : CallTarget} :
    expandable? g t = some k ↔ t.declaration = some k ∧ g.methodFilter t.id t.declaring = true :=
  Option.filter_eq_some_iff

theorem Reachable.leads {root : MethodRef} (h : i.Reachable g root m) (hk : i.Leads g m k) :
    i.Reachable g root k := by
  rcases hk with ⟨t, ht, hk⟩ | hk
  · obtain ⟨s, hs, hst⟩ := Codebase.mem_landings.mp (Codebase.mem_landings_of_mem_targets ht)
    obtain ⟨hd, hf⟩ := expandable?_eq_some.mp hk
    exact .call h hs hst hd hf
  · exact .override h hk

theorem declared_of_leads (hm : i.code.Declared m) (hk : i.Leads g m k) : i.code.Declared k := by
  rcases hk with ⟨t, ht, hk⟩ | hk
  · exact ((Codebase.lands_of_mem_targets hm ht).declared k (expandable?_eq_some.mp hk).1).1
  · exact declared_of_mem_overriding hk

/-- **A call whose identity was seen before leads to the same method**, so that it does no harm to
resolve only the first one. -/
theorem leads_of_call (h : i.code.Unambiguous) (hm : i.code.Declared m) {t : CallTarget}
    (ht : t ∈ i.code.landings g m) (hd : t.declaration = some k)
    (hf : g.methodFilter t.id t.declaring = true) : i.Leads g m k := by
  obtain ⟨u, hu, hkey⟩ := Codebase.exists_mem_targets ht
  have hlands : i.code.Lands t := by
    obtain ⟨s, hs, hst⟩ := Codebase.mem_landings.mp ht
    exact h.obeys.lands hm hs hst
  obtain ⟨hk, hid, htype⟩ := hlands.declared k hd
  have hukey : u.key = (i.code.methodId k).canonical := by rw [hkey, ← hid]; rfl
  have hud := h.declaration_of_key_eq hm (Codebase.mem_landings_of_mem_targets hu) hk hukey
  obtain ⟨-, huid, hutype⟩ := (Codebase.lands_of_mem_targets hm hu).declared k hud
  refine Or.inl ⟨u, hu, expandable?_eq_some.mpr ⟨hud, ?_⟩⟩
  rw [huid, hutype, ← hid, ← htype]
  exact hf

/-! ## Nothing else is built -/

/-- The children of an accurate node that are built are what the method of the node leads to. -/
theorem Describes.leads {b n : MethodInfo} (h : i.Describes g m b) (hn : n ∈ b.children)
    (hk : n.declaration = some k) : i.Leads g m k := by
  rcases MethodInfo.mem_children.mp hn with ⟨e, he, hne⟩ | hn
  · obtain ⟨es, hes, hdeps⟩ := h.edges
    rw [hdeps] at he
    obtain ⟨t, ht, hdraws⟩ := exists_of_mem_forall₂ hes (List.mem_filter.mp he).1
    exact Or.inl ⟨t, ht, hdraws.callee n hne k hk⟩
  · obtain ⟨k', hk', hstands⟩ := exists_of_mem_forall₂ h.overrides hn
    rw [hstands.declaration k hk]
    exact Or.inr hk'

theorem Reachable.trans {root : MethodRef} (hm : i.Reachable g root m) (hk : i.Reachable g m k) :
    i.Reachable g root k := by
  induction hk with
  | root => exact hm
  | call _ hs ht hd hf ih => exact .call ih hs ht hd hf
  | override _ hk ih => exact .override ih hk

/-- **Only reachable methods are built.** -/
theorem reachable_of_occurs {root b : MethodInfo} (hb : b.Occurs root)
    (hall : root.Everywhere (i.Accurate g)) (hroot : root.declaration = some m)
    (hk : b.declaration = some k) : i.Reachable g m k := by
  induction hb generalizing m with
  | here =>
    rw [← Option.some.inj (hroot.symm.trans hk)]
    exact .root
  | @child root n hn hb ih =>
    have hn' := hall.child hn
    cases hd : n.declaration with
    | some m' =>
      have hleads := (hall.here.built m hroot).leads hn hd
      exact .trans (.leads .root hleads) (ih hn' hd)
    | none =>
      -- a bare node has no edges, so it is `b` itself, which is built
      rw [hb.eq_of_children (hn'.here.bare hd), hd] at hk
      exact absurd hk (by simp)

/-! ## Nothing is missed -/

/-- Whatever a finished method leads to is finished or in flight. -/
def Closed (i : Index) (g : GraphConfig) (x : ResolutionContext) (c : Cache) : Prop :=
  ∀ m k, i.code.Declared m → (c.find? (i.code.methodId m).canonical).isSome → i.Leads g m k →
    (c.find? (i.code.methodId k).canonical).isSome ∨ (i.code.methodId k).canonical ∈ x.inFlight

/-- A call of `build` finishes its method and keeps the cache closed; whatever gets finished occurs
in the node. -/
structure Explores (i : Index) (g : GraphConfig) (x : ResolutionContext) (m : MethodRef) (c : Cache)
    (node : MethodInfo) (c' : Cache) : Prop where
  closed : i.Closed g x c → i.Closed g x c'
  finished : c'.find? (i.code.methodId m).canonical = some node
  builds : ∀ key, (c'.find? key).isSome → (c.find? key).isSome ∨ node.Builds key

/-- After a run of edges, what its targets lead to is finished or in flight. -/
theorem EdgesRun.finished {caller : TypeInfo} {ts : List CallTarget} {c c' : Cache}
    {es : List Calling} (h : i.EdgesRun g x (i.Explores g x) caller ts c es c')
    (hl : ∀ t ∈ ts, i.code.Lands t) :
    ∀ t ∈ ts, ∀ k, expandable? g t = some k →
      (c'.find? (i.code.methodId k).canonical).isSome ∨
        (i.code.methodId k).canonical ∈ x.inFlight := by
  induction h with
  | nil c => exact nofun
  | @cons t ts e es c c' c'' hstep hrun ih =>
    intro u hu k hk
    rcases List.mem_cons.mp hu with rfl | hu
    · cases hstep with
      | recursive hin =>
        refine Or.inr ?_
        rw [← (((hl u List.mem_cons_self).declared k (expandable?_eq_some.mp hk).1).2).1]
        exact ResolutionContext.isInFlight_iff.mp hin
      | expanded hin hm hn =>
        refine Or.inl (hrun.frame.isSome ?_)
        rw [← Option.some.inj (hm.symm.trans hk), hn.holds.finished, Option.isSome_some]
      | reference hin hm =>
        rw [hm] at hk
        exact absurd hk (by simp)
    · exact ih (fun u hu => hl u (List.mem_cons_of_mem _ hu)) u hu k hk

/-- After a run of overriding methods, these are finished or in flight. -/
theorem OverridesRun.finished {ms : List MethodRef} {c c' : Cache} {nodes : List MethodInfo}
    (h : i.OverridesRun x (i.Explores g x) ms c nodes c') :
    ∀ k ∈ ms, (c'.find? (i.code.methodId k).canonical).isSome ∨
      (i.code.methodId k).canonical ∈ x.inFlight := by
  induction h with
  | nil c => exact nofun
  | @cons m ms node nodes c c' c'' hstep hrun ih =>
    intro k hk
    rcases List.mem_cons.mp hk with rfl | hk
    · cases hstep with
      | recursive hin => exact Or.inr (ResolutionContext.isInFlight_iff.mp hin)
      | expanded hn =>
        refine Or.inl (hrun.frame.isSome ?_)
        rw [hn.holds.finished, Option.isSome_some]
    · exact ih k hk

/-- A method that enters may only make it easier to be closed. -/
theorem Closed.enter {id : MethodId} (hx : x.isInFlight id = false) {c : Cache}
    (hc : i.Closed g x c) : i.Closed g (x.enter id) c := fun m k hm hfound hk =>
  (hc m k hm hfound hk).imp_right fun hin =>
    (ResolutionContext.mem_inFlight_enter hx).mpr (Or.inr hin)

/-- When a method leaves it is finished, and so is, or is in flight, all it leads to. -/
theorem Closed.finish (h : i.code.Unambiguous) (hm : i.code.Declared m)
    (hx : x.isInFlight (i.code.methodId m) = false) {c : Cache} {node : MethodInfo}
    (hc : i.Closed g (x.enter (i.code.methodId m)) c)
    (hnone : c.find? (i.code.methodId m).canonical = none)
    (hleads : ∀ k, i.Leads g m k → (c.find? (i.code.methodId k).canonical).isSome ∨
      (i.code.methodId k).canonical ∈ (x.enter (i.code.methodId m)).inFlight) :
    i.Closed g x (c.insertNew (i.code.methodId m).canonical node) := by
  have hself := Cache.find?_insertNew_self node hnone
  intro a k ha hfound hk
  have hold : (c.find? (i.code.methodId k).canonical).isSome ∨
      (i.code.methodId k).canonical ∈ (x.enter (i.code.methodId m)).inFlight := by
    by_cases he : (i.code.methodId a).canonical = (i.code.methodId m).canonical
    · rw [h.eq_of_canonical_eq ha hm he] at hk
      exact hleads k hk
    · rw [Cache.find?_insertNew_of_ne he] at hfound
      exact hc a k ha hfound hk
  by_cases he : (i.code.methodId k).canonical = (i.code.methodId m).canonical
  · refine Or.inl ?_
    rw [he, hself, Option.isSome_some]
  · rw [Cache.find?_insertNew_of_ne he]
    exact hold.imp_right fun hin =>
      ((ResolutionContext.mem_inFlight_enter hx).mp hin).resolve_left he

/-- **The traversal keeps the cache closed, and all it finishes occurs in its result.** -/
theorem build_explores (h : i.code.Unambiguous) (hg : ∀ e, g.callingFilter e = true) (n : Nat)
    (hx : x.Sound i.code) : i.Nests x (i.Explores g x) (i.build g n) := by
  refine build_induction (P := fun x => i.Explores g x) ?_ ?_ n hx
  · intro x m c node _ hm hfound
    exact ⟨id, hfound, fun key hkey => Or.inl hkey⟩
  · intro x m c edges c₁ nodes c₂ hmiss
    have hself := Cache.find?_insertNew_self (i.nodeOf m edges nodes) hmiss.missing_still
    refine ⟨fun hc => ?_, hself, hmiss.covers hg fun hn => hn.holds.builds⟩
    have hclosed : i.Closed g (x.enter (i.code.methodId m)) c₂ :=
      hmiss.related (R := fun a b => i.Closed g (x.enter (i.code.methodId m)) a →
          i.Closed g (x.enter (i.code.methodId m)) b)
        (fun _ h => h) (fun hab hbc h => hbc (hab h)) (fun hn => hn.holds.closed)
        (hc.enter hmiss.fresh)
    refine .finish h hmiss.declared hmiss.fresh hclosed hmiss.missing_still fun k hk => ?_
    rcases hk with ⟨t, ht, hk⟩ | hk
    · exact (hmiss.calls.finished (fun t ht => Codebase.lands_of_mem_targets hmiss.declared ht)
        t ht k hk).imp_left hmiss.overrides.frame.isSome
    · exact hmiss.overrides.finished k hk

/-- When nothing is in flight, all reachable methods are finished. -/
theorem Closed.finished_of_reachable (h : i.code.Unambiguous) {c : Cache}
    (hc : i.Closed g .empty c) {root : MethodRef} (hroot : i.code.Declared root)
    (hdone : (c.find? (i.code.methodId root).canonical).isSome) (hk : i.Reachable g root k) :
    i.code.Declared k ∧ (c.find? (i.code.methodId k).canonical).isSome := by
  have hstep : ∀ {m k}, i.code.Declared m ∧ (c.find? (i.code.methodId m).canonical).isSome →
      i.Leads g m k → i.code.Declared k ∧ (c.find? (i.code.methodId k).canonical).isSome :=
    fun hm hk => ⟨declared_of_leads hm.1 hk,
      (hc _ _ hm.1 hm.2 hk).resolve_right List.not_mem_nil⟩
  induction hk with
  | root => exact ⟨hroot, hdone⟩
  | call _ hs ht hd hf ih =>
    exact hstep ih (leads_of_call h ih.1 (Codebase.mem_landings.mpr ⟨_, hs, ht⟩) hd hf)
  | override _ hk ih => exact hstep ih (Or.inr hk)

end Index

/-! ## Requests -/

namespace Session

variable {i : Index} {g : GraphConfig}

/-- A new session answers with the node that `build` gives, also if the text is the written identity
of a method that was resolved on the way. -/
theorem findOr_eq (h : i.code.Unambiguous) {text : String} {m : MethodRef}
    (hm : (start i g).declarationOf text = .ok m) {node : MethodInfo} {c : Cache}
    (hex : i.Explores g .empty m .empty node c) (hall : node.Everywhere (i.Accurate g)) :
    c.findOr text node = node := by
  rw [Cache.findOr]
  cases hfound : c.find? text with
  | none => rfl
  | some v =>
    have hsome : (c.find? text).isSome := by rw [hfound, Option.isSome_some]
    rcases hex.builds text hsome with hempty | ⟨b, hb, hbuilt, hkey⟩
    · exact absurd hempty (by simp)
    · obtain ⟨k, hk⟩ := hbuilt.exists
      have hdesc := (hall b hb).built k hk
      rw [MethodInfo.key, hdesc.id] at hkey
      have hk' := declarationOf_methodId (s := start i g) h hdesc.declared
      have htext : (start i g).declarationOf text = .ok k := by rw [← hkey]; exact hk'
      rw [← Except.ok.inj (hm.symm.trans htext)] at hkey
      rw [← hkey, hex.finished] at hfound
      rw [Option.getD_some, Option.some.inj hfound]

/-- **Reachability is exact.**  Let the code base be unambiguous and let the configuration keep all
edges.  When a new session answers a text, the built nodes of the answer are those of the methods
that can be reached from the declaration that the text means. -/
theorem isBuilt_iff_reachable (h : i.code.Unambiguous) (hg : ∀ e, g.callingFilter e = true)
    {text : String} {root : MethodInfo} {s : Session}
    (hres : (start i g).resolve text = (.ok root, s)) :
    ∃ m, (start i g).declarationOf text = .ok m ∧ root.declaration = some m ∧
      ∀ id, (∃ b : MethodInfo, b.Occurs root ∧ b.IsBuilt ∧ b.id = id) ↔
        ∃ k, i.Reachable g m k ∧ id = i.code.methodId k := by
  obtain ⟨m, node, c, hm, hbuild, hroot⟩ := exists_build_of_resolve_start hres
  have hd := declared_of_declarationOf hm
  obtain ⟨-, -, hex⟩ := Index.build_explores h hg _ (.empty _) m .empty node _ hd rfl hbuild
  obtain ⟨-, -, hkeeps⟩ := Index.build_faithful h _ (.empty _) m .empty node _ hd rfl hbuild
  obtain ⟨-, hnode, hall⟩ := hkeeps (.empty i g)
  rw [hroot, findOr_eq h hm hex hall]
  refine ⟨m, hm, hnode, fun id => ⟨?_, ?_⟩⟩
  · rintro ⟨b, hb, hbuilt, rfl⟩
    obtain ⟨k, hk⟩ := hbuilt.exists
    exact ⟨k, Index.reachable_of_occurs hb hall hnode hk, ((hall b hb).built k hk).id⟩
  · rintro ⟨k, hk, rfl⟩
    have hclosed := hex.closed fun a b _ hfound =>
      absurd hfound (by simp [Cache.find?, Cache.empty])
    have hfinished : (c.find? (i.code.methodId m).canonical).isSome := by
      rw [hex.finished, Option.isSome_some]
    obtain ⟨hkd, hkc⟩ := hclosed.finished_of_reachable h hd hfinished hk
    rcases hex.builds _ hkc with hempty | ⟨b, hb, hbuilt, hkey⟩
    · exact absurd hempty (by simp [Cache.find?, Cache.empty])
    · obtain ⟨k', hk'⟩ := hbuilt.exists
      have hdesc := (hall b hb).built k' hk'
      rw [MethodInfo.key, hdesc.id] at hkey
      refine ⟨b, hb, hbuilt, ?_⟩
      rw [hdesc.id, h.eq_of_canonical_eq hdesc.declared hkd hkey]

/-- In the code base with cycles `Sub.leaf` is reached from `Sub.root` by a call of `Base.foo`,
which `Sub.foo` overrides.  On this way the traversal is cut, for `Sub.foo` is in flight when the
methods that override `Base.foo` are resolved; `Sub.leaf` is built all the same. -/
theorem isBuilt_iff_reachable_sample : Sample.code.Unambiguous ∧
    ∃ root s, Sample.start.resolve "Sub#root()" = (.ok root, s) ∧
      ∃ b : MethodInfo, b.Occurs root ∧ b.IsBuilt ∧ b.id = ⟨"Sub", "leaf", []⟩ := by
  have hu : Sample.code.Unambiguous := by decide +kernel
  have hm : Sample.start.declarationOf "Sub#root()" = .ok ⟨⟨1⟩, 4⟩ := by decide +kernel
  have hcall : ∀ m k, ((Sample.code.targets .default m).any fun t =>
      Index.expandable? .default t == some k) = true →
        (Index.ofCodebase Sample.code).Leads .default m k := fun m k h => by
    obtain ⟨t, ht, hk⟩ := List.any_eq_true.mp h
    exact Or.inl ⟨t, ht, beq_iff_eq.mp hk⟩
  have hbase : (Index.ofCodebase Sample.code).Reachable .default ⟨⟨1⟩, 4⟩ ⟨⟨0⟩, 0⟩ :=
    .leads .root (hcall _ _ (by decide +kernel))
  have hsub : (Index.ofCodebase Sample.code).Reachable .default ⟨⟨1⟩, 4⟩ ⟨⟨1⟩, 0⟩ :=
    .override hbase (by decide +kernel)
  have hleaf : (Index.ofCodebase Sample.code).Reachable .default ⟨⟨1⟩, 4⟩ ⟨⟨1⟩, 1⟩ :=
    .leads hsub (hcall _ _ (by decide +kernel))
  obtain ⟨node, cache, -, hres⟩ := resolve_start_of_declarationOf hm
  obtain ⟨m, hm', -, hiff⟩ := isBuilt_iff_reachable hu (fun _ => rfl) hres
  rw [← Except.ok.inj (hm.symm.trans hm')] at hiff
  refine ⟨hu, _, _, hres, (hiff _).mpr ⟨_, hleaf, ?_⟩⟩
  decide +kernel

end Session

end JavaCallGraph
