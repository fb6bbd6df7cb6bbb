import JavaCallGraph.Proofs.Graph.Edges
import JavaCallGraph.Proofs.Graph.Memory

/-!
# Inferring less only removes edges

A call that certain resolution leaves open is inferred, unless inference is switched off or the name of
the receiver is excluded.  A configuration that infers less (`GraphConfig.InfersLess`) leaves more calls
open.  It could change the other edges too, for a body has only one edge to each callee: when a call is
left open, a later one to the same callee takes its place, and the two need not have been resolved in
the same way.

* `Codebase.resolveTarget?_mono` — a call that is not left open lands where it landed.
* `Codebase.Unambiguous.target_eq_of_key_eq` — the edge to a callee depends on its identity only, not on
  which of the calls of a body is taken: a declared callee is found by its identity, and for any other
  the identity names the type.
* `Index.mem_pairs` — so the edges of a node are those of all landings of its method.
* `Session.restriction_only_removes` — so a configuration that infers less gives some of the edges.
-/

set_option autoImplicit false

namespace JavaCallGraph

/-- Every call that the first configuration infers is one that the second infers. -/
structure GraphConfig.InfersLess (g g' : GraphConfig) : Prop where
  heuristics : g.heuristics = true → g'.heuristics = true
  excluded : g'.excludedReceivers ⊆ g.excludedReceivers

namespace Codebase

variable {c : Codebase} {g g' : GraphConfig}

/-! ## Calls -/

/-- A receiver that is not excluded is not excluded by fewer names either. -/
theorem inferCall?_mono {excluded excluded' : List String} (hsub : excluded' ⊆ excluded)
    {ctx : ExprContext} {call : MethodCall} {k : InferredCall}
    (h : c.inferCall? excluded ctx call = some k) : c.inferCall? excluded' ctx call = some k := by
  rw [inferCall?] at h ⊢
  cases hname : call.receiverName? with
  | none =>
    simp only [hname] at h ⊢
    exact h
  | some n =>
    simp only [hname] at h ⊢
    by_cases hn : excluded.contains n = true
    · rw [if_pos hn] at h
      exact absurd h (by simp)
    · rw [if_neg hn] at h
      have hn' : ¬excluded'.contains n = true := by
        rw [List.contains_iff_mem] at hn ⊢
        exact fun hmem => hn (hsub hmem)
      rw [if_neg hn']
      exact h

/-- **A call that is not left open lands where it lands when more is inferred.** -/
theorem resolveTarget?_mono (hle : g.InfersLess g') {ctx : ExprContext} {call : MethodCall}
    {t : CallTarget} (h : c.resolveTarget? g ctx call = some t) :
    c.resolveTarget? g' ctx call = some t := by
  rw [resolveTarget?] at h ⊢
  split
  · next r hr =>
    simp only [hr] at h
    exact h
  · next hopen =>
    simp only [hopen] at h
    by_cases hg : g.heuristics = true
    · rw [if_pos hg] at h
      rw [if_pos (hle.heuristics hg)]
      obtain ⟨k, hk, rfl⟩ := Option.map_eq_some_iff.mp h
      rw [inferCall?_mono hle.excluded hk]
      rfl
    · rw [if_neg hg] at h
      exact absurd h (by simp)

theorem landings_subset (hle : g.InfersLess g') (m : MethodRef) :
    c.landings g m ⊆ c.landings g' m := by
  intro t ht
  obtain ⟨s, hs, hst⟩ := mem_landings.mp ht
  exact mem_landings.mpr ⟨s, hs, resolveTarget?_mono hle hst⟩

/-! ## Callees -/

namespace Unambiguous

/-- The identity of a guessed callee names the type that it is declared on, if no declaration answers
to the identity. -/
theorem name_identifyOn (h : c.Unambiguous) {owner : TypeInfo} {name : String}
    {args : List TypeInfo} (hnone : c.findDeclaration? (c.identifyOn owner name args).id = none) :
    (c.identifyOn owner name args).declaring.name =
      (c.identifyOn owner name args).id.declaringType := by
  unfold identifyOn at hnone ⊢
  split
  · split <;> rfl
  · simp only at hnone
    split
    · next id n m hm =>
      -- the identity is that of a declared method, which is found
      simp only [hm] at hnone
      have hmem : m ∈ [m] := List.mem_cons_self
      rw [← hm] at hmem
      have hd := declared_of_mem_methodsOf (List.mem_filter.mp hmem).1
      rw [h.findDeclaration?_methodId hd] at hnone
      exact absurd hnone (by simp)
    · rfl
  · rfl

/-- The identity of a callee without a declaration names the type that it is declared on. -/
theorem name_declaring (h : c.Unambiguous) {ctx : ExprContext} {call : MethodCall} {t : CallTarget}
    (ht : c.resolveTarget? g ctx call = some t) (hd : t.declaration = none) :
    t.declaring.name = t.id.declaringType := by
  rw [resolveTarget?] at ht
  split at ht
  · rw [← Option.some.inj ht]
    rfl
  · split at ht
    · obtain ⟨k, hk, rfl⟩ := Option.map_eq_some_iff.mp ht
      rw [inferredTarget] at hd ⊢
      split at hd
      · exact absurd hd (by simp)
      · next hnone =>
        obtain ⟨args, owner, -, -, rfl⟩ := Obeys.exists_of_inferCall? hk
        exact h.name_identifyOn hnone
    · exact absurd ht (by simp)

/-- **The edge to a callee depends on its identity only.**  Two landings of a method with the same
written identity have the same identity, and the same relation to any caller. -/
theorem target_eq_of_key_eq {i : Index} (h : i.code.Unambiguous) {m : MethodRef}
    (hm : i.code.Declared m) {t u : CallTarget} (ht : t ∈ i.code.landings g m)
    (hu : u ∈ i.code.landings g' m) (hkey : t.key = u.key) (caller : TypeInfo) :
    t.id = u.id ∧ i.targetRelation caller t = i.targetRelation caller u := by
  obtain ⟨s, hs, hst⟩ := mem_landings.mp ht
  obtain ⟨s', hs', hsu⟩ := mem_landings.mp hu
  have htlands := h.obeys.lands hm hs hst
  have hulands := h.obeys.lands hm hs' hsu
  cases hd : t.declaration with
  | some k =>
    obtain ⟨hk, htid, htdecl⟩ := htlands.declared k hd
    have hukey : u.key = (i.code.methodId k).canonical := by
      rw [← hkey, ← htid]
      rfl
    have hud := h.declaration_of_key_eq hm hu hk hukey
    obtain ⟨-, huid, hudecl⟩ := hulands.declared k hud
    refine ⟨htid.trans huid.symm, ?_⟩
    simp only [Index.targetRelation, hd, hud, htdecl, hudecl]
  | none =>
    have hid : t.id = u.id :=
      MethodId.eq_of_canonical_eq (h.obeys.spelled_target hm hs hst).isNamed
        (h.obeys.spelled_target hm hs' hsu).isNamed hkey
    have hud : u.declaration = none := by
      -- a declared callee would be found by the identity that the other one has too
      cases hud : u.declaration with
      | none => rfl
      | some k =>
        obtain ⟨hk, huid, -⟩ := hulands.declared k hud
        have htkey : t.key = (i.code.methodId k).canonical := by
          rw [hkey, ← huid]
          rfl
        have hboth := h.declaration_of_key_eq hm ht hk htkey
        rw [hd] at hboth
        exact absurd hboth (by simp)
    refine ⟨hid, ?_⟩
    simp only [Index.targetRelation, hd, hud, h.name_declaring hst hd, h.name_declaring hsu hud, hid]

end Unambiguous

end Codebase

/-! ## Edges -/

namespace Index

variable {i : Index} {g g' : GraphConfig} {m : MethodRef} {b : MethodInfo}

/-- **The edges of a node are those of all landings of its method**, without those that the
configuration drops. -/
theorem mem_pairs (h : i.code.Unambiguous) {keep : Relation → Bool}
    (hkeep : ∀ e, g.callingFilter e = keep e.relation) (hb : i.Describes g m b)
    {id : MethodId} {r : Relation} :
    (∃ e ∈ b.dependencies, e.calleeId = id ∧ e.relation = r) ↔
      keep r = true ∧ ∃ t ∈ i.code.landings g m,
        t.id = id ∧ i.targetRelation (i.code.sourceType m.owner) t = r := by
  obtain ⟨es, hes, hdeps⟩ := hb.edges
  have hpairs := map_of_draws hes
  constructor
  · rintro ⟨e, he, rfl, rfl⟩
    rw [hdeps] at he
    obtain ⟨he, hkept⟩ := List.mem_filter.mp he
    rw [hkeep] at hkept
    have hmem : (e.calleeId, e.relation) ∈ es.map fun e => (e.calleeId, e.relation) :=
      List.mem_map_of_mem he
    rw [← hpairs] at hmem
    obtain ⟨t, ht, hpair⟩ := List.mem_map.mp hmem
    obtain ⟨hid, hrel⟩ := Prod.mk.inj hpair
    exact ⟨hkept, t, Codebase.mem_landings_of_mem_targets ht, hid, hrel⟩
  · rintro ⟨hkept, t, ht, rfl, rfl⟩
    obtain ⟨u, hu, hkey⟩ := Codebase.exists_mem_targets ht
    obtain ⟨hid, hrel⟩ := h.target_eq_of_key_eq hb.declared
      (Codebase.mem_landings_of_mem_targets hu) ht hkey (i.code.sourceType m.owner)
    have hmem : (u.id, i.targetRelation (i.code.sourceType m.owner) u) ∈
        (i.code.targets g m).map fun t =>
          (t.id, i.targetRelation (i.code.sourceType m.owner) t) := List.mem_map_of_mem hu
    rw [hpairs] at hmem
    obtain ⟨e, he, hpair⟩ := List.mem_map.mp hmem
    obtain ⟨heid, herel⟩ := Prod.mk.inj hpair
    refine ⟨e, ?_, heid.trans hid, herel.trans hrel⟩
    rw [hdeps, List.mem_filter, hkeep, herel, hrel]
    exact ⟨he, hkept⟩

/-- Two nodes of a method, under a configuration and one that infers more. -/
theorem edge_of_infersLess (h : i.code.Unambiguous) (hle : g.InfersLess g') {keep : Relation → Bool}
    (hkeep : ∀ e, g.callingFilter e = keep e.relation)
    (hkeep' : ∀ e, g'.callingFilter e = keep e.relation) {b' : MethodInfo}
    (hb : i.Describes g m b) (hb' : i.Describes g' m b') {e : Calling} (he : e ∈ b.dependencies) :
    ∃ e' ∈ b'.dependencies, e'.calleeId = e.calleeId ∧ e'.relation = e.relation := by
  obtain ⟨hkept, t, ht, hid, hrel⟩ := (mem_pairs h hkeep hb).mp ⟨e, he, rfl, rfl⟩
  exact (mem_pairs h hkeep' hb').mpr ⟨hkept, t, Codebase.landings_subset hle m ht, hid, hrel⟩

theorem relation_eq_of_calleeId_eq (h : i.code.Unambiguous) {keep : Relation → Bool}
    (hkeep : ∀ e, g.callingFilter e = keep e.relation)
    (hkeep' : ∀ e, g'.callingFilter e = keep e.relation) {b' : MethodInfo}
    (hb : i.Describes g m b) (hb' : i.Describes g' m b') {e e' : Calling}
    (he : e ∈ b.dependencies) (he' : e' ∈ b'.dependencies)
    (hkey : e.calleeId.canonical = e'.calleeId.canonical) : e.relation = e'.relation := by
  obtain ⟨-, t, ht, hid, hrel⟩ := (mem_pairs h hkeep hb).mp ⟨e, he, rfl, rfl⟩
  obtain ⟨-, u, hu, huid, hurel⟩ := (mem_pairs h hkeep' hb').mp ⟨e', he', rfl, rfl⟩
  have htu : t.key = u.key := by
    rw [CallTarget.key, CallTarget.key, hid, huid]
    exact hkey
  rw [← hrel, ← hurel]
  exact (h.target_eq_of_key_eq hb.declared ht hu htu _).2

end Index

namespace Session

variable {i : Index} {g g' : GraphConfig}

/-- **Inferring less only removes edges.**  Take an unambiguous code base, and two configurations of
which the first infers less: without heuristics, or with more excluded receivers.  Let both look at
nothing but the relation of an edge, in the same way.  Every declared method has a node under both.

* A call of its body that is not left open under the first lands in the same place under the second.
* In whatever answers of two sessions the two nodes stand, every edge under the first has its like
  under the second, with the same callee and the same relation, and no two edges to one callee have
  different relations. -/
theorem restriction_only_removes (h : i.code.Unambiguous) (hle : g.InfersLess g')
    (keep : Relation → Bool) (hkeep : ∀ e, g.callingFilter e = keep e.relation)
    (hkeep' : ∀ e, g'.callingFilter e = keep e.relation) {m : MethodRef}
    (hm : i.code.Declared m) :
    (∀ f : GraphConfig, ∃ root s,
      (start i f).resolve (i.code.methodId m).canonical = (.ok root, s) ∧
        root.declaration = some m) ∧
      (∀ s ∈ i.code.callSites m, ∀ t,
        i.code.resolveTarget? g (i.code.context m s.scope) s.call = some t →
          i.code.resolveTarget? g' (i.code.context m s.scope) s.call = some t) ∧
      ∀ texts texts' root root', .ok root ∈ Command.resolveAll (start i g) texts →
        .ok root' ∈ Command.resolveAll (start i g') texts' →
        ∀ b b' : MethodInfo, b.Occurs root → b'.Occurs root' → b.declaration = some m →
          b'.declaration = some m → ∀ e ∈ b.dependencies,
            (∃ e' ∈ b'.dependencies, e'.calleeId = e.calleeId ∧ e'.relation = e.relation) ∧
              ∀ e' ∈ b'.dependencies, e.calleeId.canonical = e'.calleeId.canonical →
                e.relation = e'.relation := by
  refine ⟨fun f => ?_, fun s _ t => Codebase.resolveTarget?_mono hle, ?_⟩
  · obtain ⟨root, s, hres, hroot, -⟩ := resolve_start_methodId (g := f) h hm
    exact ⟨root, s, hres, hroot⟩
  · intro texts texts' root root' hroot hroot' b b' hb hb' hdecl hdecl' e he
    have hdesc := (accurate_of_mem_resolveAll h (.empty i g) hroot b hb).built m hdecl
    have hdesc' := (accurate_of_mem_resolveAll h (.empty i g') hroot' b' hb').built m hdecl'
    refine ⟨Index.edge_of_infersLess h hle hkeep hkeep' hdesc hdesc' he, fun e' he' hkey => ?_⟩
    exact Index.relation_eq_of_calleeId_eq h hkeep hkeep' hdesc hdesc' he he' hkey

end Session

namespace Sample

/-- A class with a method that makes two calls, the second one with a negative number, whose type is
only inferred. -/
def guessing : Codebase :=
  { code with types := [classDecl "D" []
      [unary "f" (.primitive .int) [], method "h" [],
       method "g" [call none "h", ⟨⟨none, "f", [.unary .neg (.literal .int)]⟩, 0, 1⟩]]] }

/-- Nothing is inferred. -/
def certain : GraphConfig := { GraphConfig.default with heuristics := false }

end Sample

/-- Without heuristics the second call is left open, and the first keeps its edge. -/
theorem Session.restriction_only_removes_sample :
    Sample.guessing.Unambiguous ∧ Sample.certain.InfersLess .default ∧
      ∃ root root', .ok root ∈ Command.resolveAll (.start (.ofCodebase Sample.guessing) Sample.certain)
          ["D#g()"] ∧
        .ok root' ∈ Command.resolveAll (.start (.ofCodebase Sample.guessing) .default) ["D#g()"] ∧
        root.dependencies.map Calling.calleeId = [⟨"D", "h", []⟩] ∧
        root'.dependencies.map Calling.calleeId = [⟨"D", "h", []⟩, ⟨"D", "f", ["int"]⟩] ∧
        ∀ e ∈ root.dependencies, ∃ e' ∈ root'.dependencies,
          e'.calleeId = e.calleeId ∧ e'.relation = e.relation := by
  have hu : Sample.guessing.Unambiguous := by decide +kernel
  have hle : Sample.certain.InfersLess .default := ⟨nofun, List.Subset.refl _⟩
  have hm : Sample.guessing.Declared ⟨⟨0⟩, 2⟩ :=
    Codebase.declared_of_mem_methodsOf
      (by decide +kernel : ⟨⟨0⟩, 2⟩ ∈ Sample.guessing.methodsOf ⟨0⟩)
  have hfirst : ((start (.ofCodebase Sample.guessing) Sample.certain).resolve
      "D#g()").1.toOption.map (fun root => (root.declaration,
        root.dependencies.map Calling.calleeId)) =
      some (some ⟨⟨0⟩, 2⟩, [⟨"D", "h", []⟩]) := by decide +kernel
  have hsecond : ((start (.ofCodebase Sample.guessing) .default).resolve
      "D#g()").1.toOption.map (fun root => (root.declaration,
        root.dependencies.map Calling.calleeId)) =
      some (some ⟨⟨0⟩, 2⟩, [⟨"D", "h", []⟩, ⟨"D", "f", ["int"]⟩]) := by decide +kernel
  obtain ⟨root, hroot, hfacts⟩ := exists_answer hfirst
  obtain ⟨root', hroot', hfacts'⟩ := exists_answer hsecond
  obtain ⟨hdecl, hedges⟩ := Prod.mk.inj hfacts
  obtain ⟨hdecl', hedges'⟩ := Prod.mk.inj hfacts'
  have hmem := mem_resolveAll.mpr ⟨[], "D#g()", [], rfl, hroot⟩
  have hmem' := mem_resolveAll.mpr ⟨[], "D#g()", [], rfl, hroot'⟩
  obtain ⟨-, -, hless⟩ := restriction_only_removes (i := .ofCodebase Sample.guessing) hu hle
    (fun _ => true) (fun _ => rfl) (fun _ => rfl) hm
  refine ⟨hu, hle, root, root', hmem, hmem', hedges, hedges', fun e he => ?_⟩
  exact (hless _ _ root root' hmem hmem' root root' .here .here hdecl hdecl' e he).1

end JavaCallGraph
