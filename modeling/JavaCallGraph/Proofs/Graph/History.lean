import JavaCallGraph.Proofs.Graph.Memory
import JavaCallGraph.Proofs.Graph.Unambiguous
import Mathlib.Data.List.Induction

/-!
# Whether the history of a session matters

A request looks into the cache before it looks a declaration up.  So its outcome is the same at any
time only if the two agree: what is kept under a text should be a node for the method that the text
means.  `Session.Truthful` says this of a session, up to the written identity of the method, which is
all that the outcome shows.

A text gets a node in two ways.  Under a requested text stands a node of the method that the text
means.  Under its own identity stands every node, and whether this identity means its method is a
matter of the code base: not if another type of the same name comes first.  `Index.Findable` is the
condition on a method, and the only one that is needed:

* `Session.outcome_eq_meaning` — if all methods that are ever kept are findable, then the outcome of
  a request is what the text means, in every session;
* `Session.outcome_independent` — hence it is the same after any other requests;
* `Session.outcome_depends_sample` — it is not in a code base with two types of one name.
-/

set_option autoImplicit false

namespace JavaCallGraph

namespace Index

variable {i : Index} {m : MethodRef}

/-- The written identity of the method means a method with this written identity. -/
def Findable (i : Index) (m : MethodRef) : Prop :=
  ∃ id k, MethodId.parse? (i.code.methodId m).canonical = some id ∧
    i.code.findDeclaration? id = some k ∧
      (i.code.methodId k).canonical = (i.code.methodId m).canonical

/-- In an unambiguous code base all methods are findable. -/
theorem findable_of_unambiguous (h : i.code.Unambiguous) (hm : i.code.Declared m) :
    i.Findable m :=
  ⟨i.code.methodId m, m, MethodId.parse?_canonical (h.isNamed hm), h.findDeclaration?_methodId hm,
    rfl⟩

end Index

namespace Session

/-! ## What a text means -/

/-- The outcome of a request: the identity of the node, or an error. -/
def outcome (s : Session) (text : String) : Except Error String :=
  (s.resolve text).1.map MethodInfo.key

/-- The identity of the declaration that a text means. -/
def meaning (s : Session) (text : String) : Except Error String :=
  (s.declarationOf text).map fun m => (s.index.code.methodId m).canonical

/-- What is kept under a text is a node of the method that the text means. -/
def Truthful (s : Session) : Prop :=
  ∀ key v, s.cached? key = some v → s.meaning key = .ok v.key

variable {s s' : Session} {text : String}

theorem meaning_congr (h : s'.index = s.index) : s'.meaning = s.meaning := by
  funext text
  rw [meaning, meaning, declarationOf, declarationOf, h]

theorem meaning_of_declarationOf {m : MethodRef} (hm : s.declarationOf text = .ok m) :
    s.meaning text = .ok (s.index.code.methodId m).canonical := by
  rw [meaning, hm]
  rfl

/-- A text means what the written form of the identity means that is read from it. -/
theorem meaning_canonical {id : MethodId} (h : MethodId.parse? text = some id) :
    s.meaning id.canonical = s.meaning text := by
  rw [meaning, meaning, declarationOf, declarationOf, MethodId.parse, MethodId.parse, h,
    MethodId.parse?_canonical_of_parse? h]

/-- The written identity of a findable method means this identity. -/
theorem meaning_of_findable {m : MethodRef} (h : s.index.Findable m) :
    s.meaning (s.index.code.methodId m).canonical =
      .ok (s.index.code.methodId m).canonical := by
  obtain ⟨id, k, hid, hk, hkey⟩ := h
  have hdecl : s.declarationOf (s.index.code.methodId m).canonical = .ok k := by
    simp only [declarationOf, MethodId.parse, hid, bind, Except.bind, hk]
  rw [meaning_of_declarationOf hdecl, hkey]

/-- A request that fails changes nothing, and fails because the text means no declaration. -/
theorem resolve_eq_error {e : Error} (h : (s.resolve text).1 = .error e) :
    (s.resolve text).2 = s ∧ s.declarationOf text = .error e := by
  cases hhit : s.hit? text with
  | some node =>
    simp only [resolve, hhit] at h
    exact absurd h (by simp)
  | none =>
    cases hm : s.declarationOf text with
    | error e' =>
      simp only [resolve, hhit, hm] at h ⊢
      exact ⟨trivial, by rw [Except.error.inj h]⟩
    | ok m =>
      simp only [resolve, hhit, hm] at h
      exact absurd h (by simp)

/-! ## Truthful sessions -/

theorem Truthful.meaning_eq (h : s.Truthful) {node : MethodInfo} (hhit : s.hit? text = some node) :
    s.meaning text = .ok node.key := by
  rcases Option.or_eq_some_iff.mp hhit with hfound | ⟨-, hfound⟩
  · exact h text node hfound
  · obtain ⟨id, hid, hfound⟩ := Option.bind_eq_some_iff.mp hfound
    rw [← meaning_canonical hid]
    exact h _ node hfound

/-- The outcome of a request is what the text means, if the session is truthful afterwards. -/
theorem outcome_eq_of_truthful (h : (s.resolve text).2.Truthful) :
    s.outcome text = s.meaning text := by
  rw [outcome]
  cases hroot : (s.resolve text).1 with
  | error e =>
    rw [meaning, (resolve_eq_error hroot).2]
    rfl
  | ok root =>
    rw [← meaning_congr (extends_resolve s text).index, h.meaning_eq (hit?_resolve hroot)]
    rfl

/-- **A request keeps a session truthful**, if the methods it means and the methods that are kept
afterwards are findable. -/
theorem Truthful.resolve (h : s.Truthful) (hs : s.index.Owns s.cache)
    (hmeant : ∀ m, s.declarationOf text = .ok m → s.index.Findable m)
    (hkept : ∀ key v, (s.resolve text).2.cached? key = some v →
      ∀ m ∈ v.declaration, s.index.Findable m) : (s.resolve text).2.Truthful := by
  rcases resolve_cases s text with ⟨node, -, hres⟩ | ⟨e, hres⟩ | ⟨m, node, c, -, hm, hbuild, hres⟩
  · rw [hres]
    exact h
  · rw [hres]
    exact h
  · obtain ⟨-, -, hrec⟩ :=
      Index.build_records _ (.empty _) m s.cache node _ (declared_of_declarationOf hm) rfl hbuild
    intro key v hv
    rw [meaning_congr (extends_resolve s text).index]
    rw [hres] at hv hkept
    rcases Cache.find?_insertNew_eq_some hv with ⟨rfl, rfl⟩ | hfound
    · -- the node is kept under the identity of the method that the text means
      rw [meaning_of_declarationOf hm]
      rcases hrec.own _ v hrec.finished with hold | hown
      · rw [← h _ v hold, meaning_of_findable (hmeant m hm)]
      · rw [hown]
    · rcases hrec.own key v hfound with hold | rfl
      · exact h key v hold
      · obtain ⟨hbuilt, hall⟩ := hrec.owns hs _ v hfound
        obtain ⟨k, hk⟩ := hbuilt.exists
        rw [MethodInfo.key, (hall.here.declared k hk).2]
        exact meaning_of_findable (hkept _ v hv k hk)

/-! ## New sessions -/

variable {i : Index} {g : GraphConfig}

/-- All methods that are ever kept in the sessions on an index are findable. -/
def KeepsFindable (i : Index) (g : GraphConfig) : Prop :=
  ∀ texts key v, ((start i g).after texts).cached? key = some v →
    ∀ m ∈ v.declaration, i.Findable m

/-- A method that a text means is kept, when a new session is asked for it. -/
theorem KeepsFindable.of_declarationOf (h : KeepsFindable i g) {text : String} {m : MethodRef}
    (hm : (start i g).declarationOf text = .ok m) : i.Findable m := by
  obtain ⟨node, c, hbuild, hres⟩ := resolve_start_of_declarationOf hm
  obtain ⟨-, -, hrec⟩ := Index.build_records _ (.empty _) m .empty node _
    (declared_of_declarationOf hm) rfl hbuild
  have hcached : ((start i g).after [text]).cached? (i.code.methodId m).canonical = some node := by
    rw [after, after, hres]
    exact Cache.kept_insertNew _ _ _ _ node hrec.finished
  have hown : node.key = (i.code.methodId m).canonical := by
    rcases hrec.own _ node hrec.finished with hold | hown
    · exact absurd hold (by simp)
    · exact hown
  obtain ⟨hbuilt, hall⟩ := hrec.owns (.empty i) _ node hrec.finished
  obtain ⟨k, hk⟩ := hbuilt.exists
  obtain ⟨id, k', hid, hk', hkey⟩ := h [text] _ node hcached k hk
  have hnode : node.id = i.code.methodId k := (hall.here.declared k hk).2
  have hcanonical : (i.code.methodId k).canonical = (i.code.methodId m).canonical := by
    rw [← hown, MethodInfo.key, hnode]
  rw [hcanonical] at hid hkey
  exact ⟨id, k', hid, hk', hkey⟩

theorem truthful_after (h : KeepsFindable i g) (texts : List String) :
    ((start i g).after texts).Truthful := by
  induction texts using List.reverseRecOn with
  | nil => exact fun key v hv => absurd hv (by simp [after, start, cached?])
  | append_singleton texts text ih =>
    have hindex := (extends_after (start i g) texts).index
    have hlast : (start i g).after (texts ++ [text]) = (((start i g).after texts).resolve text).2 :=
      after_append _ _ _
    have hkept := h (texts ++ [text])
    rw [hlast] at hkept ⊢
    refine ih.resolve (by rw [hindex]; exact owns_after_start i g texts) (fun m hm => ?_) ?_
    · rw [declarationOf, hindex] at hm
      rw [hindex]
      exact h.of_declarationOf hm
    · rw [hindex]
      exact hkept

/-- **The outcome of a request is what the text means**, whatever was requested before. -/
theorem outcome_eq_meaning (h : KeepsFindable i g) (texts : List String) (text : String) :
    ((start i g).after texts).outcome text = (start i g).meaning text := by
  have hlast : (((start i g).after texts).resolve text).2 = (start i g).after (texts ++ [text]) :=
    (after_append (start i g) texts [text]).symm
  have htruthful := truthful_after h (texts ++ [text])
  rw [← hlast] at htruthful
  rw [outcome_eq_of_truthful htruthful, meaning_congr (extends_after (start i g) texts).index]

/-- **The outcome of a request does not depend on earlier requests**, if all methods that are ever
kept are findable: the same texts fail, with the same errors, and the others are answered with nodes
of the same identity.  And a request that fails leaves the session as it was, findable or not. -/
theorem outcome_independent (i : Index) (g : GraphConfig) (before : List String) (text : String) :
    (KeepsFindable i g →
      ((start i g).after before).outcome text = (start i g).outcome text) ∧
      ∀ e, (((start i g).after before).resolve text).1 = .error e →
        (((start i g).after before).resolve text).2 = (start i g).after before := by
  refine ⟨fun h => ?_, fun e he => (resolve_eq_error he).1⟩
  have hnew := outcome_eq_meaning h [] text
  rw [outcome_eq_meaning h before text]
  exact hnew.symm

/-- In an unambiguous code base all methods that are ever kept are findable. -/
theorem keepsFindable_of_unambiguous (h : i.code.Unambiguous) : KeepsFindable i g := by
  intro texts key v hv m hm
  exact i.findable_of_unambiguous h (((owns_after_start i g texts key v hv).2.here.declared m hm).1)

/-- In the code base with cycles `Sub.foo` is built for `Sub.root` already; a request for it has the
same outcome as in a new session, and so has one for a method that there is not. -/
theorem outcome_independent_sample :
    KeepsFindable (.ofCodebase Sample.code) .default ∧
      (Sample.start.after ["Sub#root()"]).outcome "Sub#foo()" = .ok "Sub#foo()" ∧
      ((Sample.start.after ["Sub#root()"]).resolve "Sub#bar()").2 =
        Sample.start.after ["Sub#root()"] := by
  have hu : Sample.code.Unambiguous := by decide +kernel
  have hfindable : KeepsFindable (.ofCodebase Sample.code) .default :=
    keepsFindable_of_unambiguous hu
  have hfoo := (outcome_independent (.ofCodebase Sample.code) .default ["Sub#root()"] "Sub#foo()").1
    hfindable
  have hbar := (outcome_independent (.ofCodebase Sample.code) .default ["Sub#root()"] "Sub#bar()").2
  have hfails : (Sample.start.after ["Sub#root()"]).outcome "Sub#bar()" =
      .error (.methodNotFound "Sub#bar()") := by decide +kernel
  refine ⟨hfindable, hfoo.trans (by decide +kernel), ?_⟩
  cases hres : ((Sample.start.after ["Sub#root()"]).resolve "Sub#bar()").1 with
  | ok root =>
    rw [outcome, hres] at hfails
    exact absurd hfails (by simp [Except.map])
  | error e => exact hbar e hres

end Session

/-! ## Two types of one name

`Base.run` is overridden in the second type called `A`, and so this is in the graph of `Base.run`.
But the text `A#run()` means a method of the first, which has none. -/

/-- A new session on two types called `A`. -/
def Sample.namesakeStart : Session :=
  .start (.ofCodebase
    { Sample.code with
      types := [Sample.classDecl "A" [] [], Sample.classDecl "Base" [] [Sample.method "run" []],
        Sample.classDecl "A" [.simple "Base"] [Sample.method "run" []]] }) .default

/-- **The outcome can depend on earlier requests.**  After one for `Base.run` a request succeeds that
fails in a new session. -/
theorem Session.outcome_depends_sample :
    ¬∀ (before : List String) (text : String),
      (Sample.namesakeStart.after before).outcome text = Sample.namesakeStart.outcome text := by
  intro h
  have hafter : (Sample.namesakeStart.after ["Base#run()"]).outcome "A#run()" = .ok "A#run()" := by
    decide +kernel
  have hnew : Sample.namesakeStart.outcome "A#run()" = .error (.methodNotFound "A#run()") := by
    decide +kernel
  rw [h, hnew] at hafter
  exact absurd hafter (by simp)

end JavaCallGraph
