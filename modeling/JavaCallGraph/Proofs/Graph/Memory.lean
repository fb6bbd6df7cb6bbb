import JavaCallGraph.Command.Run
import JavaCallGraph.Proofs.Graph.Runs
import JavaCallGraph.Proofs.Graph.Termination

/-!
# What a session remembers

A session adds nodes to its cache in two places: at the end of a traversal step, under the identity
of the method, and at the end of a request, under the requested text.  Neither depends on the code
base being unambiguous.  What is true of every session is

* `Index.Owns` — whatever is in the cache is the root of a graph whose built nodes are all in the
  cache under their own identity (`Index.Holds`);
* `Index.Records` — a traversal step keeps it so, and what it adds is added under its own identity;
* `Session.Extends` — so a later session has all that an earlier one had, and whatever else it has
  is under its own identity or under a text that was requested.

Hence the built nodes of all answers are nodes of one cache (`Session.holds_of_occurs`), and what is
true of every new node is true of all nodes of all answers (`Session.holds_in_answers`).
-/

set_option autoImplicit false

namespace JavaCallGraph

namespace Index

/-! ## The nodes of a cache -/

/-- A built node has the identity of a declared method and is the one kept for it; a bare node
carries nothing but its identity. -/
structure Holds (i : Index) (c : Cache) (b : MethodInfo) : Prop where
  declared : ∀ m ∈ b.declaration, i.code.Declared m ∧ b.id = i.code.methodId m
  cached : b.IsBuilt → c.find? b.key = some b
  bare : ¬b.IsBuilt → b.dependencies = [] ∧ b.overrides = []

/-- All nodes in the cache are built, and so are kept all built nodes of their graphs. -/
def Owns (i : Index) (c : Cache) : Prop :=
  ∀ key v, c.find? key = some v → v.IsBuilt ∧ v.Everywhere (i.Holds c)

variable {i : Index} {g : GraphConfig} {x : ResolutionContext}

theorem lasting_holds (i : Index) : MethodInfo.Lasting i.Holds where
  mono hkept hb := ⟨hb.declared, fun hbuilt => hkept _ _ (hb.cached hbuilt), hb.bare⟩
  reference c id :=
    ⟨fun _ hm => absurd hm (by simp [MethodInfo.declaration_reference]),
      fun hbuilt => absurd hbuilt (MethodInfo.not_isBuilt_reference id), fun _ => ⟨rfl, rfl⟩⟩

theorem Owns.empty (i : Index) : i.Owns .empty := fun _ _ h =>
  absurd h (by simp)

theorem Owns.insertNew {c : Cache} {key : String} {node : MethodInfo} (hc : i.Owns c)
    (hbuilt : node.IsBuilt) (hn : node.Everywhere (i.Holds (c.insertNew key node))) :
    i.Owns (c.insertNew key node) := by
  intro other v hv
  rcases Cache.find?_insertNew_eq_some hv with ⟨-, rfl⟩ | hv
  · exact ⟨hbuilt, hn⟩
  · obtain ⟨hv', hall⟩ := hc other v hv
    exact ⟨hv', hall.imp fun _ => (lasting_holds i).mono (Cache.kept_insertNew _ _ _)⟩

/-- A node that the cache has may be added under another key. -/
theorem Owns.alias {c : Cache} {text key : String} {node : MethodInfo} (hc : i.Owns c)
    (hnode : c.find? key = some node) : i.Owns (c.insertNew text node) := by
  obtain ⟨hbuilt, hall⟩ := hc key node hnode
  exact hc.insertNew hbuilt
    (hall.imp fun _ => (lasting_holds i).mono (Cache.kept_insertNew _ _ _))

/-! ## The traversal -/

/-- A call of `build` for a method leaves it finished, adds nodes only under their own identity, and
does not add any node without the built nodes of its graph. -/
structure Records (i : Index) (m : MethodRef) (c : Cache) (node : MethodInfo) (c' : Cache) :
    Prop where
  finished : c'.find? (i.code.methodId m).canonical = some node
  own : ∀ key v, c'.find? key = some v → c.find? key = some v ∨ v.key = key
  owns : i.Owns c → i.Owns c'

/-- **The traversal records what it builds.** -/
theorem build_records (n : Nat) (hx : x.Sound i.code) : i.Nests x i.Records (i.build g n) := by
  refine build_induction (P := fun _ => i.Records) ?_ ?_ n hx
  · intro x m c node _ _ hfound
    exact ⟨hfound, fun _ _ hv => Or.inl hv, id⟩
  · intro x m c edges c₁ nodes c₂ hmiss
    have hself := Cache.find?_insertNew_self (i.nodeOf m edges nodes) hmiss.missing_still
    have hown : ∀ key v, c₂.find? key = some v → c.find? key = some v ∨ v.key = key :=
      hmiss.related (R := fun a b => ∀ key v, b.find? key = some v →
          a.find? key = some v ∨ v.key = key)
        (fun _ _ _ hv => Or.inl hv)
        (fun hab hbc key v hv => (hbc key v hv).elim (hab key v) Or.inr)
        (fun hn => hn.holds.own)
    refine ⟨hself, fun key v hv => ?_, fun hc => ?_⟩
    · rcases Cache.find?_insertNew_eq_some hv with ⟨rfl, rfl⟩ | hv
      · exact Or.inr rfl
      · exact hown key v hv
    · obtain ⟨hc₂, hchildren⟩ := hmiss.everywhere (lasting_holds i) (fun hn ha =>
        ⟨hn.holds.owns ha, (hn.holds.owns ha _ _ hn.holds.finished).2⟩) hc
      refine hc₂.insertNew rfl (.of_children ⟨?_, fun _ => hself, fun hb => absurd rfl hb⟩ ?_)
      · intro k hk
        rw [← Option.some.inj hk]
        exact ⟨hmiss.declared, rfl⟩
      · exact fun k hk => (hchildren k hk).imp fun _ =>
          (lasting_holds i).mono (Cache.kept_insertNew _ _ _)

/-! ## What is true of new nodes -/

/-- A property that all nodes of the graphs in the cache have. -/
def Keeps (q : Cache → MethodInfo → Prop) (c : Cache) : Prop :=
  ∀ key v, c.find? key = some v → v.Everywhere (q c)

variable {q : Cache → MethodInfo → Prop}

theorem Keeps.insertNew (hq : MethodInfo.Lasting q) {c : Cache} {key : String} {node : MethodInfo}
    (hc : Keeps q c) (hn : node.Everywhere (q (c.insertNew key node))) :
    Keeps q (c.insertNew key node) := by
  intro other v hv
  rcases Cache.find?_insertNew_eq_some hv with ⟨-, rfl⟩ | hv
  · exact hn
  · exact (hc other v hv).imp fun _ => hq.mono (Cache.kept_insertNew _ _ _)

/-- The property holds of every node that comes from a miss, if the nested calls record what they
build. -/
def HoldsOfNew (i : Index) (g : GraphConfig) (q : Cache → MethodInfo → Prop) : Prop :=
  ∀ {P : ResolutionContext → MethodRef → Cache → MethodInfo → Cache → Prop},
    (∀ {x m c node c'}, P x m c node c' → i.Records m c node c') →
      ∀ {x m c edges c₁ nodes c₂}, i.Miss g P x m c edges c₁ nodes c₂ → i.Owns c →
        q (c₂.insertNew (i.code.methodId m).canonical (i.nodeOf m edges nodes))
          (i.nodeOf m edges nodes)

/-- **What is true of new nodes is true of all nodes that the traversal leaves in the cache.** -/
theorem build_keeps (hq : MethodInfo.Lasting q) (hnew : i.HoldsOfNew g q) (n : Nat)
    (hx : x.Sound i.code) :
    i.Nests x (fun _ c _ c' => i.Owns c ∧ Keeps q c → Keeps q c') (i.build g n) := by
  refine build_induction_with (P := fun _ _ c _ c' => i.Owns c ∧ Keeps q c → Keeps q c')
    (Q := fun _ => i.Records) (fun n x hx => build_records n hx) ?_ ?_ n hx
  · exact fun _ _ _ hc => hc.2
  · rintro x m c edges c₁ nodes c₂ hmiss - ⟨howns, hc⟩
    have hnode := hnew (fun h => h.1) hmiss howns
    obtain ⟨⟨-, hc₂⟩, hchildren⟩ := hmiss.everywhere (I := fun c => i.Owns c ∧ Keeps q c) hq
      (fun hn ha =>
        have hb := hn.holds.2 ha
        ⟨⟨hn.holds.1.owns ha.1, hb⟩, hb _ _ hn.holds.1.finished⟩) ⟨howns, hc⟩
    refine hc₂.insertNew hq (.of_children hnode fun k hk => ?_)
    exact (hchildren k hk).imp fun _ => hq.mono (Cache.kept_insertNew _ _ _)

end Index

/-! ## Requests -/

namespace Session

/-- The session after some requests. -/
def after (s : Session) : List String → Session
  | [] => s
  | text :: texts => (s.resolve text).2.after texts

theorem after_append (s : Session) (before more : List String) :
    s.after (before ++ more) = (s.after before).after more := by
  induction before generalizing s with
  | nil => rfl
  | cons text before ih => exact ih _

theorem after_concat (s : Session) (before : List String) (text : String) :
    s.after (before ++ [text]) = ((s.after before).resolve text).2 := after_append s before [text]

/-- What every request preserves is preserved by all of them. -/
theorem after_induction {P : Session → Prop} (step : ∀ s text, P s → P (s.resolve text).2)
    {s : Session} (hs : P s) (texts : List String) : P (s.after texts) := by
  induction texts generalizing s with
  | nil => exact hs
  | cons text texts ih => exact ih (step s text hs)

/-- The answers are those to the single requests, each in the session after the ones before it. -/
theorem mem_resolveAll {s : Session} {texts : List String} {r : Except Error MethodInfo} :
    r ∈ Command.resolveAll s texts ↔
      ∃ before text more, texts = before ++ text :: more ∧ ((s.after before).resolve text).1 = r := by
  induction texts generalizing s with
  | nil => simp [Command.resolveAll]
  | cons text texts ih =>
    rw [Command.resolveAll, List.mem_cons, ih]
    constructor
    · rintro (rfl | ⟨before, text', more, rfl, hr⟩)
      · exact ⟨[], text, texts, rfl, rfl⟩
      · exact ⟨text :: before, text', more, rfl, hr⟩
    · rintro ⟨before, text', more, he, hr⟩
      cases before with
      | nil =>
        obtain ⟨rfl, rfl⟩ := List.cons.inj he
        exact Or.inl hr.symm
      | cons first before =>
        obtain ⟨rfl, rfl⟩ := List.cons.inj he
        exact Or.inr ⟨before, text', more, rfl, hr⟩

/-- An answer, given by something that is true of it. -/
theorem exists_answer {α : Type} {s : Session} {text : String} {f : MethodInfo → α} {a : α}
    (h : (s.resolve text).1.toOption.map f = some a) :
    ∃ root, (s.resolve text).1 = .ok root ∧ f root = a := by
  cases hres : (s.resolve text).1 with
  | error e =>
    rw [hres] at h
    exact absurd h (by simp [Except.toOption])
  | ok root =>
    rw [hres] at h
    exact ⟨root, rfl, Option.some.inj h⟩

/-- A session that comes after requests for some texts: nothing is lost, and what is new is kept
under its own identity or under a requested text that had no answer in the cache. -/
structure Extends (s : Session) (texts : List String) (s' : Session) : Prop where
  index : s'.index = s.index
  config : s'.config = s.config
  kept : ∀ key v, s.cached? key = some v → s'.cached? key = some v
  own : ∀ key v, s'.cached? key = some v →
    s.cached? key = some v ∨ v.key = key ∨ key ∈ texts ∧ s.hit? key = none
  owns : s.index.Owns s.cache → s'.index.Owns s'.cache

theorem Extends.refl (s : Session) (texts : List String) : s.Extends texts s :=
  ⟨rfl, rfl, fun _ _ h => h, fun _ _ h => Or.inl h, id⟩

/-- A text that has an answer in the cache keeps having one. -/
theorem Extends.hit?_isSome {s s' : Session} {texts : List String} (h : s.Extends texts s')
    {text : String} (hhit : s'.hit? text = none) : s.hit? text = none := by
  rw [hit?, Option.or_eq_none_iff] at hhit ⊢
  have hnone : ∀ key, s'.cached? key = none → s.cached? key = none := by
    intro key hkey
    rw [Option.eq_none_iff_forall_ne_some] at hkey ⊢
    exact fun v hv => hkey v (h.kept key v hv)
  refine ⟨hnone text hhit.1, ?_⟩
  rw [Option.bind_eq_none_iff] at hhit ⊢
  exact fun id hid => hnone _ (hhit.2 id hid)

theorem Extends.trans {s s' s'' : Session} {texts texts' : List String} (h : s.Extends texts s')
    (h' : s'.Extends texts' s'') : s.Extends (texts ++ texts') s'' where
  index := h'.index.trans h.index
  config := h'.config.trans h.config
  kept key v hv := h'.kept key v (h.kept key v hv)
  own key v hv := by
    rcases h'.own key v hv with hv | hv | ⟨hmem, hhit⟩
    · rcases h.own key v hv with hv | hv | ⟨hmem, hhit⟩
      · exact Or.inl hv
      · exact Or.inr (Or.inl hv)
      · exact Or.inr (Or.inr ⟨List.mem_append_left _ hmem, hhit⟩)
    · exact Or.inr (Or.inl hv)
    · exact Or.inr (Or.inr ⟨List.mem_append_right _ hmem, h.hit?_isSome hhit⟩)
  owns hs := h'.owns (h.owns hs)

/-- **A request only adds to the cache.** -/
theorem extends_resolve (s : Session) (text : String) : s.Extends [text] (s.resolve text).2 := by
  rcases resolve_cases s text with ⟨node, hhit, hres⟩ | ⟨e, hres⟩ | hbuilt
  · rw [hres]
    exact .refl s _
  · rw [hres]
    exact .refl s _
  · obtain ⟨m, node, c', hmiss, hm, hbuild, hres⟩ := hbuilt
    obtain ⟨-, hframe, hrec⟩ :=
      Index.build_records _ (.empty _) m s.cache node _ (declared_of_declarationOf hm) rfl hbuild
    rw [hres]
    refine ⟨rfl, rfl, fun key v hv => ?_, fun key v hv => ?_, fun hs => ?_⟩
    · exact Cache.kept_insertNew c' text node key v (hframe.kept key v hv)
    · rcases Cache.find?_insertNew_eq_some hv with ⟨rfl, rfl⟩ | hv
      · exact Or.inr (Or.inr ⟨List.mem_singleton_self _, hmiss⟩)
      · exact (hrec.own key v hv).imp_right Or.inl
    · exact (hrec.owns hs).alias hrec.finished

theorem extends_after (s : Session) (texts : List String) : s.Extends texts (s.after texts) := by
  induction texts generalizing s with
  | nil => exact .refl s []
  | cons text texts ih => exact (extends_resolve s text).trans (ih _)

/-- A text that was answered has an answer in the cache. -/
theorem hit?_resolve {s : Session} {text : String} {root : MethodInfo}
    (hroot : (s.resolve text).1 = .ok root) : (s.resolve text).2.hit? text = some root := by
  rcases resolve_cases s text with ⟨node, hhit, hres⟩ | ⟨e, hres⟩ | ⟨m, node, c', -, -, -, hres⟩
  · rw [hres] at hroot ⊢
    rw [← Except.ok.inj hroot, hhit]
  · rw [hres] at hroot
    exact absurd hroot (by simp)
  · rw [hres] at hroot ⊢
    have hcached : cached? ⟨s.index, s.config, c'.insertNew text node⟩ text = some root := by
      rw [← Except.ok.inj hroot]
      exact Cache.find?_insertNew c' text node
    rw [hit?, hcached, Option.some_or]

theorem exists_cached_of_hit? {s : Session} {text : String} {root : MethodInfo}
    (h : s.hit? text = some root) : ∃ key, s.cached? key = some root := by
  rcases Option.or_eq_some_iff.mp h with h | ⟨-, h⟩
  · exact ⟨text, h⟩
  · obtain ⟨id, -, hid⟩ := Option.bind_eq_some_iff.mp h
    exact ⟨_, hid⟩

/-! ## Answers -/

variable {i : Index} {g : GraphConfig}

theorem owns_after_start (i : Index) (g : GraphConfig) (texts : List String) :
    i.Owns ((start i g).after texts).cache := by
  have h := extends_after (start i g) texts
  have howns := h.owns (Index.Owns.empty i)
  rwa [h.index] at howns

/-- The session keeps what it has answered. -/
theorem exists_cached_of_mem_resolveAll {texts : List String} {root : MethodInfo}
    (hroot : .ok root ∈ Command.resolveAll (start i g) texts) :
    ∃ key, ((start i g).after texts).cached? key = some root := by
  obtain ⟨before, text, more, rfl, hres⟩ := mem_resolveAll.mp hroot
  obtain ⟨key, hkey⟩ := exists_cached_of_hit? (hit?_resolve hres)
  refine ⟨key, ?_⟩
  rw [after_append]
  exact (extends_after _ more).kept key root hkey

/-- **The built nodes of all answers are nodes of one cache.** -/
theorem holds_of_occurs {texts : List String} {root b : MethodInfo}
    (hroot : .ok root ∈ Command.resolveAll (start i g) texts) (hb : b.Occurs root) :
    i.Holds ((start i g).after texts).cache b := by
  obtain ⟨key, hkey⟩ := exists_cached_of_mem_resolveAll hroot
  exact (owns_after_start i g _ key root hkey).2 b hb

/-- A request keeps the property, too: it adds nodes that the traversal gives. -/
theorem keeps_resolve {q : Cache → MethodInfo → Prop} (hq : MethodInfo.Lasting q) {s : Session}
    (hnew : s.index.HoldsOfNew s.config q) (howns : s.index.Owns s.cache)
    (hs : Index.Keeps q s.cache) (text : String) : Index.Keeps q (s.resolve text).2.cache := by
  rcases resolve_cases s text with ⟨node, -, hres⟩ | ⟨e, hres⟩ | ⟨m, node, c', -, hm, hbuild, hres⟩
  · rw [hres]
    exact hs
  · rw [hres]
    exact hs
  · have hd := declared_of_declarationOf hm
    obtain ⟨-, -, hrec⟩ := Index.build_records _ (.empty _) m s.cache node _ hd rfl hbuild
    obtain ⟨-, -, hkeeps⟩ := Index.build_keeps hq hnew _ (.empty _) m s.cache node _ hd rfl hbuild
    have hc' := hkeeps ⟨howns, hs⟩
    rw [hres]
    refine hc'.insertNew hq ((hc' _ _ hrec.finished).imp fun _ => ?_)
    exact hq.mono (Cache.kept_insertNew _ _ _)

/-- **What is true of new nodes is true of all nodes of all answers.** -/
theorem holds_in_answers {q : Cache → MethodInfo → Prop} (hq : MethodInfo.Lasting q)
    (hnew : i.HoldsOfNew g q) {texts : List String} {root b : MethodInfo}
    (hroot : .ok root ∈ Command.resolveAll (start i g) texts) (hb : b.Occurs root) :
    q ((start i g).after texts).cache b := by
  have hafter : Index.Keeps q ((start i g).after texts).cache := by
    refine (after_induction (P := fun s => s.index = i ∧ s.config = g ∧ i.Owns s.cache ∧
      Index.Keeps q s.cache) ?_ (s := start i g) ⟨rfl, rfl, .empty i, ?_⟩ texts).2.2.2
    · rintro s text ⟨rfl, rfl, howns, hs⟩
      have hstep := extends_resolve s text
      have howns' := hstep.owns howns
      rw [hstep.index] at howns'
      exact ⟨hstep.index, hstep.config, howns', keeps_resolve hq hnew howns hs text⟩
    · exact fun _ _ h => absurd h (by simp [start])
  obtain ⟨key, hkey⟩ := exists_cached_of_mem_resolveAll hroot
  exact hafter key root hkey b hb

end Session

end JavaCallGraph
