import JavaCallGraph.Proofs.Graph.Occurrence
import JavaCallGraph.Proofs.Graph.Traversal

/-!
# What a run hands on

A run of edges or of overriding methods is made of nested calls and of steps that touch nothing.  So
whatever the nested calls do to the cache, and whatever is true of the graphs they give, is handed on
by the run.  There are three cases, each for the two kinds of runs and for a miss as a whole:

* `related` — a relation between the cache before and the cache after;
* `everywhere` — a property of the nodes that does not get lost while the cache grows;
* `covers` — what gets finished occurs in the result, if no edge is dropped.
-/

set_option autoImplicit false

namespace JavaCallGraph

namespace MethodInfo

theorem Everywhere.imp {p q : MethodInfo → Prop} {n : MethodInfo} (hpq : ∀ b, p b → q b)
    (h : n.Everywhere p) : n.Everywhere q := fun b hb => hpq b (h b hb)

/-- A property of nodes that is not lost while the cache grows, and that every mere identity has. -/
structure Lasting (q : Cache → MethodInfo → Prop) : Prop where
  mono : ∀ {c c' : Cache} {b : MethodInfo},
    (∀ key v, c.find? key = some v → c'.find? key = some v) → q c b → q c' b
  reference : ∀ c id, q c (.reference id)

end MethodInfo

namespace Index

open MethodInfo

variable {i : Index} {g : GraphConfig} {x : ResolutionContext} {caller : TypeInfo}
  {P : MethodRef → Cache → MethodInfo → Cache → Prop} {R : Cache → Cache → Prop} {I : Cache → Prop}
  {q : Cache → MethodInfo → Prop}

/-! ## Caches -/

theorem EdgesRun.related (hrefl : ∀ c, R c c) (htrans : ∀ {a b c}, R a b → R b c → R a c)
    (hP : ∀ {m c node c'}, i.Nested x P m c node c' → R c c') {ts : List CallTarget}
    {c c' : Cache} {es : List Calling} (h : i.EdgesRun g x P caller ts c es c') : R c c' := by
  induction h with
  | nil c => exact hrefl c
  | cons hstep hrun ih =>
    cases hstep with
    | recursive hin => exact ih
    | expanded hin hm hn => exact htrans (hP hn) ih
    | reference hin hm => exact ih

theorem OverridesRun.related (hrefl : ∀ c, R c c) (htrans : ∀ {a b c}, R a b → R b c → R a c)
    (hP : ∀ {m c node c'}, i.Nested x P m c node c' → R c c') {ms : List MethodRef}
    {c c' : Cache} {nodes : List MethodInfo} (h : i.OverridesRun x P ms c nodes c') : R c c' := by
  induction h with
  | nil c => exact hrefl c
  | cons hstep hrun ih =>
    cases hstep with
    | recursive hin => exact ih
    | expanded hn => exact htrans (hP hn) ih

/-! ## Nodes -/

theorem mem_cons_of_mem_kept {e f : Calling} {es : List Calling}
    (h : f ∈ if g.callingFilter e then e :: es else es) : f ∈ e :: es := by
  split at h
  · exact h
  · exact List.mem_cons_of_mem e h

theorem EdgesRun.everywhere (hq : Lasting q)
    (hP : ∀ {m c node c'}, i.Nested x P m c node c' → I c → I c' ∧ node.Everywhere (q c'))
    {ts : List CallTarget} {c c' : Cache} {es : List Calling}
    (h : i.EdgesRun g x P caller ts c es c') (hc : I c) :
    I c' ∧ ∀ e ∈ es, ∀ k ∈ e.callee?, k.Everywhere (q c') := by
  induction h with
  | nil c => exact ⟨hc, nofun⟩
  | @cons t ts e es c c' c'' hstep hrun ih =>
    have hfirst : I c' ∧ ∀ k ∈ e.callee?, k.Everywhere (q c') := by
      cases hstep with
      | recursive hin => exact ⟨hc, nofun⟩
      | expanded hin hm hn =>
        obtain ⟨hc', hall⟩ := hP hn hc
        exact ⟨hc', fun k hk => Option.some.inj hk ▸ hall⟩
      | reference hin hm =>
        exact ⟨hc, fun k hk => Option.some.inj hk ▸ .reference (hq.reference c t.id)⟩
    obtain ⟨hc', hall⟩ := hfirst
    obtain ⟨hc'', hrest⟩ := ih hc'
    refine ⟨hc'', fun f hf k hk => ?_⟩
    rcases List.mem_cons.mp (mem_cons_of_mem_kept hf) with rfl | hf
    · exact (hall k hk).imp fun _ => hq.mono hrun.frame.kept
    · exact hrest f hf k hk

theorem OverridesRun.everywhere (hq : Lasting q)
    (hP : ∀ {m c node c'}, i.Nested x P m c node c' → I c → I c' ∧ node.Everywhere (q c'))
    {ms : List MethodRef} {c c' : Cache} {nodes : List MethodInfo}
    (h : i.OverridesRun x P ms c nodes c') (hc : I c) :
    I c' ∧ ∀ o ∈ nodes, o.Everywhere (q c') := by
  induction h with
  | nil c => exact ⟨hc, nofun⟩
  | @cons m ms node nodes c c' c'' hstep hrun ih =>
    have hfirst : I c' ∧ node.Everywhere (q c') := by
      cases hstep with
      | recursive hin => exact ⟨hc, .reference (hq.reference c _)⟩
      | expanded hn => exact hP hn hc
    obtain ⟨hc'', hrest⟩ := ih hfirst.1
    refine ⟨hc'', fun o ho => ?_⟩
    rcases List.mem_cons.mp ho with rfl | ho
    · exact hfirst.2.imp fun _ => hq.mono hrun.frame.kept
    · exact hrest o ho

/-! ## Finished methods -/

/-- What is finished between the two caches occurs in the graph of the node. -/
def Covers (c : Cache) (node : MethodInfo) (c' : Cache) : Prop :=
  ∀ key, (c'.find? key).isSome → (c.find? key).isSome ∨ node.Builds key

theorem EdgesRun.covers (hg : ∀ e, g.callingFilter e = true)
    (hP : ∀ {m c node c'}, i.Nested x P m c node c' → Covers c node c') {ts : List CallTarget}
    {c c' : Cache} {es : List Calling} (h : i.EdgesRun g x P caller ts c es c') :
    ∀ key, (c'.find? key).isSome →
      (c.find? key).isSome ∨ ∃ e ∈ es, ∃ n ∈ e.callee?, n.Builds key := by
  induction h with
  | nil c => exact fun key hkey => Or.inl hkey
  | @cons t ts e es c c' c'' hstep hrun ih =>
    have hfirst : ∀ key, (c'.find? key).isSome →
        (c.find? key).isSome ∨ ∃ n ∈ e.callee?, n.Builds key := by
      intro key hkey
      cases hstep with
      | recursive hin => exact Or.inl hkey
      | expanded hin hm hn => exact (hP hn key hkey).imp_right fun hb => ⟨_, rfl, hb⟩
      | reference hin hm => exact Or.inl hkey
    rw [if_pos (hg e)]
    intro key hkey
    rcases ih key hkey with hkey | ⟨f, hf, hb⟩
    · exact (hfirst key hkey).imp_right fun hb => ⟨e, List.mem_cons_self, hb⟩
    · exact Or.inr ⟨f, List.mem_cons_of_mem _ hf, hb⟩

theorem OverridesRun.covers
    (hP : ∀ {m c node c'}, i.Nested x P m c node c' → Covers c node c') {ms : List MethodRef}
    {c c' : Cache} {nodes : List MethodInfo} (h : i.OverridesRun x P ms c nodes c') :
    ∀ key, (c'.find? key).isSome → (c.find? key).isSome ∨ ∃ o ∈ nodes, o.Builds key := by
  induction h with
  | nil c => exact fun key hkey => Or.inl hkey
  | @cons m ms node nodes c c' c'' hstep hrun ih =>
    have hfirst : ∀ key, (c'.find? key).isSome → (c.find? key).isSome ∨ node.Builds key := by
      intro key hkey
      cases hstep with
      | recursive hin => exact Or.inl hkey
      | expanded hn => exact hP hn key hkey
    intro key hkey
    rcases ih key hkey with hkey | ⟨o, ho, hb⟩
    · exact (hfirst key hkey).imp_right fun hb => ⟨node, List.mem_cons_self, hb⟩
    · exact Or.inr ⟨o, List.mem_cons_of_mem _ ho, hb⟩

/-! ## Misses -/

namespace Miss

variable {P : ResolutionContext → MethodRef → Cache → MethodInfo → Cache → Prop} {m : MethodRef}
  {c c₁ c₂ : Cache} {edges : List Calling} {nodes : List MethodInfo}

theorem related (h : i.Miss g P x m c edges c₁ nodes c₂) (hrefl : ∀ c, R c c)
    (htrans : ∀ {a b c}, R a b → R b c → R a c)
    (hP : ∀ {k a node b}, i.Nested (x.enter (i.code.methodId m)) (P (x.enter (i.code.methodId m)))
      k a node b → R a b) : R c c₂ :=
  htrans (h.calls.related hrefl htrans hP) (h.overrides.related hrefl htrans hP)

/-- The children of the new node. -/
theorem everywhere (h : i.Miss g P x m c edges c₁ nodes c₂) (hq : Lasting q)
    (hP : ∀ {k a node b}, i.Nested (x.enter (i.code.methodId m)) (P (x.enter (i.code.methodId m)))
      k a node b → I a → I b ∧ node.Everywhere (q b)) (hc : I c) :
    I c₂ ∧ ∀ k ∈ (i.nodeOf m edges nodes).children, k.Everywhere (q c₂) := by
  obtain ⟨hc₁, hcallees⟩ := h.calls.everywhere hq hP hc
  obtain ⟨hc₂, hnodes⟩ := h.overrides.everywhere hq hP hc₁
  refine ⟨hc₂, fun k hk => ?_⟩
  rcases MethodInfo.mem_children.mp hk with ⟨e, he, hke⟩ | hk
  · exact (hcallees e he k hke).imp fun _ => hq.mono h.overrides.frame.kept
  · exact hnodes k hk

theorem covers (h : i.Miss g P x m c edges c₁ nodes c₂) (hg : ∀ e, g.callingFilter e = true)
    (hP : ∀ {k a node b}, i.Nested (x.enter (i.code.methodId m)) (P (x.enter (i.code.methodId m)))
      k a node b → Covers a node b) :
    Covers c (i.nodeOf m edges nodes)
      (c₂.insertNew (i.code.methodId m).canonical (i.nodeOf m edges nodes)) := by
  intro key hkey
  by_cases he : key = (i.code.methodId m).canonical
  · exact Or.inr ⟨_, .here, rfl, he.symm⟩
  · rw [Cache.find?_insertNew_of_ne he] at hkey
    rcases h.overrides.covers hP key hkey with hkey | ⟨o, ho, hb⟩
    · refine (h.calls.covers hg hP key hkey).imp_right ?_
      rintro ⟨e, he, n, hn, hb⟩
      exact hb.child (MethodInfo.mem_children.mpr (Or.inl ⟨e, he, hn⟩))
    · exact Or.inr (hb.child (MethodInfo.mem_children.mpr (Or.inr ho)))

end Miss

/-- **All that the traversal finishes occurs in its result**, if no edge is dropped. -/
theorem build_covers (hg : ∀ e, g.callingFilter e = true) (n : Nat) (hx : x.Sound i.code) :
    i.Nests x (fun _ => Covers) (i.build g n) := by
  refine build_induction (P := fun _ _ => Covers) ?_ ?_ n hx
  · exact fun _ _ _ _ hkey => Or.inl hkey
  · exact fun hmiss => hmiss.covers hg fun hn => hn.holds

end Index

end JavaCallGraph
