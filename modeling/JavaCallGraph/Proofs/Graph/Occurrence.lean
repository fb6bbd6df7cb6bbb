import JavaCallGraph.Graph.MethodInfo

/-!
# The nodes of a graph

A graph is given by its root; `MethodInfo.Occurs` says which nodes it has.  A node either is
*built*, with a declaration and edges, or it is *bare* and carries nothing but its identity.
-/

set_option autoImplicit false

namespace JavaCallGraph

namespace MethodInfo

/-- `b.Occurs n`: the node `b` is `n`, or is reached from it through callees and overriding
methods. -/
inductive Occurs (b : MethodInfo) : MethodInfo → Prop
  | here : Occurs b b
  | child {n k : MethodInfo} (hk : k ∈ n.children) (h : Occurs b k) : Occurs b n

/-- The node has a declaration. -/
def IsBuilt (b : MethodInfo) : Prop := b.declaration.isSome

theorem IsBuilt.exists {b : MethodInfo} (h : b.IsBuilt) : ∃ m, b.declaration = some m :=
  Option.isSome_iff_exists.mp h

theorem declaration_reference (id : MethodId) : (reference id).declaration = none := rfl

theorem not_isBuilt_reference (id : MethodId) : ¬(reference id).IsBuilt := by
  rw [IsBuilt, declaration_reference]
  exact Bool.false_ne_true

theorem Occurs.eq_or_child {b n : MethodInfo} (h : b.Occurs n) :
    b = n ∨ ∃ k ∈ n.children, b.Occurs k := by
  cases h with
  | here => exact Or.inl rfl
  | child hk h => exact Or.inr ⟨_, hk, h⟩

theorem Occurs.eq_of_children {b n : MethodInfo} (h : b.Occurs n) (hn : n.children = []) :
    b = n := by
  rcases h.eq_or_child with rfl | ⟨k, hk, -⟩
  · rfl
  · rw [hn] at hk
    exact absurd hk List.not_mem_nil

theorem Occurs.trans {b k n : MethodInfo} (h : b.Occurs k) (hk : k.Occurs n) : b.Occurs n := by
  induction hk with
  | here => exact h
  | child hk _ ih => exact .child hk ih

/-! A node is larger than what properly occurs in it. -/

theorem sizeOf_le_totalSize {k : MethodInfo} {ms : List MethodInfo} (hk : k ∈ ms) :
    sizeOf k ≤ totalSize ms := by
  induction ms with
  | nil => exact absurd hk List.not_mem_nil
  | cons m ms ih =>
    rw [totalSize_cons]
    rcases List.mem_cons.mp hk with rfl | hk
    · omega
    · have hrest := ih hk
      omega

theorem sizeOf_lt_of_mem_children {n k : MethodInfo} (hk : k ∈ n.children) :
    sizeOf k < sizeOf n :=
  Nat.lt_of_le_of_lt (sizeOf_le_totalSize hk) (totalSize_children_lt n)

theorem Occurs.sizeOf_le {b n : MethodInfo} (h : b.Occurs n) : sizeOf b ≤ sizeOf n := by
  induction h with
  | here => exact Nat.le_refl _
  | child hk _ ih =>
    have hlt := sizeOf_lt_of_mem_children hk
    omega

/-- **A node does not occur below itself.** -/
theorem ne_of_occurs_child {n k d : MethodInfo} (hk : k ∈ n.children) (hd : d.Occurs k) :
    d ≠ n := by
  rintro rfl
  have hlt := sizeOf_lt_of_mem_children hk
  have hle := hd.sizeOf_le
  omega

theorem mem_children {n k : MethodInfo} :
    k ∈ n.children ↔ (∃ e ∈ n.dependencies, k ∈ e.callee?) ∨ k ∈ n.overrides := by
  rw [children, List.mem_append, List.mem_filterMap]
  rfl

/-- The graph has a built node under the key. -/
def Builds (n : MethodInfo) (key : String) : Prop :=
  ∃ b : MethodInfo, b.Occurs n ∧ b.IsBuilt ∧ b.key = key

theorem Builds.child {n k : MethodInfo} {key : String} (h : k.Builds key) (hk : k ∈ n.children) :
    n.Builds key := by
  obtain ⟨b, hb, hbuilt⟩ := h
  exact ⟨b, .child hk hb, hbuilt⟩

/-- `p` holds of every node of the graph. -/
def Everywhere (p : MethodInfo → Prop) (n : MethodInfo) : Prop := ∀ b, b.Occurs n → p b

theorem Everywhere.here {p : MethodInfo → Prop} {n : MethodInfo} (h : n.Everywhere p) : p n :=
  h n .here

theorem Everywhere.child {p : MethodInfo → Prop} {n k : MethodInfo} (h : n.Everywhere p)
    (hk : k ∈ n.children) : k.Everywhere p := fun b hb => h b (.child hk hb)

theorem Everywhere.of_children {p : MethodInfo → Prop} {n : MethodInfo} (hn : p n)
    (h : ∀ k ∈ n.children, k.Everywhere p) : n.Everywhere p := by
  intro b hb
  rcases hb.eq_or_child with rfl | ⟨k, hk, hbk⟩
  · exact hn
  · exact h k hk b hbk

theorem Everywhere.reference {p : MethodInfo → Prop} {id : MethodId}
    (h : p (MethodInfo.reference id)) : (MethodInfo.reference id).Everywhere p :=
  .of_children h fun _ hk => absurd hk List.not_mem_nil

end MethodInfo

end JavaCallGraph
