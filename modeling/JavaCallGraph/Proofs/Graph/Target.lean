import JavaCallGraph.Graph.Target
import JavaCallGraph.Proofs.Typing.Inference

/-!
# What one step of the graph leads to

The traversal trusts what it is told about a single method: where its calls land, and which methods
override it.  This file says what it is told.

* `Codebase.Lands` — a target with a declaration has the identity and the type of that declaration,
  and a target without one has an identity that no declaration answers to.  Every call lands like
  that (`Codebase.Obeys.lands`), whatever the code base looks like.
* `Codebase.targets_eq` — the targets of a body are those of its calls in order, without the later
  ones of an identity.
* `Index.overriding_eq` — the search for overriding methods ends: its budget exceeds the number of
  types it can take up, so that a larger one gives the same methods.
-/

set_option autoImplicit false

namespace JavaCallGraph

/-- The canonical text of the identity of a target. -/
def CallTarget.key (t : CallTarget) : String := t.id.canonical

/-- What a target says about its declaration is true. -/
structure Codebase.Lands (c : Codebase) (t : CallTarget) : Prop where
  declared : ∀ m ∈ t.declaration,
    c.Declared m ∧ t.id = c.methodId m ∧ t.declaring = c.sourceType m.owner
  undeclared : t.declaration = none → c.findDeclaration? t.id = none

namespace Codebase

variable {c : Codebase} {Q : String → Prop}

/-! ## Finding declarations -/

theorem mem_rank {α : Type} (compare : α → α → Ordering) {x y : α} {l : List α} :
    y ∈ rank compare x l ↔ y = x ∨ y ∈ l := by
  induction l with
  | nil => rw [rank, List.mem_singleton, or_iff_left List.not_mem_nil]
  | cons z l ih =>
    rw [rank]
    split
    · rw [List.mem_cons, ih, List.mem_cons]
      tauto
    · rw [List.mem_cons]

theorem mem_foldl_rank {α : Type} (compare : α → α → Ordering) {y : α} {l done : List α}
    (h : y ∈ l.foldl (fun done k => rank compare k done) done) : y ∈ l ∨ y ∈ done := by
  induction l generalizing done with
  | nil => exact Or.inr h
  | cons x l ih =>
    rcases ih h with h | h
    · exact Or.inl (List.mem_cons_of_mem _ h)
    · rcases (mem_rank compare).mp h with rfl | h
      · exact Or.inl List.mem_cons_self
      · exact Or.inr h

theorem mem_of_pickBest? {candidates : List MethodRef} {expected : List String} {m : MethodRef}
    (h : c.pickBest? candidates expected = some m) : m ∈ candidates := by
  obtain ⟨k, hk, rfl⟩ := Option.map_eq_some_iff.mp h
  rcases mem_foldl_rank _ (List.mem_of_getLast? hk) with hmem | hmem
  · obtain ⟨m, hm, rfl⟩ := List.mem_map.mp hmem
    exact hm
  · exact absurd hmem List.not_mem_nil

theorem mem_candidatesIn_of_findIn? {t : TypeId} {id : MethodId} {m : MethodRef}
    (h : c.findIn? t id = some m) : m ∈ c.candidatesIn t id := by
  rw [findIn?] at h
  split at h
  · exact absurd h (by simp)
  · next k hk =>
    rw [hk, Option.some.inj h]
    exact List.mem_cons_self
  · exact mem_of_pickBest? h

theorem foldl_rank_ne_nil {α : Type} (compare : α → α → Ordering) {l done : List α}
    (h : l ≠ [] ∨ done ≠ []) : l.foldl (fun done k => rank compare k done) done ≠ [] := by
  induction l generalizing done with
  | nil => exact h.resolve_left fun hne => hne rfl
  | cons x l ih => exact ih (Or.inr (List.ne_nil_of_mem ((mem_rank compare).mpr (Or.inl rfl))))

/-- **A type has a method that an identity means if it has one that answers to it.** -/
theorem findIn?_eq_none {t : TypeId} {id : MethodId} :
    c.findIn? t id = none ↔ c.candidatesIn t id = [] := by
  rw [findIn?]
  split
  · next h => exact iff_of_true rfl h
  · next m h => exact iff_of_false (by simp) (by simp [h])
  · next hnil _ =>
    refine iff_of_false (fun hnone => ?_) hnil
    rw [pickBest?, Option.map_eq_none_iff, List.getLast?_eq_none_iff] at hnone
    exact foldl_rank_ne_nil _ (Or.inl (by simpa using hnil)) hnone

theorem declared_of_findIn? {t : TypeId} {id : MethodId} {m : MethodRef}
    (h : c.findIn? t id = some m) : c.Declared m :=
  declared_of_mem_methodsOf (List.mem_filter.mp (mem_candidatesIn_of_findIn? h)).1

/-- **A declaration that is found is one.** -/
theorem declared_of_findDeclaration? {id : MethodId} {m : MethodRef}
    (h : c.findDeclaration? id = some m) : c.Declared m := by
  obtain ⟨t, -, h⟩ := Option.bind_eq_some_iff.mp h
  rcases Option.or_eq_some_iff.mp h with h | ⟨-, h⟩
  · exact declared_of_findIn? h
  · obtain ⟨a, -, ha⟩ := List.exists_of_findSome?_eq_some h
    exact declared_of_findIn? ha

/-! ## Where a call lands -/

namespace Obeys

theorem siteNames (h : c.Obeys Q) {m : MethodRef} {s : CallSite} (hs : s ∈ c.callSites m)
    {n : String} (hn : n ∈ s.call.names) : Q n := by
  rw [callSites] at hs
  split at hs
  · next b hb =>
    refine h.methodNames (m := m) (List.mem_append_right _ ?_)
    refine List.mem_flatMap.mpr ⟨b, Option.mem_toList.mpr hb, List.mem_append_right _ ?_⟩
    exact List.mem_flatMap.mpr ⟨s, hs, hn⟩
  · exact absurd hs List.not_mem_nil

/-- A target read off a genuine candidate: a described type is found by name only if no declared
type is, so no declaration answers to the identity of a described method. -/
theorem lands_certainTarget (_ : c.Obeys Q) {name : String} {k : Candidate}
    (hk : c.Genuine Q name k) : c.Lands (certainTarget (k.resolved name)) where
  declared m hm := by
    obtain ⟨hd, ho, hn, hp⟩ := hk.declared m hm
    refine ⟨hd, ?_, ho⟩
    simp only [certainTarget, Candidate.resolved, Candidate.signature, ho, hp, methodId, hn]
    rfl
  undeclared hnone := by
    obtain ⟨t, ht⟩ := hk.described hnone
    have hproper := hk.declaring
    rw [ht] at hproper
    cases hproper with
    | compiled hn _ =>
      have hres : c.resolveType? t.name = none := by
        rw [known?] at hn
        split at hn
        · exact absurd (Option.some.inj hn) TypeInfo.noConfusion
        · next hres => exact hres
      simp only [certainTarget, Candidate.resolved, ht, findDeclaration?, TypeInfo.name, hres,
        Option.bind_none]

theorem lands_inferredTarget (_ : c.Obeys Q) (k : InferredCall) : c.Lands (c.inferredTarget k) := by
  rw [inferredTarget]
  split
  · next m hm =>
    refine ⟨fun m' hm' => ?_, nofun⟩
    rw [← Option.some.inj hm']
    exact ⟨declared_of_findDeclaration? hm, rfl, rfl⟩
  · next hnone => exact ⟨nofun, fun _ => hnone⟩

/-- **Where a call lands is true**, by certain resolution as well as by inference. -/
theorem lands (h : c.Obeys Q) {g : GraphConfig} {m : MethodRef} (hm : c.Declared m) {s : CallSite}
    (hs : s ∈ c.callSites m) {t : CallTarget}
    (ht : c.resolveTarget? g (c.context m s.scope) s.call = some t) : c.Lands t := by
  rw [resolveTarget?] at ht
  split at ht
  · next r hr =>
    obtain ⟨k, hk, rfl⟩ := h.genuine_of_resolveCall? (.of_declared hm s.scope)
      (fun n hn => h.siteNames hs hn) hr
    rw [← Option.some.inj ht]
    exact h.lands_certainTarget hk
  · split at ht
    · obtain ⟨k, -, rfl⟩ := Option.map_eq_some_iff.mp ht
      exact h.lands_inferredTarget k
    · exact absurd ht (by simp)

/-- The identity of a target is spelled by proper types. -/
theorem spelled_target (h : c.Obeys Q) {g : GraphConfig} {m : MethodRef} (hm : c.Declared m)
    {s : CallSite} (hs : s ∈ c.callSites m) {t : CallTarget}
    (ht : c.resolveTarget? g (c.context m s.scope) s.call = some t) : t.id.Spelled c Q := by
  have hcall : ∀ n ∈ s.call.names, Q n := fun n hn => h.siteNames hs hn
  rw [resolveTarget?] at ht
  split at ht
  · next r hr =>
    obtain ⟨k, hk, rfl⟩ := h.genuine_of_resolveCall? (.of_declared hm s.scope) hcall hr
    rw [← Option.some.inj ht]
    refine ⟨⟨_, hk.declaring, rfl⟩, hcall _ List.mem_cons_self, fun p hp => ?_⟩
    obtain ⟨a, ha, rfl⟩ := List.mem_map.mp hp
    exact ⟨a, hk.params a ha, rfl⟩
  · split at ht
    · obtain ⟨k, hk, rfl⟩ := Option.map_eq_some_iff.mp ht
      rw [inferredTarget]
      split
      · next m' hm' => exact h.spelled_methodId (declared_of_findDeclaration? hm')
      · exact h.inferredCall (.of_declared hm s.scope) hcall hk
    · exact absurd ht (by simp)

end Obeys

/-! ## The targets of a body -/

/-- Where the calls of a method land, call by call. -/
def landings (c : Codebase) (g : GraphConfig) (m : MethodRef) : List CallTarget :=
  (c.callSites m).filterMap fun s => c.resolveTarget? g (c.context m s.scope) s.call

theorem mem_landings {g : GraphConfig} {m : MethodRef} {t : CallTarget} :
    t ∈ c.landings g m ↔
      ∃ s ∈ c.callSites m, c.resolveTarget? g (c.context m s.scope) s.call = some t :=
  List.mem_filterMap

/-- The accumulator holds what the loop of the library function has kept so far. -/
theorem eraseDupsBy_loop_eq (ts kept : List CallTarget) :
    List.eraseDupsBy.loop (fun a b => a.key == b.key) ts kept =
      kept.reverse ++ CallTarget.distinct (kept.map CallTarget.key) ts := by
  induction ts generalizing kept with
  | nil => rw [List.eraseDupsBy.loop, CallTarget.distinct, List.append_nil]
  | cons t ts ih =>
    have hany : kept.any (fun b => t.key == b.key) = (kept.map CallTarget.key).contains t.key := by
      rw [Bool.eq_iff_iff, List.any_eq_true, List.contains_iff_mem, List.mem_map]
      simp only [beq_iff_eq, eq_comm (a := t.key)]
    rw [List.eraseDupsBy.loop, hany, CallTarget.distinct]
    cases h : (kept.map CallTarget.key).contains t.key with
    | true => simp only [CallTarget.key] at h; simp only [h, if_true, ih]
    | false =>
      simp only [CallTarget.key] at h
      simp only [h, ih, List.reverse_cons, List.append_assoc, List.map_cons]
      rfl

/-- **The targets of a body are those of its calls in order, the first of each identity.** -/
theorem targets_eq (g : GraphConfig) (m : MethodRef) :
    c.targets g m = (c.landings g m).eraseDupsBy fun a b => a.key == b.key := by
  rw [List.eraseDupsBy, eraseDupsBy_loop_eq]
  rfl

theorem mem_of_mem_distinct {seen : List String} {ts : List CallTarget} {t : CallTarget}
    (h : t ∈ CallTarget.distinct seen ts) : t ∈ ts ∧ t.key ∉ seen := by
  induction ts generalizing seen with
  | nil => exact absurd h List.not_mem_nil
  | cons u ts ih =>
    rw [CallTarget.distinct] at h
    split at h
    · obtain ⟨hmem, hseen⟩ := ih h
      exact ⟨List.mem_cons_of_mem _ hmem, hseen⟩
    · next hu =>
      rcases List.mem_cons.mp h with rfl | h
      · exact ⟨List.mem_cons_self, by simpa [CallTarget.key] using hu⟩
      · obtain ⟨hmem, hseen⟩ := ih h
        exact ⟨List.mem_cons_of_mem _ hmem, fun hm => hseen (List.mem_cons_of_mem _ hm)⟩

theorem mem_landings_of_mem_targets {g : GraphConfig} {m : MethodRef} {t : CallTarget}
    (h : t ∈ c.targets g m) : t ∈ c.landings g m :=
  (mem_of_mem_distinct h).1

theorem nodup_distinct (seen : List String) (ts : List CallTarget) :
    ((CallTarget.distinct seen ts).map CallTarget.key).Nodup := by
  induction ts generalizing seen with
  | nil => exact List.nodup_nil
  | cons u ts ih =>
    rw [CallTarget.distinct]
    split
    · exact ih seen
    · rw [List.map_cons, List.nodup_cons]
      refine ⟨fun hmem => ?_, ih _⟩
      obtain ⟨t, ht, hkey⟩ := List.mem_map.mp hmem
      refine (mem_of_mem_distinct ht).2 ?_
      rw [hkey]
      exact List.mem_cons_self

/-- No two targets of a body have the same identity. -/
theorem nodup_targets (g : GraphConfig) (m : MethodRef) :
    ((c.targets g m).map CallTarget.key).Nodup :=
  nodup_distinct [] _

theorem exists_mem_distinct {seen : List String} {ts : List CallTarget} {t : CallTarget}
    (h : t ∈ ts) (hs : t.key ∉ seen) : ∃ u ∈ CallTarget.distinct seen ts, u.key = t.key := by
  induction ts generalizing seen with
  | nil => exact absurd h List.not_mem_nil
  | cons u ts ih =>
    rw [CallTarget.distinct]
    by_cases hu : u.key = t.key
    · have hcon : ¬seen.contains u.id.canonical = true := by
        rw [List.contains_iff_mem]
        exact fun hm => hs (hu ▸ hm)
      rw [if_neg hcon]
      exact ⟨u, List.mem_cons_self, hu⟩
    · have ht : t ∈ ts := by
        rcases List.mem_cons.mp h with rfl | h
        · exact absurd rfl hu
        · exact h
      split
      · exact ih ht hs
      · have hs' : t.key ∉ u.id.canonical :: seen := by
          intro hm
          rcases List.mem_cons.mp hm with he | hm
          · exact hu he.symm
          · exact hs hm
        obtain ⟨v, hv, hkey⟩ := ih ht hs'
        exact ⟨v, List.mem_cons_of_mem _ hv, hkey⟩

/-- Every call lands on the identity of one of the targets. -/
theorem exists_mem_targets {g : GraphConfig} {m : MethodRef} {t : CallTarget}
    (h : t ∈ c.landings g m) : ∃ u ∈ c.targets g m, u.key = t.key :=
  exists_mem_distinct h List.not_mem_nil

/-- The targets of a declared method say the truth. -/
theorem lands_of_mem_targets {g : GraphConfig} {m : MethodRef} (hm : c.Declared m)
    {t : CallTarget} (ht : t ∈ c.targets g m) : c.Lands t := by
  obtain ⟨s, hs, hst⟩ := mem_landings.mp (mem_landings_of_mem_targets ht)
  exact (Obeys.trivial c).lands hm hs hst

end Codebase

namespace Index

variable {i : Index} {g : GraphConfig}

/-! ## Overriding methods -/

theorem declared_of_mem_overridingFrom {id : MethodId} {n : Nat} {visited pending : List TypeId}
    {m : MethodRef} (h : m ∈ i.overridingFrom g id n visited pending) : i.code.Declared m := by
  induction n generalizing visited pending with
  | zero => exact absurd h List.not_mem_nil
  | succ n ih =>
    cases pending with
    | nil => exact absurd h List.not_mem_nil
    | cons t pending =>
      rw [overridingFrom] at h
      split at h
      · exact ih h
      · split at h
        · next k hk =>
          rcases List.mem_cons.mp h with rfl | h
          · exact Codebase.declared_of_findIn? hk
          · exact ih h
        · exact ih h

/-- **An overriding method is declared.** -/
theorem declared_of_mem_overriding {m k : MethodRef} (h : k ∈ i.overriding g m) :
    i.code.Declared k :=
  declared_of_mem_overridingFrom h

/-- The number of entries in the rows of a table, beginning with row `k`, that belong to types not
yet visited. -/
def unvisitedEntries (visited : List TypeId) : Nat → List (List TypeId) → Nat
  | _, [] => 0
  | k, row :: rows =>
    (if (⟨k⟩ : TypeId) ∈ visited then 0 else row.length) + unvisitedEntries visited (k + 1) rows

theorem unvisitedEntries_le (visited : List TypeId) (k : Nat) (rows : List (List TypeId)) :
    unvisitedEntries visited k rows ≤ rows.flatten.length := by
  induction rows generalizing k with
  | nil => exact Nat.le_refl _
  | cons row rows ih =>
    rw [unvisitedEntries, List.flatten_cons, List.length_append]
    have := ih (k + 1)
    split <;> omega

theorem unvisitedEntries_cons_le (t : TypeId) (visited : List TypeId) (k : Nat)
    (rows : List (List TypeId)) :
    unvisitedEntries (t :: visited) k rows ≤ unvisitedEntries visited k rows := by
  induction rows generalizing k with
  | nil => exact Nat.le_refl _
  | cons row rows ih =>
    rw [unvisitedEntries, unvisitedEntries]
    have := ih (k + 1)
    by_cases hv : (⟨k⟩ : TypeId) ∈ visited
    · rw [if_pos hv, if_pos (List.mem_cons_of_mem _ hv)]
      omega
    · rw [if_neg hv]
      split <;> omega

/-- A visit uses up the row of the visited type. -/
theorem unvisitedEntries_cons_add {t : TypeId} {visited : List TypeId} (hv : t ∉ visited) {k : Nat}
    (hk : k ≤ t.index) (rows : List (List TypeId)) :
    unvisitedEntries (t :: visited) k rows + ((rows[t.index - k]?).getD []).length ≤
      unvisitedEntries visited k rows := by
  induction rows generalizing k with
  | nil => simp [unvisitedEntries]
  | cons row rows ih =>
    rw [unvisitedEntries, unvisitedEntries]
    rcases Nat.eq_or_lt_of_le hk with rfl | hlt
    · have hle := unvisitedEntries_cons_le t visited (t.index + 1) rows
      rw [if_pos List.mem_cons_self, if_neg hv, Nat.sub_self, List.getElem?_cons_zero,
        Option.getD_some]
      omega
    · have hne : (⟨k⟩ : TypeId) ≠ t := fun he => by rw [← he] at hlt; exact absurd hlt (by simp)
      have hstep := ih (k := k + 1) (by omega)
      have hidx : t.index - k = (t.index - (k + 1)) + 1 := by omega
      rw [hidx, List.getElem?_cons_succ]
      have hiff : (⟨k⟩ : TypeId) ∈ t :: visited ↔ (⟨k⟩ : TypeId) ∈ visited := by
        rw [List.mem_cons, or_iff_right hne]
      simp only [hiff]
      omega

theorem length_searchedSubtypes_le (t : TypeId) :
    (i.searchedSubtypes g t).length ≤ ((i.subtypes[t.index]?).getD []).length := by
  rw [searchedSubtypes]
  split
  · exact Nat.le_refl _
  · split
    · exact Nat.le_refl _
    · exact Nat.zero_le _

/-- A search that has more budget than types to take up does not notice the budget. -/
theorem overridingFrom_congr {id : MethodId} {n k : Nat} {visited pending : List TypeId}
    (hn : pending.length + unvisitedEntries visited 0 i.subtypes < n)
    (hk : pending.length + unvisitedEntries visited 0 i.subtypes < k) :
    i.overridingFrom g id n visited pending = i.overridingFrom g id k visited pending := by
  induction n generalizing k visited pending with
  | zero => exact absurd hn (Nat.not_lt_zero _)
  | succ n ih =>
    obtain ⟨k, rfl⟩ : ∃ j, k = j + 1 := ⟨k - 1, by omega⟩
    cases pending with
    | nil => rw [overridingFrom, overridingFrom]
    | cons t pending =>
      rw [List.length_cons] at hn hk
      rw [overridingFrom, overridingFrom]
      by_cases hv : visited.contains t = true
      · rw [if_pos hv, if_pos hv]
        exact ih (by omega) (by omega)
      · rw [if_neg hv, if_neg hv]
        rw [List.contains_iff_mem] at hv
        have hadd := unvisitedEntries_cons_add hv (Nat.zero_le _) i.subtypes
        rw [Nat.sub_zero] at hadd
        have hlen := length_searchedSubtypes_le (i := i) (g := g) t
        cases i.code.findIn? t id with
        | some m => exact congrArg (m :: ·) (ih (by omega) (by omega))
        | none =>
          refine ih ?_ ?_ <;> rw [List.length_append] <;> omega

/-- The first list of the search for the methods that override `m` is within the budget. -/
theorem searchedSubtypes_lt_budget (i : Index) (g : GraphConfig) (m : MethodRef) :
    (i.searchedSubtypes g m.owner).length + unvisitedEntries [m.owner] 0 i.subtypes <
      i.subtypeBudget := by
  have hlen := length_searchedSubtypes_le (i := i) (g := g) m.owner
  have hadd :=
    unvisitedEntries_cons_add (List.not_mem_nil (a := m.owner)) (Nat.zero_le _) i.subtypes
  have hle := unvisitedEntries_le [] 0 i.subtypes
  rw [Nat.sub_zero] at hadd
  rw [subtypeBudget]
  omega

/-- **The search for overriding methods ends** before its budget is used up. -/
theorem overriding_eq (m : MethodRef) {n : Nat} (hn : i.subtypeBudget ≤ n) :
    i.overridingFrom g (i.code.methodId m) n [m.owner] (i.searchedSubtypes g m.owner) =
      i.overriding g m :=
  have hbudget := i.searchedSubtypes_lt_budget g m
  overridingFrom_congr (Nat.lt_of_lt_of_le hbudget hn) hbudget

end Index

end JavaCallGraph
