import JavaCallGraph.Proofs.Graph.Memory
import JavaCallGraph.Proofs.Identity
import Mathlib.Data.List.Nodup

/-!
# Every method is resolved once

A node is added to the cache when its method leaves, and a method that is already there is not added
again.  So the cache alone does not show how often a method is resolved, and a log is kept beside the
traversal: `Index.entered` lists the identities of the methods that a call of `build` resolves anew,
in the order in which they are entered, and `Session.entered` those of a sequence of requests.

`Cache.Logs` relates such a list to the caches before and after.  It is put together along the
traversal, because a method that is entered is not in the cache and stays out of it until it leaves.

* `Index.mem_entered` — the log has the identities of the calls that find no node in the cache;
* `Index.build_logs` — these are different ones;
* `Session.one_node_per_identity` — and so are those of a session, whose nodes are never lost.
-/

set_option autoImplicit false

namespace JavaCallGraph

/-! ## Logs -/

/-- The keys are different ones, which have no node before and have one after; and the identities of
all nodes that are new are among them. -/
structure Cache.Logs (keys : List String) (c c' : Cache) : Prop where
  nodup : keys.Nodup
  absent : ∀ key ∈ keys, c.find? key = none
  found : ∀ key ∈ keys, (c'.find? key).isSome
  new : ∀ key v, c'.find? key = some v → (∃ key', c.find? key' = some v) ∨ v.key ∈ keys
  kept : ∀ key v, c.find? key = some v → c'.find? key = some v

namespace Cache

variable {c c' c'' : Cache} {keys keys' : List String}

theorem Logs.nil (c : Cache) : Logs [] c c :=
  ⟨List.nodup_nil, nofun, nofun, fun key _ h => Or.inl ⟨key, h⟩, fun _ _ h => h⟩

theorem Logs.append (h : Logs keys c c') (h' : Logs keys' c' c'') :
    Logs (keys ++ keys') c c'' where
  nodup := by
    refine List.nodup_append.mpr ⟨h.nodup, h'.nodup, ?_⟩
    rintro key hkey _ hkey' rfl
    have hfound := h.found key hkey
    rw [h'.absent key hkey'] at hfound
    exact absurd hfound (by simp)
  absent key hkey := by
    rcases List.mem_append.mp hkey with hkey | hkey
    · exact h.absent key hkey
    · rw [Option.eq_none_iff_forall_ne_some]
      intro v hv
      have hkept := h.kept key v hv
      rw [h'.absent key hkey] at hkept
      exact absurd hkept (by simp)
  found key hkey := by
    rcases List.mem_append.mp hkey with hkey | hkey
    · obtain ⟨v, hv⟩ := Option.isSome_iff_exists.mp (h.found key hkey)
      exact Option.isSome_iff_exists.mpr ⟨v, h'.kept key v hv⟩
    · exact h'.found key hkey
  new key v hv := by
    rcases h'.new key v hv with ⟨key', hv⟩ | hv
    · exact (h.new key' v hv).imp_right (List.mem_append_left _)
    · exact Or.inr (List.mem_append_right _ hv)
  kept key v hv := h'.kept key v (h.kept key v hv)

/-- A node that is added under its own identity is logged. -/
theorem Logs.finish {node : MethodInfo} (h : Logs keys c c') (hc : c'.find? node.key = none) :
    Logs (node.key :: keys) c (c'.insertNew node.key node) where
  nodup := by
    refine List.nodup_cons.mpr ⟨fun hkey => ?_, h.nodup⟩
    have hfound := h.found _ hkey
    rw [hc] at hfound
    exact absurd hfound (by simp)
  absent key hkey := by
    rcases List.mem_cons.mp hkey with rfl | hkey
    · rw [Option.eq_none_iff_forall_ne_some]
      intro v hv
      rw [h.kept _ v hv] at hc
      exact absurd hc (by simp)
    · exact h.absent key hkey
  found key hkey := by
    rcases List.mem_cons.mp hkey with rfl | hkey
    · rw [find?_insertNew_self node hc, Option.isSome_some]
    · obtain ⟨v, hv⟩ := Option.isSome_iff_exists.mp (h.found key hkey)
      exact Option.isSome_iff_exists.mpr ⟨v, kept_insertNew _ _ _ key v hv⟩
  new key v hv := by
    rcases find?_insertNew_eq_some hv with ⟨-, rfl⟩ | hv
    · exact Or.inr List.mem_cons_self
    · exact (h.new key v hv).imp_right (List.mem_cons_of_mem _)
  kept key v hv := kept_insertNew _ _ _ key v (h.kept key v hv)

/-- A node that the cache has may be added under another key. -/
theorem Logs.alias {node : MethodInfo} {key text : String} (h : Logs keys c c')
    (hnode : c'.find? key = some node) : Logs keys c (c'.insertNew text node) where
  nodup := h.nodup
  absent := h.absent
  found k hk := by
    obtain ⟨v, hv⟩ := Option.isSome_iff_exists.mp (h.found k hk)
    exact Option.isSome_iff_exists.mpr ⟨v, kept_insertNew _ _ _ k v hv⟩
  new k v hv := by
    rcases find?_insertNew_eq_some hv with ⟨-, rfl⟩ | hv
    · exact h.new key v hnode
    · exact h.new k v hv
  kept k v hv := kept_insertNew _ _ _ k v (h.kept k v hv)

end Cache

namespace Index

variable (i : Index) (g : GraphConfig)

/-- The identities that are resolved anew for one target. -/
def targetEntered (entered : MethodRef → Resolution → List String) (t : CallTarget)
    (s : Resolution) : List String :=
  if s.context.isInFlight t.id then [] else (expandable? g t).elim [] fun m => entered m s

/-- The identities that are resolved anew for some targets, one after the other. -/
def edgesEntered (build : MethodRef → Traversal MethodInfo)
    (entered : MethodRef → Resolution → List String) (caller : TypeInfo) :
    List CallTarget → Resolution → List String
  | [], _ => []
  | t :: ts, s =>
    targetEntered g entered t s ++
      (i.edgeTo g build caller t s).elim [] fun (_, s') =>
        edgesEntered build entered caller ts s'

/-- The identities that are resolved anew for some overriding methods, one after the other. -/
def overridesEntered (build : MethodRef → Traversal MethodInfo)
    (entered : MethodRef → Resolution → List String) : List MethodRef → Resolution → List String
  | [], _ => []
  | m :: ms, s =>
    if s.context.isInFlight (i.code.methodId m) then overridesEntered build entered ms s
    else entered m s ++ (build m s).elim [] fun (_, s') => overridesEntered build entered ms s'

/-- **The identities that `build` resolves anew**, in the order of entry: that of the method, unless
the cache has it, and those that are resolved for its calls and for its overriding methods. -/
def entered : Nat → MethodRef → Resolution → List String
  | 0, _, _ => []
  | n + 1, m, s =>
    let id := i.code.methodId m
    let caller := i.code.sourceType m.owner
    match s.cache.find? id.canonical with
    | some _ => []
    | none =>
      id.canonical :: (i.edgesEntered g (i.build g n) (entered n) caller (i.code.targets g m)
          (s.enter id) ++
        (i.edgesTo g (i.build g n) caller (i.code.targets g m) (s.enter id)).elim [] fun (_, s') =>
          i.overridesEntered (i.build g n) (entered n) (i.overriding g m) s')

variable {i : Index} {g : GraphConfig} {x : ResolutionContext} {caller : TypeInfo}
  {build : MethodRef → Traversal MethodInfo} {entered : MethodRef → Resolution → List String}

/-! ## What the log has -/

theorem mem_targetEntered {key : String} {t : CallTarget} {s : Resolution} :
    key ∈ targetEntered g entered t s ↔ s.context.isInFlight t.id = false ∧
      ∃ m, expandable? g t = some m ∧ key ∈ entered m s := by
  rw [targetEntered]
  cases hin : s.context.isInFlight t.id <;> cases hm : expandable? g t <;> simp

/-- The log of some targets has what one of them logs when it is reached. -/
theorem mem_edgesEntered {key : String} {ts : List CallTarget} {s : Resolution} :
    key ∈ i.edgesEntered g build entered caller ts s ↔
      ∃ before t after es s₁, ts = before ++ t :: after ∧
        i.edgesTo g build caller before s = some (es, s₁) ∧
          key ∈ targetEntered g entered t s₁ := by
  induction ts generalizing s with
  | nil => simp [edgesEntered]
  | cons t ts ih =>
    rw [edgesEntered, List.mem_append]
    constructor
    · rintro (hkey | hkey)
      · exact ⟨[], t, ts, [], s, rfl, rfl, hkey⟩
      · cases hfirst : i.edgeTo g build caller t s with
        | none =>
          rw [hfirst] at hkey
          exact absurd hkey List.not_mem_nil
        | some r =>
          rw [hfirst] at hkey
          obtain ⟨before, u, after, es, s₁, rfl, hbefore, hkey⟩ := ih.mp hkey
          refine ⟨t :: before, u, after, if g.callingFilter r.1 then r.1 :: es else es, s₁, rfl, ?_,
            hkey⟩
          exact Option.bind_eq_some_iff.mpr
            ⟨r, hfirst, Option.map_eq_some_iff.mpr ⟨_, hbefore, rfl⟩⟩
    · rintro ⟨before, u, after, es, s₁, hts, hbefore, hkey⟩
      cases before with
      | nil =>
        obtain ⟨rfl, rfl⟩ := List.cons.inj hts
        obtain ⟨-, rfl⟩ := Prod.mk.inj (Option.some.inj hbefore)
        exact Or.inl hkey
      | cons v before =>
        obtain ⟨rfl, rfl⟩ := List.cons.inj hts
        rw [edgesTo] at hbefore
        obtain ⟨r, hfirst, hbefore⟩ := Option.bind_eq_some_iff.mp hbefore
        obtain ⟨r', hrest, heq⟩ := Option.map_eq_some_iff.mp hbefore
        obtain ⟨-, rfl⟩ := Prod.mk.inj heq
        rw [hfirst]
        exact Or.inr (ih.mpr ⟨before, u, after, r'.1, r'.2, rfl, hrest, hkey⟩)

/-- The log of some overriding methods has what one of them logs when it is reached. -/
theorem mem_overridesEntered {key : String} {ms : List MethodRef} {s : Resolution} :
    key ∈ i.overridesEntered build entered ms s ↔
      ∃ before m after nodes s₁, ms = before ++ m :: after ∧
        i.overridesBy build before s = some (nodes, s₁) ∧
          s₁.context.isInFlight (i.code.methodId m) = false ∧ key ∈ entered m s₁ := by
  induction ms generalizing s with
  | nil => simp [overridesEntered]
  | cons m ms ih =>
    rw [overridesEntered]
    constructor
    · intro hkey
      split at hkey
      · next hin =>
        obtain ⟨before, k, after, nodes, s₁, rfl, hbefore, hk, hkey⟩ := ih.mp hkey
        refine ⟨m :: before, k, after, .reference (i.code.methodId m) :: nodes, s₁, rfl, ?_, hk, hkey⟩
        exact Option.bind_eq_some_iff.mpr
          ⟨_, if_pos hin, Option.map_eq_some_iff.mpr ⟨_, hbefore, rfl⟩⟩
      · next hin =>
        rcases List.mem_append.mp hkey with hkey | hkey
        · exact ⟨[], m, ms, [], s, rfl, rfl, Bool.not_eq_true _ ▸ hin, hkey⟩
        · cases hfirst : build m s with
          | none =>
            rw [hfirst] at hkey
            exact absurd hkey List.not_mem_nil
          | some r =>
            rw [hfirst] at hkey
            obtain ⟨before, k, after, nodes, s₁, rfl, hbefore, hk, hkey⟩ := ih.mp hkey
            refine ⟨m :: before, k, after, r.1 :: nodes, s₁, rfl, ?_, hk, hkey⟩
            exact Option.bind_eq_some_iff.mpr
              ⟨r, (if_neg hin).trans hfirst, Option.map_eq_some_iff.mpr ⟨_, hbefore, rfl⟩⟩
    · rintro ⟨before, k, after, nodes, s₁, hms, hbefore, hk, hkey⟩
      cases before with
      | nil =>
        obtain ⟨rfl, rfl⟩ := List.cons.inj hms
        obtain ⟨-, rfl⟩ := Prod.mk.inj (Option.some.inj hbefore)
        rw [if_neg (by rw [hk]; exact Bool.false_ne_true)]
        exact List.mem_append_left _ hkey
      | cons v before =>
        obtain ⟨rfl, rfl⟩ := List.cons.inj hms
        rw [overridesBy] at hbefore
        obtain ⟨r, hfirst, hbefore⟩ := Option.bind_eq_some_iff.mp hbefore
        obtain ⟨r', hrest, heq⟩ := Option.map_eq_some_iff.mp hbefore
        obtain ⟨-, rfl⟩ := Prod.mk.inj heq
        have hlater : key ∈ i.overridesEntered build entered (before ++ k :: after) r.2 :=
          ih.mpr ⟨before, k, after, r'.1, r'.2, rfl, hrest, hk, hkey⟩
        split at hfirst
        · next hin =>
          rw [if_pos hin]
          rw [← Option.some.inj hfirst] at hlater
          exact hlater
        · next hin =>
          rw [if_neg hin, hfirst]
          exact List.mem_append_right _ hlater

/-- An identity that is logged is that of a call of `build` which finds no node in the cache. -/
theorem exists_calls_of_mem_entered {key : String} {n : Nat} {m : MethodRef} {s : Resolution}
    (hkey : key ∈ i.entered g n m s) : ∃ k m' t, i.Calls g n m s (k + 1) m' t ∧
      (i.code.methodId m').canonical = key ∧ t.cache.find? key = none := by
  induction n generalizing m s with
  | zero => exact absurd hkey List.not_mem_nil
  | succ n ih =>
    rw [entered] at hkey
    cases hmissing : s.cache.find? (i.code.methodId m).canonical with
    | some v =>
      simp only [hmissing] at hkey
      exact absurd hkey List.not_mem_nil
    | none =>
      simp only [hmissing, List.mem_cons, List.mem_append] at hkey
      rcases hkey with rfl | hkey | hkey
      · exact ⟨n, m, s, .here, rfl, hmissing⟩
      · obtain ⟨before, target, after, es, s₁, htargets, hbefore, hkey⟩ := mem_edgesEntered.mp hkey
        obtain ⟨hin, callee, hcallee, hkey⟩ := mem_targetEntered.mp hkey
        obtain ⟨k, m', t, hcalls, hrest⟩ := ih hkey
        exact ⟨k, m', t, .callee hmissing htargets hbefore hin hcallee hcalls, hrest⟩
      · cases hedges : i.edgesTo g (i.build g n) (i.code.sourceType m.owner) (i.code.targets g m)
            (s.enter (i.code.methodId m)) with
        | none =>
          rw [hedges] at hkey
          exact absurd hkey List.not_mem_nil
        | some r =>
          rw [hedges] at hkey
          obtain ⟨before, lower, after, nodes, s₂, hlower, hbefore, hin, hkey⟩ :=
            mem_overridesEntered.mp hkey
          obtain ⟨k, m', t, hcalls, hrest⟩ := ih hkey
          exact ⟨k, m', t, .override hmissing hedges hlower hbefore hin hcalls, hrest⟩

/-- A call of `build` that finds no node in the cache is logged, at whatever depth. -/
theorem Calls.mem_entered {n k : Nat} {m m' : MethodRef} {s t : Resolution}
    (h : i.Calls g n m s (k + 1) m' t)
    (hmissing : t.cache.find? (i.code.methodId m').canonical = none) :
    (i.code.methodId m').canonical ∈ i.entered g n m s := by
  generalize hk : k + 1 = budget at h
  induction h with
  | here =>
    subst hk
    rw [entered]
    simp only [hmissing]
    exact List.mem_cons_self
  | callee hnone htargets hbefore hin hcallee _ ih =>
    rw [entered]
    simp only [hnone]
    refine List.mem_cons_of_mem _ (List.mem_append_left _ ?_)
    exact mem_edgesEntered.mpr ⟨_, _, _, _, _, htargets, hbefore,
      mem_targetEntered.mpr ⟨hin, _, hcallee, ih hmissing hk⟩⟩
  | override hnone hedges hlower hbefore hin _ ih =>
    rw [entered]
    simp only [hnone]
    refine List.mem_cons_of_mem _ (List.mem_append_right _ ?_)
    rw [hedges]
    exact mem_overridesEntered.mpr ⟨_, _, _, _, _, hlower, hbefore, hin, ih hmissing hk⟩

/-- **The log has the identities of the calls of `build` that find no node in the cache.** -/
theorem mem_entered {key : String} {n : Nat} {m : MethodRef} {s : Resolution} :
    key ∈ i.entered g n m s ↔ ∃ k m' t, i.Calls g n m s (k + 1) m' t ∧
      (i.code.methodId m').canonical = key ∧ t.cache.find? key = none := by
  refine ⟨exists_calls_of_mem_entered, ?_⟩
  rintro ⟨k, m', t, hcalls, rfl, hmissing⟩
  exact hcalls.mem_entered hmissing

/-! ## No identity is logged twice -/

theorem edgesEntered_logs
    (hb : i.Nests x (fun m c _ c' => Cache.Logs (entered m ⟨c, x⟩) c c') build)
    {ts : List CallTarget} (hl : ∀ t ∈ ts, i.code.Lands t) {c : Cache} {es : List Calling}
    {s : Resolution} (h : i.edgesTo g build caller ts ⟨c, x⟩ = some (es, s)) :
    Cache.Logs (i.edgesEntered g build entered caller ts ⟨c, x⟩) c s.cache := by
  induction ts generalizing c es s with
  | nil =>
    rw [edgesTo] at h
    obtain ⟨-, rfl⟩ := Prod.mk.inj (Option.some.inj h)
    exact .nil c
  | cons t ts ih =>
    rw [edgesTo] at h
    obtain ⟨⟨e, ⟨c₁, x₁⟩⟩, h₁, h⟩ := Option.bind_eq_some_iff.mp h
    obtain ⟨⟨es', s₂⟩, h₂, h⟩ := Option.map_eq_some_iff.mp h
    obtain ⟨-, rfl⟩ := Prod.mk.inj h
    obtain ⟨rfl, hstep⟩ := edgeStep_of_edgeTo hb (hl t List.mem_cons_self) h₁
    have hfirst : Cache.Logs (targetEntered g entered t ⟨c, x₁⟩) c c₁ := by
      rw [targetEntered]
      cases hstep with
      | recursive hin =>
        rw [if_pos hin]
        exact .nil _
      | expanded hin hm hn =>
        rw [if_neg (by rw [hin]; exact Bool.false_ne_true), hm]
        exact hn.holds
      | reference hin hm =>
        rw [if_neg (by rw [hin]; exact Bool.false_ne_true), hm]
        exact .nil _
    rw [edgesEntered, h₁]
    exact hfirst.append (ih (fun u hu => hl u (List.mem_cons_of_mem _ hu)) h₂)

theorem overridesEntered_logs
    (hb : i.Nests x (fun m c _ c' => Cache.Logs (entered m ⟨c, x⟩) c c') build)
    {ms : List MethodRef} (hd : ∀ m ∈ ms, i.code.Declared m) {c : Cache} {nodes : List MethodInfo}
    {s : Resolution} (h : i.overridesBy build ms ⟨c, x⟩ = some (nodes, s)) :
    Cache.Logs (i.overridesEntered build entered ms ⟨c, x⟩) c s.cache := by
  induction ms generalizing c nodes s with
  | nil =>
    rw [overridesBy] at h
    obtain ⟨-, rfl⟩ := Prod.mk.inj (Option.some.inj h)
    exact .nil c
  | cons m ms ih =>
    have hrest := fun k hk => hd k (List.mem_cons_of_mem m hk)
    rw [overridesBy] at h
    obtain ⟨⟨node, ⟨c₁, x₁⟩⟩, h₁, h⟩ := Option.bind_eq_some_iff.mp h
    obtain ⟨⟨nodes', s₂⟩, h₂, h⟩ := Option.map_eq_some_iff.mp h
    obtain ⟨-, rfl⟩ := Prod.mk.inj h
    rw [overridesEntered]
    split at h₁
    · next hin =>
      obtain ⟨-, hs⟩ := Prod.mk.inj (Option.some.inj h₁)
      rw [if_pos hin, hs]
      obtain ⟨rfl, rfl⟩ := Resolution.mk.inj hs
      exact ih hrest h₂
    · next hin =>
      rw [if_neg hin, h₁]
      rw [Bool.not_eq_true] at hin
      obtain ⟨rfl, -, hlogs⟩ := hb m c node _ (hd m List.mem_cons_self) hin h₁
      exact hlogs.append (ih hrest h₂)

/-- **The traversal enters different methods.** -/
theorem build_logs (n : Nat) (hx : x.Sound i.code) :
    i.Nests x (fun m c _ c' => Cache.Logs (i.entered g n m ⟨c, x⟩) c c') (i.build g n) := by
  induction n generalizing x with
  | zero => exact fun m c node s _ _ h => absurd h (by simp [Index.build])
  | succ n ih =>
    intro m c node s hm hf h
    obtain ⟨hcontext, hframe, -⟩ := build_nests (n + 1) hx m c node s hm hf h
    refine ⟨hcontext, hframe, ?_⟩
    have hb := ih (hx.enter hm hf)
    rcases build_succ_cases (P := fun x m c _ c' => Cache.Logs (i.entered g n m ⟨c, x⟩) c c')
        hx hm hf hb h with ⟨hfound, rfl⟩ | ⟨edges, c₁, nodes, c₂, h₁, h₂, hmiss, -, rfl⟩
    · show Cache.Logs (i.entered g (n + 1) m ⟨c, x⟩) c c
      rw [Index.entered, hfound]
      exact .nil c
    · have hcalls :=
        edgesEntered_logs hb (fun t ht => Codebase.lands_of_mem_targets hm ht) h₁
      have hoverrides :=
        overridesEntered_logs hb (fun k hk => declared_of_mem_overriding hk) h₂
      have hstill : c₂.find? (i.nodeOf m edges nodes).key = none := hmiss.missing_still
      have hlog := (hcalls.append hoverrides).finish hstill
      show Cache.Logs (i.entered g (n + 1) m ⟨c, x⟩) c _
      rw [Index.entered, hmiss.missing]
      simp only [Resolution.enter, h₁]
      exact hlog

end Index

/-! ## Requests -/

namespace Session

/-- The identities that a request resolves anew. -/
def newlyEntered (s : Session) (text : String) : List String :=
  match s.hit? text with
  | some _ => []
  | none =>
    match s.declarationOf text with
    | .error _ => []
    | .ok m => s.index.entered s.config s.index.depthBudget m ⟨s.cache, .empty⟩

/-- **The identities that a sequence of requests resolves anew.** -/
def entered (s : Session) : List String → List String
  | [] => []
  | text :: texts => s.newlyEntered text ++ (s.resolve text).2.entered texts

theorem resolve_logs (s : Session) (text : String) :
    Cache.Logs (s.newlyEntered text) s.cache (s.resolve text).2.cache := by
  cases hhit : s.hit? text with
  | some node =>
    simp only [newlyEntered, resolve, hhit]
    exact .nil s.cache
  | none =>
    rcases resolve_cases s text with ⟨node, hfound, -⟩ | ⟨e, hres⟩ | hbuilt
    · rw [hhit] at hfound
      exact absurd hfound (by simp)
    · cases hm : s.declarationOf text with
      | error e =>
        simp only [newlyEntered, hhit, hm, hres]
        exact .nil s.cache
      | ok m =>
        simp only [resolve, hhit, hm] at hres
        exact absurd (Prod.mk.inj hres).1 (by simp)
    · obtain ⟨m, node, c', -, hm, hbuild, hres⟩ := hbuilt
      have hd := declared_of_declarationOf hm
      obtain ⟨-, -, hlogs⟩ := Index.build_logs _ (.empty _) m s.cache node _ hd rfl hbuild
      obtain ⟨-, -, hrec⟩ := Index.build_records _ (.empty _) m s.cache node _ hd rfl hbuild
      simp only [newlyEntered, hhit, hm, hres]
      exact hlogs.alias hrec.finished

theorem after_logs (s : Session) (texts : List String) :
    Cache.Logs (s.entered texts) s.cache (s.after texts).cache := by
  induction texts generalizing s with
  | nil => exact .nil s.cache
  | cons text texts ih => exact (resolve_logs s text).append (ih _)

end Session

/-! ## The same text again -/

/-- If the text is the written identity of a declared method, then it is also the written form of the
identity that is read from it.  This is so of all methods whose types have proper names. -/
def Index.ReadsBack (i : Index) (text : String) : Prop :=
  ∀ m, i.code.Declared m → (i.code.methodId m).canonical = text →
    ∀ id, MethodId.parse? text = some id → id.canonical = text

namespace Session

variable {i : Index} {g : GraphConfig}

theorem resolve_of_hit? {s : Session} {text : String} {root : MethodInfo}
    (h : s.hit? text = some root) : s.resolve text = (.ok root, s) := by
  rw [resolve, h]

/-- What a text is answered with from the cache does not change, unless it is the written identity of
a method but reads as another one. -/
theorem Extends.hit? {s s' : Session} {texts : List String} (h : s.Extends texts s')
    (hs' : s'.index.Owns s'.cache) {text : String} (hread : s'.index.ReadsBack text)
    {root : MethodInfo} (hhit : s.hit? text = some root) : s'.hit? text = some root := by
  rcases Option.or_eq_some_iff.mp hhit with hfound | ⟨hnone, hfound⟩
  · rw [Session.hit?, h.kept text root hfound, Option.some_or]
  · obtain ⟨id, hid, hidfound⟩ := Option.bind_eq_some_iff.mp hfound
    have hkept := h.kept _ root hidfound
    cases hv : s'.cached? text with
    | none => rw [Session.hit?, hv, Option.none_or, hid, Option.bind_some, hkept]
    | some v =>
      rcases h.own text v hv with hold | hown | ⟨-, hmiss⟩
      · rw [hnone] at hold
        exact absurd hold (by simp)
      · -- the text has become the identity of a node of its own
        obtain ⟨hbuilt, hall⟩ := hs' text v hv
        obtain ⟨m, hm⟩ := hbuilt.exists
        obtain ⟨hd, hvid⟩ := hall.here.declared m hm
        have hsame := hread m hd (by rw [← hvid]; exact hown) id hid
        rw [hsame, hnone] at hidfound
        exact absurd hidfound (by simp)
      · rw [hhit] at hmiss
        exact absurd hmiss (by simp)

/-- **One node for every identity, for good.**  Whatever texts are requested, of a new session,

* a node that is kept under a text is kept there;
* no identity is resolved anew twice, and those of all built nodes in the answers are;
* two built nodes with one identity, in any answers, are the same node;
* a text that was answered has the same answer ever after, unless it is the written identity of a
  declared method but reads as another identity. -/
theorem one_node_per_identity (i : Index) (g : GraphConfig) (texts : List String) :
    (∀ before more, texts = before ++ more →
      ∀ key node, ((start i g).after before).cached? key = some node →
        ((start i g).after texts).cached? key = some node) ∧
    (((start i g).entered texts).Nodup ∧
      ∀ root, .ok root ∈ Command.resolveAll (start i g) texts →
        ∀ b : MethodInfo, b.Occurs root → b.IsBuilt → b.key ∈ (start i g).entered texts) ∧
    (∀ root, .ok root ∈ Command.resolveAll (start i g) texts →
      ∀ root', .ok root' ∈ Command.resolveAll (start i g) texts →
        ∀ b b' : MethodInfo, b.Occurs root → b.IsBuilt → b'.Occurs root' → b'.IsBuilt →
          b.key = b'.key → b = b') ∧
    (∀ before text more, texts = before ++ text :: more → i.ReadsBack text →
      ∀ root, (((start i g).after before).resolve text).1 = .ok root →
        (((start i g).after texts).resolve text).1 = .ok root) := by
  have hlogs := after_logs (start i g) texts
  refine ⟨?_, ⟨hlogs.nodup, ?_⟩, ?_, ?_⟩
  · rintro before more rfl key node hnode
    rw [after_append]
    exact (extends_after _ more).kept key node hnode
  · intro root hroot b hb hbuilt
    have hcached := (holds_of_occurs hroot hb).cached hbuilt
    rcases hlogs.new _ b hcached with ⟨key, hkey⟩ | hkey
    · exact absurd hkey (by simp [start])
    · exact hkey
  · intro root hroot root' hroot' b b' hb hbuilt hb' hbuilt' hkey
    have hcached := (holds_of_occurs hroot hb).cached hbuilt
    rw [hkey, (holds_of_occurs hroot' hb').cached hbuilt'] at hcached
    exact (Option.some.inj hcached).symm
  · rintro before text more rfl hread root hroot
    have hlater := extends_after (((start i g).after before).resolve text).2 more
    have hsame : (start i g).after (before ++ text :: more) =
        (((start i g).after before).resolve text).2.after more := after_append _ _ _
    have howns := owns_after_start i g (before ++ text :: more)
    have hindex := (extends_after (start i g) (before ++ text :: more)).index
    rw [hsame] at howns hindex ⊢
    have hhit := hlater.hit? (by rw [hindex]; exact howns) (by rw [hindex]; exact hread)
      (hit?_resolve hroot)
    rw [resolve_of_hit? hhit]

/-- In the code base with cycles a request for `Sub.foo` in between does not change what is answered
for `Sub.root`, and resolves nothing anew. -/
theorem one_node_per_identity_sample :
    (Index.ofCodebase Sample.code).ReadsBack "Sub#root()" ∧
      ∃ root, (Sample.start.resolve "Sub#root()").1 = .ok root ∧
        ((Sample.start.after ["Sub#root()", "Sub#foo()"]).resolve "Sub#root()").1 = .ok root ∧
        (Sample.start.entered ["Sub#root()", "Sub#foo()"]).count "Sub#foo()" = 1 := by
  have hread : (Index.ofCodebase Sample.code).ReadsBack "Sub#root()" := by
    intro m _ _ id hid
    have hparse : MethodId.parse? "Sub#root()" = some ⟨"Sub", "root", []⟩ := by decide
    rw [← Option.some.inj (hparse.symm.trans hid)]
    decide
  have hm : Sample.start.declarationOf "Sub#root()" = .ok ⟨⟨1⟩, 4⟩ := by decide +kernel
  obtain ⟨node, cache, -, hres⟩ := resolve_start_of_declarationOf hm
  have hroot : (Sample.start.resolve "Sub#root()").1 = .ok (cache.findOr "Sub#root()" node) := by
    rw [Sample.start, hres]
  obtain ⟨-, ⟨hnodup, -⟩, -, hagain⟩ := one_node_per_identity (.ofCodebase Sample.code) .default
    ["Sub#root()", "Sub#foo()"]
  refine ⟨hread, _, hroot, hagain [] "Sub#root()" ["Sub#foo()"] rfl hread _ hroot, ?_⟩
  exact List.count_eq_one_of_mem hnodup (by decide +kernel)

end Session

/-! ## A text that reads as another identity

The name of a type may hold a separator: a comment may stand inside a name, and it is kept.  Here
`A.f` has a parameter of type `P,Q` and a namesake with one of type `P#Q`.  The written identity of
the second reads as that of the first, and so it is answered with a node of the first until the
second is resolved itself. -/

namespace Sample

/-- A method that passes a local variable to `f`. -/
def passes (name : String) (type : TypeRef) : MethodDecl :=
  { method name [] with
    body := some ⟨[⟨none, .method, [⟨"x", type, none, none⟩], []⟩],
      [⟨⟨none, "f", [.name "x"]⟩, 0, 1⟩]⟩ }

/-- A new session on one class with methods of these kinds. -/
def separatorStart : Session :=
  .start (.ofCodebase
    { code with
      types := [classDecl "A" []
        [unary "f" (.simple "P,Q") [], unary "f" (.simple "P#Q") [], passes "g" (.simple "P,Q"),
          passes "h" (.simple "P#Q")]] }) .default

end Sample

/-- **The answer to a text can change.**  When `A.g` is resolved, `A#f(P#Q)` is answered with the
method that `A.g` calls; when `A.h` is resolved too, with the one that `A.h` calls. -/
theorem Session.not_same_answer_sample :
    ¬∀ (before more : List String) (text : String) (root : MethodInfo),
      ((Sample.separatorStart.after before).resolve text).1 = .ok root →
        ((Sample.separatorStart.after (before ++ text :: more)).resolve text).1 = .ok root := by
  intro h
  have hfirst : ((Sample.separatorStart.after ["A#g()"]).resolve "A#f(P#Q)").1.toOption.map
      MethodInfo.key = some "A#f(P,Q)" := by decide +kernel
  have hsecond : ((Sample.separatorStart.after ["A#g()", "A#f(P#Q)", "A#h()"]).resolve
      "A#f(P#Q)").1.toOption.map MethodInfo.key = some "A#f(P#Q)" := by decide +kernel
  cases hres : ((Sample.separatorStart.after ["A#g()"]).resolve "A#f(P#Q)").1 with
  | error e =>
    rw [hres] at hfirst
    exact absurd hfirst (by simp [Except.toOption])
  | ok root =>
    have hagain := h ["A#g()"] ["A#h()"] "A#f(P#Q)" root hres
    rw [List.cons_append, List.nil_append] at hagain
    rw [hres] at hfirst
    rw [hagain, hfirst] at hsecond
    exact absurd hsecond (by decide)

end JavaCallGraph
