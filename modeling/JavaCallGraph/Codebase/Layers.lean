/-!
# Breadth-first layers

`layers next key` lists what can be reached from some start by `next`, in layers: the first layer is
what one step reaches, the second what two steps reach, and so on.  Nothing is listed twice; two
things are the same when they have the same key, and the first one found stays.

Read one after the other the layers are a breadth-first search, and the number of a layer is the
distance from the start.
-/

set_option autoImplicit false

namespace JavaCallGraph.Layers

variable {α : Type}

/-- The elements whose key is neither in `seen` nor that of an earlier element. -/
def fresh (key : α → String) : List String → List α → List α
  | _, [] => []
  | seen, a :: as =>
    if seen.contains (key a) then fresh key seen as
    else a :: fresh key (key a :: seen) as

/-- The layers beyond `frontier`, at most `n` of them; `seen` are the keys listed so far. -/
def layers (key : α → String) (next : α → List α) : Nat → List String → List α → List (List α)
  | 0, _, _ => []
  | n + 1, seen, frontier =>
    match fresh key seen (frontier.flatMap next) with
    | [] => []
    | a :: as =>
      (a :: as) :: layers key next n ((a :: as).map key ++ seen) (a :: as)

theorem mem_of_mem_fresh {key : α → String} {seen : List String} {as : List α} {a : α}
    (h : a ∈ fresh key seen as) : a ∈ as := by
  induction as generalizing seen with
  | nil => simp [fresh] at h
  | cons b bs ih =>
    rw [fresh] at h
    split at h
    · exact List.mem_cons_of_mem _ (ih h)
    · rcases List.mem_cons.mp h with rfl | h
      · exact List.mem_cons_self
      · exact List.mem_cons_of_mem _ (ih h)

theorem key_notMem_of_mem_fresh {key : α → String} {seen : List String} {as : List α} {a : α}
    (h : a ∈ fresh key seen as) : key a ∉ seen := by
  induction as generalizing seen with
  | nil => simp [fresh] at h
  | cons b bs ih =>
    rw [fresh] at h
    split at h
    · exact ih h
    · next hb =>
      rcases List.mem_cons.mp h with rfl | h
      · simpa using hb
      · exact fun hs => ih h (List.mem_cons_of_mem _ hs)

end JavaCallGraph.Layers
