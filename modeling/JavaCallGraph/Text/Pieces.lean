import JavaCallGraph.Text.Blank

/-!
# Cutting a text at separators

`cut p` cuts a list of characters at every character that satisfies `p`; the separators themselves
are dropped and empty pieces are kept, so a text with `n` separators has exactly `n + 1` pieces
(`length_cut`).  The variants on `String` are what the rest of the library uses:

* `pieces` — `cut` on texts;
* `words` — the non-empty pieces between blanks;
* `joinWith` — the pieces put together again around a separator.
-/

set_option autoImplicit false

namespace JavaCallGraph.Text

/-- Cuts at every character that satisfies `p`. -/
def cut (p : Char → Bool) : List Char → List (List Char)
  | [] => [[]]
  | c :: cs =>
    if p c then [] :: cut p cs
    else match cut p cs with
      | [] => [[c]]
      | w :: ws => (c :: w) :: ws

theorem cut_ne_nil (p : Char → Bool) (cs : List Char) : cut p cs ≠ [] := by
  cases cs with
  | nil => simp [cut]
  | cons c cs =>
    rw [cut]
    split
    · simp
    · split <;> simp

/-- **One more piece than separators.** -/
theorem length_cut (p : Char → Bool) (cs : List Char) : (cut p cs).length = cs.countP p + 1 := by
  induction cs with
  | nil => rfl
  | cons c cs ih =>
    rw [cut]
    split
    · next h => simp [ih, List.countP_cons_of_pos h]
    · next h =>
      rw [List.countP_cons_of_neg h, ← ih]
      split
      · next hc => exact absurd hc (cut_ne_nil p cs)
      · next hc => simp [hc]

/-- The pieces of a text between the characters that satisfy `p`. -/
def pieces (p : Char → Bool) (s : String) : List String := (cut p s.toList).map String.ofList

/-- The words of a text: the non-empty pieces between blanks. -/
def words (s : String) : List String := (pieces isBlank s).filter fun w => !w.isEmpty

/-- The given texts with `sep` between each two. -/
def joinWith (sep : String) : List String → String
  | [] => ""
  | [s] => s
  | s :: t :: rest => s ++ sep ++ joinWith sep (t :: rest)

/-- The text after the last `c`, or the whole text when there is none. -/
def afterLast (c : Char) (s : String) : String :=
  String.ofList ((s.toList.reverse.takeWhile (· != c)).reverse)

/-- The texts before and after the last `c`, if there is one. -/
def splitLast? (c : Char) (s : String) : Option (String × String) :=
  match s.toList.reverse.dropWhile (· != c) with
  | [] => none
  | _ :: before => some (String.ofList before.reverse, afterLast c s)

/-- The texts before and after the first `c`, if there is one. -/
def splitFirst? (c : Char) (s : String) : Option (String × String) :=
  match s.toList.dropWhile (· != c) with
  | [] => none
  | _ :: rest => some (String.ofList (s.toList.takeWhile (· != c)), String.ofList rest)

end JavaCallGraph.Text
