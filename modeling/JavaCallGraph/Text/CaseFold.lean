import JavaCallGraph.Text.Capital

/-!
# Letters that differ in case only

`caseVariants` lists the characters that count as equal to a given one when case does not matter.  Two
characters count as equal when they have the same `caseKey`: the upper case if that is a single
character, with the letters that have a case partner only in one direction added by hand.
-/

set_option autoImplicit false

namespace JavaCallGraph.Text

/-- Code points whose key is not their upper case: compatibility signs for letters, titlecase letters
with an iota, the capital sharp s, and the dotless i, which has no partner. -/
def caseExceptions : List (Nat × Nat) :=
  [(0x131, 0x131), (0x3F4, 0x398), (0x1E9E, 0xDF), (0x2126, 0x3A9), (0x212A, 0x4B), (0x212B, 0xC5),
   (0x1FBC, 0x1FB3), (0x1FCC, 0x1FC3), (0x1FFC, 0x1FF3)] ++
  ((List.range 8).flatMap fun i =>
    [(0x1F88 + i, 0x1F80 + i), (0x1F98 + i, 0x1F90 + i), (0x1FA8 + i, 0x1FA0 + i)])

/-- What characters that differ in case only have in common. -/
def caseKey (c : Char) : Nat :=
  match caseExceptions.lookup c.toNat with
  | some k => k
  | none =>
    match upperCase c with
    | [u] => u.toNat
    | _ => c.toNat

/-- The code points whose upper case is `k`. -/
def lowerCodes (k : Nat) : List Nat :=
  caseRuns.filterMap fun r =>
    let n := (k - r.shift : Int).toNat
    if r.covers n then some n else none

/-- **The characters equal to a given one up to case**, itself included. -/
def caseVariants (c : Char) : List Char :=
  let k := caseKey c
  let others := k :: lowerCodes k ++ (caseExceptions.filter fun e => e.2 == k).map (·.1)
  c :: (others.map Char.ofNat).filter fun d => d != c && caseKey d == k

/-- The lower case of a character; a character that is not in upper case is its own. -/
def lowerCase (c : Char) : Char :=
  if c.toNat < 0x80 then c.toLower
  else if upperCase c == [c] then Char.ofNat ((lowerCodes c.toNat).head?.getD c.toNat)
  else c

end JavaCallGraph.Text
