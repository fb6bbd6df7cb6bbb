/-!
# Decoding bytes

Source files are read as UTF-8 whatever they contain: `decodeLossy` puts one replacement character
`U+FFFD` for every *maximal invalid part*, that is for the longest run of bytes that begins some
encoded character but is not continued as one, or for a single byte that begins none.
`decode?` is the strict reading, which fails on the first invalid part.

Both walk the bytes with `decodeStep`, which reads one character or one invalid part.
-/

set_option autoImplicit false

namespace JavaCallGraph.Text

/-- A byte that continues an encoded character. -/
def isContinuation (b : UInt8) : Bool := 0x80 ≤ b && b ≤ 0xBF

/-- The bytes that may follow the lead byte `b` directly; the tighter bounds rule out overlong forms,
surrogates and code points above `U+10FFFF`. -/
def isSecond (b c : UInt8) : Bool :=
  if b == 0xE0 then 0xA0 ≤ c && c ≤ 0xBF
  else if b == 0xED then 0x80 ≤ c && c ≤ 0x9F
  else if b == 0xF0 then 0x90 ≤ c && c ≤ 0xBF
  else if b == 0xF4 then 0x80 ≤ c && c ≤ 0x8F
  else isContinuation c

/-- How many bytes follow a lead byte; `none` for a byte that leads nothing. -/
def following? (b : UInt8) : Option Nat :=
  if b ≤ 0x7F then some 0
  else if 0xC2 ≤ b && b ≤ 0xDF then some 1
  else if 0xE0 ≤ b && b ≤ 0xEF then some 2
  else if 0xF0 ≤ b && b ≤ 0xF4 then some 3
  else none

/-- The payload of a lead byte with `n` following bytes. -/
def leadBits (n : Nat) (b : UInt8) : Nat :=
  match n with
  | 0 => b.toNat
  | 1 => b.toNat % 32
  | 2 => b.toNat % 16
  | _ => b.toNat % 8

/-- Reads `n` further continuation bytes onto the value `v`; also says how many bytes were read. -/
def readContinuations : Nat → Nat → List UInt8 → Option Nat × Nat
  | 0, v, _ => (some v, 0)
  | _ + 1, _, [] => (none, 0)
  | n + 1, v, b :: bs =>
    if isContinuation b then
      let (r, k) := readContinuations n (v * 64 + b.toNat % 64) bs
      (r, k + 1)
    else (none, 0)

/-- The first character of `b :: bs`, or `none` for an invalid part, and the number of bytes of `bs`
that belong to it. -/
def decodeStep (b : UInt8) (bs : List UInt8) : Option Nat × Nat :=
  match following? b with
  | none => (none, 0)
  | some 0 => (some b.toNat, 0)
  | some (n + 1) =>
    match bs with
    | [] => (none, 0)
    | c :: cs =>
      if isSecond b c then
        let (r, k) := readContinuations n (leadBits (n + 1) b * 64 + c.toNat % 64) cs
        (r, k + 1)
      else (none, 0)

/-- The characters of a byte sequence, each invalid part as `none`. -/
def decodeParts : List UInt8 → List (Option Char)
  | [] => []
  | b :: bs => (decodeStep b bs).1.map Char.ofNat :: decodeParts (bs.drop (decodeStep b bs).2)
termination_by bs => bs.length
decreasing_by simp only [List.length_drop, List.length_cons]; omega

/-- The text of a byte sequence, with `U+FFFD` for each invalid part. -/
def decodeLossy (bs : List UInt8) : String :=
  String.ofList ((decodeParts bs).map fun c => c.getD '\uFFFD')

/-- The text of a byte sequence that is UTF-8 throughout. -/
def decode? (bs : List UInt8) : Option String :=
  ((decodeParts bs).mapM id).map String.ofList

end JavaCallGraph.Text
