import JavaCallGraph.Text.Pieces

/-!
# The name in a written type

A dotted type may carry type arguments and annotations: `Outer<String>.Inner`,
`java.util. @NonNull List`.  `eraseGenerics` keeps the name only: words that begin with `@` go, what
stands between angle brackets goes, and so do all blanks.
-/

set_option autoImplicit false

namespace JavaCallGraph.Syntax

/-- The characters outside angle brackets, starting inside `depth` of them. -/
def outsideBrackets : Nat → List Char → List Char
  | _, [] => []
  | depth, '<' :: cs => outsideBrackets (depth + 1) cs
  | depth, '>' :: cs => outsideBrackets (depth - 1) cs
  | 0, c :: cs => c :: outsideBrackets 0 cs
  | depth + 1, _ :: cs => outsideBrackets (depth + 1) cs

/-- The name in a written type. -/
def eraseGenerics (text : String) : String :=
  let kept := (Text.words text).filter fun w => w.toList.head? != some '@'
  String.ofList (outsideBrackets 0 (kept.flatMap String.toList))

end JavaCallGraph.Syntax
