import JavaCallGraph.Error
import JavaCallGraph.Graph.Resolution

/-!
# Sessions

A `Session` answers requests for methods one after the other on one index, with one configuration and
one cache.  A request names a method by a text in the form of an identity; the node is kept under that
text too, so that the same request gives the same node ever after.
-/

set_option autoImplicit false

namespace JavaCallGraph

/-- An index, the choices about its graph, and what was resolved so far. -/
structure Session where
  index : Index
  config : GraphConfig
  cache : Cache

namespace Session

/-- Nothing is resolved yet. -/
def start (index : Index) (config : GraphConfig) : Session := ⟨index, config, .empty⟩

/-- The node kept under a text. -/
def cached? (s : Session) (text : String) : Option MethodInfo := s.cache.find? text

/-- The number of texts under which nodes are kept. -/
def cachedCount (s : Session) : Nat := s.cache.size

/-- The declaration that a text means. -/
def declarationOf (s : Session) (text : String) : Except Error MethodRef := do
  let id ← MethodId.parse text
  match s.index.code.findDeclaration? id with
  | some m => .ok m
  | none => .error (.methodNotFound id.canonical)

/-- Resolves a declaration that was asked for by a text. -/
def resolveAs (s : Session) (text : String) (m : MethodRef) : MethodInfo × Session :=
  let (node, cache) := s.index.resolveMethod s.config s.cache m
  (cache.findOr text node, { s with cache := cache.insertNew text node })

/-- The node that is kept for a text, under the text itself or under the identity it spells. -/
def hit? (s : Session) (text : String) : Option MethodInfo :=
  (s.cached? text).or ((MethodId.parse? text).bind fun id => s.cached? id.canonical)

/-- **Answers a request**, and gives the session with all that was resolved for it.  A request that
fails changes nothing. -/
def resolve (s : Session) (text : String) : Except Error MethodInfo × Session :=
  match s.hit? text with
  | some node => (.ok node, s)
  | none =>
    match s.declarationOf text with
    | .error e => (.error e, s)
    | .ok m =>
      let (node, s) := s.resolveAs text m
      (.ok node, s)

end Session

end JavaCallGraph
