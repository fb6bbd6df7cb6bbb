import JavaCallGraph.Lowering.Body

/-!
# Nodes of a method body and what a walk does at each

The walk of `Lowering/Body.lean` is fifteen functions that call each other.  Here it is taken apart
one level at a time: at a node the walk does a few things in order, some of which are walks of smaller
nodes.  What holds of whole walks is then one induction over nodes, not one case for each function.

* `Node`, `Node.children` — the syntactic forms under one roof, and what stands directly in a node, in
  the order of the text;
* `Node.induction` — what holds of a node when it holds of its children holds of every node;
* `Node.preorder` — a node with all that is inside it, in the order of the text;
* `Part`, `Node.parts` — the things that a walk does at a node: enter a smaller one, record a call,
  declare a variable, open a scope;
* `Node.walk_eq` — the walk of a node is the walk of its parts;
* `Node.nodesOfAll_parts` — the smaller nodes it enters are the children, in order;
* `Kept.walk` — what every step of a walk keeps, the walk keeps.
-/

set_option autoImplicit false

namespace JavaCallGraph.Syntax

/-! ## Nodes -/

/-- A node of the syntax tree of a method body. -/
inductive Node where
  | expr (e : Expr)
  | stmt (s : Stmt)
  | declarator (d : Declarator)
  | handler (h : Handler)
  | resource (r : Resource)
  /-- A member of an anonymous class. -/
  | member (m : Member)
  /-- An annotation type. -/
  | annotationType (t : TypeTree)
  /-- A member of an annotation type. -/
  | element (m : Member)
  /-- A constant of an annotation type, which is no variable of the body. -/
  | constant (d : Declarator)

namespace Node

/-- **What stands directly in a node**, in the order of the text.  The types declared inside a body
are left out, except annotation types; so are the members of an anonymous class that are no fields,
methods or initializers. -/
def children : Node → List Node
  | expr (.literal _) | expr (.name _) | expr .this | expr .super | expr (.classLiteral _) => []
  | expr (.field object _) => [expr object]
  | expr (.call _ object _ args) => object.toList.map expr ++ args.map expr
  | expr (.new outer _ args) => outer.toList.map expr ++ args.map expr
  | expr (.anonymous outer _ args members) =>
    outer.toList.map expr ++ args.map expr ++ members.map member
  | expr (.newArray _ sizes init) => sizes.map expr ++ init.toList.map expr
  | expr (.arrayInit elements) => elements.map expr
  | expr (.index array position) => [expr array, expr position]
  | expr (.binary _ left right) => [expr left, expr right]
  | expr (.unary _ operand) => [expr operand]
  | expr (.conditional condition positive negative) =>
    [expr condition, expr positive, expr negative]
  | expr (.cast _ operand) => [expr operand]
  | expr (.instanceOf operand _ _) => [expr operand]
  | expr (.assign target value) => [expr target, expr value]
  | expr (.lambda _ body) => [expr body]
  | expr (.lambdaBlock _ body) => body.map stmt
  | expr (.methodReference qualifier) => qualifier.toList.map expr
  | expr (.parens inner) => [expr inner]
  | expr (.switch subject body) => expr subject :: body.map stmt
  | expr (.text embedded) => embedded.map expr
  | expr (.template processor embedded) => expr processor :: embedded.map expr
  | stmt (.evaluate exprs) => exprs.map expr
  | stmt (.block body) => body.map stmt
  | stmt (.declare vars) => vars.map declarator
  | stmt (.ifElse condition positive negative) =>
    expr condition :: stmt positive :: negative.toList.map stmt
  | stmt (.whileLoop condition body) => [expr condition, stmt body]
  | stmt (.doWhile body condition) => [stmt body, expr condition]
  | stmt (.forLoop init condition update body) =>
    stmt init :: (condition.map expr ++ update.map expr ++ [stmt body])
  | stmt (.forEach _ _ iterable body) => [expr iterable, stmt body]
  | stmt (.labeled body) => [stmt body]
  | stmt (.synchronized lock body) => expr lock :: body.map stmt
  | stmt (.tryPlain body handlers) => body.map stmt ++ handlers.map handler
  | stmt (.tryWith resources body handlers) =>
    resources.map resource ++ body.map stmt ++ handlers.map handler
  | stmt (.localType _) => []
  | stmt (.localAnnotationType type) => [annotationType type]
  | declarator (.mk _ _ init) | constant (.mk _ _ init) => init.toList.map expr
  | handler (.catchClause _ _ body) | handler (.finallyClause body) => body.map stmt
  | resource (.declared _ _ value) | resource (.existing value) => [expr value]
  | member (.field _ vars) => vars.map declarator
  | member (.method _ body) | member (.initializer body) => body.map stmt
  | member (.abstractMethod _ _) | member .constructor | member (.enumConstant _)
  | member (.type _) => []
  | annotationType (.mk header members) =>
    if header.kind == .annotationType then members.map element else []
  | element (.field _ vars) => vars.map constant
  | element (.abstractMethod _ default) => default.toList.map expr
  | element (.type type) => [annotationType type]
  | element (.method _ _) | element (.initializer _) | element .constructor
  | element (.enumConstant _) => []

theorem sizeOf_le_of_mem_map {α : Type} [SizeOf α] {form : α → Node}
    (hform : ∀ a, sizeOf (form a) = 1 + sizeOf a) {l : List α} {m : Node} (h : m ∈ l.map form) :
    sizeOf m ≤ sizeOf l := by
  obtain ⟨a, ha, rfl⟩ := List.mem_map.mp h
  have := List.sizeOf_lt_of_mem ha
  rw [hform]
  omega

theorem sizeOf_le_of_mem_toList {α : Type} [SizeOf α] {form : α → Node}
    (hform : ∀ a, sizeOf (form a) = 1 + sizeOf a) {o : Option α} {m : Node}
    (h : m ∈ o.toList.map form) : sizeOf m ≤ sizeOf o := by
  obtain ⟨a, ha, rfl⟩ := List.mem_map.mp h
  rw [Option.mem_toList.mp ha, hform]
  exact Nat.le_refl _

/-- What stands in a node is smaller. -/
theorem sizeOf_lt_of_mem_children {m n : Node} (h : m ∈ n.children) : sizeOf m < sizeOf n := by
  have hexprs {l} := sizeOf_le_of_mem_map (m := m) (l := l) expr.sizeOf_spec
  have hstmts {l} := sizeOf_le_of_mem_map (m := m) (l := l) stmt.sizeOf_spec
  have hdeclarators {l} := sizeOf_le_of_mem_map (m := m) (l := l) declarator.sizeOf_spec
  have hconstants {l} := sizeOf_le_of_mem_map (m := m) (l := l) constant.sizeOf_spec
  have hhandlers {l} := sizeOf_le_of_mem_map (m := m) (l := l) handler.sizeOf_spec
  have hresources {l} := sizeOf_le_of_mem_map (m := m) (l := l) resource.sizeOf_spec
  have hmembers {l} := sizeOf_le_of_mem_map (m := m) (l := l) member.sizeOf_spec
  have helements {l} := sizeOf_le_of_mem_map (m := m) (l := l) element.sizeOf_spec
  have hexpr? {o} := sizeOf_le_of_mem_toList (m := m) (o := o) expr.sizeOf_spec
  have hstmt? {o} := sizeOf_le_of_mem_toList (m := m) (o := o) stmt.sizeOf_spec
  revert h
  fun_cases children n <;> grind [-List.mem_map, -Option.mem_toList]

/-- What holds of a node when it holds of its children holds of every node. -/
theorem induction {motive : Node → Prop} (step : ∀ n, (∀ m ∈ n.children, motive m) → motive n)
    (n : Node) : motive n :=
  step n fun m _ => induction step m
termination_by n
decreasing_by exact sizeOf_lt_of_mem_children ‹_›

/-- **A node and all that is inside it**, a node before what it contains. -/
def preorder (n : Node) : List Node :=
  n :: n.children.attach.flatMap fun ⟨m, _⟩ => m.preorder
termination_by n
decreasing_by exact sizeOf_lt_of_mem_children ‹_›

theorem preorder_eq (n : Node) : n.preorder = n :: n.children.flatMap preorder := by
  rw [preorder, List.flatMap_subtype (g := preorder) fun _ _ => rfl, List.unattach_attach]

theorem mem_preorder {m n : Node} : m ∈ n.preorder ↔ m = n ∨ ∃ c ∈ n.children, m ∈ c.preorder := by
  rw [preorder_eq, List.mem_cons, List.mem_flatMap]

/-- What stands in a node is inside everything that the node is inside of. -/
theorem mem_preorder_of_mem_children {m n r : Node} (hn : n ∈ r.preorder) (hm : m ∈ n.children) :
    m ∈ r.preorder := by
  induction r using Node.induction with
  | step r ih =>
    rw [mem_preorder] at hn ⊢
    obtain rfl | ⟨c, hc, hn⟩ := hn
    · exact .inr ⟨m, hm, mem_preorder.mpr (.inl rfl)⟩
    · exact .inr ⟨c, hc, ih c hc hn⟩

/-- The walk of a node that stands in `scope`. -/
def walk (scope : ScopeId) : Node → Body → Body
  | expr e, b => walkExpr scope e b
  | stmt s, b => walkStmt scope s b
  | declarator d, b => walkVars scope [d] b
  | handler h, b => walkHandlers scope [h] b
  | resource r, b => walkResources scope [r] b
  | member m, b => walkMembers scope [m] b
  | annotationType t, b => walkAnnotationType scope t b
  | element m, b => walkAnnotationMembers scope [m] b
  | constant d, b => walkInits scope [d] b

end Node

/-! ## Parts -/

/-- Something that a walk does at a node. -/
inductive Part where
  /-- Walk a smaller node. -/
  | node (n : Node)
  /-- Record a call. -/
  | call (line : Nat) (call : MethodCall)
  /-- Declare a variable. -/
  | declare (v : LocalVar)
  /-- Open a scope and do the rest inside it. -/
  | scope (kind : ScopeKind) (params : List LambdaParam) (inside : List Part)

namespace Part

mutual

/-- Does one thing in a scope. -/
def walk (scope : ScopeId) : Part → Body → Body
  | node n, b => n.walk scope b
  | call line c, b => b.addCall ⟨c, scope, line⟩
  | declare v, b => b.addLocal scope v
  | .scope kind params inside, b => walkAll b.nextScope inside (b.openScope scope kind params)

/-- Does several things in a scope. -/
def walkAll (scope : ScopeId) : List Part → Body → Body
  | [], b => b
  | p :: ps, b => walkAll scope ps (walk scope p b)

end

@[simp] theorem walkAll_append (scope : ScopeId) (ps qs : List Part) (b : Body) :
    walkAll scope (ps ++ qs) b = walkAll scope qs (walkAll scope ps b) := by
  induction ps generalizing b with
  | nil => rfl
  | cons p ps ih => exact ih _

mutual

/-- The nodes that are walked. -/
def nodes : Part → List Node
  | node n => [n]
  | call _ _ | declare _ => []
  | scope _ _ inside => nodesOfAll inside

/-- The nodes that are walked, in order. -/
def nodesOfAll : List Part → List Node
  | [] => []
  | p :: ps => p.nodes ++ nodesOfAll ps

end

@[simp] theorem nodesOfAll_append (ps qs : List Part) :
    nodesOfAll (ps ++ qs) = nodesOfAll ps ++ nodesOfAll qs := by
  induction ps with
  | nil => rfl
  | cons p ps ih => simp [nodesOfAll, ih]

/-- Walk several nodes. -/
def enter (ns : List Node) : List Part := ns.map node

/-- Declare the parameters of a method. -/
def declareParams (ps : List Param) : List Part :=
  ps.map fun p => declare ⟨p.name, if p.varargs then .array p.type else p.type, none, none⟩

/-- Walk statements in a scope of their own. -/
def block (body : List Stmt) : Part := scope .block [] (enter (body.map .stmt))

@[simp] theorem enter_nil : enter [] = [] := rfl

@[simp] theorem enter_cons (n : Node) (ns : List Node) : enter (n :: ns) = node n :: enter ns := rfl

@[simp] theorem enter_append (ns ms : List Node) : enter (ns ++ ms) = enter ns ++ enter ms :=
  List.map_append

@[simp] theorem nodesOfAll_enter (ns : List Node) : nodesOfAll (enter ns) = ns := by
  induction ns with
  | nil => rfl
  | cons n ns ih => exact congrArg (n :: ·) ih

@[simp] theorem nodesOfAll_declareParams (ps : List Param) : nodesOfAll (declareParams ps) = [] := by
  induction ps with
  | nil => rfl
  | cons p ps ih => exact ih

end Part

namespace Node

open JavaCallGraph.Syntax.Part (block declare declareParams enter)

/-- **What a walk does at a node.** -/
def parts : Node → List Part
  | expr (.call line object name args) =>
    .call line (lowerCall object name args) ::
      enter (object.toList.map expr ++ args.map expr)
  | expr (.anonymous outer type args members) =>
    enter (outer.toList.map expr ++ args.map expr) ++
      [.scope (.anonymous type) [] (enter (members.map member))]
  | expr (.instanceOf operand type (some name)) =>
    [declare ⟨name, type, none, none⟩, .node (expr operand)]
  | expr (.lambda params body) => [.scope .lambda params [.node (expr body)]]
  | expr (.lambdaBlock params body) => [.scope .lambda params (enter (body.map stmt))]
  | expr (.switch subject body) => [.node (expr subject), block body]
  | stmt (.block body) => [block body]
  | stmt (.forLoop init condition update body) =>
    [.scope .block [] (enter (stmt init :: (condition.map expr ++ update.map expr ++ [stmt body])))]
  | stmt (.forEach type name iterable body) =>
    [.node (expr iterable),
      .scope .block [] [declare ⟨name, type, none, some iterable.lower⟩, .node (stmt body)]]
  | stmt (.synchronized lock body) => [.node (expr lock), block body]
  | stmt (.tryPlain body handlers) => block body :: enter (handlers.map handler)
  | stmt (.tryWith resources body handlers) =>
    [.scope .block []
      (enter (resources.map resource) ++ [block body] ++ enter (handlers.map handler))]
  | declarator (.mk name type init) =>
    declare ⟨name, type, lowerOption init, none⟩ :: enter (init.toList.map expr)
  | handler (.catchClause type name body) =>
    [.scope .block [] (declare ⟨name, type, none, none⟩ :: enter (body.map stmt))]
  | handler (.finallyClause body) => [block body]
  | resource (.declared type name value) =>
    [declare ⟨name, type, some value.lower, none⟩, .node (expr value)]
  | member (.method header body) =>
    [.scope .block [] (declareParams header.params ++ enter (body.map stmt))]
  | member (.abstractMethod header _) =>
    [.scope .block [] (declareParams header.params)]
  | member (.initializer body) => [block body]
  -- everywhere else there is nothing to do but to walk what stands in the node
  | n => enter n.children

/-- The nodes that the walk enters are the children, in order. -/
theorem nodesOfAll_parts (n : Node) : Part.nodesOfAll n.parts = n.children := by
  fun_cases parts n <;> simp [children, block, Part.nodesOfAll, Part.nodes]

end Node

/-! ## The walk of a node is the walk of its parts -/

section Lists

variable (scope : ScopeId)

theorem walkOption_eq (o : Option Expr) (b : Body) :
    walkOption scope o b = Part.walkAll scope (Part.enter (o.toList.map .expr)) b := by
  cases o <;> rfl

theorem walkElse_eq (o : Option Stmt) (b : Body) :
    walkElse scope o b = Part.walkAll scope (Part.enter (o.toList.map .stmt)) b := by
  cases o <;> rfl

/-- **A walk along a list enters the nodes one after the other.** -/
theorem eq_walkAll_enter {α : Type} {form : α → Node} {f : List α → Body → Body}
    (hnil : ∀ b, f [] b = b) (hcons : ∀ a as b, f (a :: as) b = f as ((form a).walk scope b))
    (as : List α) (b : Body) : f as b = Part.walkAll scope (Part.enter (as.map form)) b := by
  induction as generalizing b with
  | nil => exact hnil b
  | cons a as ih =>
    rw [hcons, ih]
    rfl

theorem walkExprs_eq (es : List Expr) (b : Body) :
    walkExprs scope es b = Part.walkAll scope (Part.enter (es.map .expr)) b :=
  eq_walkAll_enter scope (fun _ => rfl) (fun _ _ _ => rfl) es b

theorem walkStmts_eq (ss : List Stmt) (b : Body) :
    walkStmts scope ss b = Part.walkAll scope (Part.enter (ss.map .stmt)) b :=
  eq_walkAll_enter scope (fun _ => rfl) (fun _ _ _ => rfl) ss b

theorem walkVars_eq (vs : List Declarator) (b : Body) :
    walkVars scope vs b = Part.walkAll scope (Part.enter (vs.map .declarator)) b :=
  eq_walkAll_enter scope (fun _ => rfl) (fun v _ _ => by cases v; rfl) vs b

theorem walkInits_eq (vs : List Declarator) (b : Body) :
    walkInits scope vs b = Part.walkAll scope (Part.enter (vs.map .constant)) b :=
  eq_walkAll_enter scope (fun _ => rfl) (fun v _ _ => by cases v; rfl) vs b

theorem walkHandlers_eq (hs : List Handler) (b : Body) :
    walkHandlers scope hs b = Part.walkAll scope (Part.enter (hs.map .handler)) b :=
  eq_walkAll_enter scope (fun _ => rfl) (fun h _ _ => by cases h <;> rfl) hs b

theorem walkResources_eq (rs : List Resource) (b : Body) :
    walkResources scope rs b = Part.walkAll scope (Part.enter (rs.map .resource)) b :=
  eq_walkAll_enter scope (fun _ => rfl) (fun r _ _ => by cases r <;> rfl) rs b

theorem walkMembers_eq (ms : List Member) (b : Body) :
    walkMembers scope ms b = Part.walkAll scope (Part.enter (ms.map .member)) b :=
  eq_walkAll_enter scope (fun _ => rfl) (fun m _ _ => by cases m <;> rfl) ms b

theorem walkAnnotationMembers_eq (ms : List Member) (b : Body) :
    walkAnnotationMembers scope ms b = Part.walkAll scope (Part.enter (ms.map .element)) b :=
  eq_walkAll_enter scope (fun _ => rfl) (fun m _ _ => by cases m <;> rfl) ms b

theorem addParams_eq (ps : List Param) (b : Body) :
    b.addParams scope ps = Part.walkAll scope (Part.declareParams ps) b := by
  induction ps generalizing b with
  | nil => rfl
  | cons p ps ih => exact ih _

end Lists

theorem walkExpr_eq (scope : ScopeId) (e : Expr) (b : Body) :
    walkExpr scope e b = Part.walkAll scope (Node.expr e).parts b := by
  cases e with
  | instanceOf operand type binding => cases binding <;> rfl
  | _ =>
    simp [walkExpr, Node.parts, Node.children, Part.walkAll, Part.walk, Node.walk, Part.block,
      walkExprs_eq, walkOption_eq, walkStmts_eq, walkMembers_eq]

theorem walkStmt_eq (scope : ScopeId) (s : Stmt) (b : Body) :
    walkStmt scope s b = Part.walkAll scope (Node.stmt s).parts b := by
  cases s <;>
    simp [walkStmt, Node.parts, Node.children, Part.walkAll, Part.walk, Node.walk, Part.block,
      walkExprs_eq, walkStmts_eq, walkElse_eq, walkVars_eq, walkHandlers_eq, walkResources_eq]

theorem walkMembers_singleton_eq (scope : ScopeId) (m : Member) (b : Body) :
    walkMembers scope [m] b = Part.walkAll scope (Node.member m).parts b := by
  cases m <;>
    simp [walkMembers, Node.parts, Node.children, Part.walkAll, Part.walk, Part.block, walkStmts_eq,
      walkVars_eq, addParams_eq]

theorem walkAnnotationMembers_singleton_eq (scope : ScopeId) (m : Member) (b : Body) :
    walkAnnotationMembers scope [m] b = Part.walkAll scope (Node.element m).parts b := by
  cases m <;>
    simp [walkAnnotationMembers, Node.parts, Node.children, Part.walkAll, Part.walk, Node.walk,
      walkInits_eq, walkOption_eq]

/-- **The walk of a node is the walk of its parts.** -/
theorem Node.walk_eq (scope : ScopeId) (n : Node) (b : Body) :
    n.walk scope b = Part.walkAll scope n.parts b := by
  cases n with
  | expr e => exact walkExpr_eq scope e b
  | stmt s => exact walkStmt_eq scope s b
  | declarator d =>
    cases d
    simp [walk, walkVars, parts, Part.walkAll, Part.walk, walkOption_eq]
  | handler h =>
    cases h <;> simp [walk, walkHandlers, parts, Part.walkAll, Part.walk, Part.block, walkStmts_eq]
  | resource r =>
    cases r <;> simp [walk, walkResources, parts, children, Part.walkAll, Part.walk]
  | member m => exact walkMembers_singleton_eq scope m b
  | annotationType t =>
    cases t
    simp only [walk, walkAnnotationType, parts, children]
    split <;> simp [Part.walkAll, walkAnnotationMembers_eq]
  | element m => exact walkAnnotationMembers_singleton_eq scope m b
  | constant d =>
    cases d
    simp [walk, walkInits, parts, children, walkOption_eq]

/-! ## What every walk keeps -/

/-- A relation between a body and a later one, seen from a scope, that every step of a walk keeps. -/
structure Kept (R : ScopeId → Body → Body → Prop) : Prop where
  refl : ∀ scope b, R scope b b
  trans : ∀ {scope b b' b''}, R scope b b' → R scope b' b'' → R scope b b''
  call : ∀ scope b call line, R scope b (b.addCall ⟨call, scope, line⟩)
  declare : ∀ scope b v, R scope b (b.addLocal scope v)
  /-- What is done inside a new scope is done in the scope around it. -/
  inside : ∀ {scope kind params b b'},
    R b.nextScope (b.openScope scope kind params) b' → R scope b b'

namespace Kept

variable {R : ScopeId → Body → Body → Prop}

mutual

theorem part (h : Kept R) (scope : ScopeId) (p : Part) (b : Body)
    (hnodes : ∀ n ∈ p.nodes, ∀ s b, R s b (n.walk s b)) : R scope b (p.walk scope b) := by
  cases p with
  | node n => exact hnodes n (List.mem_singleton_self n) scope b
  | call line c => exact h.call scope b c line
  | declare v => exact h.declare scope b v
  | scope kind params inside => exact h.inside (h.parts _ inside _ hnodes)

theorem parts (h : Kept R) (scope : ScopeId) (ps : List Part) (b : Body)
    (hnodes : ∀ n ∈ Part.nodesOfAll ps, ∀ s b, R s b (n.walk s b)) :
    R scope b (Part.walkAll scope ps b) := by
  cases ps with
  | nil => exact h.refl scope b
  | cons p ps =>
    exact h.trans (h.part scope p b fun n hn => hnodes n (List.mem_append_left _ hn))
      (h.parts scope ps _ fun n hn => hnodes n (List.mem_append_right _ hn))

end

/-- **What every step of a walk keeps, the walk keeps.** -/
theorem walk (h : Kept R) (n : Node) (scope : ScopeId) (b : Body) : R scope b (n.walk scope b) := by
  induction n using Node.induction generalizing scope b with
  | step n ih =>
    rw [Node.walk_eq]
    refine h.parts scope n.parts b fun m hm => ih m ?_
    rwa [← Node.nodesOfAll_parts]

theorem walkAll (h : Kept R) (ps : List Part) (scope : ScopeId) (b : Body) :
    R scope b (Part.walkAll scope ps b) :=
  h.parts scope ps b fun n _ => h.walk n

end Kept

end JavaCallGraph.Syntax
