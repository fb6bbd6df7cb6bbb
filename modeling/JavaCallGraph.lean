import JavaCallGraph.Accessor
import JavaCallGraph.Catalog.Basic
import JavaCallGraph.Catalog.Jdk
import JavaCallGraph.Catalog.Jdk.Lang
import JavaCallGraph.Catalog.Jdk.Record
import JavaCallGraph.Catalog.Jdk.Support
import JavaCallGraph.Catalog.Jdk.Util
import JavaCallGraph.Catalog.Reader
import JavaCallGraph.Codebase.Basic
import JavaCallGraph.Codebase.Hierarchy
import JavaCallGraph.Codebase.Index
import JavaCallGraph.Codebase.Layers
import JavaCallGraph.Codebase.Listing
import JavaCallGraph.Codebase.Lookup
import JavaCallGraph.Codebase.Source
import JavaCallGraph.Codebase.TypeInfo
import JavaCallGraph.Command.Arguments
import JavaCallGraph.Command.Option
import JavaCallGraph.Command.Run
import JavaCallGraph.Declaration.Basic
import JavaCallGraph.Declaration.Body
import JavaCallGraph.Declaration.Expr
import JavaCallGraph.Declaration.TypeRef
import JavaCallGraph.Error
import JavaCallGraph.Graph.Document
import JavaCallGraph.Graph.Link
import JavaCallGraph.Graph.MethodInfo
import JavaCallGraph.Graph.Overload
import JavaCallGraph.Graph.Relation
import JavaCallGraph.Graph.Resolution
import JavaCallGraph.Graph.Session
import JavaCallGraph.Graph.Target
import JavaCallGraph.Graph.View
import JavaCallGraph.Json.Basic
import JavaCallGraph.Json.Printer
import JavaCallGraph.Json.Reader
import JavaCallGraph.Lowering.Body
import JavaCallGraph.Lowering.Expr
import JavaCallGraph.Lowering.Types
import JavaCallGraph.Main
import JavaCallGraph.MethodId
import JavaCallGraph.Pattern.Basic
import JavaCallGraph.Pattern.CharSet
import JavaCallGraph.Pattern.Reader
import JavaCallGraph.Primitive
import JavaCallGraph.Project.Glob
import JavaCallGraph.Project.IgnoreRules
import JavaCallGraph.Project.Load
import JavaCallGraph.Project.Modules
import JavaCallGraph.Project.Walk
import JavaCallGraph.Project.Workspace
import JavaCallGraph.Proofs.Assembly
import JavaCallGraph.Proofs.Identity
import JavaCallGraph.Proofs.Names
import JavaCallGraph.Proofs.Hierarchy
import JavaCallGraph.Proofs.Typing.Certain
import JavaCallGraph.Proofs.Typing.Inference
import JavaCallGraph.Proofs.Typing.Proper
import JavaCallGraph.Proofs.Typing.Agreement
import JavaCallGraph.Proofs.Typing.CallResult
import JavaCallGraph.Proofs.Typing.Acceptance
import JavaCallGraph.Syntax.Erasure
import JavaCallGraph.Syntax.Parser
import JavaCallGraph.Syntax.Parser.Basic
import JavaCallGraph.Syntax.Parser.Declarations
import JavaCallGraph.Syntax.Parser.Expressions
import JavaCallGraph.Syntax.Parser.Statements
import JavaCallGraph.Syntax.Parser.Types
import JavaCallGraph.Syntax.Token
import JavaCallGraph.Syntax.Tree
import JavaCallGraph.Text.Blank
import JavaCallGraph.Text.Capital
import JavaCallGraph.Text.CaseFold
import JavaCallGraph.Text.Pieces
import JavaCallGraph.Text.Utf8
import JavaCallGraph.Text.Word
import JavaCallGraph.Typing.Certain
import JavaCallGraph.Typing.Context
import JavaCallGraph.Typing.Inference
import JavaCallGraph.Proofs.Graph.Target
import JavaCallGraph.Proofs.Graph.Unambiguous
import JavaCallGraph.Proofs.Graph.Traversal
import JavaCallGraph.Proofs.Graph.Runs
import JavaCallGraph.Proofs.Graph.Termination
import JavaCallGraph.Proofs.Graph.Edges
import JavaCallGraph.Proofs.Graph.Reachability
import JavaCallGraph.Proofs.Graph.Walk
import JavaCallGraph.Proofs.Graph.View
import JavaCallGraph.Proofs.Graph.Memory
import JavaCallGraph.Proofs.Graph.Once
import JavaCallGraph.Proofs.Graph.BackReference
import JavaCallGraph.Proofs.Graph.History
import JavaCallGraph.Proofs.Graph.InferredTarget
import JavaCallGraph.Proofs.Graph.Overriding
import JavaCallGraph.Proofs.Graph.Cycle
import JavaCallGraph.Proofs.Graph.Listing
import JavaCallGraph.Proofs.Graph.Restriction
import JavaCallGraph.Proofs.Graph.Descent
import JavaCallGraph.Proofs.Layers
import JavaCallGraph.Proofs.Supertypes
import JavaCallGraph.Proofs.Ancestry
import JavaCallGraph.Proofs.Distance
import JavaCallGraph.Proofs.Graph.BestCandidate
import JavaCallGraph.Proofs.Typing.Specificity
import JavaCallGraph.Proofs.Typing.Applicability
import JavaCallGraph.Proofs.Typing.FixedArity
import JavaCallGraph.Proofs.Typing.VarType
import JavaCallGraph.Proofs.Outline
import JavaCallGraph.Proofs.Typing.Reordering
import JavaCallGraph.Proofs.Typing.Signature
import JavaCallGraph.Proofs.Typing.CallOrder
import JavaCallGraph.Proofs.Typing.CompiledChoice
import JavaCallGraph.Proofs.DottedNames
import JavaCallGraph.Proofs.Handles
import JavaCallGraph.Proofs.Assignability
import JavaCallGraph.Proofs.VariableBounds
import JavaCallGraph.Proofs.Lowering.Nodes
import JavaCallGraph.Proofs.Lowering.Invocations
import JavaCallGraph.Proofs.Lowering.PatternVariables
import JavaCallGraph.Proofs.Lowering.ScopeTree
import JavaCallGraph.Proofs.Typing.Concatenation
import JavaCallGraph.Proofs.Typing.Conditional
import JavaCallGraph.Proofs.Accessors
import JavaCallGraph.Proofs.Graph.Rounds
import JavaCallGraph.Proofs.WrittenTypes
import JavaCallGraph.Proofs.WalksUp
import JavaCallGraph.Proofs.Typing.Recursion
import JavaCallGraph.Proofs.Typing.InferenceEnds
