import Lineage.AccessControl
import Lineage.Bound
import Lineage.Build
import Lineage.CommonAncestor
import Lineage.Conversion
import Lineage.Decimal.Binary64
import Lineage.Declaration
import Lineage.Descent
import Lineage.Dimensions
import Lineage.Entity
import Lineage.Environment
import Lineage.Erasure
import Lineage.Error
import Lineage.FileTree
import Lineage.Flags
import Lineage.GenericDeclaration
import Lineage.Hierarchy
import Lineage.Id
import Lineage.Json
import Lineage.Member.Call
import Lineage.Member.Generic
import Lineage.Member.Resolution
import Lineage.Override
import Lineage.Primitive
import Lineage.Render
import Lineage.Settings.Basic
import Lineage.Settings.Decode
import Lineage.Settings.Load
import Lineage.Settings.LogFilter
import Lineage.Settings.PlainFilter
import Lineage.Settings.Schema
import Lineage.Span
import Lineage.Store.Basic
import Lineage.Store.Builtin
import Lineage.Substitution
import Lineage.SuperclassWalk
import Lineage.Text.Alphanumeric
import Lineage.Text.Attaching
import Lineage.Text.Blank
import Lineage.Text.CodePoint
import Lineage.Text.Printable
import Lineage.Text.Quoted
import Lineage.Text.Unassigned
import Lineage.Toml.Document
import Lineage.Toml.Number
import Lineage.Toml.Scan
import Lineage.Toml.Text
import Lineage.Toml.Value
import Lineage.Ty
import Lineage.Proofs.Agreement
import Lineage.Proofs.Assignability
import Lineage.Proofs.Binding
import Lineage.Proofs.Closure
import Lineage.Proofs.Coherence
import Lineage.Proofs.Definition
import Lineage.Proofs.Descent
import Lineage.Proofs.Growth
import Lineage.Proofs.Outcome
import Lineage.Proofs.Registry
import Lineage.Proofs.Run
import Lineage.Proofs.Supertype
import Lineage.Proofs.Atomicity
import Lineage.Proofs.Persistence
import Lineage.Proofs.Candidates
import Lineage.Proofs.MostSpecific
import Lineage.Proofs.Header
import Lineage.Proofs.Passes
import Lineage.Proofs.CheckedClass
import Lineage.Proofs.Composition
import Lineage.Proofs.Memory
import Lineage.Proofs.ErasureCache
import Lineage.Proofs.Conservative
import Lineage.Proofs.MethodOrder
import Lineage.Proofs.Overriding
import Lineage.Proofs.PassOutcomes
import Lineage.Proofs.CheckGaps
import Lineage.Proofs.Cycles
import Lineage.Proofs.DepthLimit
import Lineage.Proofs.VariableBound
import Lineage.Proofs.CommonAncestor
import Lineage.Proofs.Kinds
import Lineage.Proofs.LeastAncestor
import Lineage.Proofs.Casts
import Lineage.Proofs.ConversionCasts
import Lineage.Proofs.Redeclaration
import Lineage.Proofs.Arity
import Lineage.Proofs.FieldLookup
import Lineage.Proofs.Enumeration
import Lineage.Proofs.Comparison
import Lineage.Proofs.Failures
import Lineage.Proofs.Renaming
import Lineage.Proofs.OverrideReport
import Lineage.Proofs.BoundChain
import Lineage.Proofs.ErasedSignature
import Lineage.Proofs.CompletedChain
import Lineage.Proofs.LinkCount
import Lineage.Proofs.Enclosure
import Lineage.Proofs.AccessSymmetry
import Lineage.Proofs.FilterPrecedence
import Lineage.Proofs.Dimensions
import Lineage.Proofs.FaithfulWalk
import Lineage.Proofs.NestingOrder
import Lineage.Proofs.RepeatedName
