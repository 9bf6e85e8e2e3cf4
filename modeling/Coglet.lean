import Coglet.Types
import Coglet.Types.Conversion
import Coglet.Lib.TwosComplement
import Coglet.Lib.Demand
import Coglet.Integer.Basic
import Coglet.Integer.Representation
import Coglet.Integer.Folding
import Coglet.Const.Value
import Coglet.Const.Arithmetic
import Coglet.Const.Eval
import Coglet.Const.Semantics
import Coglet.Const.Refinement
import Coglet.Const.Safety
import Coglet.Const.Typing
import Coglet.Check.Expression
import Coglet.Check.Accepts
import Coglet.Check.KnownFailure
import Coglet.Check.ConstantCache
import Coglet.Lib.Path
import Coglet.Ownership.Flow
import Coglet.Ownership.Check
import Coglet.Ownership.Execution
import Coglet.Ownership.Tracking
import Coglet.Ownership.Soundness
import Coglet.Ownership.Function
import Coglet.Ownership.Slots
import Coglet.Backend.IndexAddress
import Coglet.Ast.Node
import Coglet.Ast.Clone
import Coglet.Lib.Marking
import Coglet.Ir.Function
import Coglet.Backend.CEdges
import Coglet.Backend.CInteger
import Coglet.Backend.LlvmEdges
import Coglet.Backend.LlvmInteger
import Coglet.Lib.CInteger
import Coglet.Ir.Integer
import Coglet.Backend.CIntegerRun
import Coglet.Backend.CIntegerChecked
import Coglet.Backend.IntegerAgreement
import Coglet.Parse.Lexer
import Coglet.Parse.Parser
import Coglet.Parse.StringLiteral
import Coglet.Lib.StructLayout
import Coglet.Target.Layout
import Coglet.Ir.ObjectType
import Coglet.Backend.LlvmLayout
import Coglet.Backend.LayoutAgreement
import Coglet.Target.Object
import Coglet.Backend.ObjectAgreement
import Coglet.Lib.RegisterPassing
import Coglet.Backend.SysV
import Coglet.Backend.SysVClasses
import Coglet.Backend.SysVPassing
import Coglet.Lib.Interning
import Coglet.Types.Object
import Coglet.Types.Arena
import Coglet.Types.Identity
import Coglet.Ir.TypeTable
import Coglet.Ir.LowerType
import Coglet.Ir.TypeRepresentation
import Coglet.Ir.TypeTotality
import Coglet.Ir.TypeIdentity
import Coglet.Lib.LinearCongruential
import Coglet.Stdlib.Checked
import Coglet.Stdlib.Random
import Coglet.Lib.Region
import Coglet.Runtime.Memory
import Coglet.Runtime.FixedArena
import Coglet.Lib.FreeList
import Coglet.Stdlib.Pool
import Coglet.Stdlib.PoolSafety
import Coglet.Runtime.Arena
import Coglet.Runtime.ArenaPlacement
import Coglet.Runtime.ArenaSafety
import Coglet.Runtime.ArenaRun
import Coglet.Runtime.Debug
import Coglet.Runtime.DebugSafety
import Coglet.Runtime.DebugRun
import Coglet.Lib.Elements
import Coglet.Stdlib.Allocator
import Coglet.Stdlib.HeapAllocator
import Coglet.Stdlib.Array
import Coglet.Stdlib.ArrayRefinement
import Coglet.Runtime.Heap
import Coglet.Target.TypeGraph
import Coglet.Target.CLayout
import Coglet.Target.LayoutArithmetic
import Coglet.Target.LayoutCorrect
import Coglet.Target.LayoutRecursion
import Coglet.Stdlib.GeomAlgebra
import Coglet.Parse.IntegerLiteral
import Coglet.Parse.Binary
import Coglet.Driver.ModuleSources
import Coglet.Ir.BuilderCall
import Coglet.Ir.BuilderAtomic
import Coglet.Lib.Consing
import Coglet.Ir.BuilderInterning
import Coglet.Lib.DepthFirst
import Coglet.Check.StructLayouts
import Coglet.Lib.BitSmear
import Coglet.Stdlib.Math
import Coglet.Lib.FileSystem
import Coglet.Runtime.FileCopy
import Coglet.Lib.EscapedText
import Coglet.Parse.StringDecode
import Coglet.Lib.Worklist
import Coglet.Driver.ImportDiscovery
import Coglet.Lib.SymbolTable
import Coglet.Backend.LlvmSymbols
import Coglet.Lib.ByteChunks
import Coglet.Backend.SysVUsedBytes
import Coglet.Backend.Coercion
import Coglet.Backend.CoercionFits
import Coglet.Lib.BlockBuilder
import Coglet.Lib.Outcome
import Coglet.Control.Statement
import Coglet.Control.Check
import Coglet.Control.WellPlaced
import Coglet.Control.CheckCorrect
import Coglet.Control.Lower
import Coglet.Control.LowerExpression
import Coglet.Control.LowerStatement
import Coglet.Control.Agreement
import Coglet.Lib.Unfolding
import Coglet.Lib.BlockPaths
import Coglet.Control.Traces
import Coglet.Control.TraceExpression
import Coglet.Control.TraceRules
import Coglet.Control.TraceStatement
import Coglet.Control.TracePreservation
import Coglet.Parse.LexerRun
import Coglet.Parse.LexerSpacing
import Coglet.Ir.Verify
import Coglet.Ir.ValuePlaces
import Coglet.Ir.VerifyRun
import Coglet.Ir.FunctionView
