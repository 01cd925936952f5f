import StackScript.Breakdown
import StackScript.Opcode
import StackScript.Instruction
import StackScript.Double
import StackScript.Double.Shortest
import StackScript.Text.Blank
import StackScript.Text.Digit
import StackScript.Text.Column
import StackScript.Text.Quoted
import StackScript.Text.CodePoint
import StackScript.Double.Spelling
import StackScript.Literal.Number
import StackScript.Literal.Quoted
import StackScript.Constant
import StackScript.SignedIndex
import StackScript.Pool
import StackScript.Scope
import StackScript.Program
import StackScript.Listing
import StackScript.CompileError
import StackScript.SyntaxTree
import StackScript.SyntaxTree.Table
import StackScript.Script
import StackScript.Journal
import StackScript.Assembler
import StackScript.Compile.Pass
import StackScript.Compile
import StackScript.Json
import StackScript.Json.Token
import StackScript.Json.Reader
import StackScript.Program.Json
import StackScript.Grammar.Character
import StackScript.Grammar.LineEnd
import StackScript.Grammar.Token
import StackScript.Grammar.Rule
import StackScript.Grammar.Expression
import StackScript.Grammar.Statement
import StackScript.Grammar
import StackScript.Source
import StackScript.Session.LineBuffer
import StackScript.Session
import StackScript.Text.Lines
import StackScript.Text.Hidden
import StackScript.Text.Shown
import StackScript.CommandLine.Options
import StackScript.CommandLine.Directory
import StackScript.CommandLine
import StackScript.Main
import StackScript.Proofs.InstructionFormat
import StackScript.Proofs.Plan
import StackScript.Proofs.ScopeGrowth
import StackScript.Proofs.PassPlan
import StackScript.Proofs.Evaluation
import StackScript.Proofs.Linking
import StackScript.Proofs.PlanRun
import StackScript.Proofs.Preservation
import StackScript.Proofs.Recovery
import StackScript.Proofs.WellFormed
import StackScript.Proofs.Dialogue
import StackScript.Proofs.TreeReading
import StackScript.Proofs.Supported
import StackScript.Proofs.Acceptance
import StackScript.Proofs.Rounding
import StackScript.Proofs.Numeral
import StackScript.Proofs.JsonRoundTrip
import StackScript.Proofs.ProgramRoundTrip
import StackScript.Proofs.Boundary
import StackScript.Proofs.Breakdown
import StackScript.Proofs.UniqueDecoding
import StackScript.Proofs.Verification
import StackScript.Proofs.ListingRows
import StackScript.Proofs.ListingAgreement
import StackScript.Proofs.ScopeHistory
import StackScript.Proofs.ConstantNumbering
import StackScript.Proofs.ListingHistory
import StackScript.Proofs.FreshSlots
import StackScript.Proofs.QuotedText
import StackScript.Proofs.NearestDouble
import StackScript.Proofs.NumberGrammar
import StackScript.Proofs.ShortestDecimal
import StackScript.Proofs.NumberText
import StackScript.Proofs.NumberLayout
import StackScript.Proofs.DepthLimit
import StackScript.Proofs.DepthLevels
import StackScript.Proofs.DepthCounter
import StackScript.Proofs.OpcodeStatistics
import StackScript.Proofs.HaltInsertion
import StackScript.Proofs.Comments
import StackScript.Proofs.ListingText
import StackScript.Proofs.LineGroups
import StackScript.Proofs.FaultSearch
import StackScript.Proofs.BraceBalance
import StackScript.Proofs.TreeMeaning
