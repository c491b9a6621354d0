import Asm6502.Expr.Parse
import Asm6502.Address
import Asm6502.Expr.Value
import Asm6502.Label.Listing
import Asm6502.Line
import Asm6502.Decode
import Asm6502.Inline.Token
import Asm6502.Inline.Term
import Asm6502.Inline.Builtin
import Asm6502.Inline.Eval
import Asm6502.Inline
import Asm6502.Path
import Asm6502.Error
import Asm6502.Source
import Asm6502.Control
import Asm6502.Assembler
import Asm6502.Image
import Asm6502.Output
import Asm6502.Text.Quoted
import Asm6502.CommandLine
import Asm6502.Main
import Asm6502.Proofs.Except
import Asm6502.Proofs.Decoding
import Asm6502.Proofs.Placement
import Asm6502.Proofs.Emission
import Asm6502.Proofs.PassAgreement
import Asm6502.Proofs.DecodedInstruction
import Asm6502.Proofs.WrittenOperand
import Asm6502.Proofs.BranchTarget
import Asm6502.Proofs.AddressValue
import Asm6502.Proofs.IndexSplitting
import Asm6502.Proofs.DataSize
import Asm6502.Proofs.DataBytes
import Asm6502.Proofs.Digits
import Asm6502.Proofs.ForwardReference
import Asm6502.Proofs.Lexing
import Asm6502.Proofs.RoundTrip
import Asm6502.Proofs.ObjectAddress
import Asm6502.Proofs.Expansion
import Asm6502.Proofs.HexReading
import Asm6502.Proofs.SingleOrigin
import Asm6502.Proofs.GeneratedLabels
import Asm6502.Proofs.SourceOrder
import Asm6502.Proofs.LabelHistory
import Asm6502.Proofs.LabelListing
import Asm6502.Proofs.LabelFaults
import Asm6502.Proofs.Machine
import Asm6502.Proofs.Structured
import Asm6502.Proofs.ControlFlow
import Asm6502.Proofs.RenamedDecoding
import Asm6502.Proofs.RenamedAssembly
import Asm6502.Proofs.ProgramCounter
import Asm6502.Proofs.LabelScopes
import Asm6502.Proofs.Reader
import Asm6502.Proofs.Splicing
import Asm6502.Proofs.LineScanning
import Asm6502.Proofs.QuotedData
import Asm6502.Proofs.InlineExtent
import Asm6502.Proofs.Comments
import Asm6502.Proofs.LoopMatching
import Asm6502.Proofs.SettledLines
import Asm6502.Proofs.StrandedLoops
import Asm6502.Proofs.ComparisonBranch
import Asm6502.Proofs.ShortestForm
import Asm6502.Proofs.UniqueDecoding
import Asm6502.Proofs.Locating
import Asm6502.Proofs.PrintedStatement
import Asm6502.Proofs.TreeGrammar
import Asm6502.Proofs.WriteLoss
import Asm6502.Proofs.FlagOrder
import Asm6502.Proofs.WordSplitting
