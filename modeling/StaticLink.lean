import StaticLink.Main
import StaticLink.Proofs.Grammar.Truncation
import StaticLink.Proofs.IgnoredSections.Link
import StaticLink.Proofs.Inputs.History
import StaticLink.Proofs.Inputs.Streaming
import StaticLink.Proofs.Inputs.StrongNames
import StaticLink.Proofs.Inputs.WeakNames
import StaticLink.Proofs.Layout.Addresses
import StaticLink.Proofs.Leb128.DecodingLoops
import StaticLink.Proofs.Leb128.EncodingLoops
import StaticLink.Proofs.Leb128.Spellings
import StaticLink.Proofs.Output.Constructors
import StaticLink.Proofs.Output.Counts
import StaticLink.Proofs.Output.ExportedNames
import StaticLink.Proofs.Output.FunctionNames
import StaticLink.Proofs.Output.Globals
import StaticLink.Proofs.Output.Markers
import StaticLink.Proofs.Output.OperandWidths
import StaticLink.Proofs.Output.OptionalSections
import StaticLink.Proofs.Output.Signatures
import StaticLink.Proofs.Output.SizeFields
import StaticLink.Proofs.Output.Stubs
import StaticLink.Proofs.Output.Sums
import StaticLink.Proofs.Output.TrapStubs
import StaticLink.Proofs.Renaming.Link
import StaticLink.Proofs.Scan.Feeding
import StaticLink.Proofs.SymbolTable.Order
import StaticLink.Proofs.SymbolTable.Outcomes
import StaticLink.Proofs.SymbolTable.Repetition
import StaticLink.Proofs.SymbolTable.Supply
