import HeaderSymbols.Main
import HeaderSymbols.File.Disk
import HeaderSymbols.Proofs.Text.Numeral
import HeaderSymbols.Proofs.Text.Digits
import HeaderSymbols.Proofs.Text.Pieces
import HeaderSymbols.Proofs.Layout.Nesting
import HeaderSymbols.Proofs.Layout.Descent
import HeaderSymbols.Proofs.Source.Arena
import HeaderSymbols.Proofs.Layout.Ending
import HeaderSymbols.Proofs.Conversion
import HeaderSymbols.Proofs.Source.Blocks
import HeaderSymbols.Proofs.Source.Grammar
import HeaderSymbols.Proofs.Source.Acceptance
import HeaderSymbols.Proofs.Layout.Frames
import HeaderSymbols.Proofs.Source.Steps
import HeaderSymbols.Proofs.Source.Rejection
import HeaderSymbols.Proofs.Agreement
import HeaderSymbols.Proofs.Source.Representation
import HeaderSymbols.Proofs.Source.Spelling
import HeaderSymbols.Proofs.Source.Wording
import HeaderSymbols.Proofs.Source.Tokens
import HeaderSymbols.Proofs.Rereading
import HeaderSymbols.Proofs.Layout.Recursion
import HeaderSymbols.Proofs.File.Footprint
import HeaderSymbols.Proofs.File.Stages
import HeaderSymbols.Proofs.File.Transaction
import HeaderSymbols.Proofs.Command.Writes
import HeaderSymbols.Proofs.Command.Output
import HeaderSymbols.Proofs.Layout.Renaming
import HeaderSymbols.Proofs.Source.Renaming
import HeaderSymbols.Proofs.Comments
import HeaderSymbols.Proofs.Source.Exchange
import HeaderSymbols.Proofs.Source.Parallel
import HeaderSymbols.Proofs.Order
import HeaderSymbols.Proofs.Layout.Shape
import HeaderSymbols.Proofs.Relocation
import HeaderSymbols.Proofs.Layout.History
import HeaderSymbols.Proofs.Layout.Emissions
import HeaderSymbols.Proofs.Source.Insertion
import HeaderSymbols.Proofs.Insertion
import HeaderSymbols.Proofs.Source.Origin
import HeaderSymbols.Proofs.Findings
import HeaderSymbols.Proofs.Source.Single
import HeaderSymbols.Proofs.Texts
import HeaderSymbols.Proofs.Layout.Occurrence
import HeaderSymbols.Proofs.Overlap
import HeaderSymbols.Proofs.Layout.Wrapping
import HeaderSymbols.Proofs.Layout.Permutation
import HeaderSymbols.Proofs.References
import HeaderSymbols.Proofs.Layout.Overflow
import HeaderSymbols.Proofs.Command.Reports
import HeaderSymbols.Proofs.Command.Outcome
import HeaderSymbols.Proofs.Numbers
import HeaderSymbols.Proofs.Endings
import HeaderSymbols.Proofs.Command.Checking
import HeaderSymbols.Proofs.Command.Precedence
import HeaderSymbols.Proofs.Prologue
import HeaderSymbols.Proofs.Layout.Members
import HeaderSymbols.Proofs.Layout.Stack
