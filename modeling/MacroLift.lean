import MacroLift.Text.Blank
import MacroLift.Text.Lines
import MacroLift.Text.WordChar
import MacroLift.Text.DigitChar
import MacroLift.Text.NamePattern
import MacroLift.Text.Utf8
import MacroLift.Text.ControlSequence
import MacroLift.Token.Scan
import MacroLift.Literal.Number
import MacroLift.Tree.Outline
import MacroLift.Diagnostic.Log
import MacroLift.Grammar.Macro
import MacroLift.Usage.Analysis
import MacroLift.Rust.Item
import MacroLift.Header.Scan
import MacroLift.Batch.Run
import MacroLift.Constants
import MacroLift.CommandLine.Run
import MacroLift.Main
import MacroLift.Proofs.Grammar.Unsupported
import MacroLift.Proofs.Grammar.Parenthesised
import MacroLift.Proofs.Grammar.RoundTrip
import MacroLift.Proofs.Grammar.Alternatives
import MacroLift.Proofs.Usage.Pasted
import MacroLift.Proofs.Rust.Shadowing
import MacroLift.Proofs.Header.Progress
import MacroLift.Proofs.Header.OpenComment
import MacroLift.Proofs.Batch.Layout
import MacroLift.Proofs.Batch.Accounting
import MacroLift.Proofs.Batch.Failures
import MacroLift.Proofs.Header.Continuation
import MacroLift.Proofs.Rust.BalancedItem
import MacroLift.Proofs.Rust.CallSites
import MacroLift.Proofs.Batch.Skipping
import MacroLift.Proofs.Header.Printing
import MacroLift.Proofs.Batch.Excerpt
import MacroLift.Proofs.CommandLine.Outcome
import MacroLift.Proofs.CommandLine.Trees
import MacroLift.Proofs.Literal.Floating
import MacroLift.Proofs.Literal.Extent
import MacroLift.Proofs.Literal.Written
import MacroLift.Proofs.Rust.Formula
import MacroLift.Proofs.Rust.Forms
import MacroLift.Proofs.Rust.Grouping
import MacroLift.Proofs.Grammar.Speculation
import MacroLift.Proofs.Grammar.Declared
import MacroLift.Proofs.Grammar.Furthest
import MacroLift.Proofs.Grammar.Advance
import MacroLift.Proofs.Grammar.Advance.Production
import MacroLift.Proofs.Grammar.Termination
import MacroLift.Proofs.Batch.QuotedLine
import MacroLift.Proofs.Usage.Rising
import MacroLift.Proofs.Grammar.SignatureText
import MacroLift.Proofs.Literal.Pasting
import MacroLift.Proofs.Header.Partition
import MacroLift.Proofs.Tree.Outline
