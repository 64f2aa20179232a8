import WordCalc.Main
import WordCalc.Proofs.Descent.Awaiting
import WordCalc.Proofs.Descent.Calls
import WordCalc.Proofs.Descent.Discipline
import WordCalc.Proofs.Descent.Moves
import WordCalc.Proofs.Except
import WordCalc.Proofs.Grammar.Derivation
import WordCalc.Proofs.Grammar.Fold
import WordCalc.Proofs.Grammar.Reader
import WordCalc.Proofs.Grammar.Reading
import WordCalc.Proofs.Grammar.Spelling
import WordCalc.Proofs.Grammar.Unambiguity
import WordCalc.Proofs.Group.Brackets
import WordCalc.Proofs.Group.Context
import WordCalc.Proofs.Group.Transparency
import WordCalc.Proofs.Layout.Independence
import WordCalc.Proofs.Layout.Pieces
import WordCalc.Proofs.Lexeme.Cutting
import WordCalc.Proofs.Lexeme.Failing
import WordCalc.Proofs.Lexeme.Joining
import WordCalc.Proofs.Lexeme.Remnant
import WordCalc.Proofs.Lexeme.Scanning
import WordCalc.Proofs.Lexeme.Spelling
import WordCalc.Proofs.Lexeme.Splitting
import WordCalc.Proofs.Lexeme.Tiling
import WordCalc.Proofs.Machine.Basic
import WordCalc.Proofs.Machine.Diagnosis
import WordCalc.Proofs.Machine.Levels
import WordCalc.Proofs.Machine.Nesting
import WordCalc.Proofs.Machine.Progress
import WordCalc.Proofs.Machine.Reports
import WordCalc.Proofs.Machine.Simulation
import WordCalc.Proofs.Machine.Truncation
import WordCalc.Proofs.Machine.Viable
import WordCalc.Proofs.Modular.Exact
import WordCalc.Proofs.Modular.Integer
import WordCalc.Proofs.Modular.LowBits
import WordCalc.Proofs.Numeral.Canonical
import WordCalc.Proofs.Numeral.Conversion
import WordCalc.Proofs.Numeral.Digit
import WordCalc.Proofs.Numeral.Form
import WordCalc.Proofs.Numeral.Residue
import WordCalc.Proofs.Numeral.Value
import WordCalc.Proofs.Numeral.Written
import WordCalc.Proofs.Options.Faults
import WordCalc.Proofs.Options.Latest
import WordCalc.Proofs.Options.Splitting
import WordCalc.Proofs.Order.Commuting
import WordCalc.Proofs.Order.Permutation
import WordCalc.Proofs.Print.Canonical
import WordCalc.Proofs.Print.Output
import WordCalc.Proofs.Print.RoundTrip
import WordCalc.Proofs.Session.Journal
import WordCalc.Proofs.Session.Outcome
import WordCalc.Proofs.Text.Encoding
import WordCalc.Proofs.Tree.Listing
import WordCalc.Proofs.Tree.Paths
import WordCalc.Proofs.Tree.Postorder
import WordCalc.Proofs.Tree.Preorder
import WordCalc.Proofs.Word.Quotient
import WordCalc.Proofs.Word.Shift
