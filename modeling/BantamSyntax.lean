import BantamSyntax.Grammar.Rule
import BantamSyntax.Input.Delivery
import BantamSyntax.Main
import BantamSyntax.Proofs.CommandLine.Independence
import BantamSyntax.Proofs.Parsing.Earliest
import BantamSyntax.Proofs.Parsing.Layout
import BantamSyntax.Proofs.Parsing.Locality
import BantamSyntax.Proofs.Parsing.Progress
import BantamSyntax.Proofs.Parsing.Sequences
import BantamSyntax.Proofs.Parsing.WellFormed
import BantamSyntax.Proofs.Printing.Indentation
import BantamSyntax.Proofs.Printing.Preservation
import BantamSyntax.Proofs.Printing.ReadablePrograms
import BantamSyntax.Proofs.Scanning.Closing
import BantamSyntax.Proofs.Scanning.Deliveries
import BantamSyntax.Proofs.Scanning.Joining
import BantamSyntax.Proofs.Scanning.LongestMatch
import BantamSyntax.Proofs.Scanning.Reconstruction
import BantamSyntax.Proofs.Scanning.Respelling
import BantamSyntax.Proofs.Session.Comments
import BantamSyntax.Proofs.Session.History
import BantamSyntax.Proofs.Session.IntegerConstants
import BantamSyntax.Proofs.Session.LineNumbers
import BantamSyntax.Proofs.Session.Ownership
import BantamSyntax.Proofs.Session.Sharing
import BantamSyntax.Proofs.Session.StringConstants
import BantamSyntax.Proofs.Trees.Visits
import BantamSyntax.Tree.Walk
