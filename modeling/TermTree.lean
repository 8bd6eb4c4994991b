import TermTree.Display
import TermTree.Drawing
import TermTree.Error
import TermTree.Grammar
import TermTree.Grammar.Setting
import TermTree.Occurrence
import TermTree.Occurrence.Edit
import TermTree.Offset
import TermTree.Outcome
import TermTree.Pattern
import TermTree.ReadyMade
import TermTree.Regex.Expansion
import TermTree.Regex.Expr
import TermTree.Regex.Matcher
import TermTree.Regex.Matching
import TermTree.Regex.Reader
import TermTree.Selector
import TermTree.Term
import TermTree.Term.Command
import TermTree.Term.Comparison
import TermTree.Term.Edit
import TermTree.Term.Reader
import TermTree.Term.ValueSets
import TermTree.Term.Values
import TermTree.Term.Writer
import TermTree.Text
import TermTree.Text.Blank
import TermTree.Text.Quoted
import TermTree.Token
import TermTree.Total
import TermTree.Tree
import TermTree.Tree.Comparison
import TermTree.Tree.Cursor
import TermTree.Tree.Path
import TermTree.Tree.Reader
import TermTree.Tree.Removal
import TermTree.Tree.Selection
import TermTree.Tree.Splice
import TermTree.Tree.Traversal
import TermTree.Tree.Writer
import TermTree.Unicode.CaseFold
import TermTree.Unicode.DecimalDigit
import TermTree.Unicode.Ranges
import TermTree.Unicode.Word
import TermTree.Workspace
import TermTree.Workspace.Recipe
import TermTree.Workspace.Step
import TermTree.Proofs.Editing
import TermTree.Proofs.Grammar.Simple
import TermTree.Proofs.Grammar.Span
import TermTree.Proofs.Identity.Call
import TermTree.Proofs.Identity.Growing
import TermTree.Proofs.Identity.Holdings
import TermTree.Proofs.Identity.Moved
import TermTree.Proofs.Identity.Playing
import TermTree.Proofs.Identity.Splicing
import TermTree.Proofs.Scanning.Loop
import TermTree.Proofs.Scanning.Progress
import TermTree.Proofs.Term.Editing
import TermTree.Proofs.Term.Fault
import TermTree.Proofs.Term.Pairs
import TermTree.Proofs.Term.Prefix
import TermTree.Proofs.Term.Respelling
import TermTree.Proofs.Term.Rewriting
import TermTree.Proofs.Term.RoundTrip
import TermTree.Proofs.Term.Spelling
import TermTree.Proofs.Term.Taking
import TermTree.Proofs.Text.Nesting
import TermTree.Proofs.Text.Offset
import TermTree.Proofs.Text.Seam
import TermTree.Proofs.Token.Exact
import TermTree.Proofs.Token.Exposed
import TermTree.Proofs.Token.Fault
import TermTree.Proofs.Token.Long
import TermTree.Proofs.Token.Lossless
import TermTree.Proofs.Token.Parity
import TermTree.Proofs.Token.Position
import TermTree.Proofs.Token.Run
import TermTree.Proofs.Token.Scan
import TermTree.Proofs.Token.Seam
import TermTree.Proofs.Token.Told
import TermTree.Proofs.Tree.Choice
import TermTree.Proofs.Tree.Drawing
import TermTree.Proofs.Tree.Enclosing
import TermTree.Proofs.Tree.Exact
import TermTree.Proofs.Tree.Fault
import TermTree.Proofs.Tree.HeadVisit
import TermTree.Proofs.Tree.Heads
import TermTree.Proofs.Tree.InPlace
import TermTree.Proofs.Tree.Insertion
import TermTree.Proofs.Tree.Interior
import TermTree.Proofs.Tree.Iteration
import TermTree.Proofs.Tree.Joining
import TermTree.Proofs.Tree.LeafPath
import TermTree.Proofs.Tree.Legible
import TermTree.Proofs.Tree.Located
import TermTree.Proofs.Tree.Place
import TermTree.Proofs.Tree.Reached
import TermTree.Proofs.Tree.Rereading
import TermTree.Proofs.Tree.RoundTrip
import TermTree.Proofs.Tree.Selected
import TermTree.Proofs.Tree.Splicing
import TermTree.Proofs.Tree.Thinning
import TermTree.Proofs.Tree.Told
import TermTree.Proofs.Tree.Visit
import TermTree.Proofs.Workspace.Identity
import TermTree.Proofs.Workspace.Making
import TermTree.Proofs.Workspace.Step
