import Graft.Fetch.Viewer
import Graft.Main
import Graft.Proofs.Buffer.Search
import Graft.Proofs.Buffer.Piece
import Graft.Proofs.Buffer.Composed
import Graft.Proofs.Buffer.Insertion
import Graft.Proofs.Buffer.Tagged
import Graft.Proofs.Buffer.Ready
import Graft.Proofs.Buffer.Provenance
import Graft.Proofs.Walk.History
import Graft.Proofs.Walk.Recursion
import Graft.Proofs.Draft.Inlining
import Graft.Proofs.Walk.Once
import Graft.Proofs.Draft.Lexicon
import Graft.Proofs.Draft.Redirection
import Graft.Proofs.Draft.Linking
import Graft.Proofs.Walk.Lexical
import Graft.Proofs.Walk.Naming
import Graft.Proofs.Fetch.Attempts
import Graft.Proofs.Text.Pieces
import Graft.Proofs.Walk.Requests
import Graft.Proofs.Draft.Brace
import Graft.Proofs.Walk.Brace
import Graft.Proofs.Walk.Accounts
import Graft.Proofs.Walk.Strictness
import Graft.Proofs.Buffer.Seat
import Graft.Proofs.Draft.Calls
import Graft.Proofs.Text.Nesting
import Graft.Proofs.Draft.Nesting
import Graft.Proofs.Draft.Fragments
import Graft.Proofs.Draft.Shape
import Graft.Proofs.Text.Comment
import Graft.Proofs.Text.Lines
import Graft.Proofs.Draft.Rendering
import Graft.Proofs.Draft.Settled
import Graft.Proofs.Draft.Separator
import Graft.Proofs.Note.Fence
import Graft.Proofs.Walk.Asking
import Graft.Proofs.Note.Choice
import Graft.Proofs.Note.Replacement
import Graft.Proofs.Lookup
import Graft.Proofs.Disk.Writing
import Graft.Proofs.Command.Whole
import Graft.Proofs.Fetch.Available
import Graft.Proofs.Walk.Ending
import Graft.Proofs.Text.Segments
import Graft.Proofs.Specifier.Root
import Graft.Proofs.Walk.Root
import Graft.Proofs.Toml.Strings
import Graft.Proofs.Toml.Numbers
import Graft.Proofs.Toml.Values
import Graft.Proofs.Toml.Document
import Graft.Proofs.Tree.Merging
import Graft.Proofs.Settings.Keys
import Graft.Proofs.Toml.Distinct
import Graft.Proofs.Settings.Layers
import Graft.Proofs.Settings.Rendering
import Graft.Proofs.Declaration.Latest
import Graft.Proofs.Text.Front
import Graft.Proofs.Declaration.Signature
import Graft.Proofs.Declaration.Positions
import Graft.Proofs.Declaration.Printing
import Graft.Proofs.Declaration.Forms
import Graft.Proofs.Declaration.Comments
import Graft.Proofs.Text.Uses
import Graft.Proofs.Buffer.Located
import Graft.Proofs.Buffer.Seam
import Graft.Proofs.Buffer.Resolution
import Graft.Proofs.Draft.Passes
import Graft.Proofs.Draft.Atomic
import Graft.Proofs.Declaration.Names
import Graft.Proofs.Text.Scanning
import Graft.Proofs.Import.Reading
import Graft.Proofs.Import.Printing
import Graft.Proofs.Import.Statement
import Graft.Proofs.Import.Stripping
import Graft.Proofs.Specifier.Normal
import Graft.Proofs.Walk.Missing
import Graft.Proofs.Fetch.Budget
import Graft.Proofs.Walk.Transient
import Graft.Proofs.Note.Section
import Graft.Proofs.Entry.Search
import Graft.Proofs.Declaration.LineEnds
import Graft.Proofs.Reference.Reading
import Graft.Proofs.Reference.Printing
import Graft.Proofs.Note.Source
import Graft.Proofs.Viewer.Grammar
import Graft.Proofs.Viewer.Strings
import Graft.Proofs.Viewer.Scalars
import Graft.Proofs.Viewer.Values
import Graft.Proofs.Viewer.Lines
import Graft.Proofs.Report
import Graft.Proofs.Text.Shifting
import Graft.Proofs.Declaration.Bodies
import Graft.Proofs.Draft.Layout
