import Shoutmark.Browser
import Shoutmark.CommandLine.Options
import Shoutmark.CommandLine.Program
import Shoutmark.Compile
import Shoutmark.Cursor
import Shoutmark.Error
import Shoutmark.Event
import Shoutmark.FileTree
import Shoutmark.Grammar.Block
import Shoutmark.Grammar.Draft
import Shoutmark.Grammar.Inline
import Shoutmark.Grammar.Production
import Shoutmark.Grammar.Program
import Shoutmark.Highlight.Pattern
import Shoutmark.Highlight.Stream
import Shoutmark.Keyword
import Shoutmark.Listeners
import Shoutmark.Listing
import Shoutmark.Named
import Shoutmark.Path
import Shoutmark.Run.Job
import Shoutmark.Run.Stage
import Shoutmark.Run.World
import Shoutmark.Settings.Basic
import Shoutmark.Settings.EnvironmentFile
import Shoutmark.Settings.Load
import Shoutmark.Settings.Reference
import Shoutmark.Text.Blank
import Shoutmark.Text.Case
import Shoutmark.Text.Digit
import Shoutmark.Text.Lines
import Shoutmark.Text.Lower
import Shoutmark.Text.LowerTable
import Shoutmark.Text.Printable
import Shoutmark.Text.Quoted
import Shoutmark.Text.Run
import Shoutmark.Text.Utf8
import Shoutmark.Token.Scan
import Shoutmark.Token.Scanner
import Shoutmark.Variables
import Shoutmark.Main
import Shoutmark.Proofs.Reading.Place
import Shoutmark.Proofs.Reading.Resume
import Shoutmark.Proofs.Reading.Outcome
import Shoutmark.Proofs.Reading.Prefix
import Shoutmark.Proofs.Token.Layout
import Shoutmark.Proofs.Token.Joined
import Shoutmark.Proofs.Reading.Continuation
import Shoutmark.Proofs.Document.Tree
import Shoutmark.Proofs.Document.Reads
import Shoutmark.Proofs.Document.Accepts
import Shoutmark.Proofs.Reading.Growth
import Shoutmark.Proofs.Reading.Lists
import Shoutmark.Proofs.Reading.Truncation
import Shoutmark.Proofs.Reading.Words
import Shoutmark.Proofs.Reading.Recasing
import Shoutmark.Proofs.Document.Nesting
import Shoutmark.Proofs.Highlight.Boundary
import Shoutmark.Proofs.Highlight.Spelling
import Shoutmark.Proofs.Highlight.Runs
import Shoutmark.Proofs.Highlight.Colours
import Shoutmark.Proofs.Highlight.Recognition
import Shoutmark.Proofs.Token.Spacing
import Shoutmark.Proofs.Files.Tree
import Shoutmark.Proofs.Run.Browser
import Shoutmark.Proofs.Run.Stage
import Shoutmark.Proofs.Run.Order
import Shoutmark.Proofs.Run.Targets
import Shoutmark.Proofs.Run.Output
import Shoutmark.Proofs.Reading.Onward
import Shoutmark.Proofs.Reading.Moves
import Shoutmark.Proofs.Reading.Calls
import Shoutmark.Proofs.Document.Remarks
import Shoutmark.Proofs.Document.Inlining
import Shoutmark.Proofs.Token.Scanner
import Shoutmark.Proofs.Settings.Naming
import Shoutmark.Proofs.Settings.Load
import Shoutmark.Proofs.Settings.File
import Shoutmark.Proofs.Settings.Environment
import Shoutmark.Proofs.Highlight.Grouping
import Shoutmark.Proofs.Listing.Reader
import Shoutmark.Proofs.Listing.Cell
import Shoutmark.Proofs.Listing.Page
import Shoutmark.Proofs.Reading.Loops
import Shoutmark.Proofs.Reading.Stream
import Shoutmark.Proofs.Reading.Constructs
import Shoutmark.Proofs.Reading.Listeners
import Shoutmark.Proofs.CommandLine.Options
import Shoutmark.Proofs.CommandLine.Program
