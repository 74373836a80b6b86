import Highlighter.Main
import Highlighter.Server
import Highlighter.Proofs.Edit.Basic
import Highlighter.Proofs.Edit.Between
import Highlighter.Proofs.Edit.Combine
import Highlighter.Proofs.Edit.Folding
import Highlighter.Proofs.Scan.Front
import Highlighter.Proofs.Scan.Rule
import Highlighter.Proofs.Scan.Scanner
import Highlighter.Proofs.Scan.LookAhead
import Highlighter.Proofs.Scan.Stream
import Highlighter.Proofs.Scan.Tiling
import Highlighter.Proofs.Scan.Progress
import Highlighter.Proofs.Scan.LineBreak
import Highlighter.Proofs.Scan.Places
import Highlighter.Proofs.Scan.Lexical
import Highlighter.Proofs.Text.LineEnds
import Highlighter.Proofs.Text.Utf8
import Highlighter.Proofs.Scan.LineEnds
import Highlighter.Proofs.Relex.Restart
import Highlighter.Proofs.Relex.Splice
import Highlighter.Proofs.Relex.Rescan
import Highlighter.Proofs.Document.InStep
import Highlighter.Proofs.Document.Session
import Highlighter.Proofs.Document.Run
import Highlighter.Proofs.LineIndex.Offset
import Highlighter.Proofs.LineIndex.Lines
import Highlighter.Proofs.LineIndex.Units
import Highlighter.Proofs.LineIndex.Rounding
import Highlighter.Proofs.LineIndex.Positions
import Highlighter.Proofs.LineIndex.Pieces
import Highlighter.Proofs.Span.Cover
import Highlighter.Proofs.Span.LineEnds
import Highlighter.Proofs.Render.Numbers
import Highlighter.Proofs.Render.Json
import Highlighter.Proofs.Render.Theme
import Highlighter.Proofs.Render.LineEnds
import Highlighter.Proofs.SemanticTokens.Decode
import Highlighter.Proofs.SemanticTokens.Marks
import Highlighter.Proofs.Server.Changes
import Highlighter.Proofs.Server.Texts
import Highlighter.Proofs.Server.Refinement
import Highlighter.Proofs.Command.Delivery
import Highlighter.Proofs.Command.Reading
import Highlighter.Proofs.Command.Files
import Highlighter.Proofs.Command.Options
import Highlighter.Proofs.Command.Outcome
import Highlighter.Proofs.Command.Watching
import Highlighter.Proofs.Command.Polling
import Highlighter.Proofs.Command.Freshness
import Highlighter.Proofs.Keywords.Accepted
import Highlighter.Proofs.Scan.Words
import Highlighter.Proofs.Keywords.Recognition
import Highlighter.Proofs.Relex.Bounded
import Highlighter.Proofs.Relex.Prefix
import Highlighter.Proofs.Render.Html
import Highlighter.Proofs.Edit.Smallest
import Highlighter.Proofs.Edit.Grouping
import Highlighter.Proofs.Scan.Resume
import Highlighter.Proofs.Scan.Suffix
import Highlighter.Proofs.Render.Terminal
import Highlighter.Proofs.Render.Markup
import Highlighter.Proofs.Except
import Highlighter.Proofs.Entries
import Highlighter.Proofs.Keywords.Listing
import Highlighter.Proofs.Keywords.Extended
import Highlighter.Proofs.Keywords.Whole
import Highlighter.Proofs.LineIndex.Columns
import Highlighter.Proofs.Edit.Report
import Highlighter.Proofs.Setting.Keys
import Highlighter.Proofs.Config.Parts
import Highlighter.Proofs.Command.Masking
