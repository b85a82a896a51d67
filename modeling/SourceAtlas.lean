import SourceAtlas.Main
import SourceAtlas.Session.Step
import SourceAtlas.Syntax.Model
import SourceAtlas.Proofs.LineStarts
import SourceAtlas.Proofs.LineLookup
import SourceAtlas.Proofs.LineRanges
import SourceAtlas.Proofs.OrderedMap
import SourceAtlas.Proofs.Session.Retouch
import SourceAtlas.Proofs.Session.Pool
import SourceAtlas.Proofs.Session.Taking
import SourceAtlas.Proofs.Text.Utf8
import SourceAtlas.Proofs.Session.Outcome
import SourceAtlas.Proofs.Session.Records
import SourceAtlas.Proofs.Session.Identity
import SourceAtlas.Proofs.FileSystem.Walk
import SourceAtlas.Proofs.Session.Candidates
import SourceAtlas.Proofs.Session.Loading
import SourceAtlas.Proofs.PathOrder
import SourceAtlas.Proofs.Watcher.Stream
import SourceAtlas.Proofs.Watcher.Abreast
import SourceAtlas.Proofs.Watcher.Delivery
import SourceAtlas.Proofs.Watcher.Stopping
import SourceAtlas.Proofs.Session.Refreshing
import SourceAtlas.Proofs.Watcher.Refreshing
import SourceAtlas.Proofs.Watcher.Ignoring
import SourceAtlas.Proofs.Session.Sharing
import SourceAtlas.Proofs.FileSystem.Refusals
import SourceAtlas.Proofs.Session.Obstacles
import SourceAtlas.Proofs.Session.Barring
import SourceAtlas.Proofs.Console.Fitting
import SourceAtlas.Proofs.Console.Codes
import SourceAtlas.Proofs.Console.Literal
import SourceAtlas.Proofs.Console.Rows
import SourceAtlas.Proofs.Console.Styled
import SourceAtlas.Proofs.Command.Names
import SourceAtlas.Proofs.Syntax.Nodes
import SourceAtlas.Proofs.Syntax.Conversion
import SourceAtlas.Proofs.Syntax.Dumps
import SourceAtlas.Proofs.Syntax.Faults
import SourceAtlas.Proofs.Syntax.Scripts
import SourceAtlas.Proofs.Text.Lines
import SourceAtlas.Proofs.Locations
import SourceAtlas.Proofs.LineTexts
import SourceAtlas.Proofs.Text.Lenient
import SourceAtlas.Proofs.Columns
import SourceAtlas.Proofs.Command.Parsing
import SourceAtlas.Proofs.Command.Positions
import SourceAtlas.Proofs.Session.Verbatim
import SourceAtlas.Proofs.Session.Loaded
import SourceAtlas.Proofs.Session.Parts
import SourceAtlas.Proofs.Session.Failing
import SourceAtlas.Proofs.Session.Merging
import SourceAtlas.Proofs.Value.Reading
import SourceAtlas.Proofs.Text.Trimming
import SourceAtlas.Proofs.Text.Items
import SourceAtlas.Proofs.Config.Fields
import SourceAtlas.Proofs.Config.Normalising
import SourceAtlas.Proofs.Number.Numeral
import SourceAtlas.Proofs.Config.Environment
import SourceAtlas.Proofs.Command.Reports
import SourceAtlas.Proofs.FileSystem.Plain
import SourceAtlas.Proofs.FileSystem.Resolving
import SourceAtlas.Proofs.FileSystem.Pruning
import SourceAtlas.Proofs.Session.Unseen
import SourceAtlas.Proofs.LinePositions
import SourceAtlas.Proofs.LineAppend
import SourceAtlas.Proofs.Session.Equality
