import ProjectFile.Text.Ranges
import ProjectFile.Text.WhiteSpace
import ProjectFile.Text.Printable
import ProjectFile.Text.Quoted
import ProjectFile.Text.Number
import ProjectFile.Text.Bytes
import ProjectFile.Markup.Reference
import ProjectFile.Markup.Token
import ProjectFile.Markup.Event
import ProjectFile.Uri.Basic
import ProjectFile.Uri.Percent
import ProjectFile.Uri.Scheme
import ProjectFile.Uri.Address
import ProjectFile.Uri.Host
import ProjectFile.Uri.Segments
import ProjectFile.Uri.Parse
import ProjectFile.Location
import ProjectFile.Description.Arguments
import ProjectFile.Description.Links
import ProjectFile.Description.Basic
import ProjectFile.Reading.Element
import ProjectFile.Reading.Problem
import ProjectFile.Reading.Tree
import ProjectFile.Reading.Describe
import ProjectFile.Reading.Reader
import ProjectFile.Stream
import ProjectFile.Document
import ProjectFile.Summary
import ProjectFile.Decimal.Binary64
import ProjectFile.Decimal.Shortest
import ProjectFile.Toml.Value
import ProjectFile.Toml.Table
import ProjectFile.Toml.Quoted
import ProjectFile.Toml.Scalar
import ProjectFile.Toml.Parse
import ProjectFile.Settings.Basic
import ProjectFile.Settings.Decode
import ProjectFile.Settings.Load
import ProjectFile.Files
import ProjectFile.Cli.Event
import ProjectFile.Cli.LogFilter
import ProjectFile.Cli.Log
import ProjectFile.Cli.Help
import ProjectFile.Cli.Invocation
import ProjectFile.Cli.Failure
import ProjectFile.Cli.Run
import ProjectFile.Main
import ProjectFile.Proofs.Text.ByteOrder
import ProjectFile.Proofs.Text.Decimal
import ProjectFile.Proofs.Text.Trim
import ProjectFile.Proofs.Markup.Piece
import ProjectFile.Proofs.Markup.Reads
import ProjectFile.Proofs.Markup.Remainder
import ProjectFile.Proofs.Markup.CutOff
import ProjectFile.Proofs.Markup.Parts
import ProjectFile.Proofs.Markup.Content
import ProjectFile.Proofs.Markup.Nesting
import ProjectFile.Proofs.Markup.Mending
import ProjectFile.Proofs.Markup.Reference
import ProjectFile.Proofs.Reading.Found
import ProjectFile.Proofs.Reading.Pruning
import ProjectFile.Proofs.Reading.Interpretation
import ProjectFile.Proofs.Reading.Skipping
import ProjectFile.Proofs.Reading.Essence
import ProjectFile.Proofs.Reading.Building
import ProjectFile.Proofs.Reading.Runs
import ProjectFile.Proofs.Reading.Children
import ProjectFile.Proofs.Reading.Subjects
import ProjectFile.Proofs.Reading.Last
import ProjectFile.Proofs.Reading.Recovery
import ProjectFile.Proofs.Reading.RootName
import ProjectFile.Proofs.Reading.BehindRoot
import ProjectFile.Proofs.Reading.Depth
import ProjectFile.Proofs.Reading.Accounting
import ProjectFile.Proofs.Reading.LinkFates
import ProjectFile.Proofs.Reading.BuildSpec
import ProjectFile.Proofs.Reading.Reordering
import ProjectFile.Proofs.Reading.Respelling
import ProjectFile.Proofs.Reading.Session
import ProjectFile.Proofs.Reading.View
import ProjectFile.Proofs.Reading.UriForm
import ProjectFile.Proofs.Reading.Relocation
import ProjectFile.Proofs.Uri.Ascii
import ProjectFile.Proofs.Uri.Margin
import ProjectFile.Proofs.Uri.Percent
import ProjectFile.Proofs.Location.Spelling
import ProjectFile.Proofs.Location.Pieces
import ProjectFile.Proofs.Location.Canonical
import ProjectFile.Proofs.Location.Walk
import ProjectFile.Proofs.Location.Segments
import ProjectFile.Proofs.Location.Acceptance
import ProjectFile.Proofs.Location.NormalForm
import ProjectFile.Proofs.Location.Serialized
import ProjectFile.Proofs.Description.Entries
import ProjectFile.Proofs.Description.Sameness
import ProjectFile.Proofs.Description.LinkMap
import ProjectFile.Proofs.Document.Layout
import ProjectFile.Proofs.Document.Lines
import ProjectFile.Proofs.Document.Root
import ProjectFile.Proofs.Document.Normal
import ProjectFile.Proofs.Document.RoundTrip
import ProjectFile.Proofs.Document.Idempotent
import ProjectFile.Proofs.Document.NormalForm
import ProjectFile.Proofs.Document.Sameness
import ProjectFile.Proofs.Document.CutOff
import ProjectFile.Proofs.Document.Truncation
import ProjectFile.Proofs.Toml.WellFormed
import ProjectFile.Proofs.Toml.Datum
import ProjectFile.Proofs.Settings.Independence
import ProjectFile.Proofs.Files.Frame
import ProjectFile.Proofs.Cli.Commands
import ProjectFile.Proofs.Cli.Check
import ProjectFile.Proofs.Cli.Format
