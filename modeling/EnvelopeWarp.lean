import EnvelopeWarp.CommandLine.Arguments
import EnvelopeWarp.CommandLine.Failure
import EnvelopeWarp.CommandLine.Filter
import EnvelopeWarp.CommandLine.Program
import EnvelopeWarp.CommandLine.Run
import EnvelopeWarp.Data.Basic
import EnvelopeWarp.Data.Geometry
import EnvelopeWarp.Decimal.Double
import EnvelopeWarp.Decimal.Layout
import EnvelopeWarp.Decimal.Literal
import EnvelopeWarp.Decimal.Reading
import EnvelopeWarp.Decimal.Shortest
import EnvelopeWarp.Drawing.Basic
import EnvelopeWarp.Drawing.Error
import EnvelopeWarp.Drawing.Render
import EnvelopeWarp.Envelope.Basic
import EnvelopeWarp.Envelope.Error
import EnvelopeWarp.Envelope.Measure
import EnvelopeWarp.Envelope.Query
import EnvelopeWarp.Geometry.Box
import EnvelopeWarp.Geometry.Point
import EnvelopeWarp.Geometry.Quad
import EnvelopeWarp.Geometry.Segment
import EnvelopeWarp.Host.Basic
import EnvelopeWarp.Host.Error
import EnvelopeWarp.Host.Memory
import EnvelopeWarp.Json.Number
import EnvelopeWarp.Json.Reader
import EnvelopeWarp.Json.Text
import EnvelopeWarp.Json.Token
import EnvelopeWarp.Json.Writer
import EnvelopeWarp.Length
import EnvelopeWarp.Main
import EnvelopeWarp.Markup.Event
import EnvelopeWarp.Markup.Reading
import EnvelopeWarp.Markup.Reference
import EnvelopeWarp.Markup.Scan
import EnvelopeWarp.Markup.Tag
import EnvelopeWarp.Path.Arc
import EnvelopeWarp.Path.Basic
import EnvelopeWarp.Path.Command
import EnvelopeWarp.Path.Extent
import EnvelopeWarp.Path.Pen
import EnvelopeWarp.Path.Reader
import EnvelopeWarp.Path.Text
import EnvelopeWarp.Pattern.Basic
import EnvelopeWarp.Pattern.Bracket
import EnvelopeWarp.Pattern.Depth
import EnvelopeWarp.Pattern.Escape
import EnvelopeWarp.Pattern.Fault
import EnvelopeWarp.Pattern.Group
import EnvelopeWarp.Pattern.Meaning
import EnvelopeWarp.Pattern.Parsing
import EnvelopeWarp.Pattern.Place
import EnvelopeWarp.Pattern.Reader
import EnvelopeWarp.Pattern.Report
import EnvelopeWarp.Pattern.Tree
import EnvelopeWarp.Scalar.Basic
import EnvelopeWarp.Scalar.Double
import EnvelopeWarp.Settings.Basic
import EnvelopeWarp.Settings.Data
import EnvelopeWarp.Settings.File
import EnvelopeWarp.Text.Blank
import EnvelopeWarp.Text.Bytes
import EnvelopeWarp.Text.Digit
import EnvelopeWarp.Text.Match
import EnvelopeWarp.Text.Letter
import EnvelopeWarp.Text.Number
import EnvelopeWarp.Toml.Reader
import EnvelopeWarp.Toml.Scalar
import EnvelopeWarp.Toml.Table
import EnvelopeWarp.Toml.Text
import EnvelopeWarp.Toml.Value
import EnvelopeWarp.Toml.Writer
import EnvelopeWarp.Warp
import EnvelopeWarp.Proofs.ExactScalar
import EnvelopeWarp.Proofs.BilinearWarp
import EnvelopeWarp.Proofs.CubicExtremes
import EnvelopeWarp.Proofs.TightBounds
import EnvelopeWarp.Proofs.LiteralText
import EnvelopeWarp.Proofs.PositionalText
import EnvelopeWarp.Proofs.NearestDouble
import EnvelopeWarp.Proofs.ShortestDecimal
import EnvelopeWarp.Proofs.DoubleBits
import EnvelopeWarp.Proofs.DoubleText
import EnvelopeWarp.Proofs.DrawnPaths
import EnvelopeWarp.Proofs.RedrawnPaths
import EnvelopeWarp.Proofs.WrittenCommands
import EnvelopeWarp.Proofs.PathRoundTrip
import EnvelopeWarp.Proofs.AttributeText
import EnvelopeWarp.Proofs.QuotedText
import EnvelopeWarp.Proofs.MarkupText
import EnvelopeWarp.Proofs.LegibleEvents
import EnvelopeWarp.Proofs.EditedTags
import EnvelopeWarp.Proofs.EditedDrawings
import EnvelopeWarp.Proofs.DrawingRoundTrip
import EnvelopeWarp.Proofs.LongestLiteral
import EnvelopeWarp.Proofs.PathGrammar
import EnvelopeWarp.Proofs.TracedStrokes
import EnvelopeWarp.Proofs.ListedElements
import EnvelopeWarp.Proofs.RenderedEvents
import EnvelopeWarp.Proofs.EnvelopeRuns
import EnvelopeWarp.Proofs.MappedPaths
import EnvelopeWarp.Proofs.FittedPaths
import EnvelopeWarp.Proofs.ConfinedAnchors
import EnvelopeWarp.Proofs.CongruentEnvelope
import EnvelopeWarp.Proofs.PlacedCorners
import EnvelopeWarp.Proofs.MeetingChords
import EnvelopeWarp.Proofs.ConvexEnvelope
import EnvelopeWarp.Proofs.TriangleEnvelope
import EnvelopeWarp.Proofs.RoundedText
import EnvelopeWarp.Proofs.DataAlphabet
import EnvelopeWarp.Proofs.RereadPaths
import EnvelopeWarp.Proofs.StoredPaths
import EnvelopeWarp.Proofs.MemoryHost
import EnvelopeWarp.Proofs.ProgramRuns
import EnvelopeWarp.Proofs.IndexedDrawings
import EnvelopeWarp.Proofs.RepeatedEdits
import EnvelopeWarp.Proofs.ReloadedDrawings
import EnvelopeWarp.Proofs.ControlPaths
import EnvelopeWarp.Proofs.TomlText
import EnvelopeWarp.Proofs.TomlScalars
import EnvelopeWarp.Proofs.TomlSections
import EnvelopeWarp.Proofs.JsonText
import EnvelopeWarp.Proofs.JsonNumbers
import EnvelopeWarp.Proofs.JsonData
import EnvelopeWarp.Proofs.SettingsText
import EnvelopeWarp.Proofs.SettingsFiles
import EnvelopeWarp.Proofs.MeetingLines
import EnvelopeWarp.Proofs.LocalReaders
import EnvelopeWarp.Proofs.CommandCourse
import EnvelopeWarp.Proofs.AbsoluteCommands
import EnvelopeWarp.Proofs.SmoothCommands
import EnvelopeWarp.Proofs.ClosestDouble
import EnvelopeWarp.Proofs.StableText
import EnvelopeWarp.Proofs.RoundedPaths
import EnvelopeWarp.Proofs.LocatedFaults
import EnvelopeWarp.Proofs.JoinedData
import EnvelopeWarp.Proofs.ArcPieces
import EnvelopeWarp.Proofs.ScaledDrawings
import EnvelopeWarp.Proofs.TrimmedText
import EnvelopeWarp.Proofs.ReadLiterals
import EnvelopeWarp.Proofs.ReadLengths
import EnvelopeWarp.Proofs.OverriddenSettings
import EnvelopeWarp.Proofs.PointwiseMaps
