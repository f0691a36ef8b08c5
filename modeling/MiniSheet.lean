import MiniSheet.Text.Ranges
import MiniSheet.Text.Blank
import MiniSheet.Text.Alphabetic
import MiniSheet.Text.Numeric
import MiniSheet.Text.Basic
import MiniSheet.Text.Bytes
import MiniSheet.Text.Name
import MiniSheet.Number.Double
import MiniSheet.Number.Whole
import MiniSheet.Number.Shortest
import MiniSheet.Number.Numeral
import MiniSheet.Source.Position
import MiniSheet.Source.LineTable
import MiniSheet.Source.ParseError
import MiniSheet.Source.Zone
import MiniSheet.Source.Scanner
import MiniSheet.Source.Node
import MiniSheet.Source.Token
import MiniSheet.Source.Document
import MiniSheet.Selector
import MiniSheet.Rpx
import MiniSheet.Location
import MiniSheet.FileTree
import MiniSheet.Journal
import MiniSheet.Profile
import MiniSheet.Output.Chunk
import MiniSheet.Output.Compiled
import MiniSheet.Output.Transform
import MiniSheet.Output.Production
import MiniSheet.Package.Sheet
import MiniSheet.Package.ImportGraph
import MiniSheet.Package.Basic
import MiniSheet.Package.Load
import MiniSheet.Package.Process
import MiniSheet.Package.Rendering
import MiniSheet.Engine
import MiniSheet.Proofs.Outcome
import MiniSheet.Proofs.ImportSearch
import MiniSheet.Proofs.Importers
import MiniSheet.Proofs.NormalForm
import MiniSheet.Proofs.RenderOutcome
import MiniSheet.Proofs.EngineCoherence
import MiniSheet.Proofs.References
import MiniSheet.Proofs.PackageHistory
import MiniSheet.Proofs.RenderAgreement
import MiniSheet.Proofs.Lossless
import MiniSheet.Proofs.ImportSites
import MiniSheet.Proofs.Isolation
import MiniSheet.Proofs.Classification
import MiniSheet.Proofs.Declarations
import MiniSheet.Proofs.Lengths
import MiniSheet.Proofs.Pieces
import MiniSheet.Proofs.Writing
import MiniSheet.Proofs.Visits
import MiniSheet.Proofs.Output
import MiniSheet.Proofs.RoundTrip
import MiniSheet.Proofs.Texts
import MiniSheet.Proofs.Scanning
import MiniSheet.Proofs.Seams
import MiniSheet.Proofs.Moving
import MiniSheet.Proofs.Concatenation
import MiniSheet.Proofs.Braces
import MiniSheet.Proofs.SelfContained
import MiniSheet.Proofs.Splicing
import MiniSheet.Proofs.Inlining
import MiniSheet.Proofs.Paths
import MiniSheet.Proofs.Registry
import MiniSheet.Proofs.EdgeHistory
import MiniSheet.Proofs.Notifications
import MiniSheet.Proofs.Numerals
import MiniSheet.Proofs.Zones
import MiniSheet.Proofs.RpxLiterals
import MiniSheet.Proofs.Replacement
import MiniSheet.Proofs.Unfolding
import MiniSheet.Proofs.Devices
import MiniSheet.Proofs.Coverage
import MiniSheet.Proofs.ImportForms
import MiniSheet.Proofs.Tagging
import MiniSheet.Proofs.Shielded
import MiniSheet.Proofs.Misreading
import MiniSheet.Proofs.Forests
import MiniSheet.Proofs.OwnTexts
import MiniSheet.Proofs.TypeStarts
import MiniSheet.Proofs.Places
import MiniSheet.Proofs.Spans
import MiniSheet.Proofs.Form
import MiniSheet.Proofs.FaultPlaces
import MiniSheet.Proofs.CanonicalPaths
import MiniSheet.Proofs.Loading
import MiniSheet.Proofs.LongestNumbers
import MiniSheet.Proofs.LineTables
