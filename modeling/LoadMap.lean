import LoadMap.ApiSet.Contract
import LoadMap.ApiSet.Map
import LoadMap.ApiSet.Schema
import LoadMap.Binary
import LoadMap.BinaryStore
import LoadMap.Bytes
import LoadMap.Chain
import LoadMap.CommandLine.Arguments
import LoadMap.CommandLine.Run
import LoadMap.Decorated
import LoadMap.Decorated.Basic
import LoadMap.Decorated.Code
import LoadMap.Decorated.Printer
import LoadMap.Decorated.Reader
import LoadMap.Disk
import LoadMap.Export
import LoadMap.Failure
import LoadMap.FileSystem
import LoadMap.FolderCache
import LoadMap.Graph.Basic
import LoadMap.Graph.Build
import LoadMap.Graph.Export
import LoadMap.Graph.Walk
import LoadMap.Image.Address
import LoadMap.Image.Basic
import LoadMap.Image.DelayImport
import LoadMap.Image.ExportTable
import LoadMap.Image.Fault
import LoadMap.Image.ImportTable
import LoadMap.Image.LoaderView
import LoadMap.Image.Resource
import LoadMap.Image.Runtime
import LoadMap.Image.SectionView
import LoadMap.Import
import LoadMap.Json.Printer
import LoadMap.Json.Reader
import LoadMap.Json.Value
import LoadMap.KnownDlls
import LoadMap.Main
import LoadMap.Manifest
import LoadMap.Metadata.Layout
import LoadMap.Metadata.References
import LoadMap.Metadata.Stream
import LoadMap.Path
import LoadMap.Proofs.Graph.Coverage
import LoadMap.Proofs.Graph.Depth
import LoadMap.Proofs.Graph.Expansion
import LoadMap.Proofs.Graph.Linking
import LoadMap.Proofs.Graph.Order
import LoadMap.Proofs.Graph.Progress
import LoadMap.Proofs.Graph.Reachability
import LoadMap.Proofs.Graph.Recursion
import LoadMap.Proofs.Graph.Refinement
import LoadMap.Proofs.Graph.Services
import LoadMap.Proofs.Graph.Store
import LoadMap.Proofs.Graph.Table
import LoadMap.Proofs.Graph.Trail
import LoadMap.Proofs.Graph.Unfolding
import LoadMap.Proofs.Graph.Unlimited
import LoadMap.Proofs.Graph.Visit
import LoadMap.Proofs.Graph.Walk
import LoadMap.Proofs.Tree
import LoadMap.Query
import LoadMap.Report
import LoadMap.Resolution
import LoadMap.RootModule
import LoadMap.SearchPath
import LoadMap.SideBySide.Assembly
import LoadMap.SideBySide.Entry
import LoadMap.SideBySide.Pattern
import LoadMap.Text.Ascii
import LoadMap.Text.Blank
import LoadMap.Text.CaseTable
import LoadMap.Text.Digit
import LoadMap.Text.Lowercase
import LoadMap.Text.Numeral
import LoadMap.Text.Pieces
import LoadMap.Text.Utf16
import LoadMap.Text.Utf8
import LoadMap.Tree
import LoadMap.WindowsSystem
import LoadMap.Word
import LoadMap.Xml.Char
import LoadMap.Xml.Element
import LoadMap.Xml.Reference
import LoadMap.Xml.Token
import LoadMap.Proofs.Graph.Display
import LoadMap.Proofs.Graph.Recovery
import LoadMap.Proofs.Json.Layout
import LoadMap.Proofs.Graph.Document
import LoadMap.Proofs.Disk
import LoadMap.Proofs.Search.Folder
import LoadMap.Proofs.Search.Precedence
import LoadMap.Proofs.Graph.Alike
import LoadMap.Proofs.Search.Afresh
import LoadMap.Proofs.Search.Invisible
import LoadMap.Proofs.Graph.Widening
import LoadMap.Proofs.Search.UserPath
import LoadMap.Proofs.Path
import LoadMap.Proofs.Disk.Proper
import LoadMap.Proofs.Search.Backing
import LoadMap.Proofs.Search.Application
import LoadMap.Proofs.Text.Lowercase
import LoadMap.Proofs.ApiSet.Contract
import LoadMap.Proofs.ApiSet.Shape
import LoadMap.Proofs.Search.LetterCase
import LoadMap.Proofs.Bytes
import LoadMap.Proofs.Bytes.Table
import LoadMap.Proofs.Text.Utf16
import LoadMap.Proofs.ApiSet.Schema
import LoadMap.Proofs.Text.Utf8
import LoadMap.Proofs.Metadata.Standard
import LoadMap.Proofs.Metadata.Layout
import LoadMap.Proofs.Metadata.Streams
import LoadMap.Proofs.Metadata.Tables
import LoadMap.Proofs.Metadata.References
import LoadMap.Proofs.Bytes.Range
import LoadMap.Proofs.Image.Bounds
import LoadMap.Proofs.Metadata.Bounds
import LoadMap.Proofs.ApiSet.Bounds
import LoadMap.Proofs.Bounds
import LoadMap.Proofs.Graph.Content
import LoadMap.Proofs.Graph.Edges
import LoadMap.Proofs.Graph.Twin
import LoadMap.Proofs.Graph.Notes
import LoadMap.Proofs.CommandLine.Answer
import LoadMap.Proofs.Failure
import LoadMap.Proofs.Bytes.Padding
import LoadMap.Proofs.Image.Padding
import LoadMap.Proofs.Image.Sections
import LoadMap.Proofs.Image.Mapped
import LoadMap.Proofs.Binary
import LoadMap.Proofs.BinaryStore
import LoadMap.Proofs.Graph.Keeping
import LoadMap.Proofs.Image.Headers
import LoadMap.Proofs.Image.Address
import LoadMap.Proofs.Image.DelayImport
import LoadMap.Proofs.Metadata.Directory
import LoadMap.Proofs.Image.Reads
import LoadMap.Proofs.BinaryStore.Changes
import LoadMap.Proofs.Search.Passage
import LoadMap.Proofs.Search.Modes
import LoadMap.Proofs.SideBySide.Pattern
import LoadMap.Proofs.SideBySide.StoreName
import LoadMap.Proofs.SideBySide.Choice
import LoadMap.Proofs.SideBySide.Location
import LoadMap.Proofs.SideBySide.Store
import LoadMap.Proofs.SideBySide.Sequence
import LoadMap.Proofs.SideBySide.Housing
import LoadMap.Proofs.Image.Grouping
import LoadMap.Proofs.Image.Exports
import LoadMap.Proofs.Path.Order
import LoadMap.Proofs.KnownDlls
