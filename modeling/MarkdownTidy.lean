import MarkdownTidy.Command.Arguments
import MarkdownTidy.Command.Run
import MarkdownTidy.Command.Summary
import MarkdownTidy.Counted
import MarkdownTidy.Document.BlankLines
import MarkdownTidy.Document.Block
import MarkdownTidy.Document.Editing
import MarkdownTidy.Document.Lines
import MarkdownTidy.Document.Settling
import MarkdownTidy.InPlace
import MarkdownTidy.Json.Printer
import MarkdownTidy.Json.Shape
import MarkdownTidy.Json.Value
import MarkdownTidy.Line.BareUrl
import MarkdownTidy.Line.BoldTitle
import MarkdownTidy.Line.Class
import MarkdownTidy.Line.Edit
import MarkdownTidy.Line.FenceTag
import MarkdownTidy.Line.Language
import MarkdownTidy.Line.StraySpace
import MarkdownTidy.Log
import MarkdownTidy.Main
import MarkdownTidy.Note
import MarkdownTidy.PerRule
import MarkdownTidy.Problem
import MarkdownTidy.Proofs.Command.Outputs
import MarkdownTidy.Proofs.Command.SelectedRules
import MarkdownTidy.Proofs.Command.Words
import MarkdownTidy.Proofs.Document.BlockGaps
import MarkdownTidy.Proofs.Document.BlockShapes
import MarkdownTidy.Proofs.Document.ClosingFences
import MarkdownTidy.Proofs.Document.EditedSites
import MarkdownTidy.Proofs.Document.FenceParity
import MarkdownTidy.Proofs.Document.Fences
import MarkdownTidy.Proofs.Document.GapRule
import MarkdownTidy.Proofs.Document.InsertedLines
import MarkdownTidy.Proofs.Document.LineClasses
import MarkdownTidy.Proofs.Document.LineEdits
import MarkdownTidy.Proofs.Document.LinePlaces
import MarkdownTidy.Proofs.Document.LocalGaps
import MarkdownTidy.Proofs.Document.LocalPass
import MarkdownTidy.Proofs.Document.RoundBurden
import MarkdownTidy.Proofs.Document.RoundChances
import MarkdownTidy.Proofs.Document.Sites
import MarkdownTidy.Proofs.Document.TaggedFences
import MarkdownTidy.Proofs.Document.Unbroken
import MarkdownTidy.Proofs.Document.Widening
import MarkdownTidy.Proofs.Line.Becoming
import MarkdownTidy.Proofs.Line.BoldTitles
import MarkdownTidy.Proofs.Line.Burdens
import MarkdownTidy.Proofs.Line.Chances
import MarkdownTidy.Proofs.Line.FenceMarkers
import MarkdownTidy.Proofs.Line.Fixes
import MarkdownTidy.Proofs.Line.KeptKinds
import MarkdownTidy.Proofs.Line.KeptText
import MarkdownTidy.Proofs.Line.Kinds
import MarkdownTidy.Proofs.Line.PromotedTitles
import MarkdownTidy.Proofs.Line.Resting
import MarkdownTidy.Proofs.Line.SameEdits
import MarkdownTidy.Proofs.Line.ScannedUrls
import MarkdownTidy.Proofs.Line.SignCounts
import MarkdownTidy.Proofs.Line.StrayHeadings
import MarkdownTidy.Proofs.Line.StraySpaces
import MarkdownTidy.Proofs.Line.TrackedFences
import MarkdownTidy.Proofs.Line.UnwrappedUrls
import MarkdownTidy.Proofs.Line.UrlPattern
import MarkdownTidy.Proofs.Line.UrlScan
import MarkdownTidy.Proofs.Line.UrlSearch
import MarkdownTidy.Proofs.Line.WrappedUrls
import MarkdownTidy.Proofs.Rounds.Accounting
import MarkdownTidy.Proofs.Rounds.Caps
import MarkdownTidy.Proofs.Rounds.ComingToRest
import MarkdownTidy.Proofs.Rounds.Compliance
import MarkdownTidy.Proofs.Rounds.ExactCounts
import MarkdownTidy.Proofs.Rounds.FenceTags
import MarkdownTidy.Proofs.Rounds.FencedBlocks
import MarkdownTidy.Proofs.Rounds.IdleRules
import MarkdownTidy.Proofs.Rounds.KeptDocument
import MarkdownTidy.Proofs.Rounds.PlacedLines
import MarkdownTidy.Proofs.Rounds.Sections
import MarkdownTidy.Proofs.Rounds.StrayCounts
import MarkdownTidy.Proofs.Rounds.TextRounds
import MarkdownTidy.Proofs.Rounds.ThreeRounds
import MarkdownTidy.Proofs.Rounds.Tracking
import MarkdownTidy.Proofs.Storage.Actions
import MarkdownTidy.Proofs.Storage.Interruptions
import MarkdownTidy.Proofs.Storage.Places
import MarkdownTidy.Proofs.Storage.SafeFiles
import MarkdownTidy.Proofs.Storage.TidySteps
import MarkdownTidy.Proofs.Text.Backtracking
import MarkdownTidy.Proofs.Text.ByteOffsets
import MarkdownTidy.Proofs.Text.Trimming
import MarkdownTidy.Rule
import MarkdownTidy.Settings
import MarkdownTidy.Storage.FileTree
import MarkdownTidy.Storage.Path
import MarkdownTidy.Storage.Script
import MarkdownTidy.Text.DecimalDigit
import MarkdownTidy.Text.Occurrence
import MarkdownTidy.Text.RawText
import MarkdownTidy.Text.Utf8
import MarkdownTidy.Text.WhiteSpace
import MarkdownTidy.Tidied
