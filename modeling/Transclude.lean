import Transclude.Main
import Transclude.Proofs.CollectionOrder
import Transclude.Proofs.Outlines
import Transclude.Proofs.TokenPasses
import Transclude.Proofs.BodyPasses
import Transclude.Proofs.IncludeSites
import Transclude.Proofs.ShiftedLines
import Transclude.Proofs.IncludeChains
import Transclude.Proofs.NestedLevels
import Transclude.Proofs.InheritedShifts
import Transclude.Proofs.FencedBlocks
import Transclude.Proofs.BlockShifts
import Transclude.Proofs.IncludeWays
import Transclude.Proofs.CarriedBlocks
import Transclude.Proofs.StretchedMarks
import Transclude.Proofs.ExposedBlocks
import Transclude.Proofs.FenceSafety
import Transclude.Proofs.RegionGrammar
import Transclude.Proofs.RegionReadings
import Transclude.Proofs.Verdicts
import Transclude.Proofs.Wrappers
import Transclude.Proofs.Visits
import Transclude.Proofs.SettledPaths
import Transclude.Proofs.RunEvents
import Transclude.Proofs.IncludeGraph
import Transclude.Proofs.ArmSelection
import Transclude.Proofs.DirectiveReads
import Transclude.Proofs.ProseRuns
import Transclude.Proofs.Rewordings
import Transclude.Proofs.UnselectedChanges
import Transclude.Proofs.Revisions
import Transclude.Proofs.UnselectedBuilds
import Transclude.Proofs.DepthCounting
import Transclude.Proofs.WalkDepth
import Transclude.Proofs.IncludeCycles
import Transclude.Proofs.DirectiveForms
import Transclude.Proofs.TokenSpans
import Transclude.Proofs.TidyRows
import Transclude.Proofs.HeaderRows
import Transclude.Proofs.ReadingBack
import Transclude.Proofs.DeclaredRows
import Transclude.Proofs.DeclarableScopes
import Transclude.Proofs.BareDocuments
import Transclude.Proofs.HeaderLayout
import Transclude.Proofs.Rebuilding
import Transclude.Proofs.MissingIncludes
import Transclude.Proofs.StrictMode
import Transclude.Proofs.LenientFaults
import Transclude.Proofs.MissingMarkers
import Transclude.Proofs.Diagnostics
import Transclude.Proofs.ConsultedNames
import Transclude.Proofs.InertValues
import Transclude.Proofs.FencedOffsets
import Transclude.Proofs.OutputTargets
import Transclude.Proofs.BuildHistories
import Transclude.Proofs.RowContinuations
import Transclude.Proofs.ReferencePhrases
import Transclude.Proofs.SealedFronts
import Transclude.Proofs.ImageForms
import Transclude.Proofs.CarriedTexts
import Transclude.Proofs.SettledImages
import Transclude.Proofs.ImageDirectories
import Transclude.Proofs.ListBlocks
import Transclude.Proofs.HarvestedBlocks
import Transclude.Proofs.Breadcrumbs
import Transclude.Proofs.TableCells
import Transclude.Proofs.LinewiseTokens
import Transclude.Proofs.LinewiseTables
import Transclude.Proofs.ClassedLines
import Transclude.Proofs.SectionCuts
import Transclude.Proofs.ComposedShifts
import Transclude.Proofs.MarkedLines
import Transclude.Proofs.ShiftedHeadings
import Transclude.Proofs.ShiftedDirectives
import Transclude.Proofs.DistinctAnchors
import Transclude.Proofs.WrittenHeaders
import Transclude.Proofs.HeaderSplits
import Transclude.Proofs.LooseItems
import Transclude.Proofs.LaidOutLines
import Transclude.Proofs.TemplateGroups
import Transclude.Proofs.WrittenIncludes
import Transclude.Proofs.RereadImages
import Transclude.Proofs.LineFates
import Transclude.Proofs.AlteredTexts
import Transclude.Proofs.FencedImages
