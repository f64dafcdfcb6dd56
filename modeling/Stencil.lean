import Stencil.CommandLine.Run
import Stencil.Dependencies
import Stencil.Engine.Run
import Stencil.Engine.Settings
import Stencil.Files.Folder
import Stencil.Files.Tree
import Stencil.Main
import Stencil.Report
import Stencil.Proofs.TemplateScan
import Stencil.Proofs.TemplateGrammar
import Stencil.Proofs.EvaluatorRecord
import Stencil.Proofs.RenderRules
import Stencil.Proofs.RenderStack
import Stencil.Proofs.RenderLimit
import Stencil.Proofs.RenderResult
import Stencil.Proofs.RenderEnding
import Stencil.Proofs.CallHistory
import Stencil.Proofs.TemplateSources
import Stencil.Expr.Phrase
import Stencil.Proofs.PhraseReading
import Stencil.Proofs.ExpressionFaults
import Stencil.Proofs.SectionCapture
import Stencil.Proofs.InheritanceChain
import Stencil.Proofs.SectionOrder
import Stencil.Proofs.DependencyReach
import Stencil.Proofs.SourceCoverage
import Stencil.Proofs.SlotText
import Stencil.Proofs.DefaultSlotText
import Stencil.Proofs.DependencyCover
import Stencil.Proofs.SafeTexts
import Stencil.Proofs.ComponentContainment
import Stencil.Proofs.PrintedData
import Stencil.Proofs.PlaceholderMarkup
import Stencil.Proofs.NodeSequence
import Stencil.Proofs.CallerData
import Stencil.Proofs.DoubledSigns
import Stencil.Proofs.LiteralArguments
import Stencil.Proofs.ComponentLookup
import Stencil.Proofs.ExpressionNesting
import Stencil.Proofs.LiteralObjects
import Stencil.Proofs.BlockAccount
import Stencil.Proofs.InertJson
import Stencil.Proofs.CountingLoop
import Stencil.Proofs.LoopHeader
import Stencil.Proofs.EscapedOutput
import Stencil.Proofs.ReportedSpans
import Stencil.Proofs.BareKeywords
import Stencil.Proofs.InterpolatedExpression
import Stencil.Proofs.TopLevelParts
import Stencil.Proofs.SlotVariables
import Stencil.Proofs.VisibleBindings
import Stencil.Proofs.RenderByName
import Stencil.Proofs.TemplateNames
import Stencil.Proofs.TemplatePaths
import Stencil.Proofs.ReferenceDispatch
import Stencil.Proofs.ArgumentText
import Stencil.Proofs.WholeNumbers
import Stencil.Proofs.DottedPaths
import Stencil.Proofs.TemplateDiscovery
import Stencil.Proofs.ReportPlaces
