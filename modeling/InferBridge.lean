import InferBridge.ArtifactExclusion
import InferBridge.Artifacts
import InferBridge.Catalog
import InferBridge.CatalogPersistence
import InferBridge.CatalogUpdates
import InferBridge.ChatCompletions
import InferBridge.ChatFormat
import InferBridge.ConsoleProgress
import InferBridge.ConsoleSafety
import InferBridge.ContextPreflight
import InferBridge.ConversationHistory
import InferBridge.ConversionVisibility
import InferBridge.DesktopNetwork
import InferBridge.DeviceNames
import InferBridge.DiagnosticsPrivacy
import InferBridge.EmbeddingLifecycle
import InferBridge.EngineHandoff
import InferBridge.EngineInvariant
import InferBridge.EngineLeases
import InferBridge.EngineLifecycle
import InferBridge.EngineSegments
import InferBridge.EventCursor
import InferBridge.ImageContexts
import InferBridge.Lib.Accepted
import InferBridge.Lib.Binary64
import InferBridge.Lib.Bisection
import InferBridge.Lib.CrashLogic
import InferBridge.Lib.Dict
import InferBridge.Lib.Holes
import InferBridge.Lib.Occurrence
import InferBridge.Lib.Pattern
import InferBridge.Lib.Returns
import InferBridge.Lib.Text
import InferBridge.Lib.Transition
import InferBridge.LibraryMutations
import InferBridge.LoadSafety
import InferBridge.LoadTargets
import InferBridge.ModelLibrary
import InferBridge.ModelPreparation
import InferBridge.NativeBuilds
import InferBridge.NestedCalls
import InferBridge.NpuSafety
import InferBridge.OutputTransaction
import InferBridge.OutputTransactionSafety
import InferBridge.PreparationMoves
import InferBridge.ProgressProtocol
import InferBridge.PromptBudget
import InferBridge.PromptWindow
import InferBridge.Redaction
import InferBridge.ResponseTexts
import InferBridge.Responses
import InferBridge.StopSequences
import InferBridge.StorageExclusion
import InferBridge.StructuredProgress
import InferBridge.Tools
import InferBridge.DiagnosticsPayloads
import InferBridge.NpuShape
import InferBridge.CatalogWrites
import InferBridge.TrayController
import InferBridge.CacheExclusion
import InferBridge.Lib.Markup
import InferBridge.Markdown
import InferBridge.LoadDevices
import InferBridge.RateLimit
import InferBridge.Lib.Progress
import InferBridge.StreamHandle
import InferBridge.Lib.Chunks
import InferBridge.ConsoleChunks
import InferBridge.ProgressEvents
import InferBridge.ToolHistory
import InferBridge.DeviceSwitch
import InferBridge.EngineMoves
import InferBridge.ContextChange
import InferBridge.ContextSegments
import InferBridge.ContextAtomicity
import InferBridge.DeviceGrammar
import InferBridge.ContextBounds
import InferBridge.OnboardingState
import InferBridge.Lib.Comparison
import InferBridge.ReleaseVersions
import InferBridge.ConversationExport
import InferBridge.ChatSession
import InferBridge.DefinitionExport
import InferBridge.LibraryManifest
import InferBridge.ManifestNormal
import InferBridge.ManifestCache
import InferBridge.ManifestRejection
import InferBridge.OfficialMerge
import InferBridge.Lib.Placement
import InferBridge.UiOrdering
import InferBridge.Lib.Base64
import InferBridge.ImagePreflight
import InferBridge.BenchmarkHistory
import InferBridge.BenchmarkStream
import InferBridge.ContextAgreement
import InferBridge.Lib.Lines
import InferBridge.ContinueMerge
import InferBridge.ContinueChecks
import InferBridge.ContinuePreservation
import InferBridge.ContinueFile
import InferBridge.ContinueUndo
import InferBridge.ExactContext
import InferBridge.OnboardingJob
import InferBridge.OnboardingRuns
import InferBridge.HubPreflight
import InferBridge.HubGate
import InferBridge.UpdateChecker
import InferBridge.UpdateAttempts
import InferBridge.UpdateRuns
import InferBridge.ChatStream
import InferBridge.ChatDelivery
import InferBridge.Lib.Interaction
import InferBridge.Asgi
import InferBridge.BodyLimit
import InferBridge.RequestBoundary
import InferBridge.BoundarySafety
import InferBridge.MarkdownDocument
import InferBridge.NativeMarkdown
import InferBridge.PreparationWatchdog
import InferBridge.WatchdogSafety
import InferBridge.ConversionHealth
