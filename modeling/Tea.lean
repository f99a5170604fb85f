import Tea.Contract.Settlement
import Tea.Contract.AgentBracket
import Tea.Contract.TurnBracket
import Tea.Contract.MessageBracket
import Tea.Contract.CompactionAtomicity
import Tea.Contract.Abandonment
import Tea.Contract.Draining
import Tea.Contract.Conservation
import Tea.Contract.AgentEndReport
import Tea.Contract.AutomaticCompaction
import Tea.Contract.RequestBudget
import Tea.Clients.Alone
import Tea.Contract.AbortRaces
import Tea.Contract.RejectedStart
import Tea.Contract.ToolResults
import Tea.Contract.SchedulerAgreement
import Tea.Contract.InputReads
import Tea.Contract.OutcomeReaping
import Tea.Contract.PromptConservation
import Tea.Contract.SessionRoundTrip
import Tea.Contract.ConcurrentSaves
import Tea.Contract.ChunkInvariance
import Tea.Contract.SlotBound
import Tea.Contract.SseAssembly
import Tea.Contract.CallIdReuse
import Tea.Contract.ExactCost
import Tea.Contract.ExactNumber
import Tea.Contract.EditOnce
import Tea.Contract.CancelWakes
import Tea.Contract.DrawnScreen
import Tea.Contract.ProjectionBound
import Tea.Contract.RepeatedErrors
import Tea.Contract.StableProjection
import Tea.Contract.CompactionSplit
import Tea.Contract.SummaryComplete
import Tea.Contract.NdjsonGrammar
import Tea.Contract.RetryableResponse
import Tea.Contract.CircuitBreaker
import Tea.Contract.ContextEstimate
import Tea.Contract.GlobMeaning
import Tea.Contract.ReadPages
import Tea.Contract.StreamGrammar
import Tea.Contract.TraceEpisodes
import Tea.Contract.ComposerSafety
import Tea.Contract.VisualMovement
import Tea.Contract.LayoutPartition
import Tea.Contract.FramePlan
import Tea.Contract.BundleIdentity
import Tea.Contract.BundleImports
import Tea.Contract.LoaderDiscipline
import Tea.Contract.ManifestFidelity
import Tea.Contract.HostCallProtocol
import Tea.Contract.KeyRoundTrip
import Tea.Contract.EscapeTimer
import Tea.Contract.WordWrap
import Tea.Contract.TableLayout
import Tea.Contract.MiddleTruncation
import Tea.Contract.CompletionOrder
import Tea.Contract.SessionTimestamps
import Tea.Contract.RetryBound
import Tea.Contract.ExtensionComposition
import Tea.Contract.TranscriptHistory
import Tea.Contract.SwitchAtomicity
import Tea.Contract.TraceFormats
import Tea.Contract.PickerSelection
import Tea.Contract.ExtensionListing
import Tea.Contract.Confinement
import Tea.Contract.GrepPattern
import Tea.Contract.PromptHistory
