/-
  Tea/Tui/Transcript.lean
  =======================
  **The visible transcript** (`AppState`): entries made of the events of a run or of a restored
  conversation, with the lines that a stream or a tool still writes to.
-/
import Tea.Core.Event
import Tea.Core.Text
import Tea.Session.Store

namespace Tea.Tui

open Tea.Core Tea.Session

/-! ### Entries -/

inductive ToolState where
  | started
  | progress
  | completed
  | failed
deriving DecidableEq

/-- The lifecycle of a tool call, kept apart from its rendered text. -/
structure ToolProjection where
  callId : ToolCallId
  sequence : Option UInt64
  transcriptIndex : Nat
  toolName : String
  arguments : String
  latestProgress : Option String
  settledResult : Option String
  state : ToolState
deriving DecidableEq

inductive NoticeSeverity where
  | info
  | warning
deriving DecidableEq

inductive TranscriptEntry where
  | welcome (text : String)
  | user (text : String)
  | assistant (text : String) (streaming : Bool)
  | tool (projection : ToolProjection)
  | notice (text : String) (severity : NoticeSeverity)
  | error (text : String)
deriving DecidableEq

/-! ### Surfaces -/

inductive UiSurface where
  | none
  | help
  | modelPicker
  | customModel
  | sessionPicker
  | cost
  | toolDetail
deriving DecidableEq

inductive UiStatus where
  | idle
  | active
  | notice (text : String)
deriving DecidableEq

inductive Picker where
  | model (filter : String) (selected : Nat)
  | customModel (provider input : String)
  | session (filter : String) (selected : Nat) (entries : List SessionSummary)
deriving DecidableEq

structure SlashCompletion where
  typed : String
  selected : Nat
  candidates : List String
deriving DecidableEq

structure ContextEstimate where
  tokens : Option Nat
  messageCount : Nat
deriving DecidableEq

/-- A non-zero number of tokens (`NonZeroU64`). -/
structure ContextWindow where
  tokens : UInt64
  nonzero : tokens ≠ 0
deriving DecidableEq

/-- What the host shows. -/
structure AppState where
  transcript : List TranscriptEntry := []
  transcriptSequences : List (Option UInt64) := []
  status : UiStatus := .idle
  viewportOffset : Nat := 0
  followOutput : Bool := true
  lastSnapshot : Option AgentState := none
  selectedModel : Option ModelDescriptor := none
  automaticCompactionEnabled : Bool := false
  selectedContextWindow : Option ContextWindow := none
  picker : Option Picker := none
  streamingLine : Option Nat := none
  activeToolLines : ToolCallId → Option Nat := fun _ => none
  contextEstimate : Option ContextEstimate := none
  surface : UiSurface := .none
  surfaceLines : List String := []
  surfaceOffset : Nat := 0
  slashCompletion : Option SlashCompletion := none
  reportedUsage : Usage := {}

namespace AppState

variable (s : AppState)

def setSurface (surface : UiSurface) : AppState :=
  { s with surface := surface, surfaceLines := [], surfaceOffset := 0 }

def closeSurface : AppState :=
  { s with
    surface := .none, surfaceLines := [], surfaceOffset := 0
    picker := none, slashCompletion := none }

def notice (text : String) : AppState := { s with status := .notice text }

def setSnapshot (snapshot : AgentState) : AppState :=
  { s with selectedModel := snapshot.model, lastSnapshot := some snapshot }

/-! ### Lines of the transcript -/

def pushEntry (sequence : Option UInt64) (entry : TranscriptEntry) : AppState :=
  { s with
    transcript := s.transcript ++ [entry]
    transcriptSequences := s.transcriptSequences ++ [sequence] }

/-- `self.transcript_sequences[index] = sequence`, which panics behind the end. -/
def writeSequence (index : Nat) (sequence : Option UInt64) : Option AppState :=
  if index < s.transcriptSequences.length then
    some { s with transcriptSequences := s.transcriptSequences.set index sequence }
  else none

def writeEntry (index : Nat) (entry : TranscriptEntry) : AppState :=
  { s with transcript := s.transcript.set index entry }

def activate (id : ToolCallId) (index : Option Nat) : AppState :=
  { s with
    activeToolLines := fun other => if other = id then index else s.activeToolLines other }

/-- The new line of a tool. -/
def pushTool (projection : ToolProjection) : AppState :=
  (s.pushEntry projection.sequence (.tool projection)).activate projection.callId
    (some s.transcript.length)

def updateToolLine (id : ToolCallId) (sequence : Option UInt64) (toolName : String)
    (state : ToolState) (progress result : Option String) : Option AppState :=
  let added := s.pushTool {
    callId := id, sequence, transcriptIndex := s.transcript.length, toolName, arguments := ""
    latestProgress := progress, settledResult := result, state }
  match s.activeToolLines id with
  | none => some added
  | some index =>
    match s.transcript[index]? with
    | some (.tool projection) =>
      (s.writeEntry index (.tool { projection with
        sequence, toolName, state
        latestProgress := progress <|> projection.latestProgress
        settledResult := result <|> projection.settledResult })).writeSequence index sequence
    | _ => some added

def welcomeLine (version : String) : AppState :=
  s.pushEntry none (.welcome ("𝒕ea v" ++ version ++ " · Run /help for commands"))

def clearTranscript : AppState :=
  { s with
    transcript := [], transcriptSequences := [], streamingLine := none
    activeToolLines := fun _ => none
    reportedUsage := {}, viewportOffset := 0, followOutput := true }

/-- The row of a restored message. -/
def restoreMessage : AgentMessage → AppState
  | .user _ content => s.pushEntry none (.user content)
  | .assistant _ content _ _ errorMessage =>
    match errorMessage with
    | some error => s.pushEntry none (.error error)
    | none => s.pushEntry none (.assistant content false)
  | .toolResult _ toolCallId toolName content _ _ _ _ isError _ =>
    s.pushEntry none (.tool {
      callId := toolCallId, sequence := none, transcriptIndex := s.transcript.length, toolName
      arguments := "", latestProgress := none, settledResult := some content
      state := if isError then .failed else .completed })

/-- `restore_messages` -/
def restoreMessages (messages : List AgentMessage) : AppState :=
  messages.foldl restoreMessage s.clearTranscript

/-! ### Events -/

def updateMessage (sequence : Option UInt64) (delta : String) : AppState :=
  match s.streamingLine with
  | some index =>
    match s.transcript[index]? with
    | some (.assistant text streaming) => s.writeEntry index (.assistant (text ++ delta) streaming)
    | _ => s
  | none =>
    { s.pushEntry sequence (.assistant delta true) with streamingLine := some s.transcript.length }

/-- The line that was written to, or a new one. -/
def endMessageLine (sequence : Option UInt64) (content : String) (errorMessage : Option String) :
    Option AppState :=
  match s.streamingLine, errorMessage with
  | some index, some error =>
    match s.transcript[index]? with
    | some _ => (s.writeEntry index (.error error)).writeSequence index sequence
    | none => some s
  | some index, none =>
    match s.transcript[index]? with
    | some (.assistant _ _) =>
      (s.writeEntry index (.assistant content false)).writeSequence index sequence
    | _ => some s
  | none, some error => some (s.pushEntry sequence (.error error))
  | none, none => some (s.pushEntry sequence (.assistant content false))

def stopStreaming : AppState := { s with streamingLine := none }

def endMessage (sequence : Option UInt64) (content : String) (errorMessage : Option String) :
    Option AppState :=
  (s.endMessageLine sequence content errorMessage).map stopStreaming

def compactionNotice : CompactionOutcome → String
  | .succeeded retained => "compaction complete: " ++ toString retained ++ " messages"
  | .failed message => "compaction failed: " ++ message
  | .cancelled => "compaction cancelled"

def automaticCompactionNotice : AutomaticCompactionOutcome → String
  | .succeeded _ => "automatic compaction complete"
  | .failed message => "automatic compaction failed: " ++ message
  | .cancelled => "automatic compaction cancelled"
  | .limitReached => "automatic compaction limit reached"
  | .stillAboveThreshold =>
    "automatic compaction complete; retained context remains above threshold"
  | .unavailable => "automatic compaction unavailable"

def skipNotice : ProviderRequestSkipReason → String
  | .automaticCompaction => "provider request deferred for automatic compaction"
  | .toolCircuitBreaker => "provider request skipped after terminal tool failure"

/-- `{disposition:?}` -/
def dispositionName : ToolFailureDisposition → String
  | .cancelled => "Cancelled"
  | .invalidArguments => "InvalidArguments"
  | .recoverable => "Recoverable"
  | .retryable => "Retryable"
  | .fatal => "Fatal"

def endTurn : StopReason → AppState
  | .error => s.notice "turn failed; prompt remains available to retry"
  | .aborted => s.notice "turn aborted"
  | .cancelled => s.notice "turn cancelled"
  | _ => s

/-- `apply_event`, or nothing where it panics. -/
def applyEvent (event : AgentEvent) : Option AppState :=
  let sequence := some event.sequence
  match event.kind with
  | .agentStart => some { s with status := .active }
  | .messageStart (.user _ content) => some (s.pushEntry sequence (.user content))
  | .messageStart _ => some s
  | .messageUpdate (.assistant ..) (some delta) => some (s.updateMessage sequence delta)
  | .messageUpdate _ _ => some s
  | .messageEnd (.assistant _ content _ _ errorMessage) =>
    s.endMessage sequence content errorMessage
  | .messageEnd _ => some s
  | .toolExecutionStart id toolName arguments =>
    some (s.pushTool {
      callId := id, sequence, transcriptIndex := s.transcript.length, toolName
      arguments := arguments.text, latestProgress := none, settledResult := none
      state := .started })
  | .toolExecutionUpdate id toolName update =>
    s.updateToolLine id sequence toolName .progress (some update.content) none
  | .toolExecutionEnd id toolName result =>
    (s.updateToolLine id sequence toolName (if result.isError then .failed else .completed) none
      (some result.content)).map fun s => s.activate id none
  | .modelTurnUsage accounting =>
    some { s with reportedUsage := s.reportedUsage.merge accounting.usage }
  | .compactionStart _ => some { s with status := .active }
  | .compactionResult retained _ =>
    some (s.notice ("compaction retained " ++ toString retained ++ " messages"))
  | .compactionEnd outcome => some (s.notice (compactionNotice outcome))
  | .automaticCompactionStart .. => some { s with status := .active }
  | .automaticCompactionEnd _ _ outcome => some (s.notice (automaticCompactionNotice outcome))
  | .contextEstimate tokens _ messageCount _ _ =>
    some { s with contextEstimate := some ⟨tokens, messageCount⟩ }
  | .providerRequestSkipped reason => some (s.notice (skipNotice reason))
  | .toolFailureObserved _ disposition _ consecutiveCount terminal _ =>
    some (s.notice ("tool failure " ++ dispositionName disposition ++ " (consecutive " ++
      toString consecutiveCount ++ ")" ++ if terminal then "; ending run" else ""))
  | .turnEnd _ reason => some (s.endTurn reason)
  | .agentEnd _ => some (if s.status = .active then { s with status := .idle } else s)
  | .turnStart _ => some s

end AppState

end Tea.Tui
