/-
  Tea/Lifecycle/Script.lean
  =========================
  **Hosts that follow a script**, for runs that can be computed.

  The items of the response streams come in the order of the script; every other
  reply is fixed by the query.
-/
import Tea.Lifecycle.Runs

namespace Tea.Lifecycle

open Tea.Async Tea.Core Tea.Run

/-- What a model stream yields: an event, its end, or an error. -/
abbrev Item := Except SchedulerError (Option ModelStreamEvent)

structure Script where
  observe : AgentEventKind → Except CoreError Unit := fun _ => .ok ()
  prepare : Except HookError AgentLoopTurnUpdate := .ok {}
  stop : Except HookError Bool := .ok false
  execute : ToolCall → Option (Except ToolError AgentToolResult) := fun _ => none
  replacement : Except CompactionError CompactionResult := .ok { messages := [] }
  /-- What the clients do while a query is pending. -/
  clients : Query → List ClientOp := fun _ => []

def Script.reply (S : Script) (items : List Item) : (query : Query) →
    Option (Reply query × List Item)
  | .observe _ event => some (S.observe event.kind, items)
  | .transformContext context => some (.ok context, items)
  | .convertToLlm _ => some (.ok "", items)
  | .prepareNextTurn _ => some (S.prepare, items)
  | .shouldStopAfterTurn _ => some (S.stop, items)
  | .beforeToolCall .. => some (.ok .allow, items)
  | .afterToolCall .. => some (.ok {}, items)
  | .stream _ => some (.ok (), items)
  | .nextEvent =>
      match items with
      | [] => none
      | item :: rest => some (item, rest)
  | .compactAutomatic .. => some (S.replacement, items)
  | .compact _ => some (S.replacement, items)
  | .executeTool _ => some ((), items)
  | .pollTool call => some (S.execute call, items)
  | _ => none

def Script.scheduler (S : Script) : Scheduler (List Item) World Query Reply where
  others _ query := (S.clients query).map ClientOp.apply
  answer := S.reply

/-- What the clients of the script do. -/
def Script.acts (S : Script) (_ : Now) (op : ClientOp) : Prop := ∃ query, op ∈ S.clients query

/-- What the script replies, whatever has happened. -/
def Script.answers (S : Script) (_ : Now) (query : Query) (reply : Reply query) : Prop :=
  ∃ items rest, S.reply items query = some (reply, rest)

/-- Poll a future under the script. -/
def Script.play {α : Type} (S : Script) (items : List Item) (p : Drive α) (m : Now) :
    Outcome Query CoreError α × Now := p.exec S.scheduler items m

theorem Script.run {α : Type} (S : Script) (items : List Item) (p : Drive α) (m : Now) :
    Run (Host.of S.acts S.answers) p m (S.play items p m).1 (S.play items p m).2 := by
  refine Future.exec_run ⟨fun items query f hf m => ?_, fun items query reply rest hreply m => ?_⟩
    p items m
  · obtain ⟨op, hop, rfl⟩ := List.mem_map.mp hf
    exact ⟨op, ⟨query, hop⟩, rfl⟩
  · exact ⟨items, rest, hreply⟩

theorem Script.answers_observe {S : Script} {m : Now} {observer : ObserverId}
    {event : AgentEvent} {reply : Except CoreError Unit}
    (ha : S.answers m (.observe observer event) reply) : reply = S.observe event.kind := by
  obtain ⟨items, rest, hreply⟩ := ha
  simp only [Script.reply, Option.some.injEq, Prod.mk.injEq] at hreply
  exact hreply.1.symm

theorem Script.answers_prepare {S : Script} {m : Now} {context : ContextEnvelope}
    {reply : Except HookError AgentLoopTurnUpdate}
    (ha : S.answers m (.prepareNextTurn context) reply) : reply = S.prepare := by
  obtain ⟨items, rest, hreply⟩ := ha
  simp only [Script.reply, Option.some.injEq, Prod.mk.injEq] at hreply
  exact hreply.1.symm

theorem Script.answers_stop {S : Script} {m : Now} {context : ContextEnvelope}
    {reply : Except HookError Bool}
    (ha : S.answers m (.shouldStopAfterTurn context) reply) : reply = S.stop := by
  obtain ⟨items, rest, hreply⟩ := ha
  simp only [Script.reply, Option.some.injEq, Prod.mk.injEq] at hreply
  exact hreply.1.symm

/-- A property of every past that has led to the past. -/
def always (admitted : List (Step World Query Reply) → Bool) : List (Step World Query Reply) → Bool
  | [] => admitted []
  | step :: past => admitted (step :: past) && always admitted past

theorem always_suffix {admitted : List (Step World Query Reply) → Bool}
    {past past' : List (Step World Query Reply)} (hall : always admitted past = true)
    (hsuffix : past' <:+ past) : admitted past' = true := by
  induction past with
  | nil => rw [List.suffix_nil.mp hsuffix]; exact hall
  | cons step past ih =>
    obtain ⟨hstep, hpast⟩ := Bool.and_eq_true_iff.mp hall
    rcases List.suffix_cons_iff.mp hsuffix with rfl | hsuffix
    · exact hstep
    · exact ih hpast hsuffix

/-! ### The runs of a script -/

/-- A host that accepts everything. -/
def accepting : Script := {}

/-- A host that stops the run after its first turn. -/
def stopping : Script where
  stop := .ok true

/-- An idle agent with one observer. -/
def observed : World where
  observers := [1]

/-- An agent that compacts its transcript before each further request. -/
def automatic : Agent where
  capabilities := {
    hasCompactor := true
    automaticCompaction := { enabled := true, maxCompactionsPerRun := 1 } }

/-- The agent after a prompt. -/
def prompted (a : Agent) (w₀ : World) : World := (startPrompt a "hi" w₀).2

/-- The handle of the prompt. -/
def promptHandle (a : Agent) (w₀ : World) : RunHandle where
  initialMessages := (pushContents ["hi"] w₀.agent).1
  messageStartIndex := w₀.agent.messages.length
  configuration := a.configuration
  agent := a.capabilities

theorem prompted_eq (a : Agent) {w₀ : World} (hidle : w₀.agent.phase = .idle) :
    startRun a ["hi"] false w₀ = (.ok (promptHandle a w₀), prompted a w₀) := by
  simp only [prompted, startPrompt, startRun, nextRun, hidle]
  rfl

/-- Drive the run of the prompt under the script. -/
def Script.prompt (S : Script) (a : Agent) (w₀ : World) (items : List Item) (fuel : Nat) :
    Outcome Query CoreError Unit × Now :=
  S.play items (drive (promptHandle a w₀) fuel) (Now.start (prompted a w₀))

theorem Script.prompt_run (S : Script) (a : Agent) (w₀ : World) (items : List Item)
    (fuel : Nat) :
    Run (Host.of S.acts S.answers) (drive (promptHandle a w₀) fuel) (Now.start (prompted a w₀))
      (S.prompt a w₀ items fuel).1 (S.prompt a w₀ items fuel).2 :=
  S.run items _ _

/-- A response of one text. -/
def textReply : List Item := [.ok (some (.textDelta "a")), .ok (some (.end_ .stop)), .ok none]

/-! ### Batches of tool calls -/

/-- A handle whose only tool takes any arguments. -/
def lookupHandle (executionMode : ToolExecutionMode) : RunHandle where
  configuration := {
    tools := [{
      definition := { name := "lookup", description := "", schema := ⟨"{}"⟩, executionMode }
      validate := fun _ => .ok () }] }

def lookupCall (id : ToolCallId) : ToolCall where
  id := id
  name := "lookup"
  arguments := ⟨"{}"⟩

def firstCall : ToolCall := lookupCall ⟨"a", by decide⟩

def secondCall : ToolCall := lookupCall ⟨"b", by decide⟩

/-- An agent whose run is being driven. -/
def ongoing : World where
  agent := { phase := .running ⟨0⟩ }
  activeRun := some ⟨0⟩
  run := { id := ⟨0⟩, phase := .running }

/-- Execute the calls under the script. -/
def Script.batch (S : Script) (h : RunHandle) (calls : List ToolCall) (fuel : Nat) :
    Outcome Query CoreError ToolBatchOutcome × Now :=
  S.play [] (executeToolCalls h fuel calls) (Now.start ongoing)

theorem Script.batch_run (S : Script) (h : RunHandle) (calls : List ToolCall) (fuel : Nat) :
    Run (Host.of S.acts S.answers) (executeToolCalls h fuel calls) (Now.start ongoing)
      (S.batch h calls fuel).1 (S.batch h calls fuel).2 :=
  S.run [] _ _

end Tea.Lifecycle
