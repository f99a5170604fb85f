/-
  Tea/Contract/TraceEpisodes.lean
  ===============================
  **Trace episodes.**  The records of a run are one episode, a function of the events of
  that run alone; only the input of a turn whose first user message is empty lacks the
  line breaks behind it (`recordsEpisodes_iff`).
-/
import Tea.Trace.Observer
import Mathlib.Data.List.Infix
import Mathlib.Data.List.Nodup

namespace Tea.Contract

open Tea.Core Tea.Trace

/-! ### The event grammar -/

/-- The starts and ends of the agent and of its turns. -/
def isBoundary : AgentEventKind → Bool
  | .agentStart | .turnStart _ | .turnEnd .. | .agentEnd _ => true
  | _ => false

/-- The call whose execution starts. -/
def startedId : AgentEventKind → Option ToolCallId
  | .toolExecutionStart toolCallId .. => some toolCallId
  | _ => none

/-- The call whose execution ends. -/
def endedId : AgentEventKind → Option ToolCallId
  | .toolExecutionEnd toolCallId .. => some toolCallId
  | _ => none

/-- The message of a message event. -/
def messageOf : AgentEventKind → Option AgentMessage
  | .messageStart message | .messageUpdate message _ | .messageEnd message => some message
  | _ => none

/-- The identifier and the content of a user message. -/
def userContent : AgentMessage → Option (MessageId × String)
  | .user id content => some (id, content)
  | _ => none

/-- The user message of a message event. -/
def userMessage (kind : AgentEventKind) : Option (MessageId × String) :=
  (messageOf kind).bind userContent

/-- An event between turns. -/
def IsQuiet (kind : AgentEventKind) : Prop :=
  isBoundary kind = false ∧ startedId kind = none ∧ endedId kind = none

/-- A turn and the events up to the next one.  The execution of a tool ends once, behind its
    start; the events of one user message stand together. -/
structure TurnEvents where
  id : TurnId
  body : List AgentEventKind
  reason : StopReason
  after : List AgentEventKind
  inner : ∀ kind ∈ body, isBoundary kind = false
  ended : ∀ {before toolCallId toolName result rest},
    body = before ++ .toolExecutionEnd toolCallId toolName result :: rest →
      toolCallId ∈ before.filterMap startedId ∧ toolCallId ∉ before.filterMap endedId
  together : ∀ {before message rest}, body.filterMap userMessage = before ++ message :: rest →
    message.1 ∈ before.map Prod.fst → before.getLast?.map Prod.fst = some message.1
  quiet : ∀ kind ∈ after, IsQuiet kind

/-- The events of a run: balanced turns between one start and one end of the agent, and no
    tool-call identifier twice. -/
structure RunEvents where
  before : List AgentEventKind
  turns : List TurnEvents
  messages : List AgentMessage
  quiet : ∀ kind ∈ before, IsQuiet kind
  distinct : ((turns.flatMap TurnEvents.body).filterMap startedId).Nodup

def TurnEvents.kinds (t : TurnEvents) : List AgentEventKind :=
  .turnStart t.id :: t.body ++ .turnEnd t.id t.reason :: t.after

def RunEvents.kinds (r : RunEvents) : List AgentEventKind :=
  .agentStart :: r.before ++ r.turns.flatMap TurnEvents.kinds ++ [.agentEnd r.messages]

/-! ### Episodes -/

/-- The name and the arguments with which a call started. -/
def startOf (body : List AgentEventKind) (id : ToolCallId) : Option (String × SerializedJson) :=
  body.findSome? fun
    | .toolExecutionStart toolCallId toolName arguments =>
        if toolCallId = id then some (toolName, arguments) else none
    | _ => none

/-- The record of a call before it has ended. -/
def startedTool (index : UInt32) (id : ToolCallId) (start : String × SerializedJson) : Tool :=
  { turnIndex := index, callId := id.text, name := start.1, input := start.2.text }

/-- The record of the end of an execution, from the matching start. -/
def toolRecord (index : UInt32) (body : List AgentEventKind) : AgentEventKind → Option TraceEvent
  | .toolExecutionEnd toolCallId _ result =>
      (startOf body toolCallId).map fun start =>
        .tool ((startedTool index toolCallId start).settle result)
  | _ => none

/-- A message that has not been seen is added. -/
def addMessage (found : List (MessageId × String)) (message : MessageId × String) :
    List (MessageId × String) :=
  if message.1 ∈ found.map Prod.fst then found else found ++ [message]

/-- The user messages of a turn in the order in which they come. -/
def userMessages (body : List AgentEventKind) : List (MessageId × String) :=
  (body.filterMap userMessage).foldl addMessage []

/-- The text and the error of an assistant message. -/
def assistantContent : AgentMessage → Option (String × Option String)
  | .assistant _ content _ _ errorMessage => some (content, errorMessage)
  | _ => none

/-- The text of an assistant message. -/
def assistantText (kind : AgentEventKind) : Option String :=
  ((messageOf kind).bind assistantContent).map Prod.fst

/-- The last text of the assistant. -/
def lastText (body : List AgentEventKind) : Option String :=
  (body.filterMap assistantText).getLast?

/-- What an event says about the error of the run. -/
def errorOf : AgentEventKind → Option (Option String)
  | .automaticCompactionEnd _ _ (.failed message) => some (some message)
  | .toolFailureObserved _ _ _ _ true message => some (some message)
  | kind => ((messageOf kind).bind assistantContent).map Prod.snd

/-- The error of which the last of the events speaks. -/
def errorAfter (error : Option String) (kinds : List AgentEventKind) : Option String :=
  kinds.foldl (fun error kind => (errorOf kind).getD error) error

namespace TurnEvents

def index (t : TurnEvents) : UInt32 := traceTurnIndex t.id.val

def contents (t : TurnEvents) : List String := (userMessages t.body).map Prod.snd

/-- The user messages of a turn, joined by line breaks. -/
def joinedInput (t : TurnEvents) : String := "\n".intercalate t.contents

/-- The records of a turn with some input. -/
def records (t : TurnEvents) (input : String) : List TraceEvent :=
  t.body.filterMap (toolRecord t.index t.body) ++
    [.turn { index := t.index, input, output := lastText t.body,
             stopReason := some (stopReasonName t.reason) }]

end TurnEvents

/-- The episode of a run. -/
def RunEvents.episode (episodeId : String) (input : TurnEvents → String) (r : RunEvents) :
    List TraceEvent :=
  .episodeHeader { episodeId } :: r.turns.flatMap (fun t => t.records (input t)) ++
    [.episodeEnd { reason := (r.turns.getLast?.map fun t => endReason t.reason).getD .completed,
                   error := errorAfter none r.kinds, finishedAtMs := none }]

/-- Whatever the sink is, it receives one episode for each run. -/
def RecordsEpisodes (episodeId : String) (runs : List RunEvents) : Prop :=
  ∀ {S : Type} [TraceSink S] (sink : S),
    ((TraceState.new sink).recordAll episodeId (runs.flatMap RunEvents.kinds)).sink =
      (TraceState.new sink).sink.appendAll
        (runs.flatMap (RunEvents.episode episodeId TurnEvents.joinedInput))

/-! ### The input of a turn -/

/-- The observer's input: nothing is put behind an input that is still empty. -/
def skipJoined (contents : List String) : String :=
  contents.foldl (fun input content => input ++ (if input = "" then "" else "\n") ++ content) ""

theorem skipJoined_snoc (contents : List String) (content : String) :
    skipJoined (contents ++ [content]) =
      skipJoined contents ++ (if skipJoined contents = "" then "" else "\n") ++ content := by
  unfold skipJoined
  rw [List.foldl_append]
  rfl

theorem append_ne_empty {s : String} (h : s ≠ "") (t : String) : s ++ t ≠ "" := by
  intro heq
  exact h (String.append_eq_empty_iff.mp heq).1

/-- Behind an input that is not empty, the observer joins by line breaks. -/
theorem skipJoined_cons {content : String} (h : content ≠ "") (contents : List String) :
    skipJoined (content :: contents) = "\n".intercalate (content :: contents) ∧
      skipJoined (content :: contents) ≠ "" := by
  induction contents using List.reverseRecOn with
  | nil => simp [skipJoined, h]
  | append_singleton contents last ih =>
    rw [← List.cons_append, skipJoined_snoc, if_neg ih.2, ih.1,
      String.intercalate_append_of_ne_nil (List.cons_ne_nil _ _) (List.cons_ne_nil _ _),
      String.intercalate_singleton]
    refine ⟨rfl, append_ne_empty (append_ne_empty ?_ _) _⟩
    rw [← ih.1]
    exact ih.2

/-- An empty first message leaves nothing of itself in the input. -/
theorem skipJoined_empty (contents : List String) :
    skipJoined ("" :: contents) = skipJoined contents := rfl

theorem skipJoined_length_le (contents : List String) :
    (skipJoined contents).length ≤ ("\n".intercalate contents).length := by
  induction contents with
  | nil => simp [skipJoined]
  | cons content contents ih =>
    by_cases h : content = ""
    · subst h
      rw [skipJoined_empty]
      cases contents with
      | nil => exact ih
      | cons second contents =>
        rw [String.intercalate_cons_cons, String.length_append, String.length_append]
        omega
    · rw [(skipJoined_cons h contents).1]

/-- **The observer joins by line breaks exactly if the first of several messages is not
    empty.** -/
theorem skipJoined_eq_iff (contents : List String) :
    skipJoined contents = "\n".intercalate contents ↔
      (contents.head? = some "" → contents.length ≤ 1) := by
  cases contents with
  | nil => simp [skipJoined]
  | cons content contents =>
    by_cases h : content = ""
    · subst h
      cases contents with
      | nil => simp [skipJoined]
      | cons second contents =>
        have hless := skipJoined_length_le (second :: contents)
        have hlength : ("\n".intercalate ("" :: second :: contents)).length =
            1 + ("\n".intercalate (second :: contents)).length := by
          have hbreak : "\n".length = 1 := rfl
          rw [String.intercalate_cons_cons, String.length_append, String.length_append, hbreak,
            String.length_empty]
        constructor
        · intro heq
          rw [skipJoined_empty] at heq
          rw [heq] at hless
          omega
        · intro hshort
          simpa using hshort rfl
    · simp [skipJoined_cons h contents, h]

/-! ### User messages -/

/-- Every message that comes is found. -/
theorem mem_addMessages {messages : List (MessageId × String)} {id : MessageId} :
    id ∈ (messages.foldl addMessage []).map Prod.fst ↔ id ∈ messages.map Prod.fst := by
  induction messages using List.reverseRecOn generalizing id with
  | nil => rfl
  | append_singleton messages message ih =>
    rw [List.foldl_append, List.foldl_cons, List.foldl_nil, addMessage]
    split_ifs with hfound
    · rw [ih, List.map_append, List.mem_append]
      refine ⟨.inl, fun h => h.elim (fun h => h) fun h => ?_⟩
      rw [List.mem_singleton.mp h]
      exact ih.mp hfound
    · rw [List.map_append, List.mem_append, ih, List.map_append, List.mem_append]

/-- Whether the observer takes a message for a new one. -/
theorem last_iff_found {messages : List (MessageId × String)} {message : MessageId × String}
    (htogether : message.1 ∈ messages.map Prod.fst →
      messages.getLast?.map Prod.fst = some message.1) :
    messages.getLast?.map Prod.fst ≠ some message.1 ↔
      message.1 ∉ (messages.foldl addMessage []).map Prod.fst := by
  rw [mem_addMessages, not_iff_not]
  refine ⟨fun hlast => ?_, htogether⟩
  obtain ⟨last, hlast, hid⟩ := Option.map_eq_some_iff.mp hlast
  rw [← hid]
  exact List.mem_map_of_mem (List.mem_of_getLast? hlast)

/-! ### The state behind a part of a turn -/

theorem filterMap_snoc {α β : Type} (f : α → Option β) (items : List α) (item : α) :
    (items ++ [item]).filterMap f = items.filterMap f ++ (f item).toList := by
  rw [List.filterMap_append]
  cases h : f item with
  | none => simp [h]
  | some found => simp [h]

theorem userMessages_snoc (before : List AgentEventKind) (kind : AgentEventKind) :
    userMessages (before ++ [kind]) =
      (userMessage kind).toList.foldl addMessage (userMessages before) := by
  unfold userMessages
  rw [filterMap_snoc, List.foldl_append]

theorem getLast?_filterMap_snoc {α β : Type} (f : α → Option β) (items : List α) (item : α) :
    ((items ++ [item]).filterMap f).getLast? = (f item).or (items.filterMap f).getLast? := by
  rw [filterMap_snoc]
  cases f item with
  | none => simp
  | some found => simp

/-- A message that is recorded in an open turn. -/
theorem recordMessage_turn {turn : PendingTurn} {found : List (MessageId × String)}
    {message : AgentMessage} (hinput : turn.input = skipJoined (found.map Prod.snd))
    (hlast : ∀ new, userContent message = some new →
      (turn.lastInputMessage ≠ some new.1 ↔ new.1 ∉ found.map Prod.fst)) :
    turn.recordMessage message =
      { index := turn.index,
        input := skipJoined (((userContent message).toList.foldl addMessage found).map Prod.snd),
        output := ((assistantContent message).map Prod.fst).or turn.output,
        lastInputMessage := ((userContent message).map Prod.fst).or turn.lastInputMessage } := by
  obtain ⟨index, input, output, last⟩ := turn
  have hinput : input = skipJoined (found.map Prod.snd) := hinput
  cases message with
  | user id content =>
    have hnew := hlast _ rfl
    simp only [userContent, Option.toList_some, List.foldl_cons, List.foldl_nil, addMessage]
    by_cases hfound : id ∈ found.map Prod.fst
    · have hsame : last = some id := not_not.mp fun h => hnew.mp h hfound
      rw [if_pos hfound, ← hinput]
      simp [PendingTurn.recordMessage, assistantContent, hsame]
    · rw [if_neg hfound, List.map_append, List.map_singleton, skipJoined_snoc, ← hinput]
      simp [PendingTurn.recordMessage, assistantContent, hnew.mpr hfound]
  | assistant id content toolCalls stopReason errorMessage =>
    simp [PendingTurn.recordMessage, userContent, assistantContent, hinput]
  | toolResult => simpa [PendingTurn.recordMessage, userContent, assistantContent] using hinput

theorem recordMessage_error {S : Type} (state : TraceState S) (message : AgentMessage) :
    (state.recordMessage message).error =
      ((assistantContent message).map Prod.snd).getD state.error := by
  cases message with
  | user => rfl
  | assistant => rfl
  | toolResult => rfl

section

variable {S : Type} [TraceSink S] {episodeId : String}

@[simp] theorem appendAll_append (sink : IsolatedSink S) (events more : List TraceEvent) :
    sink.appendAll (events ++ more) = (sink.appendAll events).appendAll more := List.foldl_append

@[simp] theorem recordAll_append (state : TraceState S) (kinds more : List AgentEventKind) :
    state.recordAll episodeId (kinds ++ more) =
      (state.recordAll episodeId kinds).recordAll episodeId more := List.foldl_append

theorem errorAfter_append (error : Option String) (kinds more : List AgentEventKind) :
    errorAfter error (kinds ++ more) = errorAfter (errorAfter error kinds) more :=
  List.foldl_append

/-- What has been read of a turn. -/
def pendingOf (t : TurnEvents) (before : List AgentEventKind) : PendingTurn where
  index := t.index
  input := skipJoined ((userMessages before).map Prod.snd)
  output := lastText before
  lastInputMessage := (before.filterMap userMessage).getLast?.map Prod.fst

/-- The state behind the first part `before` of a turn that was opened in `opened`. -/
structure Midway (t : TurnEvents) (opened : TraceState S) (before : List AgentEventKind)
    (state : TraceState S) : Prop where
  sink : state.sink = opened.sink.appendAll (before.filterMap (toolRecord t.index t.body))
  turn : state.currentTurn = some (pendingOf t before)
  tools : ∀ id ∈ before.filterMap startedId, id ∉ before.filterMap endedId →
    state.pendingTools id = (startOf t.body id).map (startedTool t.index id)
  error : state.error = errorAfter opened.error before
  endReason : state.endReason = opened.endReason

/-- An event without a message. -/
theorem pendingOf_snoc {t : TurnEvents} {before : List AgentEventKind} {kind : AgentEventKind}
    (hmessage : messageOf kind = none) : pendingOf t (before ++ [kind]) = pendingOf t before := by
  have huser : userMessage kind = none := by rw [userMessage, hmessage]; rfl
  have htext : assistantText kind = none := by rw [assistantText, hmessage]; rfl
  simp [pendingOf, lastText, userMessages_snoc, huser, htext]

/-- An event that is no part of the turn's record changes at most the error. -/
theorem Midway.pass {t : TurnEvents} {opened state : TraceState S} {before : List AgentEventKind}
    {kind : AgentEventKind} (hm : Midway t opened before state)
    (hrecord : state.record episodeId kind =
      { state with error := (errorOf kind).getD state.error })
    (hquiet : startedId kind = none ∧ endedId kind = none) (hmessage : messageOf kind = none)
    (htool : toolRecord t.index t.body kind = none) :
    Midway t opened (before ++ [kind]) (state.record episodeId kind) := by
  rw [hrecord]
  refine ⟨?_, ?_, ?_, ?_, hm.endReason⟩
  · simpa [filterMap_snoc, htool] using hm.sink
  · rw [pendingOf_snoc hmessage]
    exact hm.turn
  · simpa [filterMap_snoc, hquiet.1, hquiet.2] using hm.tools
  · rw [errorAfter_append, ← hm.error]
    rfl

theorem errorOf_message {kind : AgentEventKind} {message : AgentMessage}
    (h : messageOf kind = some message) :
    errorOf kind = (assistantContent message).map Prod.snd := by
  cases kind <;> simp_all [messageOf, errorOf]

/-- A message event. -/
theorem Midway.message {t : TurnEvents} {opened state : TraceState S}
    {before rest : List AgentEventKind} {kind : AgentEventKind} {message : AgentMessage}
    (hm : Midway t opened before state) (hbody : t.body = before ++ kind :: rest)
    (hmessage : messageOf kind = some message) :
    Midway t opened (before ++ [kind]) (state.record episodeId kind) := by
  have hplain : state.record episodeId kind = state.recordMessage message ∧
      startedId kind = none ∧ endedId kind = none ∧ toolRecord t.index t.body kind = none := by
    cases kind <;> simp_all [messageOf, TraceState.record, startedId, endedId, toolRecord]
  obtain ⟨hrecord, hstarted, hended, htool⟩ := hplain
  have huser : userMessage kind = userContent message := by rw [userMessage, hmessage]; rfl
  rw [hrecord]
  refine ⟨?_, ?_, ?_, ?_, hm.endReason⟩
  · simpa [filterMap_snoc, htool] using hm.sink
  · have htext : assistantText kind = (assistantContent message).map Prod.fst := by
      rw [assistantText, hmessage]
      rfl
    rw [TraceState.recordMessage_currentTurn, hm.turn, Option.map_some, recordMessage_turn rfl ?_]
    simp only [pendingOf, userMessages_snoc, lastText, getLast?_filterMap_snoc, huser, htext]
    · cases userContent message with
      | none => rfl
      | some new => rfl
    · intro new hnew
      have hsplit : t.body.filterMap userMessage =
          before.filterMap userMessage ++ new :: rest.filterMap userMessage := by
        rw [hbody, List.filterMap_append, List.filterMap_cons, huser, hnew]
      exact last_iff_found (t.together hsplit)
  · simpa [filterMap_snoc, hstarted, hended] using hm.tools
  · rw [errorAfter_append, ← hm.error, recordMessage_error, ← errorOf_message hmessage]
    rfl

/-- A call starts once: what it started with is read off the whole turn. -/
theorem startOf_started {body before rest : List AgentEventKind} {id : ToolCallId}
    {name : String} {arguments : SerializedJson}
    (hdistinct : (body.filterMap startedId).Nodup)
    (hbody : body = before ++ .toolExecutionStart id name arguments :: rest) :
    startOf body id = some (name, arguments) := by
  have hnew : ∀ kind ∈ before, startedId kind ≠ some id := by
    intro kind hkind hstarted
    rw [hbody, List.filterMap_append, List.nodup_append] at hdistinct
    refine hdistinct.2.2 id (List.mem_filterMap.mpr ⟨kind, hkind, hstarted⟩) id ?_ rfl
    simp [startedId]
  rw [hbody, startOf, List.findSome?_append, List.findSome?_eq_none_iff.mpr]
  · simp
  · intro kind hkind
    cases kind with
    | toolExecutionStart other =>
      have hother := hnew _ hkind
      simp only [startedId, ne_eq, Option.some.injEq] at hother
      simp [hother]
    | _ => rfl

/-- The execution of a tool starts. -/
theorem Midway.started {t : TurnEvents} {opened state : TraceState S}
    {before rest : List AgentEventKind} {id : ToolCallId} {name : String}
    {arguments : SerializedJson} (hm : Midway t opened before state)
    (hdistinct : (t.body.filterMap startedId).Nodup)
    (hbody : t.body = before ++ .toolExecutionStart id name arguments :: rest) :
    Midway t opened (before ++ [.toolExecutionStart id name arguments])
      (state.record episodeId (.toolExecutionStart id name arguments)) := by
  have hindex : state.turnIndex = t.index := by
    rw [TraceState.turnIndex, hm.turn]
    rfl
  refine ⟨?_, ?_, fun other hstarted hended => ?_, ?_, hm.endReason⟩
  · rw [filterMap_snoc]
    simpa [toolRecord, TraceState.record] using hm.sink
  · rw [pendingOf_snoc rfl]
    exact hm.turn
  · have hkind : startedId (.toolExecutionStart id name arguments) = some id := rfl
    have hnot : endedId (.toolExecutionStart id name arguments) = none := rfl
    rw [filterMap_snoc, hkind] at hstarted
    rw [filterMap_snoc, hnot] at hended
    by_cases hsame : other = id
    · subst hsame
      rw [startOf_started hdistinct hbody]
      simp [TraceState.record, startedTool, hindex]
    · simp only [TraceState.record, Function.update_of_ne hsame]
      exact hm.tools other (by simpa [hsame] using hstarted) (by simpa using hended)
  · rw [errorAfter_append, ← hm.error]
    rfl

/-- The start of a call that has started. -/
theorem exists_start {body before rest : List AgentEventKind} {id : ToolCallId}
    (hdistinct : (body.filterMap startedId).Nodup) (hbody : body = before ++ rest)
    (h : id ∈ before.filterMap startedId) : ∃ start, startOf body id = some start := by
  obtain ⟨kind, hkind, hid⟩ := List.mem_filterMap.mp h
  obtain ⟨early, late, rfl⟩ := List.append_of_mem hkind
  cases kind with
  | toolExecutionStart started name arguments =>
    simp only [startedId, Option.some.injEq] at hid
    subst hid
    rw [List.append_assoc, List.cons_append] at hbody
    exact ⟨_, startOf_started hdistinct hbody⟩
  | _ => simp [startedId] at hid

/-- The execution of a tool ends, and is recorded. -/
theorem Midway.ended {t : TurnEvents} {opened state : TraceState S}
    {before rest : List AgentEventKind} {id : ToolCallId} {name : String}
    {result : AgentToolResult} (hm : Midway t opened before state)
    (hdistinct : (t.body.filterMap startedId).Nodup)
    (hbody : t.body = before ++ .toolExecutionEnd id name result :: rest) :
    Midway t opened (before ++ [.toolExecutionEnd id name result])
      (state.record episodeId (.toolExecutionEnd id name result)) := by
  obtain ⟨hstarted, hfirst⟩ := t.ended hbody
  obtain ⟨start, hstart⟩ := exists_start hdistinct hbody hstarted
  have htool := hm.tools id hstarted hfirst
  rw [hstart, Option.map_some] at htool
  have hrecord : toolRecord t.index t.body (.toolExecutionEnd id name result) =
      some (.tool ((startedTool t.index id start).settle result)) := by
    rw [toolRecord, hstart]
    rfl
  refine ⟨?_, ?_, fun other hstarted hended => ?_, ?_, hm.endReason⟩
  · rw [filterMap_snoc, hrecord, appendAll_append, ← hm.sink]
    simp only [TraceState.record, htool, Option.getD_some]
    rfl
  · rw [pendingOf_snoc rfl]
    exact hm.turn
  · have hkind : endedId (.toolExecutionEnd id name result) = some id := rfl
    have hnot : startedId (.toolExecutionEnd id name result) = none := rfl
    rw [filterMap_snoc, hnot] at hstarted
    rw [filterMap_snoc, hkind, List.mem_append, not_or] at hended
    have hsame : other ≠ id := fun heq => hended.2 (by simp [heq])
    have hpending : (state.record episodeId (.toolExecutionEnd id name result)).pendingTools other =
        state.pendingTools other := by
      simp [TraceState.record, TraceState.append, Function.update_of_ne hsame]
    rw [hpending]
    exact hm.tools other (by simpa using hstarted) hended.1
  · rw [errorAfter_append, ← hm.error]
    rfl

/-- One event of a turn. -/
theorem Midway.step {t : TurnEvents} {opened state : TraceState S}
    {before rest : List AgentEventKind} {kind : AgentEventKind} (hm : Midway t opened before state)
    (hdistinct : (t.body.filterMap startedId).Nodup) (hbody : t.body = before ++ kind :: rest) :
    Midway t opened (before ++ [kind]) (state.record episodeId kind) := by
  have hinner : isBoundary kind = false := t.inner kind (by rw [hbody]; simp)
  cases kind with
  | agentStart | turnStart | turnEnd | agentEnd => cases hinner
  | messageStart | messageUpdate | messageEnd => exact hm.message hbody rfl
  | toolExecutionStart => exact hm.started hdistinct hbody
  | toolExecutionEnd => exact hm.ended hdistinct hbody
  | automaticCompactionEnd reason retry outcome =>
    cases outcome <;> exact hm.pass rfl ⟨rfl, rfl⟩ rfl rfl
  | toolFailureObserved id disposition signature count terminal message =>
    cases terminal <;> exact hm.pass rfl ⟨rfl, rfl⟩ rfl rfl
  | _ => exact hm.pass rfl ⟨rfl, rfl⟩ rfl rfl

/-- The events of a turn one after the other; the induction is on them from their end. -/
theorem midway_recordAll {t : TurnEvents} {opened : TraceState S}
    (hdistinct : (t.body.filterMap startedId).Nodup)
    (hopened : opened.currentTurn = some (.begin t.id)) (before rest : List AgentEventKind)
    (hbody : t.body = before ++ rest) :
    Midway t opened before (opened.recordAll episodeId before) := by
  induction before using List.reverseRecOn generalizing rest with
  | nil => exact ⟨rfl, hopened, by simp, rfl, rfl⟩
  | append_singleton before kind ih =>
    rw [List.append_assoc, List.singleton_append] at hbody
    rw [recordAll_append]
    exact (ih _ hbody).step hdistinct hbody

/-- An event between turns changes at most the error. -/
theorem record_quiet {state : TraceState S} {kind : AgentEventKind} (h : IsQuiet kind)
    (hturn : state.currentTurn = none) :
    state.record episodeId kind = { state with error := (errorOf kind).getD state.error } := by
  obtain ⟨hinner, hstarted, hended⟩ := h
  have hmessage : ∀ message, messageOf kind = some message →
      state.recordMessage message = { state with error := (errorOf kind).getD state.error } := by
    intro message hmessage
    rw [errorOf_message hmessage, ← recordMessage_error]
    obtain ⟨sink, turn, tools, reason, error⟩ := state
    cases hturn
    rfl
  cases kind with
  | agentStart | turnStart | turnEnd | agentEnd => cases hinner
  | messageStart | messageUpdate | messageEnd => exact hmessage _ rfl
  | toolExecutionStart => cases hstarted
  | toolExecutionEnd => cases hended
  | automaticCompactionEnd reason retry outcome => cases outcome <;> rfl
  | toolFailureObserved id disposition signature count terminal message => cases terminal <;> rfl
  | _ => rfl

theorem recordAll_quiet (episodeId : String) {kinds : List AgentEventKind}
    (h : ∀ kind ∈ kinds, IsQuiet kind)
    {state : TraceState S} (hturn : state.currentTurn = none) :
    state.recordAll episodeId kinds = { state with error := errorAfter state.error kinds } := by
  induction kinds generalizing state with
  | nil => rfl
  | cons kind kinds ih =>
    obtain ⟨hkind, hkinds⟩ := List.forall_mem_cons.mp h
    have hstep : state.recordAll episodeId (kind :: kinds) =
        (state.record episodeId kind).recordAll episodeId kinds := rfl
    rw [hstep, record_quiet hkind hturn]
    refine (ih hkinds ?_).trans ?_
    · exact hturn
    · rfl

/-- **A turn adds its records**, whatever was recorded before. -/
theorem recordAll_turn (episodeId : String) (t : TurnEvents)
    (hdistinct : (t.body.filterMap startedId).Nodup) (state : TraceState S) :
    (state.recordAll episodeId t.kinds).sink =
        state.sink.appendAll (t.records (skipJoined t.contents)) ∧
      (state.recordAll episodeId t.kinds).currentTurn = none ∧
      (state.recordAll episodeId t.kinds).endReason = endReason t.reason ∧
      (state.recordAll episodeId t.kinds).error = errorAfter state.error t.kinds := by
  have hm : Midway t (state.record episodeId (.turnStart t.id)) t.body
      ((state.record episodeId (.turnStart t.id)).recordAll episodeId t.body) :=
    midway_recordAll hdistinct rfl t.body [] (List.append_nil _).symm
  generalize hclosing :
    (state.record episodeId (.turnStart t.id)).recordAll episodeId t.body = closing at hm
  have hkinds : state.recordAll episodeId t.kinds =
      (closing.record episodeId (.turnEnd t.id t.reason)).recordAll episodeId t.after := by
    rw [← hclosing]
    exact recordAll_append _ (.turnStart t.id :: t.body) (.turnEnd t.id t.reason :: t.after)
  have hclosed : (closing.record episodeId (.turnEnd t.id t.reason)).currentTurn = none := rfl
  rw [hkinds, recordAll_quiet episodeId t.quiet hclosed]
  refine ⟨?_, rfl, rfl, ?_⟩
  · have hturn : (closing.record episodeId (.turnEnd t.id t.reason)).sink =
        closing.sink.append (.turn
          { index := (closing.currentTurn.getD (.begin t.id)).index,
            input := (closing.currentTurn.getD (.begin t.id)).input,
            output := (closing.currentTurn.getD (.begin t.id)).output,
            stopReason := some (stopReasonName t.reason) }) := rfl
    rw [hturn, hm.turn, hm.sink, TurnEvents.records, appendAll_append]
    rfl
  · have herror : (closing.record episodeId (.turnEnd t.id t.reason)).error = closing.error := rfl
    rw [herror, hm.error, TurnEvents.kinds, errorAfter_append]
    rfl

/-- The turns of a run, one after the other. -/
theorem recordAll_turns (episodeId : String) {turns : List TurnEvents}
    (hdistinct : ∀ t ∈ turns, (t.body.filterMap startedId).Nodup) {state : TraceState S}
    (hturn : state.currentTurn = none) :
    (state.recordAll episodeId (turns.flatMap TurnEvents.kinds)).sink =
        state.sink.appendAll (turns.flatMap fun t => t.records (skipJoined t.contents)) ∧
      (state.recordAll episodeId (turns.flatMap TurnEvents.kinds)).endReason =
        (turns.getLast?.map fun t => endReason t.reason).getD state.endReason ∧
      (state.recordAll episodeId (turns.flatMap TurnEvents.kinds)).error =
        errorAfter state.error (turns.flatMap TurnEvents.kinds) := by
  induction turns generalizing state with
  | nil => exact ⟨rfl, rfl, rfl⟩
  | cons t turns ih =>
    obtain ⟨hfirst, hrest⟩ := List.forall_mem_cons.mp hdistinct
    obtain ⟨hsink, hclosed, hreason, herror⟩ := recordAll_turn episodeId t hfirst state
    obtain ⟨hsinks, hreasons, herrors⟩ := ih hrest hclosed
    rw [List.flatMap_cons, recordAll_append, hsinks, hreasons, herrors, hsink, hreason, herror,
      List.flatMap_cons, appendAll_append, errorAfter_append]
    refine ⟨rfl, ?_, rfl⟩
    cases turns with
    | nil => rfl
    | cons second turns =>
      rw [List.getLast?_cons_cons, List.getLast?_eq_some_getLast (List.cons_ne_nil _ _)]
      rfl

theorem RunEvents.turns_distinct (r : RunEvents) :
    ∀ t ∈ r.turns, (t.body.filterMap startedId).Nodup := by
  have h := r.distinct
  rw [List.filterMap_flatMap, List.nodup_flatMap] at h
  exact h.1

/-- **A run adds its episode**, whatever was recorded before. -/
theorem recordAll_run (episodeId : String) (r : RunEvents) (state : TraceState S) :
    (state.recordAll episodeId r.kinds).sink =
      state.sink.appendAll (r.episode episodeId fun t => skipJoined t.contents) := by
  have hstarted : (state.record episodeId .agentStart).currentTurn = none := rfl
  have hquiet := recordAll_quiet episodeId r.quiet hstarted
  generalize hbefore :
    (state.record episodeId .agentStart).recordAll episodeId r.before = opened at hquiet
  have hopened : opened.currentTurn = none ∧ opened.endReason = .completed ∧
      opened.error = errorAfter none r.before ∧
      opened.sink = state.sink.append (.episodeHeader { episodeId }) := by
    rw [hquiet]
    exact ⟨rfl, rfl, rfl, rfl⟩
  obtain ⟨hsink, hreason, herror⟩ := recordAll_turns episodeId r.turns_distinct hopened.1
  generalize hclosing : opened.recordAll episodeId (r.turns.flatMap TurnEvents.kinds) = closing
    at hsink hreason herror
  have hkinds : state.recordAll episodeId r.kinds =
      closing.record episodeId (.agentEnd r.messages) := by
    rw [RunEvents.kinds, recordAll_append, recordAll_append, ← hclosing, ← hbefore]
    rfl
  have hend : (closing.record episodeId (.agentEnd r.messages)).sink = closing.sink.append
      (.episodeEnd { reason := closing.endReason, error := closing.error, finishedAtMs := none }) :=
    rfl
  have hkindsError : errorAfter none r.kinds =
      errorAfter (errorAfter none r.before) (r.turns.flatMap TurnEvents.kinds) := by
    rw [RunEvents.kinds, errorAfter_append, errorAfter_append]
    rfl
  rw [hkinds, hend, hsink, hreason, herror, hopened.2.1, hopened.2.2.1, hopened.2.2.2,
    ← hkindsError, RunEvents.episode, appendAll_append]
  rfl

theorem recordAll_runs (episodeId : String) (runs : List RunEvents) (state : TraceState S) :
    (state.recordAll episodeId (runs.flatMap RunEvents.kinds)).sink =
      state.sink.appendAll
        (runs.flatMap (RunEvents.episode episodeId fun t => skipJoined t.contents)) := by
  induction runs generalizing state with
  | nil => rfl
  | cons r runs ih =>
    rw [List.flatMap_cons, recordAll_append, ih, recordAll_run, List.flatMap_cons,
      appendAll_append]

end

/-! ### Which episodes are right -/

/-- Parts of the same lengths are equal one by one. -/
theorem flatMap_eq_iff {α β : Type} {f g : α → List β} {l : List α}
    (hlength : ∀ item ∈ l, (f item).length = (g item).length) :
    l.flatMap f = l.flatMap g ↔ ∀ item ∈ l, f item = g item := by
  induction l with
  | nil => simp
  | cons item l ih =>
    obtain ⟨hitem, hl⟩ := List.forall_mem_cons.mp hlength
    rw [List.flatMap_cons, List.flatMap_cons, List.forall_mem_cons, ← ih hl]
    constructor
    · intro h
      exact List.append_inj h hitem
    · rintro ⟨hfirst, hrest⟩
      rw [hfirst, hrest]

theorem records_eq_iff {t : TurnEvents} {input input' : String} :
    t.records input = t.records input' ↔ input = input' := by
  constructor
  · intro h
    simpa using List.append_cancel_left h
  · rintro rfl
    rfl

theorem episode_eq_iff {episodeId : String} {r : RunEvents} {input input' : TurnEvents → String} :
    r.episode episodeId input = r.episode episodeId input' ↔
      ∀ t ∈ r.turns, input t = input' t := by
  have hturns := flatMap_eq_iff (f := fun t => t.records (input t))
    (g := fun t => t.records (input' t)) (l := r.turns) (by simp [TurnEvents.records])
  simp only [records_eq_iff] at hturns
  rw [← hturns]
  simp [RunEvents.episode]

/-- The sink that keeps every event has kept them all. -/
theorem kept_appendAll (sink : IsolatedSink (List TraceEvent)) (events : List TraceEvent) :
    (sink.appendAll events).inner = sink.inner ++ events := by
  induction events generalizing sink with
  | nil => simp [IsolatedSink.appendAll]
  | cons event events ih =>
    have hstep : sink.appendAll (event :: events) = (sink.append event).appendAll events := rfl
    have hinner : (sink.append event).inner = sink.inner ++ [event] := rfl
    rw [hstep, ih, hinner, List.append_assoc, List.singleton_append]

/-- The episodes are right exactly if the inputs of the turns are. -/
theorem recordsEpisodes_iff_inputs (episodeId : String) (runs : List RunEvents) :
    RecordsEpisodes episodeId runs ↔
      ∀ r ∈ runs, ∀ t ∈ r.turns, skipJoined t.contents = t.joinedInput := by
  have hepisodes : runs.flatMap (RunEvents.episode episodeId fun t => skipJoined t.contents) =
      runs.flatMap (RunEvents.episode episodeId TurnEvents.joinedInput) ↔
        ∀ r ∈ runs, ∀ t ∈ r.turns, skipJoined t.contents = t.joinedInput := by
    rw [flatMap_eq_iff (by simp [RunEvents.episode, TurnEvents.records, List.length_flatMap])]
    simp only [episode_eq_iff]
  rw [← hepisodes]
  constructor
  · intro h
    have hkept := h ([] : List TraceEvent)
    rw [recordAll_runs] at hkept
    have hinner := congrArg IsolatedSink.inner hkept
    rw [kept_appendAll, kept_appendAll] at hinner
    exact List.append_cancel_left hinner
  · intro h S _ sink
    rw [recordAll_runs, h]

/-- **The sink receives the episodes of the runs exactly if no turn begins with an empty user
    message in front of others.** -/
theorem recordsEpisodes_iff (episodeId : String) (runs : List RunEvents) :
    RecordsEpisodes episodeId runs ↔
      ∀ r ∈ runs, ∀ t ∈ r.turns, t.contents.head? = some "" → t.contents.length ≤ 1 := by
  simp only [recordsEpisodes_iff_inputs, TurnEvents.joinedInput, skipJoined_eq_iff]

/-- A turn with an empty message in front of another one. -/
def emptyFirst : TurnEvents where
  id := ⟨1⟩
  body := [.messageStart (.user ⟨1⟩ ""), .messageEnd (.user ⟨1⟩ ""),
    .messageStart (.user ⟨2⟩ "hello"), .messageEnd (.user ⟨2⟩ "hello")]
  reason := .stop
  after := []
  inner := by simp [isBoundary]
  ended := by
    intro before toolCallId toolName result rest h
    have hmem := List.mem_append_right before
      (List.mem_cons_self (a := AgentEventKind.toolExecutionEnd toolCallId toolName result)
        (l := rest))
    rw [← h] at hmem
    simp at hmem
  together := by
    intro before message rest h
    have hlist : before ++ message :: rest =
        [(⟨1⟩, ""), (⟨1⟩, ""), (⟨2⟩, "hello"), (⟨2⟩, "hello")] := h.symm
    rcases before with _ | ⟨a, _ | ⟨b, _ | ⟨c, _ | ⟨d, before⟩⟩⟩⟩
    · simp
    · simp only [List.cons_append, List.nil_append, List.cons.injEq] at hlist
      obtain ⟨rfl, rfl, -⟩ := hlist
      simp
    · simp only [List.cons_append, List.nil_append, List.cons.injEq] at hlist
      obtain ⟨rfl, rfl, rfl, -⟩ := hlist
      simp
    · simp only [List.cons_append, List.nil_append, List.cons.injEq] at hlist
      obtain ⟨rfl, rfl, rfl, rfl, -⟩ := hlist
      simp
    · simp at hlist
  quiet := by simp

/-- The line break between an empty message and the next one is lost. -/
theorem empty_message_lost : ¬ RecordsEpisodes "episode"
    [{ before := [], turns := [emptyFirst], messages := [], quiet := by simp,
       distinct := by decide }] := by
  intro h
  rw [recordsEpisodes_iff_inputs] at h
  have hinput := h _ List.mem_cons_self emptyFirst List.mem_cons_self
  have hshort := (skipJoined_eq_iff _).mp hinput (by decide)
  exact absurd hshort (by decide)

end Tea.Contract
