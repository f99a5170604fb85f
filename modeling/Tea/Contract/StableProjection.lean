/-
  Tea/Contract/StableProjection.lean
  ==================================
  **The projection is stable under prefixes.**  What the projection does to a message
  depends on the messages before it only.  So with identity hooks the source context of an
  automatic compaction is a prefix of the active one, message by message
  (`projection_stable`).
-/

import Tea.App.Compactor
import Tea.Run.Compaction
import Tea.Contract.RepeatedErrors
import Tea.Encoding.JsonText

namespace Tea.Contract

open Tea.Async Tea.Core Tea.Run Tea.Encoding Tea.Provider Tea.App

/-! ### Projected transcripts -/

/-- Messages that differ in the content and the details of a tool result only. -/
inductive SameButContent : AgentMessage → AgentMessage → Prop
  | same (message : AgentMessage) : SameButContent message message
  | result {id : MessageId} {toolCallId : ToolCallId} {toolName content content' : String}
      {details details' : Option SerializedJson} {usage : Option Usage}
      {added : List String} {terminate isError : Bool} {failure : Option ToolFailure} :
      SameButContent
        (.toolResult id toolCallId toolName content details usage added terminate isError failure)
        (.toolResult id toolCallId toolName content' details' usage added terminate isError
          failure)

theorem projectMessages_take (policy : ToolResultProjectionPolicy) (messages : List AgentMessage)
    (seen : List UInt64) (n : Nat) :
    projectMessages policy (messages.take n) seen =
      (projectMessages policy messages seen).take n := by
  induction messages generalizing seen n with
  | nil =>
    rw [List.take_nil]
    exact List.take_nil.symm
  | cons message rest ih =>
    cases n with
    | zero => rfl
    | succ n =>
      rw [List.take_succ_cons, projectMessages_cons, projectMessages_cons, List.take_succ_cons, ih]

theorem projectMessages_same (policy : ToolResultProjectionPolicy) (messages : List AgentMessage)
    (seen : List UInt64) :
    List.Forall₂ SameButContent messages (projectMessages policy messages seen) := by
  induction messages generalizing seen with
  | nil => exact .nil
  | cons message rest ih =>
    rw [projectMessages_cons]
    apply List.Forall₂.cons
    · cases message with
      | user id content => exact .same _
      | assistant id content calls reason error => exact .same _
      | toolResult id callId name content details usage added terminate isError failure =>
        exact .result
    · exact ih _

/-! ### The split -/

/-- Where the retained messages start. -/
def splitStart (messages : List AgentMessage) (recentTokens : Nat) : Nat :=
  skipToolResults messages (recentStart messages recentTokens messages.length 0)

theorem lastUserBefore_lt {messages : List AgentMessage} {start index : Nat}
    (h : lastUserBefore messages start = some index) : index < start := by
  induction start with
  | zero => cases h
  | succ start ih =>
    rw [lastUserBefore] at h
    split_ifs at h with huser
    · obtain rfl := Option.some_inj.mp h
      exact Nat.lt_succ_self start
    · exact Nat.lt_succ_of_lt (ih h)

/-- **The split** cuts the transcript in one place, and the part before it in another. -/
theorem split_parts {messages : List AgentMessage} {recentTokens : Nat}
    (h : ¬ (messages = [] ∨ recentTokens = 0)) :
    (automaticCompactionSplit messages recentTokens).prefixMessages ++
        (automaticCompactionSplit messages recentTokens).splitTurnPrefix =
      messages.take (splitStart messages recentTokens) ∧
    (automaticCompactionSplit messages recentTokens).retainedMessages =
      messages.drop (splitStart messages recentTokens) := by
  unfold automaticCompactionSplit
  rw [if_neg h]
  dsimp only
  rw [← splitStart]
  generalize hturn : (if (messages[splitStart messages recentTokens]?.map
    (·.isAssistant)).getD false then lastUserBefore messages (splitStart messages recentTokens)
    else none) = turn
  cases turn with
  | none => exact ⟨List.append_nil _, rfl⟩
  | some index =>
    have hlt : index < splitStart messages recentTokens := by
      split_ifs at hturn
      exact lastUserBefore_lt hturn
    refine ⟨?_, rfl⟩
    have htake : (messages.take (splitStart messages recentTokens)).take index =
        messages.take index := by
      rw [List.take_take, Nat.min_eq_left (Nat.le_of_lt hlt)]
    change messages.take index ++ (messages.take (splitStart messages recentTokens)).drop index = _
    rw [← htake, List.take_append_drop]

/-- What a compactor is asked to summarise comes first. -/
theorem split_begins (messages : List AgentMessage) (recentTokens : Nat) :
    (automaticCompactionSplit messages recentTokens).prefixMessages ++
      (automaticCompactionSplit messages recentTokens).splitTurnPrefix <+: messages := by
  by_cases h : messages = [] ∨ recentTokens = 0
  · unfold automaticCompactionSplit
    rw [if_pos h, List.append_nil]
  · rw [(split_parts h).1]
    exact List.take_prefix _ messages

/-! ### Source contexts -/

/-- Hooks that leave the context as it is, and convert it for an OpenAI endpoint. -/
structure IdentityHooks {F : Type} (codec : JsonCodec F) (E : Host) : Prop where
  transform : ∀ now context reply,
    E.answers now (.transformContext context) reply → reply = .ok context
  convert : ∀ now context reply,
    E.answers now (.convertToLlm context) reply → reply = openaiConvert codec context

/-- The source context of a compactor, if one is built, is accepted as a prefix of the
    active one, and nothing fails. -/
def SourceAccepted {F : Type} (codec : JsonCodec F) (same : F → F → Bool) :
    Outcome Query CoreError ProviderContext → Prop
  | .done source => ∃ active, source.activeContext = some active ∧
      isExactMessagePrefix codec same source.context active = true
  | .failed _ => False
  | .pending _ => True

section

variable {F : Type} {codec : JsonCodec F} {E : Host}

/-- What a future ends with, if it ends, and that it does not fail. -/
def Yields {α : Type} (E : Host) (p : Drive α) (φ : α → Prop) : Prop :=
  Triple E (fun _ => True) p (Post (fun value _ => φ value) (fun _ _ => False) (fun _ _ => True))

theorem yields_done {α : Type} {φ : α → Prop} {value : α} (h : φ value) :
    Yields E (.done value) φ :=
  Triple.done (fun _ _ _ _ => trivial) fun _ _ => h

theorem yields_ask {query : Query} {φ : Reply query → Prop}
    (h : ∀ now reply, E.answers now query reply → φ reply) : Yields E (Future.ask query) φ := by
  apply Triple.call
  · exact fun _ _ _ _ => trivial
  · exact fun _ _ => trivial
  · intro now reply _ hreply
    exact (yields_done (h now reply hreply)).at trivial

theorem Yields.bind {α β : Type} {p : Drive α} {next : α → Drive β} {φ : α → Prop} {ψ : β → Prop}
    (h : Yields E p φ) (hnext : ∀ value, φ value → Yields E (next value) ψ) :
    Yields E (p >>= next) ψ := by
  apply Triple.bind h
  intro value now o now' hvalue hrun
  exact hnext value hvalue now o now' trivial hrun

/-- Under identity hooks a context is projected and converted. -/
theorem buildProviderContext_identity (hooks : IdentityHooks codec E) (h : RunHandle)
    (context : ContextEnvelope) :
    Yields E (buildProviderContext h context) fun source => source.context = codec.print (.array
      ((projectMessages h.agent.toolResultProjection context.messages []).map openaiMessage)) := by
  unfold buildProviderContext
  apply Yields.bind (yields_ask fun now reply => hooks.transform now _ reply)
  intro transformed htransformed
  subst htransformed
  apply Yields.bind (yields_done rfl)
  intro context' hcontext
  subst hcontext
  apply Yields.bind (yields_ask fun now reply => hooks.convert now _ reply)
  intro converted hconverted
  subst hconverted
  exact yields_done rfl

/-- A converted prefix is accepted. -/
theorem exact_of_prefix (same : F → F → Bool) {source active : List AgentMessage}
    (h : source <+: active) :
    isExactMessagePrefix codec same (codec.print (.array (source.map openaiMessage)))
      (codec.print (.array (active.map openaiMessage))) = true := by
  have hlength : (source.map (openaiMessage (F := F))).length ≤
      (active.map (openaiMessage (F := F))).length := by
    rw [List.length_map, List.length_map]
    exact h.length_le
  have htake : (active.map (openaiMessage (F := F))).take
      (source.map (openaiMessage (F := F))).length = source.map openaiMessage := by
    rw [List.length_map, ← List.map_take, ← List.prefix_iff_eq_take.mp h]
  unfold isExactMessagePrefix
  rw [parse_openaiConvert, parse_openaiConvert]
  dsimp only
  rw [htake, decide_eq_true hlength, Bool.true_and]
  apply JsonValue.same_items
  intro v hv
  obtain ⟨message, -, rfl⟩ := List.mem_map.mp hv
  exact textual_openaiMessage message

theorem projectMessages_begins (policy : ToolResultProjectionPolicy)
    {first messages : List AgentMessage} (h : first <+: messages) (seen : List UInt64) :
    projectMessages policy first seen =
      (projectMessages policy messages seen).take first.length := by
  rw [← projectMessages_take, ← List.prefix_iff_eq_take.mp h]

theorem compactionProviderContext_identity (same : F → F → Bool) (hooks : IdentityHooks codec E)
    (h : RunHandle) (context : CompactionContext) {sources : List AgentMessage}
    (hsources : sources <+: context.messages) :
    Yields E (compactionProviderContext h context sources) fun source =>
      ∃ active, source.activeContext = some active ∧
        isExactMessagePrefix codec same source.context active = true := by
  unfold compactionProviderContext
  apply Yields.bind (buildProviderContext_identity hooks h _)
  intro source hsource
  apply Yields.bind (buildProviderContext_identity hooks h _)
  intro active hactive
  apply yields_done
  refine ⟨active.context, rfl, ?_⟩
  change isExactMessagePrefix codec same source.context active.context = true
  rw [hsource, hactive]
  apply exact_of_prefix
  change projectMessages _ sources [] <+: projectMessages _ context.messages []
  rw [projectMessages_begins _ hsources]
  exact List.take_prefix _ _

end

/-- **The projection is stable**: that of a prefix is the prefix of the projection, and only
    content and details of tool results change; and under identity hooks the compactor
    recognises the source context of every automatic compaction. -/
theorem projection_stable {F : Type} (codec : JsonCodec F) (same : F → F → Bool) {E : Host}
    (hooks : IdentityHooks codec E) (h : RunHandle) (context : CompactionContext) :
    (∀ first, first <+: context.messages → ∀ version version' hostMessages hostMessages',
      (projectModelContext h.agent.toolResultProjection ⟨version, first, hostMessages⟩).messages =
        (projectModelContext h.agent.toolResultProjection
          ⟨version', context.messages, hostMessages'⟩).messages.take first.length ∧
      List.Forall₂ SameButContent first (projectModelContext h.agent.toolResultProjection
        ⟨version, first, hostMessages⟩).messages) ∧
    ∀ recentTokens,
      let split := automaticCompactionSplit context.messages recentTokens
      split.prefixMessages ++ split.splitTurnPrefix <+: context.messages ∧
      ∀ start outcome finish,
        Run E (compactionProviderContext h context (split.prefixMessages ++ split.splitTurnPrefix))
          start outcome finish →
        SourceAccepted codec same outcome := by
  constructor
  · intro first hfirst version version' hostMessages hostMessages'
    constructor
    · exact projectMessages_begins _ hfirst []
    · exact projectMessages_same _ first []
  · intro recentTokens
    have hbegins := split_begins context.messages recentTokens
    refine ⟨hbegins, ?_⟩
    intro start outcome finish hrun
    have haccepted := compactionProviderContext_identity same hooks h context hbegins start outcome
      finish trivial hrun
    cases outcome with
    | done source => exact haccepted
    | failed error => exact haccepted
    | pending query => trivial

/-- A host with identity hooks. -/
def identityHost {F : Type} (codec : JsonCodec F) : Host where
  interferes _ _ := False
  answers _
    | .transformContext context, reply => reply = .ok context
    | .convertToLlm context, reply => reply = openaiConvert codec context
    | _, _ => False

theorem identityHooks {F : Type} (codec : JsonCodec F) :
    IdentityHooks codec (identityHost codec) where
  transform _ _ _ h := h
  convert _ _ _ h := h

/-- A call with its result between two messages of the user. -/
def splitContext : CompactionContext where
  systemPrompt := ""
  model := none
  messages := [
    .user ⟨1⟩ "hi",
    .assistant ⟨2⟩ "" [⟨⟨"call_ls", by decide⟩, "ls", ⟨"\x7b\x7d"⟩⟩] (some .toolUse) none,
    .toolResult ⟨3⟩ ⟨"call_ls", by decide⟩ "ls" "a" (some ⟨"1"⟩) none [] false false none,
    .user ⟨4⟩ "more"]
  hostMessages := []

theorem projection_stable_run :
    (projectModelContext {} ⟨1, splitContext.messages.take 3, []⟩).messages =
        (projectModelContext {} ⟨1, splitContext.messages, []⟩).messages.take 3 ∧
      ∃ source finish,
        Run (identityHost textCodec) (compactionProviderContext {} splitContext
          ((automaticCompactionSplit splitContext.messages 1).prefixMessages ++
            (automaticCompactionSplit splitContext.messages 1).splitTurnPrefix))
          (Now.start {}) (.done source) finish ∧
        SourceAccepted textCodec (fun a b => decide (a = b)) (.done source) := by
  obtain ⟨hstable, haccepted⟩ := projection_stable textCodec (fun a b => decide (a = b))
    (identityHooks textCodec) {} splitContext
  constructor
  · exact (hstable _ (List.take_prefix 3 _) 1 1 [] []).1
  · obtain ⟨source, finish, hrun⟩ : ∃ source finish,
        Run (identityHost textCodec) (compactionProviderContext {} splitContext
          ((automaticCompactionSplit splitContext.messages 1).prefixMessages ++
            (automaticCompactionSplit splitContext.messages 1).splitTurnPrefix))
          (Now.start {}) (.done source) finish :=
      ⟨_, _, .call rfl (.call rfl (.call rfl (.call rfl .done)))⟩
    exact ⟨source, finish, hrun, (haccepted 1).2 _ _ _ hrun⟩

end Tea.Contract
