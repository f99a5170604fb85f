/-
  Tea/Session/RoundTrip.lean
  ==========================
  **What a written session reads back as**, entry by entry.  Each encoder has the lemma
  of its decoder; a file is then the fold of its lines (`decodeSource_encode`).
-/

import Tea.Session.Decode
import Mathlib.Data.List.TakeWhile

namespace Tea.Session

open Tea.Core Tea.Encoding

variable {F : Type} {codec : JsonCodec F} {path : String}

/-! ### Usage -/

/-- A count as it is read back; a `u64` value stays as it is. -/
def rereadCount (count : Option Nat) : Option Nat := count.map fun n => (UInt64.ofNat n).toNat

/-- A usage record as it is read back: the reasoning count is not in the file, and a cost
    that is not known is the text of null. -/
def rereadUsage (codec : JsonCodec F) (usage : Usage) : Usage where
  inputTokens := rereadCount usage.inputTokens
  outputTokens := rereadCount usage.outputTokens
  reasoningTokens := none
  cacheReadTokens := rereadCount usage.cacheReadTokens
  cacheWriteTokens := rereadCount usage.cacheWriteTokens
  cost := some (usage.cost.getD (codec.print .null))

theorem asU64_optionalNumber (codec : JsonCodec F) (count : Option Nat) :
    ((codec.reread (optionalNumber count)).asU64).map (·.toNat) = rereadCount count := by
  cases count with
  | none =>
    rw [optionalNumber, codec.reread_null]
    rfl
  | some n =>
    rw [optionalNumber, number, codec.reread_unsigned]
    rfl

theorem jsonScalarText_reread (cost : Option String) :
    jsonScalarText codec (codec.reread (optionalString cost)) =
      cost.getD (codec.print .null) := by
  cases cost with
  | none =>
    rw [optionalString, codec.reread_null]
    rfl
  | some cost =>
    rw [optionalString, codec.reread_string]
    rfl

theorem decodeUsage_encode (usage : Usage) :
    decodeUsage codec path (some (codec.reread (encodeUsage usage))) =
      .ok (some (rereadUsage codec usage)) := by
  obtain ⟨fields, hfields, hlookup⟩ := codec.reread_object (usageFields usage)
  rw [encodeUsage, hfields]
  simp only [decodeUsage, expectObject, JsonValue.asObject, bind, Except.bind, pure, Except.pure,
    hlookup, usageFields, List.reverse_cons, List.reverse_nil, List.nil_append, List.cons_append,
    JsonValue.lookupField, String.reduceEq, if_true, if_false, Option.map_some, Option.bind_some,
    asU64_optionalNumber, codec.get_reread, costFields]
  rw [jsonScalarText_reread]
  rfl

/-! ### Texts that hold JSON -/

/-- What is read back of a text that is stored as a JSON value: the value it stands for,
    or the text itself as a JSON string. -/
def rereadText (codec : JsonCodec F) (text : String) : JsonValue F :=
  codec.reread (parseOrString codec text)

def rereadArguments (codec : JsonCodec F) (arguments : SerializedJson) : SerializedJson :=
  ⟨codec.print (rereadText codec arguments.text)⟩

/-- Details that stand for null are not read back. -/
def rereadDetails (codec : JsonCodec F) (details : Option SerializedJson) :
    Option SerializedJson :=
  details.bind fun details =>
    match rereadText codec details.text with
    | .null => none
    | value => some ⟨codec.print value⟩

theorem decodeDetails_encode (details : Option SerializedJson) :
    decodeSerializedJson codec (some (codec.reread (encodeDetails codec details))) =
      rereadDetails codec details := by
  cases details with
  | none =>
    rw [encodeDetails, Option.map_none, Option.getD_none, codec.reread_null]
    rfl
  | some details =>
    simp only [encodeDetails, Option.map_some, Option.getD_some, rereadDetails, rereadText,
      Option.bind_some]
    cases codec.reread (parseOrString codec details.text) <;> rfl

/-! ### Contents -/

theorem decodeContent_blocks (content : String) :
    decodeContent path (some (codec.reread (.array [.object (textFields content)]))) =
      .ok content := by
  have htext := codec.get_reread "text" (textFields content)
  simp only [textFields, List.reverse_cons, List.reverse_nil, List.nil_append, List.cons_append,
    JsonValue.lookupField, if_true, Option.map_some, codec.reread_string] at htext
  rw [codec.reread_array]
  simp only [decodeContent, JsonValue.asStr, JsonValue.asArray, List.map_cons, List.map_nil,
    List.filterMap_cons, List.filterMap_nil, textFields, htext, Option.bind_some]
  simp

theorem decodeBlock_text (found : String × List AgentToolCall) (content : String) :
    decodeBlock codec path found (codec.reread (.object (textFields content))) =
      .ok (found.1 ++ content, found.2) := by
  obtain ⟨fields, hfields, hlookup⟩ := codec.reread_object (textFields content)
  rw [hfields]
  simp only [decodeBlock, expectObject, requiredString, JsonValue.asObject, JsonValue.asStr, bind,
    Except.bind, pure, Except.pure, hlookup, textFields, List.reverse_cons, List.reverse_nil,
    List.nil_append, List.cons_append, JsonValue.lookupField, String.reduceEq, if_true, if_false,
    Option.map_some, Option.bind_some, codec.reread_string]

theorem toolCallIdOf_text (id : ToolCallId) : toolCallIdOf id.text = some id := by
  rw [toolCallIdOf, dif_neg id.nonempty]

theorem decodeBlock_toolCall (found : String × List AgentToolCall) (call : AgentToolCall) :
    decodeBlock codec path found (codec.reread (.object (toolCallFields codec call))) =
      .ok (found.1,
        found.2 ++ [{ call with arguments := rereadArguments codec call.arguments }]) := by
  obtain ⟨fields, hfields, hlookup⟩ := codec.reread_object (toolCallFields codec call)
  rw [hfields]
  simp only [decodeBlock, expectObject, requiredString, JsonValue.asObject, JsonValue.asStr, bind,
    Except.bind, pure, Except.pure, hlookup, toolCallFields, List.reverse_cons, List.reverse_nil,
    List.nil_append, List.cons_append, JsonValue.lookupField, String.reduceEq, if_true, if_false,
    Option.map_some, Option.bind_some, codec.reread_string, toolCallIdOf_text]
  rfl

theorem decodeBlocks_toolCalls (codec : JsonCodec F) (path : String)
    (found : String × List AgentToolCall)
    (calls : List AgentToolCall) :
    (calls.map fun call => codec.reread (.object (toolCallFields codec call))).foldlM
        (decodeBlock codec path) found =
      .ok (found.1, found.2 ++ calls.map fun call =>
        { call with arguments := rereadArguments codec call.arguments }) := by
  induction calls generalizing found with
  | nil => simp [pure, Except.pure]
  | cons call calls ih =>
    rw [List.map_cons, List.foldlM_cons, decodeBlock_toolCall]
    simp only [bind, Except.bind]
    rw [ih]
    simp

theorem decodeAssistantContent_encode (content : String) (calls : List AgentToolCall) :
    decodeAssistantContent codec path
        (some (codec.reread (.array (encodeBlocks codec content calls)))) =
      .ok (content, calls.map fun call =>
        { call with arguments := rereadArguments codec call.arguments }) := by
  rw [codec.reread_array]
  simp only [decodeAssistantContent, JsonValue.asStr, JsonValue.asArray, encodeBlocks]
  split_ifs with hempty
  · have hcalls := decodeBlocks_toolCalls codec path ("", []) calls
    simp only [List.nil_append] at hcalls ⊢
    rw [List.map_map]
    rw [hempty]
    exact hcalls
  · have hcalls := decodeBlocks_toolCalls codec path (content, []) calls
    simp only [List.cons_append, List.nil_append, List.map_cons, List.map_map] at hcalls ⊢
    rw [List.foldlM_cons, decodeBlock_text]
    simp only [bind, Except.bind, String.empty_append]
    exact hcalls

/-! ### Messages -/

/-- A message as it is read back under a new identifier. -/
def rereadMessage (codec : JsonCodec F) (id : MessageId) : AgentMessage → AgentMessage
  | .user _ content => .user id content
  | .assistant _ content toolCalls stopReason errorMessage =>
      .assistant id content
        (toolCalls.map fun call =>
          { call with arguments := rereadArguments codec call.arguments })
        (some (stopReason.getD .stop)) errorMessage
  | .toolResult _ toolCallId toolName content details usage addedToolNames _ isError _ =>
      .toolResult id toolCallId toolName content (rereadDetails codec details)
        (usage.map (rereadUsage codec)) addedToolNames false isError none

theorem parseStopReason_name (reason : StopReason) :
    parseStopReason path (stopReasonName reason) = .ok reason := by
  cases reason <;> simp [parseStopReason, stopReasonName]

theorem parseThinking_name (level : ThinkingLevel) :
    parseThinking path (thinkingName level) = .ok level := by
  cases level <;> simp [parseThinking, thinkingName]

theorem filterMap_strings (names : List String) :
    (names.map fun name => codec.reread (.string name)).filterMap (·.asStr) = names := by
  induction names with
  | nil => rfl
  | cons name names ih =>
    rw [List.map_cons, codec.reread_string, List.filterMap_cons, ih]
    rfl

theorem decodeUsage_optional (usage : Option Usage) :
    decodeUsage codec path (some (codec.reread ((usage.map encodeUsage).getD .null))) =
      .ok (usage.map (rereadUsage codec)) := by
  cases usage with
  | none =>
    rw [Option.map_none, Option.getD_none, codec.reread_null]
    rfl
  | some usage =>
    rw [Option.map_some, Option.getD_some]
    exact decodeUsage_encode usage

theorem decodeMessage_user (model : Option ModelDescriptor) (ms : UInt64) (id old : MessageId)
    (content : String) :
    decodeMessage codec path (codec.reread (encodeMessage codec model ms (.user old content))) id =
      .ok (rereadMessage codec id (.user old content)) := by
  obtain ⟨fields, hfields, hlookup⟩ :=
    codec.reread_object (messageFields codec model ms (.user old content))
  rw [encodeMessage, hfields]
  simp only [decodeMessage, expectObject, requiredString, JsonValue.asObject, JsonValue.asStr,
    decodeContent, bind, Except.bind, pure, Except.pure, hlookup, messageFields, List.reverse_cons,
    List.reverse_nil, List.nil_append, List.cons_append, JsonValue.lookupField, String.reduceEq,
    if_true, if_false, Option.map_some, Option.bind_some, codec.reread_string, rereadMessage]

theorem decodeMessage_assistant (model : Option ModelDescriptor) (ms : UInt64)
    (id old : MessageId) (content : String) (toolCalls : List AgentToolCall)
    (stopReason : Option StopReason) (errorMessage : Option String) :
    let message := AgentMessage.assistant old content toolCalls stopReason errorMessage
    decodeMessage codec path (codec.reread (encodeMessage codec model ms message)) id =
      .ok (rereadMessage codec id message) := by
  intro message
  obtain ⟨fields, hfields, hlookup⟩ := codec.reread_object (messageFields codec model ms message)
  have hreason : parseStopReason path ((stopReason.map stopReasonName).getD "stop") =
      .ok (stopReason.getD .stop) := by
    cases stopReason with
    | none => exact parseStopReason_name .stop
    | some reason => exact parseStopReason_name reason
  have herror : optionalStringAt path fields "errorMessage" = .ok errorMessage := by
    rw [optionalStringAt, hlookup]
    cases errorMessage with
    | none => simp [message, messageFields, JsonValue.lookupField]
    | some error =>
      simp [message, messageFields, JsonValue.lookupField, codec.reread_string]
  have hother : ∀ key, key ≠ "errorMessage" → JsonValue.lookupField key fields =
      (JsonValue.lookupField key ([
        ("role", .string "assistant"),
        ("content", .array (encodeBlocks codec content toolCalls)),
        ("provider", .string ((model.map (·.provider)).getD "")),
        ("model", .string ((model.map (·.model)).getD "")),
        ("stopReason", .string ((stopReason.map stopReasonName).getD "stop")),
        ("timestamp", .number (.unsigned ms))] : Fields F).reverse).map codec.reread := by
    intro key hkey
    rw [hlookup]
    cases errorMessage with
    | none => simp [message, messageFields]
    | some error =>
      simp [message, messageFields, JsonValue.lookupField, Ne.symm hkey]
  rw [encodeMessage, hfields]
  simp only [decodeMessage, expectObject, requiredString, JsonValue.asObject, bind, Except.bind,
    pure, Except.pure]
  rw [hother "role" (by decide), hother "content" (by decide), hother "stopReason" (by decide),
    herror]
  simp only [List.reverse_cons, List.reverse_nil, List.nil_append, List.cons_append,
    JsonValue.lookupField, String.reduceEq, if_true, if_false, Option.map_some, Option.bind_some,
    codec.reread_string, JsonValue.asStr, decodeAssistantContent_encode, hreason, Except.map]
  rfl

theorem decodeMessage_toolResult (model : Option ModelDescriptor) (ms : UInt64)
    (id old : MessageId) (toolCallId : ToolCallId) (toolName content : String)
    (details : Option SerializedJson) (usage : Option Usage) (addedToolNames : List String)
    (terminate isError : Bool) (failure : Option ToolFailure) :
    let message := AgentMessage.toolResult old toolCallId toolName content details usage
      addedToolNames terminate isError failure
    decodeMessage codec path (codec.reread (encodeMessage codec model ms message)) id =
      .ok (rereadMessage codec id message) := by
  intro message
  obtain ⟨fields, hfields, hlookup⟩ := codec.reread_object (messageFields codec model ms message)
  have hnames : decodeStringArray (JsonValue.lookupField "addedToolNames" fields) =
      addedToolNames := by
    rw [hlookup]
    by_cases hempty : addedToolNames = []
    · simp [message, messageFields, JsonValue.lookupField, hempty, decodeStringArray]
    · simp only [message, messageFields, if_neg hempty, List.cons_append, List.nil_append,
        List.reverse_cons, List.reverse_nil, JsonValue.lookupField, if_true, Option.map_some,
        codec.reread_array, List.map_map]
      exact filterMap_strings addedToolNames
  have hother : ∀ key, key ≠ "addedToolNames" → JsonValue.lookupField key fields =
      (JsonValue.lookupField key ([
        ("role", .string "toolResult"), ("toolCallId", .string toolCallId.text),
        ("toolName", .string toolName), ("content", .array [.object (textFields content)]),
        ("details", encodeDetails codec details),
        ("usage", (usage.map encodeUsage).getD .null), ("isError", .bool isError),
        ("timestamp", .number (.unsigned ms))] : Fields F).reverse).map codec.reread := by
    intro key hkey
    rw [hlookup]
    by_cases hempty : addedToolNames = []
    · simp [message, messageFields, hempty]
    · simp [message, messageFields, hempty, JsonValue.lookupField, Ne.symm hkey]
  rw [encodeMessage, hfields]
  simp only [decodeMessage, expectObject, requiredString, JsonValue.asObject, bind, Except.bind,
    pure, Except.pure, hnames]
  rw [hother "role" (by decide), hother "toolCallId" (by decide), hother "toolName" (by decide),
    hother "content" (by decide), hother "details" (by decide), hother "usage" (by decide),
    hother "isError" (by decide)]
  simp only [List.reverse_cons, List.reverse_nil, List.nil_append, List.cons_append,
    JsonValue.lookupField, String.reduceEq, if_true, if_false, Option.map_some, Option.bind_some,
    codec.reread_string, codec.reread_bool, JsonValue.asStr, JsonValue.asBool, toolCallIdOf_text,
    decodeContent_blocks, decodeDetails_encode, decodeUsage_optional, Option.getD_some]
  rfl

theorem decodeMessage_encode (model : Option ModelDescriptor) (ms : UInt64) (id : MessageId)
    (message : AgentMessage) :
    decodeMessage codec path (codec.reread (encodeMessage codec model ms message)) id =
      .ok (rereadMessage codec id message) := by
  cases message with
  | user old content => exact decodeMessage_user model ms id old content
  | assistant old content toolCalls stopReason errorMessage =>
    exact decodeMessage_assistant model ms id old content toolCalls stopReason errorMessage
  | toolResult old toolCallId toolName content details usage addedToolNames terminate isError
      failure =>
    exact decodeMessage_toolResult model ms id old toolCallId toolName content details usage
      addedToolNames terminate isError failure

/-! ### What is written is canonical -/

theorem canonical_optionalString (value : Option String) :
    (optionalString value : JsonValue F).Canonical := by
  cases value with
  | none => exact .null
  | some value => exact .string value

theorem canonical_optionalNumber (value : Option Nat) :
    (optionalNumber value : JsonValue F).Canonical := by
  cases value with
  | none => exact .null
  | some value => exact .number _

theorem canonical_parseOrString (text : String) : (parseOrString codec text).Canonical := by
  unfold parseOrString
  cases hparse : codec.parse text with
  | none => exact .string text
  | some value => exact codec.parse_canonical hparse

theorem canonical_member {fields : List (String × JsonValue F)}
    {field : String × JsonValue F} (hfield : field ∈ fields)
    (h : fields.Forall fun field => field.2.Canonical) : field.2.Canonical :=
  List.forall_iff_forall_mem.mp h field hfield

/-- An object whose fields are given one by one. -/
theorem canonical_fields {fields : List (String × JsonValue F)}
    (h : fields.Forall fun field => field.2.Canonical) : (JsonValue.object fields).Canonical := by
  apply JsonValue.canonical_object
  intro field hfield
  exact canonical_member hfield h

theorem canonical_text (content : String) :
    (JsonValue.object (textFields content) : JsonValue F).Canonical :=
  canonical_fields ⟨.string _, .string _⟩

theorem canonical_usage (usage : Usage) : (encodeUsage usage : JsonValue F).Canonical := by
  apply canonical_fields
  refine ⟨canonical_optionalNumber _, canonical_optionalNumber _, canonical_optionalNumber _,
    canonical_optionalNumber _, canonical_optionalNumber _, ?_⟩
  apply canonical_fields
  exact ⟨.null, .null, .null, .null, canonical_optionalString _⟩

theorem canonical_blocks (content : String) (calls : List AgentToolCall) :
    (JsonValue.array (encodeBlocks codec content calls)).Canonical := by
  apply JsonValue.Canonical.array
  intro value hvalue
  unfold encodeBlocks at hvalue
  rcases List.mem_append.mp hvalue with htext | hcall
  · split_ifs at htext with hempty
    · cases htext
    · rw [List.mem_singleton.mp htext]
      exact canonical_text content
  · obtain ⟨call, -, rfl⟩ := List.mem_map.mp hcall
    exact canonical_fields ⟨.string _, .string _, .string _, canonical_parseOrString _⟩

theorem canonical_message (model : Option ModelDescriptor) (ms : UInt64)
    (message : AgentMessage) : (encodeMessage codec model ms message).Canonical := by
  unfold encodeMessage
  cases message with
  | user id content => exact canonical_fields ⟨.string _, .string _, .number _⟩
  | assistant id content toolCalls stopReason errorMessage =>
    apply JsonValue.canonical_object
    intro field hfield
    rcases List.mem_append.mp hfield with hfixed | herror
    · exact canonical_member hfixed
        ⟨.string _, canonical_blocks _ _, .string _, .string _, .string _, .number _⟩
    · cases errorMessage with
      | none => cases herror
      | some error =>
        rw [Option.map_some, Option.toList_some, List.mem_singleton] at herror
        rw [herror]
        exact .string error
  | toolResult id toolCallId toolName content details usage addedToolNames terminate isError
      failure =>
    apply JsonValue.canonical_object
    intro field hfield
    rcases List.mem_append.mp hfield with hfixed | hnames
    · have hdetails : (encodeDetails codec details).Canonical := by
        cases details with
        | none => exact .null
        | some details => exact canonical_parseOrString details.text
      have husage : ((usage.map encodeUsage).getD .null : JsonValue F).Canonical := by
        cases usage with
        | none => exact .null
        | some usage => exact canonical_usage usage
      have hcontent : (JsonValue.array [.object (textFields content)] : JsonValue F).Canonical := by
        apply JsonValue.Canonical.array
        intro value hvalue
        rw [List.mem_singleton.mp hvalue]
        exact canonical_text content
      exact canonical_member hfixed
        ⟨.string _, .string _, .string _, hcontent, hdetails, husage, .bool _, .number _⟩
    · split_ifs at hnames with hempty
      · cases hnames
      · rw [List.mem_singleton.mp hnames]
        apply JsonValue.Canonical.array
        intro value hvalue
        obtain ⟨name, -, rfl⟩ := List.mem_map.mp hvalue
        exact .string name

theorem canonical_entry (kind : String) (parent : Option String) (stamp : Stamp)
    {fields : List (String × JsonValue F)} (h : ∀ field ∈ fields, field.2.Canonical) :
    (entry kind parent stamp fields).Canonical := by
  apply JsonValue.canonical_object
  intro field hfield
  rcases List.mem_append.mp hfield with hfixed | hown
  · exact canonical_member hfixed ⟨.string _, .string _, canonical_optionalString _, .string _⟩
  · exact h field hown

/-! ### Lines -/

/-- A text that stays on one line. -/
def OneLine (text : String) : Prop := ∀ c ∈ text.toList, c ≠ '\n' ∧ c ≠ '\r'

theorem linesFrom_line {text : List Char} (h : ∀ c ∈ text, c ≠ '\n' ∧ c ≠ '\r')
    (line rest : List Char) :
    linesFrom line (text ++ '\n' :: rest) =
      String.ofList
          (if (line ++ text).getLast? = some '\r' then (line ++ text).dropLast else line ++ text) ::
        linesFrom [] rest := by
  induction text generalizing line with
  | nil => simp [linesFrom]
  | cons c text ih =>
    have hc := (h c List.mem_cons_self).1
    have hrest := ih (fun d hd => h d (List.mem_cons_of_mem _ hd)) (line ++ [c])
    rw [List.cons_append, linesFrom, if_neg hc, hrest]
    simp

/-- **Lines that are written one by one** are read one by one. -/
theorem linesOf_join {texts : List String} (h : ∀ text ∈ texts, OneLine text) :
    linesOf (String.join (texts.map fun text => text ++ "\n")) = texts := by
  unfold linesOf
  have hnewline : "\n".toList = ['\n'] := rfl
  rw [String.toList_join, List.flatMap_map]
  simp only [String.toList_append, hnewline]
  induction texts with
  | nil => rfl
  | cons text texts ih =>
    have htext := h text List.mem_cons_self
    have hlast : text.toList.getLast? ≠ some '\r' := by
      intro heq
      exact (htext _ (List.mem_of_getLast? heq)).2 rfl
    rw [List.flatMap_cons, List.append_assoc, List.singleton_append, linesFrom_line htext,
      ih fun other hother => h other (List.mem_cons_of_mem _ hother)]
    simp [hlast]

theorem not_blank_of_visible {text : String} (h : ∃ c ∈ text.toList, '!' ≤ c ∧ c ≤ '~') :
    Tui.isBlank text = false := by
  obtain ⟨c, hc, hlow, hhigh⟩ := h
  have hvisible : Tui.isWhitespace c = false := by
    have hlow' : 33 ≤ c.toNat := hlow
    have hhigh' : c.toNat ≤ 126 := hhigh
    simp only [Tui.isWhitespace, Bool.or_eq_false_iff, Bool.and_eq_false_imp, decide_eq_true_eq,
      decide_eq_false_iff_not]
    omega
  have hkept : ∀ letters : List Char, c ∈ letters → c ∈ letters.dropWhile Tui.isWhitespace := by
    intro letters hmem
    rw [← List.takeWhile_append_dropWhile (p := Tui.isWhitespace) (l := letters)] at hmem
    apply (List.mem_append.mp hmem).resolve_left
    intro hspace
    rw [List.mem_takeWhile_imp hspace] at hvisible
    cases hvisible
  have htrim : c ∈ (Tui.trim text).toList := by
    rw [Tui.trim, String.toList_ofList, List.mem_reverse]
    apply hkept
    rw [List.mem_reverse]
    exact hkept _ hc
  rw [Tui.isBlank, ← Bool.not_eq_true, String.isEmpty_iff]
  intro hempty
  rw [hempty] at htrim
  cases htrim

/-- A line that the codec printed is read as its value. -/
theorem decodeLine_print (reading : Reading) {value : JsonValue F} (h : value.Canonical) :
    decodeLine codec path reading (codec.print value) =
      decodeEntry codec path reading (codec.reread value) := by
  have hparse := codec.parse_print h
  have hvisible := not_blank_of_visible (codec.parse_visible hparse)
  simp only [decodeLine, hvisible, Bool.false_eq_true, if_false, hparse]

/-! ### Entries -/

theorem decodeEntry_modelChange (reading : Reading) (parent : Option String) (stamp : Stamp)
    (model : ModelDescriptor) :
    decodeEntry codec path reading (codec.reread (entry "model_change" parent stamp
        [("provider", .string model.provider), ("modelId", .string model.model)])) =
      .ok { reading with model := some { model with revision := none } } := by
  obtain ⟨fields, hfields, hlookup⟩ := codec.reread_object (entryFields "model_change" parent stamp
    [("provider", .string model.provider), ("modelId", .string model.model)])
  rw [entry, hfields]
  simp only [decodeEntry, expectObject, requiredString, JsonValue.asObject, JsonValue.asStr, bind,
    Except.bind, pure, Except.pure, hlookup, entryFields, List.reverse_cons, List.reverse_nil,
    List.nil_append, List.cons_append, JsonValue.lookupField, String.reduceEq, if_true, if_false,
    Option.map_some, Option.bind_some, codec.reread_string]

theorem decodeEntry_thinking (reading : Reading) (parent : Option String) (stamp : Stamp)
    (thinkingLevel : ThinkingLevel) :
    decodeEntry codec path reading (codec.reread (entry "thinking_level_change" parent stamp
        [("thinkingLevel", .string (thinkingName thinkingLevel))])) =
      .ok { reading with thinkingLevel } := by
  obtain ⟨fields, hfields, hlookup⟩ := codec.reread_object
    (entryFields "thinking_level_change" parent stamp
      [("thinkingLevel", .string (thinkingName thinkingLevel))])
  rw [entry, hfields]
  simp only [decodeEntry, expectObject, requiredString, JsonValue.asObject, JsonValue.asStr, bind,
    Except.bind, pure, Except.pure, hlookup, entryFields, List.reverse_cons, List.reverse_nil,
    List.nil_append, List.cons_append, JsonValue.lookupField, String.reduceEq, if_true, if_false,
    Option.map_some, Option.bind_some, codec.reread_string, parseThinking_name]

/-- A message without a model does not name one. -/
theorem modelOf_message (ms : UInt64) (message : AgentMessage) :
    let value := codec.reread (encodeMessage codec none ms message)
    ((modelOf (value.get "provider") (value.get "model")).filter fun model =>
      model.provider ≠ "" ∧ model.model ≠ "") = none := by
  intro value
  have hget : ∀ key, value.get key =
      (JsonValue.lookupField key (messageFields codec none ms message).reverse).map codec.reread :=
    fun key => codec.get_reread key _
  have hprovider : ∀ text, (value.get "provider").bind (·.asStr) = some text → text = "" := by
    intro text htext
    rw [hget] at htext
    cases message with
    | user id content => simp [messageFields, JsonValue.lookupField] at htext
    | assistant id content toolCalls stopReason errorMessage =>
      cases errorMessage
      all_goals
        simp [messageFields, JsonValue.lookupField, codec.reread_string, JsonValue.asStr] at htext
        exact htext
    | toolResult id toolCallId toolName content details usage addedToolNames terminate isError
        failure =>
      by_cases hempty : addedToolNames = []
      · simp [messageFields, JsonValue.lookupField, hempty] at htext
      · simp [messageFields, JsonValue.lookupField, hempty] at htext
  unfold modelOf
  split
  · rename_i provider model hfirst hsecond
    rw [hprovider provider hfirst]
    simp
  · rfl

/-- A message entry appends the message; the model is the one of the recording, or none
    as long as none is named. -/
theorem decodeEntry_message (reading : Reading) (parent : Option String) (stamp : Stamp)
    (model : Option ModelDescriptor) (message : AgentMessage)
    (hmodel : model = none ∨ reading.model.isSome = true) (hsame : model = none →
      reading.model = none) :
    decodeEntry codec path reading (codec.reread (entry "message" parent stamp
        [("message", encodeMessage codec model stamp.messageMs message)])) =
      .ok { reading with messages := reading.messages ++
        [rereadMessage codec ⟨UInt64.ofNat (reading.messages.length + 1)⟩ message] } := by
  obtain ⟨fields, hfields, hlookup⟩ := codec.reread_object (entryFields "message" parent stamp
    [("message", encodeMessage codec model stamp.messageMs message)])
  rw [entry, hfields]
  simp only [decodeEntry, expectObject, requiredString, JsonValue.asObject, JsonValue.asStr, bind,
    Except.bind, pure, Except.pure, hlookup, entryFields, List.reverse_cons, List.reverse_nil,
    List.nil_append, List.cons_append, JsonValue.lookupField, String.reduceEq, if_true, if_false,
    Option.map_some, Option.bind_some, codec.reread_string, decodeMessage_encode]
  congr 2
  split_ifs with hnone
  · have hmissing : model = none := by
      apply hmodel.resolve_right
      rw [Option.isNone_iff_eq_none.mp hnone.1]
      simp
    subst hmissing
    rw [hsame rfl]
    exact modelOf_message stamp.messageMs message
  · rfl

/-- The messages as they are read back, numbered from `n + 1`. -/
def rereadMessages (codec : JsonCodec F) : Nat → List AgentMessage → List AgentMessage
  | _, [] => []
  | n, message :: messages =>
      rereadMessage codec ⟨UInt64.ofNat (n + 1)⟩ message :: rereadMessages codec (n + 1) messages

theorem decodeLines_messages (model : Option ModelDescriptor) (messages : List AgentMessage)
    (parent : Option String) (stamps : Nat → Stamp) (reading : Reading)
    (hmodel : model = none ∨ reading.model.isSome = true)
    (hsame : model = none → reading.model = none) :
    ((encodeMessages codec model parent stamps messages).map codec.print).foldlM
        (decodeLine codec path) reading =
      .ok { reading with
        messages := reading.messages ++
          rereadMessages codec reading.messages.length messages } := by
  induction messages generalizing parent stamps reading with
  | nil => simp [encodeMessages, rereadMessages, pure, Except.pure]
  | cons message messages ih =>
    have hcanonical : (entry "message" parent (stamps 0)
        [("message", encodeMessage codec model (stamps 0).messageMs message)]).Canonical := by
      apply canonical_entry
      intro field hfield
      rw [List.mem_singleton.mp hfield]
      exact canonical_message model _ message
    rw [encodeMessages, List.map_cons, List.foldlM_cons, decodeLine_print reading hcanonical,
      decodeEntry_message reading parent (stamps 0) model message hmodel hsame]
    simp only [bind, Except.bind]
    rw [ih]
    · simp [rereadMessages]
    · exact hmodel
    · exact hsame

/-! ### Files -/

/-- A record as it is read back. -/
def rereadRecord (codec : JsonCodec F) (record : SessionRecord) : SessionRecord :=
  { record with
    model := record.model.map fun model => { model with revision := none }
    messages := rereadMessages codec 0 record.messages }

theorem canonical_messages (model : Option ModelDescriptor) (parent : Option String)
    (stamps : Nat → Stamp) (messages : List AgentMessage) :
    ∀ value ∈ encodeMessages codec model parent stamps messages, value.Canonical := by
  induction messages generalizing parent stamps with
  | nil =>
    intro value hvalue
    cases hvalue
  | cons message messages ih =>
    intro value hvalue
    rcases List.mem_cons.mp hvalue with rfl | hvalue
    · apply canonical_entry
      intro field hfield
      rw [List.mem_singleton.mp hfield]
      exact canonical_message model _ message
    · exact ih _ _ value hvalue

theorem canonical_file (record : SessionRecord) (stamps : Nat → Stamp) :
    ∀ value ∈ encodeFile codec record stamps, value.Canonical := by
  have hheader : (JsonValue.object (headerFields record) : JsonValue F).Canonical :=
    canonical_fields ⟨.string _, .number _, .string _, .string _, .string _⟩
  have hthinking : ∀ parent stamp, (entry "thinking_level_change" parent stamp
      [("thinkingLevel", .string (thinkingName record.thinkingLevel))] :
        JsonValue F).Canonical := by
    intro parent stamp
    apply canonical_entry
    intro field hfield
    rw [List.mem_singleton.mp hfield]
    exact .string _
  intro value hvalue
  unfold encodeFile at hvalue
  dsimp only at hvalue
  split at hvalue
  · rename_i model _
    simp only [List.mem_cons] at hvalue
    rcases hvalue with rfl | rfl | rfl | hvalue
    · exact hheader
    · apply canonical_entry
      intro field hfield
      exact canonical_member hfield ⟨.string _, .string _⟩
    · exact hthinking _ _
    · exact canonical_messages _ _ _ _ value hvalue
  · simp only [List.mem_cons] at hvalue
    rcases hvalue with rfl | rfl | hvalue
    · exact hheader
    · exact hthinking _ _
    · exact canonical_messages _ _ _ _ value hvalue

theorem linesOf_source (record : SessionRecord) (stamps : Nat → Stamp) :
    linesOf (encodeSource codec record stamps) =
      (encodeFile codec record stamps).map codec.print := by
  have hlines : ∀ text ∈ (encodeFile codec record stamps).map codec.print, OneLine text := by
    intro text htext
    obtain ⟨value, -, rfl⟩ := List.mem_map.mp htext
    exact codec.print_line value
  rw [← linesOf_join hlines, encodeSource, List.map_map]
  rfl

theorem encodeFile_header (record : SessionRecord) (stamps : Nat → Stamp) :
    encodeFile codec record stamps =
      .object (headerFields record) :: (encodeFile codec record stamps).tail := by
  unfold encodeFile
  dsimp only
  cases record.model <;> rfl

/-- The entries behind the header, read one by one. -/
theorem decodeLines_entries (codec : JsonCodec F) (path : String) (record : SessionRecord)
    (stamps : Nat → Stamp) :
    ((encodeFile codec record stamps).tail.map codec.print).foldlM (decodeLine codec path)
        { model := none, thinkingLevel := .off, messages := [] } =
      .ok {
        model := (rereadRecord codec record).model
        thinkingLevel := record.thinkingLevel
        messages := rereadMessages codec 0 record.messages } := by
  have hcanonical : ∀ value ∈ (encodeFile codec record stamps).tail, value.Canonical := by
    intro value hvalue
    exact canonical_file record stamps value (List.mem_of_mem_tail hvalue)
  unfold encodeFile rereadRecord at *
  dsimp only at hcanonical ⊢
  cases hmodel : record.model with
  | none =>
    simp only [hmodel, List.tail_cons, List.map_cons] at hcanonical ⊢
    rw [List.foldlM_cons, decodeLine_print _ (hcanonical _ List.mem_cons_self),
      decodeEntry_thinking]
    simp only [bind, Except.bind]
    rw [decodeLines_messages none]
    · rfl
    · exact .inl rfl
    · exact fun _ => rfl
  | some model =>
    simp only [hmodel, List.tail_cons, List.map_cons] at hcanonical ⊢
    rw [List.foldlM_cons, decodeLine_print _ (hcanonical _ List.mem_cons_self),
      decodeEntry_modelChange]
    simp only [bind, Except.bind]
    rw [List.foldlM_cons,
      decodeLine_print _ (hcanonical _ (List.mem_cons_of_mem _ List.mem_cons_self)),
      decodeEntry_thinking]
    simp only [bind, Except.bind]
    rw [decodeLines_messages (some model)]
    · rfl
    · exact .inr rfl
    · intro hnone
      cases hnone

/-- **A written session** is read back. -/
theorem decodeSource_encode {record : SessionRecord} (hid : validateSessionId record.id = .ok ())
    (stamps : Nat → Stamp) :
    decodeSource codec path (encodeSource codec record stamps) =
      .ok (rereadRecord codec record) := by
  obtain ⟨fields, hfields, hlookup⟩ := codec.reread_object (headerFields record)
  have hheader : (JsonValue.object (headerFields record) : JsonValue F).Canonical :=
    canonical_fields ⟨.string _, .number _, .string _, .string _, .string _⟩
  have hentries := decodeLines_entries codec path record stamps
  have hversion : ¬ ¬ ((1 : UInt64) ≤ SESSION_VERSION ∧ SESSION_VERSION ≤ SESSION_VERSION) := by
    decide
  unfold decodeSource
  rw [linesOf_source, encodeFile_header, List.map_cons]
  simp only [codec.parse_print hheader, hfields]
  simp only [expectObject, requiredString, modelOf,
    JsonValue.asObject, JsonValue.asStr, JsonValue.asU64, bind, Except.bind, pure, Except.pure,
    hlookup, headerFields, List.reverse_cons, List.reverse_nil, List.nil_append, List.cons_append,
    JsonValue.lookupField, String.reduceEq, if_false, if_true, Option.map_some, Option.map_none,
    Option.bind_some, Option.bind_none, codec.reread_string, codec.reread_unsigned,
    Option.getD_some, if_neg hversion, hid, hentries, ne_eq, not_true_eq_false]
  rfl

theorem decodeFile_encode {record : SessionRecord} (hid : validateSessionId record.id = .ok ())
    (stamps : Nat → Stamp)
    (hsize : (encodeUtf8 (encodeSource codec record stamps).toList).length ≤ MAX_SESSION_BYTES) :
    decodeFile codec path (encodeUtf8 (encodeSource codec record stamps).toList) =
      .ok (rereadRecord codec record) := by
  rw [decodeFile, if_neg (by omega), fromUtf8_encode]
  simp only [String.ofList_toList]
  exact decodeSource_encode hid stamps

end Tea.Session
