/-
  Tea/Provider/OpenAi.lean
  ========================
  **The conversion of a transcript** into an OpenAI message array (`OpenAiContextHook` of
  `provider/openai.rs`).  Such an array has no numbers, so it is read back as it was
  printed (`Textual.reread`) and equals itself (`Textual.same`).
-/

import Tea.Encoding.Json
import Tea.Run.Context

namespace Tea.Encoding

variable {F : Type}

/-! ### Comparison of values -/

namespace JsonValue

/-- `PartialEq` of numbers, with that of fractions. -/
def sameNumber (same : F → F → Bool) : JsonNumber F → JsonNumber F → Bool
  | .signed a, .signed b => a == b
  | .unsigned a, .unsigned b => a == b
  | .float a, .float b => same a b
  | _, _ => false

mutual

/-- `PartialEq` of values. -/
def sameValue (same : F → F → Bool) : JsonValue F → JsonValue F → Bool
  | .null, .null => true
  | .bool a, .bool b => a == b
  | .number a, .number b => sameNumber same a b
  | .string a, .string b => a == b
  | .array a, .array b => sameItems same a b
  | .mapping a, .mapping b => sameFields same a b
  | _, _ => false

def sameItems (same : F → F → Bool) : List (JsonValue F) → List (JsonValue F) → Bool
  | [], [] => true
  | a :: as, b :: bs => sameValue same a b && sameItems same as bs
  | _, _ => false

def sameFields (same : F → F → Bool) :
    List (String × JsonValue F) → List (String × JsonValue F) → Bool
  | [], [] => true
  | (key, a) :: as, (name, b) :: bs => key == name && sameValue same a b && sameFields same as bs
  | _, _ => false

end

/-- A value without numbers. -/
inductive Textual : JsonValue F → Prop
  | null : Textual .null
  | bool (b : Bool) : Textual (.bool b)
  | string (s : String) : Textual (.string s)
  | array {values : List (JsonValue F)} (parts : ∀ v ∈ values, Textual v) : Textual (.array values)
  | mapping {fields : List (String × JsonValue F)} (parts : ∀ field ∈ fields, Textual field.2) :
      Textual (.mapping fields)

/-- The fields of an object are among its pairs. -/
theorem object_fields (pairs : List (String × JsonValue F)) :
    ∃ fields, object pairs = .mapping fields ∧ ∀ field ∈ fields, field ∈ pairs := by
  have hfold : ∀ fields : List (String × JsonValue F),
      ∀ field ∈ pairs.foldl (fun fields pair => insertField pair.1 pair.2 fields) fields,
        field ∈ fields ∨ field ∈ pairs := by
    induction pairs with
    | nil =>
      intro fields field hfield
      exact .inl hfield
    | cons pair pairs ih =>
      intro fields field hfield
      rcases ih _ field hfield with hin | hin
      · rcases insertField_keys hin with heq | hold
        · exact .inr (heq ▸ List.mem_cons_self)
        · exact .inl hold
      · exact .inr (List.mem_cons_of_mem _ hin)
  refine ⟨_, rfl, ?_⟩
  intro field hfield
  rcases hfold [] field hfield with hin | hin
  · cases hin
  · exact hin

theorem textual_object {pairs : List (String × JsonValue F)}
    (h : ∀ pair ∈ pairs, Textual pair.2) : Textual (object pairs) := by
  obtain ⟨fields, heq, hfields⟩ := object_fields pairs
  rw [heq]
  apply Textual.mapping
  intro field hfield
  exact h field (hfields field hfield)

/-- A value without numbers equals itself. -/
theorem Textual.same {same : F → F → Bool} {v : JsonValue F} (h : Textual v) :
    sameValue same v v = true := by
  induction h with
  | null => rfl
  | bool b => exact beq_self_eq_true b
  | string s => exact beq_self_eq_true s
  | @array values _ ih =>
    rw [sameValue]
    induction values with
    | nil => rfl
    | cons v values ihv =>
      rw [sameItems, ih v List.mem_cons_self, Bool.true_and]
      apply ihv
      · intro w hw
        exact ‹∀ v ∈ _, Textual v› w (List.mem_cons_of_mem _ hw)
      · intro w hw
        exact ih w (List.mem_cons_of_mem _ hw)
  | @mapping fields _ ih =>
    rw [sameValue]
    induction fields with
    | nil => rfl
    | cons field fields ihf =>
      obtain ⟨key, v⟩ := field
      rw [sameFields, beq_self_eq_true, ih (key, v) List.mem_cons_self, Bool.true_and,
        Bool.true_and]
      apply ihf
      · intro other hother
        exact ‹∀ field ∈ _, Textual field.2› other (List.mem_cons_of_mem _ hother)
      · intro other hother
        exact ih other (List.mem_cons_of_mem _ hother)

theorem same_items {same : F → F → Bool} {values : List (JsonValue F)}
    (h : ∀ v ∈ values, Textual v) : sameItems same values values = true := by
  have hsame : sameValue same (.array values) (.array values) = true := (Textual.array h).same
  rwa [sameValue] at hsame

end JsonValue

open JsonValue

/-- A value without numbers is read back as it is. -/
theorem JsonCodec.reread_textual (codec : JsonCodec F) {v : JsonValue F} (h : Textual v) :
    codec.reread v = v := by
  induction h with
  | null => exact codec.reread_null
  | bool b => exact codec.reread_bool b
  | string s => exact codec.reread_string s
  | array _ ih =>
    rw [codec.reread_array, List.map_congr_left ih, List.map_id']
  | @mapping fields _ ih =>
    have hfields : ∀ field ∈ fields, (field.1, codec.reread field.2) = field := by
      intro field hfield
      rw [ih field hfield]
    rw [codec.reread_mapping, List.map_congr_left hfields, List.map_id']

end Tea.Encoding

namespace Tea.Provider

open Tea.Core Tea.Run Tea.Encoding Tea.Encoding.JsonValue

variable {F : Type}

/-! ### Messages -/

def openaiCall (call : AgentToolCall) : JsonValue F :=
  .object [
    ("id", .string call.id.text),
    ("type", .string "function"),
    ("function", .object [
      ("name", .string call.name),
      ("arguments", .string call.arguments.text)])]

/-- `openai_message` -/
def openaiMessage : AgentMessage → JsonValue F
  | .user _ content => .object [("role", .string "user"), ("content", .string content)]
  | .assistant _ content toolCalls _ _ =>
      .object [
        ("role", .string "assistant"),
        ("content", if content = "" then .null else .string content),
        ("tool_calls", .array (toolCalls.map openaiCall))]
  | .toolResult _ toolCallId _ content details _ _ _ isError _ =>
      let modelContent := match details with
        | some details =>
            content ++ "\n[tool details (serialized JSON): " ++
              truncateMiddle details.text ({} : ToolResultProjectionPolicy).maxDetailsBytes ++ "]"
        | none => content
      .object [
        ("role", .string "tool"),
        ("tool_call_id", .string toolCallId.text),
        ("content", .string modelContent),
        ("is_error", .bool isError)]

/-- `OpenAiContextHook::convert_to_llm` -/
def openaiConvert (codec : JsonCodec F) (context : ContextEnvelope) : Except HookError String :=
  .ok (codec.print (.array (context.messages.map openaiMessage)))

/-- What holds of texts, flags and null, and of arrays and objects of such values, holds of
    a message. -/
theorem openaiMessage_built {P : JsonValue F → Prop} (null : P .null) (flag : ∀ b, P (.bool b))
    (text : ∀ s, P (.string s)) (array : ∀ values, (∀ v ∈ values, P v) → P (.array values))
    (build : ∀ pairs : List (String × JsonValue F), (∀ pair ∈ pairs, P pair.2) → P (object pairs))
    (message : AgentMessage) : P (openaiMessage message) := by
  have hbuild : ∀ pairs : List (String × JsonValue F), (pairs.Forall fun pair => P pair.2) →
      P (object pairs) := by
    intro pairs hpairs
    apply build
    exact List.forall_iff_forall_mem.mp hpairs
  have hcall : ∀ call : AgentToolCall, P (openaiCall call) := by
    intro call
    have hfunction := hbuild [("name", .string call.name),
      ("arguments", .string call.arguments.text)] ⟨text _, text _⟩
    apply hbuild
    exact ⟨text _, text _, hfunction⟩
  cases message with
  | user id content =>
    apply hbuild
    exact ⟨text _, text _⟩
  | assistant id content calls reason error =>
    apply hbuild
    refine ⟨text _, ?_, ?_⟩
    · dsimp only
      split_ifs
      · exact null
      · exact text _
    · apply array
      intro v hv
      obtain ⟨call, -, rfl⟩ := List.mem_map.mp hv
      exact hcall call
  | toolResult id callId name content details usage added terminate isError failure =>
    apply hbuild
    exact ⟨text _, text _, text _, flag _⟩

theorem textual_openaiMessage (message : AgentMessage) :
    Textual (openaiMessage message : JsonValue F) :=
  openaiMessage_built .null .bool .string (fun _ h => .array h) (fun _ h => textual_object h)
    message

theorem canonical_openaiMessage (message : AgentMessage) :
    Canonical (openaiMessage message : JsonValue F) :=
  openaiMessage_built .null .bool .string (fun _ h => .array h) (fun _ h => canonical_object h)
    message

/-- **A converted transcript is read back** message by message. -/
theorem parse_openaiConvert (codec : JsonCodec F) (messages : List AgentMessage) :
    codec.parse (codec.print (.array (messages.map openaiMessage))) =
      some (.array (messages.map openaiMessage)) := by
  have hcanonical : Canonical (.array (messages.map openaiMessage) : JsonValue F) := by
    apply Canonical.array
    intro v hv
    obtain ⟨message, -, rfl⟩ := List.mem_map.mp hv
    exact canonical_openaiMessage message
  have htextual : Textual (.array (messages.map openaiMessage) : JsonValue F) := by
    apply Textual.array
    intro v hv
    obtain ⟨message, -, rfl⟩ := List.mem_map.mp hv
    exact textual_openaiMessage message
  rw [codec.parse_print hcanonical, codec.reread_textual htextual]

end Tea.Provider
