/-
  Tea/Trace/Record.lean
  =====================
  **What a trace record says**, apart from how it is written: the named fields of an event, and
  the event that fields describe.  Both encodings write these fields and nothing else
  (`writeCborEvent_eq`, `writeJsonEvent_eq`).
-/
import Tea.Trace.Encoding

namespace Tea.Trace

open Tea.Encoding

/-! ### Fields -/

inductive Field where
  | null
  | number (value : UInt64)
  | text (value : String)
  | texts (entries : List (String × String))
deriving DecidableEq

abbrev Fields := List (String × Field)

def optionalText : Option String → Field
  | some value => .text value
  | none => .null

def optionalNumber : Option UInt64 → Field
  | some value => .number value
  | none => .null

/-- The fields of an event behind its type. -/
def detailFields : TraceEvent → Fields
  | .episodeHeader header =>
    [("episode_id", .text header.episodeId), ("metadata", .texts header.metadata),
      ("started_at_ms", optionalNumber header.startedAtMs)]
  | .turn turn =>
    [("index", .number turn.index.toUInt64), ("input", .text turn.input),
      ("output", optionalText turn.output), ("stop_reason", optionalText turn.stopReason)]
  | .tool tool =>
    [("turn_index", .number tool.turnIndex.toUInt64), ("call_id", .text tool.callId),
      ("name", .text tool.name), ("input", .text tool.input),
      ("output", optionalText tool.output), ("error", optionalText tool.error)]
  | .episodeEnd episodeEnd =>
    [("reason", .text (endReasonName episodeEnd.reason)),
      ("error", optionalText episodeEnd.error),
      ("finished_at_ms", optionalNumber episodeEnd.finishedAtMs)]

def eventFields (event : TraceEvent) : Fields :=
  ("schema_version", .number traceSchemaVersion.toUInt64) ::
    ("type", .text (eventType event)) :: detailFields event

/-! ### Events of fields -/

def fieldOf (fields : Fields) (key : String) : Option Field :=
  (fields.find? fun field => field.1 = key).map (·.2)

def Field.asText : Field → Option String
  | .text value => some value
  | _ => none

def Field.asOptionalText : Field → Option (Option String)
  | .text value => some (some value)
  | .null => some none
  | _ => none

def Field.asNumber : Field → Option UInt64
  | .number value => some value
  | _ => none

def Field.asOptionalNumber : Field → Option (Option UInt64)
  | .number value => some (some value)
  | .null => some none
  | _ => none

def Field.asIndex (field : Field) : Option UInt32 :=
  field.asNumber.bind fun value => if value.toNat < 4294967296 then some value.toUInt32 else none

def Field.asTexts : Field → Option (List (String × String))
  | .texts entries => some entries
  | _ => none

def reasonOf (name : String) : EndReason :=
  if name = "completed" then .completed
  else if name = "cancelled" then .cancelled
  else if name = "failed" then .failed
  else if name = "aborted" then .aborted
  else .other name

/-- The event that a record of the current schema describes. -/
def ofFields (fields : Fields) : Option TraceEvent :=
  let text key := (fieldOf fields key).bind Field.asText
  let optionalText key := (fieldOf fields key).bind Field.asOptionalText
  let optionalNumber key := (fieldOf fields key).bind Field.asOptionalNumber
  let index key := (fieldOf fields key).bind Field.asIndex
  if fieldOf fields "schema_version" ≠ some (.number traceSchemaVersion.toUInt64) then none
  else if text "type" = some "episode_header" then do
    let episodeId ← text "episode_id"
    let metadata ← (fieldOf fields "metadata").bind Field.asTexts
    let startedAtMs ← optionalNumber "started_at_ms"
    some (.episodeHeader { episodeId, metadata, startedAtMs })
  else if text "type" = some "turn" then do
    let index ← index "index"
    let input ← text "input"
    let output ← optionalText "output"
    let stopReason ← optionalText "stop_reason"
    some (.turn { index, input, output, stopReason })
  else if text "type" = some "tool" then do
    let turnIndex ← index "turn_index"
    let callId ← text "call_id"
    let name ← text "name"
    let input ← text "input"
    let output ← optionalText "output"
    let error ← optionalText "error"
    some (.tool { turnIndex, callId, name, input, output, error })
  else if text "type" = some "episode_end" then do
    let reason ← text "reason"
    let error ← optionalText "error"
    let finishedAtMs ← optionalNumber "finished_at_ms"
    some (.episodeEnd { reason := reasonOf reason, error, finishedAtMs })
  else none

/-- The event as a record tells it: the name of a standard reason is that reason. -/
def told : TraceEvent → TraceEvent
  | .episodeEnd episodeEnd =>
    .episodeEnd { episodeEnd with reason := reasonOf (endReasonName episodeEnd.reason) }
  | event => event

@[simp] theorem asOptionalText_optionalText (value : Option String) :
    (optionalText value).asOptionalText = some value := by cases value <;> rfl

@[simp] theorem asOptionalNumber_optionalNumber (value : Option UInt64) :
    (optionalNumber value).asOptionalNumber = some value := by cases value <;> rfl

@[simp] theorem asIndex_number (index : UInt32) :
    (Field.number index.toUInt64).asIndex = some index := by
  have hlt := index.toNat_lt
  simp [Field.asIndex, Field.asNumber]
  omega

theorem fieldOf_cons (name key : String) (field : Field) (fields : Fields) :
    fieldOf ((name, field) :: fields) key =
      if name = key then some field else fieldOf fields key := by
  unfold fieldOf
  rw [List.find?_cons]
  by_cases h : name = key
  · simp [h]
  · simp [h]

/-- **The fields of an event describe it.** -/
theorem ofFields_eventFields (event : TraceEvent) :
    ofFields (eventFields event) = some (told event) := by
  cases event with
  | episodeHeader header =>
    simp [ofFields, eventFields, detailFields, eventType, fieldOf_cons, Field.asText,
      Field.asTexts, told]
  | turn turn =>
    simp [ofFields, eventFields, detailFields, eventType, fieldOf_cons, Field.asText, told]
  | tool tool =>
    simp [ofFields, eventFields, detailFields, eventType, fieldOf_cons, Field.asText, told]
  | episodeEnd episodeEnd =>
    simp [ofFields, eventFields, detailFields, eventType, fieldOf_cons, Field.asText, told]

/-- A host names no reason of its own like a standard one. -/
def Plain : TraceEvent → Prop
  | .episodeEnd ⟨.other name, _, _⟩ => name ∉ ["completed", "cancelled", "failed", "aborted"]
  | _ => True

theorem told_of_plain {event : TraceEvent} (h : Plain event) : told event = event := by
  cases event with
  | episodeEnd episodeEnd =>
    obtain ⟨reason, error, finishedAtMs⟩ := episodeEnd
    cases reason with
    | other name =>
      simp only [Plain, List.mem_cons, List.not_mem_nil, or_false, not_or] at h
      simp [told, endReasonName, reasonOf, h]
    | completed => rfl
    | cancelled => simp [told, endReasonName, reasonOf]
    | failed => simp [told, endReasonName, reasonOf]
    | aborted => simp [told, endReasonName, reasonOf]
  | episodeHeader header => rfl
  | turn turn => rfl
  | tool tool => rfl

theorem endReasonName_reasonOf (name : String) : endReasonName (reasonOf name) = name := by
  unfold reasonOf
  split_ifs with hcompleted hcancelled hfailed haborted
  · exact hcompleted.symm
  · exact hcancelled.symm
  · exact hfailed.symm
  · exact haborted.symm
  · rfl

theorem eventFields_told (event : TraceEvent) : eventFields (told event) = eventFields event := by
  cases event with
  | episodeEnd episodeEnd =>
    simp [eventFields, detailFields, eventType, told, endReasonName_reasonOf]
  | episodeHeader header => rfl
  | turn turn => rfl
  | tool tool => rfl

/-! ### CBOR records -/

def cborField : Field → List UInt8
  | .null => [0xf6]
  | .number value => Cbor.head 0 value.toNat
  | .text value => Cbor.text value
  | .texts entries =>
    Cbor.head 5 entries.length ++
      entries.flatMap fun entry => Cbor.text entry.1 ++ Cbor.text entry.2

def cborRecord (fields : Fields) : List UInt8 :=
  Cbor.head 5 fields.length ++ fields.flatMap fun field => Cbor.text field.1 ++ cborField field.2

/-- The lengths inside of a field have heads. -/
def SizedField : Field → Prop
  | .text value => Cbor.Sized value
  | .texts entries =>
    entries.length < byteRange 8 ∧ ∀ entry ∈ entries, Cbor.Sized entry.1 ∧ Cbor.Sized entry.2
  | _ => True

instance decidableSizedField : (field : Field) → Decidable (SizedField field)
  | .null => isTrue trivial
  | .number _ => isTrue trivial
  | .text value => inferInstanceAs (Decidable (Cbor.Sized value))
  | .texts entries =>
    inferInstanceAs (Decidable (entries.length < byteRange 8 ∧
      ∀ entry ∈ entries, Cbor.Sized entry.1 ∧ Cbor.Sized entry.2))

/-- The texts of an event have lengths of 64 bits, as those in a memory have. -/
def InMemory (event : TraceEvent) : Prop := ∀ field ∈ eventFields event, SizedField field.2

instance (event : TraceEvent) : Decidable (InMemory event) :=
  inferInstanceAs (Decidable (∀ field ∈ eventFields event, SizedField field.2))

theorem shifted_or {major : UInt8} (hmajor : major.toNat < 8) {info : Nat} (hinfo : info < 32) :
    (major <<< 5) ||| UInt8.ofNat info = Cbor.initial major.toNat info := by
  have hall : ∀ m < 8, ∀ i < 32,
      (UInt8.ofNat m <<< 5) ||| UInt8.ofNat i = Cbor.initial m i := by decide
  have h := hall major.toNat hmajor info hinfo
  rwa [UInt8.ofNat_toNat] at h

theorem cborMajorLength_eq {major : UInt8} (hmajor : major.toNat < 8) (value : UInt64) :
    cborMajorLength major value = Cbor.head major.toNat value.toNat := by
  have hbyte : value.toUInt8 = UInt8.ofNat value.toNat := by
    apply UInt8.toNat_inj.mp
    simp
  unfold cborMajorLength Cbor.head
  by_cases hsmall : value.toNat < 24
  · rw [if_pos (by omega), if_pos hsmall, hbyte, shifted_or hmajor (by omega)]
  · rw [if_neg (by omega), if_neg hsmall]
    by_cases hbytes : value.toNat < 256
    · rw [if_pos (by omega), if_pos hbytes, hbyte,
        show (24 : UInt8) = UInt8.ofNat 24 from rfl, shifted_or hmajor (by omega)]
      simp [Cbor.beBytes, leBytes, Nat.mod_eq_of_lt hbytes]
    · rw [if_neg (by omega), if_neg hbytes]
      by_cases hshort : value.toNat < 65536
      · rw [if_pos (by omega), if_pos hshort, show (25 : UInt8) = UInt8.ofNat 25 from rfl,
          shifted_or hmajor (by omega), UInt64.toNat_toUInt16, Nat.mod_eq_of_lt (by omega)]
      · rw [if_neg (by omega), if_neg hshort]
        by_cases hword : value.toNat < 4294967296
        · rw [if_pos (by omega), if_pos hword, show (26 : UInt8) = UInt8.ofNat 26 from rfl,
            shifted_or hmajor (by omega), UInt64.toNat_toUInt32, Nat.mod_eq_of_lt (by omega)]
        · rw [if_neg (by omega), if_neg hword, show (27 : UInt8) = UInt8.ofNat 27 from rfl,
            shifted_or hmajor (by omega)]

theorem byteRange_eight : byteRange 8 = 18446744073709551616 := by decide

theorem cborUnsigned_eq (value : UInt64) : cborUnsigned value = Cbor.head 0 value.toNat :=
  cborMajorLength_eq (by decide) value

theorem cborText_eq {value : String} (h : Cbor.Sized value) :
    cborText value = Cbor.text value := by
  unfold cborText Cbor.text
  rw [Cbor.Sized, byteRange_eight] at h
  rw [cborMajorLength_eq (by decide), UInt64.toNat_ofNat', Nat.mod_eq_of_lt (by omega)]
  rfl

theorem cborMap_eq {length : Nat} (h : length < byteRange 8) :
    cborMap length = Cbor.head 5 length := by
  unfold cborMap
  rw [byteRange_eight] at h
  rw [cborMajorLength_eq (by decide), UInt64.toNat_ofNat', Nat.mod_eq_of_lt (by omega)]
  rfl

theorem cborOptionalText_eq {value : Option String} (h : SizedField (optionalText value)) :
    cborOptionalText value = cborField (optionalText value) := by
  cases value with
  | none => rfl
  | some value => exact cborText_eq h

theorem cborOptionalUnsigned_eq (value : Option UInt64) :
    cborOptionalUnsigned value = cborField (optionalNumber value) := by
  cases value with
  | none => rfl
  | some value => exact cborUnsigned_eq value

theorem flatMap_entries {entries : List (String × String)} (h : SizedField (.texts entries)) :
    (entries.flatMap fun entry => cborText entry.1 ++ cborText entry.2) =
      entries.flatMap fun entry => Cbor.text entry.1 ++ Cbor.text entry.2 := by
  apply List.flatMap_congr
  intro entry hentry
  obtain ⟨hkey, hvalue⟩ := h.2 entry hentry
  rw [cborText_eq hkey, cborText_eq hvalue]

/-- **A CBOR record** is a map of the fields. -/
theorem writeCborEvent_eq {event : TraceEvent} (h : InMemory event) :
    writeCborEvent event = cborRecord (eventFields event) := by
  have hfield : ∀ name field, (name, field) ∈ detailFields event → SizedField field := by
    intro name field hmem
    exact h (name, field) (List.mem_cons_of_mem _ (List.mem_cons_of_mem _ hmem))
  cases event with
  | episodeHeader header =>
    have hid : Cbor.Sized header.episodeId := hfield "episode_id" (.text _) (by simp [detailFields])
    have hmetadata := hfield "metadata" (.texts header.metadata) (by simp [detailFields])
    simp (disch := first | assumption | decide) only [writeCborEvent, writeCborHeader, cborRecord,
      eventFields, detailFields, eventType, cborFieldCount, cborText_eq, cborUnsigned_eq,
      cborMap_eq hmetadata.1, cborMap_eq, cborOptionalUnsigned_eq, flatMap_entries hmetadata,
      cborField, List.flatMap_cons, List.flatMap_nil, List.length_cons, List.length_nil,
      List.append_assoc, List.append_nil]
  | turn turn =>
    have hinput : Cbor.Sized turn.input := hfield "input" (.text _) (by simp [detailFields])
    have houtput := hfield "output" (optionalText turn.output) (by simp [detailFields])
    have hreason := hfield "stop_reason" (optionalText turn.stopReason) (by simp [detailFields])
    simp (disch := first | assumption | decide) only [writeCborEvent, writeCborTurn, cborRecord,
      eventFields, detailFields, eventType, cborFieldCount, cborText_eq, cborUnsigned_eq,
      cborMap_eq, cborOptionalText_eq, cborField, List.flatMap_cons, List.flatMap_nil,
      List.length_cons, List.length_nil, List.append_assoc, List.append_nil]
  | tool tool =>
    have hid : Cbor.Sized tool.callId := hfield "call_id" (.text _) (by simp [detailFields])
    have hname : Cbor.Sized tool.name := hfield "name" (.text _) (by simp [detailFields])
    have hinput : Cbor.Sized tool.input := hfield "input" (.text _) (by simp [detailFields])
    have houtput := hfield "output" (optionalText tool.output) (by simp [detailFields])
    have herror := hfield "error" (optionalText tool.error) (by simp [detailFields])
    simp (disch := first | assumption | decide) only [writeCborEvent, writeCborTool, cborRecord,
      eventFields, detailFields, eventType, cborFieldCount, cborText_eq, cborUnsigned_eq,
      cborMap_eq, cborOptionalText_eq, cborField, List.flatMap_cons, List.flatMap_nil,
      List.length_cons, List.length_nil, List.append_assoc, List.append_nil]
  | episodeEnd episodeEnd =>
    have hreason : Cbor.Sized (endReasonName episodeEnd.reason) :=
      hfield "reason" (.text _) (by simp [detailFields])
    have herror := hfield "error" (optionalText episodeEnd.error) (by simp [detailFields])
    simp (disch := first | assumption | decide) only [writeCborEvent, writeCborEnd, cborRecord,
      eventFields, detailFields, eventType, cborFieldCount, cborText_eq, cborUnsigned_eq,
      cborMap_eq, cborOptionalText_eq, cborOptionalUnsigned_eq, cborField, List.flatMap_cons,
      List.flatMap_nil, List.length_cons, List.length_nil, List.append_assoc, List.append_nil]

/-! ### JSON records -/

def fieldJson : Field → JsonValue Decimal
  | .null => .null
  | .number value => .number (.unsigned value)
  | .text value => .string value
  | .texts entries => .mapping (entries.map fun entry => (entry.1, .string entry.2))

def recordJson (fields : Fields) : JsonValue Decimal :=
  .mapping (fields.map fun field => (field.1, fieldJson field.2))

/-- The fields of a printed object behind its first one. -/
theorem printFields_eq (fields : List (String × JsonValue Decimal)) :
    printFields fields =
      (fields.flatMap fun field => ',' :: (printString field.1 ++ ':' :: printValue field.2)) ++
        ['\x7d'] := by
  induction fields with
  | nil => rfl
  | cons field fields ih =>
    obtain ⟨key, value⟩ := field
    rw [printFields, ih, List.flatMap_cons]
    simp

theorem jsonMap_eq (entries : List (String × String)) :
    jsonMap entries = printValue (fieldJson (.texts entries)) := by
  cases entries with
  | nil => rfl
  | cons entry entries =>
    rw [fieldJson, List.map_cons, printValue, printFields_eq]
    have htail : ∀ first : List Char,
        [','].intercalate (first :: entries.map fun entry => jsonFieldString entry.1 entry.2) =
          first ++ entries.flatMap fun entry => ',' :: jsonFieldString entry.1 entry.2 := by
      induction entries with
      | nil => simp
      | cons next entries ih =>
        intro first
        rw [List.map_cons, List.intercalate_cons_cons, ih, List.flatMap_cons]
        simp
    rw [jsonMap, List.map_cons, htail, List.flatMap_map]
    simp [jsonFieldString, jsonFieldName, jsonString, printValue]

theorem jsonFieldOptionalString_eq (name : String) (value : Option String) :
    jsonFieldOptionalString name value =
      jsonFieldName name ++ printValue (fieldJson (optionalText value)) := by
  cases value <;> rfl

theorem jsonFieldOptionalNumber_eq (name : String) (value : Option UInt64) :
    jsonFieldOptionalNumber name value =
      jsonFieldName name ++ printValue (fieldJson (optionalNumber value)) := by
  cases value <;> rfl

theorem printValue_index (index : UInt32) :
    printValue (fieldJson (.number index.toUInt64)) = Nat.toDigits 10 index.toNat := by
  simp [fieldJson, printValue, printNumber]

/-- **A JSON record** is an object of the fields. -/
theorem writeJsonEvent_eq (event : TraceEvent) :
    writeJsonEvent event = printValue (recordJson (eventFields event)) := by
  have hversion : printValue (fieldJson (.number traceSchemaVersion.toUInt64)) =
      Nat.toDigits 10 traceSchemaVersion.toNat := by decide
  have htext : ∀ value, printValue (fieldJson (.text value)) = jsonString value := fun _ => rfl
  cases event with
  | episodeHeader header =>
    simp [writeJsonEvent, writeJsonHeader, recordJson, eventFields, detailFields, printValue,
      printFields_eq, hversion, htext, jsonFieldString, jsonFieldName, jsonString, jsonMap_eq,
      jsonFieldOptionalNumber_eq]
  | turn turn =>
    simp [writeJsonEvent, writeJsonTurn, recordJson, eventFields, detailFields, printValue,
      printFields_eq, hversion, htext, jsonFieldString, jsonFieldName, jsonString,
      printValue_index, jsonFieldOptionalString_eq]
  | tool tool =>
    simp [writeJsonEvent, writeJsonTool, recordJson, eventFields, detailFields, printValue,
      printFields_eq, hversion, htext, jsonFieldString, jsonFieldName, jsonString,
      printValue_index, jsonFieldOptionalString_eq]
  | episodeEnd episodeEnd =>
    simp [writeJsonEvent, writeJsonEnd, recordJson, eventFields, detailFields, printValue,
      printFields_eq, hversion, htext, jsonFieldString, jsonFieldName, jsonString,
      jsonFieldOptionalString_eq, jsonFieldOptionalNumber_eq]

end Tea.Trace
