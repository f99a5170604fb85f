/-
  Tea/Contract/TraceFormats.lean
  ==============================
  **Traces are read back** from either encoding, whole or cut off at any byte: what is lost is
  only the difference between a standard reason and a reason of the host with its name.
-/
import Tea.Trace.Record

namespace Tea.Contract

open Tea.Encoding Tea.Trace

/-! ### Readers of CBOR -/

def readEntry : Front UInt8 (String × String) :=
  Cbor.readText.andThen fun key => Cbor.readText.keep fun value => some (key, value)

def readField : Front UInt8 Field :=
  Front.choose fun byte =>
    if byte = 0xf6 then Front.next.keep fun _ => some .null
    else if byte.toNat / 32 = 0 then
      (Cbor.headOf 0).keep fun value => some (.number (UInt64.ofNat value))
    else if byte.toNat / 32 = 3 then Cbor.readText.keep fun value => some (.text value)
    else
      (Cbor.headOf 5).andThen fun count =>
        (readEntry.times count).keep fun entries => some (.texts entries)

def readNamedField : Front UInt8 (String × Field) :=
  Cbor.readText.andThen fun key => readField.keep fun field => some (key, field)

def readRecord : Front UInt8 Fields :=
  (Cbor.headOf 5).andThen fun count => readNamedField.times count

/-- One event of a CBOR sequence. -/
def readCborEvent : Front UInt8 TraceEvent := readRecord.keep ofFields

theorem steady_readEntry : Steady readEntry :=
  Cbor.steady_readText.andThen fun _ => Cbor.steady_readText.keep _

theorem steady_readField : Steady readField := by
  apply steady_choose
  intro byte
  split_ifs
  · exact steady_next.keep _
  · exact (Cbor.steady_headOf 0).keep _
  · exact Cbor.steady_readText.keep _
  · exact (Cbor.steady_headOf 5).andThen fun count => (steady_readEntry.times count).keep _

theorem steady_readCborEvent : Steady readCborEvent :=
  ((Cbor.steady_headOf 5).andThen fun count =>
    (Cbor.steady_readText.andThen fun _ => steady_readField.keep _).times count).keep _

theorem incremental_readCborEvent : Incremental readCborEvent :=
  steady_readCborEvent.incremental (((Cbor.taking_headOf 5).andThen _).keep _)

theorem reads_entries {entries : List (String × String)} (h : SizedField (.texts entries)) :
    Encoding.Reads (readEntry.times entries.length) entries
      (entries.flatMap fun entry => Cbor.text entry.1 ++ Cbor.text entry.2) := by
  apply Encoding.Reads.times
  intro entry hentry
  obtain ⟨hkey, hvalue⟩ := h.2 entry hentry
  exact (Cbor.reads_text hkey).andThen ((Cbor.reads_text hvalue).keep rfl)

/-- A code that begins with the head of a major type is read by the front that this chooses. -/
theorem reads_major {major n : Nat} (hmajor : major < 7) {field : Field} {code : List UInt8}
    (h : ∀ byte : UInt8, byte ≠ 0xf6 → byte.toNat / 32 = major →
      Encoding.Reads (if byte = 0xf6 then Front.next.keep fun _ => some .null
        else if byte.toNat / 32 = 0 then
          (Cbor.headOf 0).keep fun value => some (.number (UInt64.ofNat value))
        else if byte.toNat / 32 = 3 then Cbor.readText.keep fun value => some (.text value)
        else
          (Cbor.headOf 5).andThen fun count =>
            (readEntry.times count).keep fun entries => some (.texts entries))
        field (Cbor.head major n ++ code)) :
    Encoding.Reads readField field (Cbor.head major n ++ code) := by
  obtain ⟨byte, rest, hhead, hbyte, -⟩ := Cbor.head_cons (by omega : major < 8) n
  have hne : byte ≠ 0xf6 := by
    rintro rfl
    have hseven : (0xf6 : UInt8).toNat / 32 = 7 := rfl
    omega
  have hread := h byte hne hbyte
  rw [hhead, List.cons_append] at hread ⊢
  exact hread.choose

theorem reads_field {field : Field} (h : SizedField field) :
    Encoding.Reads readField field (cborField field) := by
  cases field with
  | null =>
    apply Encoding.Reads.choose
    rw [if_pos rfl]
    exact (reads_next _).keep rfl
  | number value =>
    have hread : Encoding.Reads readField (.number value) (Cbor.head 0 value.toNat ++ []) := by
      apply reads_major (by decide : 0 < 7)
      intro byte hne hbyte
      rw [if_neg hne, if_pos hbyte, List.append_nil]
      refine (Cbor.reads_head (by decide) ?_).keep ?_
      · rw [byteRange_eight]
        exact value.toNat_lt
      · simp
    rwa [List.append_nil] at hread
  | text value =>
    apply reads_major (by decide : 3 < 7)
    intro byte hne hbyte
    rw [if_neg hne, if_neg (by omega), if_pos hbyte]
    exact (Cbor.reads_text h).keep rfl
  | texts entries =>
    apply reads_major (by decide : 5 < 7)
    intro byte hne hbyte
    rw [if_neg hne, if_neg (by omega), if_neg (by omega)]
    exact (Cbor.reads_head (by decide) h.1).andThen ((reads_entries h).keep rfl)

/-- The names of fields are short. -/
theorem sized_eventFields (event : TraceEvent) :
    (eventFields event).length < byteRange 8 ∧
      ∀ field ∈ eventFields event, Cbor.Sized field.1 := by
  have hsized : ∀ name ∈ ["schema_version", "type", "episode_id", "metadata", "started_at_ms",
      "index", "input", "output", "stop_reason", "turn_index", "call_id", "name", "error",
      "reason", "finished_at_ms"], Cbor.Sized name := by decide
  cases event with
  | episodeHeader header =>
    refine ⟨by simp [eventFields, detailFields, byteRange_eight], ?_⟩
    intro field hfield
    apply hsized
    simp only [eventFields, detailFields, List.mem_cons, List.not_mem_nil, or_false] at hfield
    rcases hfield with rfl | rfl | rfl | rfl | rfl <;> simp
  | turn turn =>
    refine ⟨by simp [eventFields, detailFields, byteRange_eight], ?_⟩
    intro field hfield
    apply hsized
    simp only [eventFields, detailFields, List.mem_cons, List.not_mem_nil, or_false] at hfield
    rcases hfield with rfl | rfl | rfl | rfl | rfl | rfl <;> simp
  | tool tool =>
    refine ⟨by simp [eventFields, detailFields, byteRange_eight], ?_⟩
    intro field hfield
    apply hsized
    simp only [eventFields, detailFields, List.mem_cons, List.not_mem_nil, or_false] at hfield
    rcases hfield with rfl | rfl | rfl | rfl | rfl | rfl | rfl | rfl <;> simp
  | episodeEnd episodeEnd =>
    refine ⟨by simp [eventFields, detailFields, byteRange_eight], ?_⟩
    intro field hfield
    apply hsized
    simp only [eventFields, detailFields, List.mem_cons, List.not_mem_nil, or_false] at hfield
    rcases hfield with rfl | rfl | rfl | rfl | rfl <;> simp

theorem reads_cborEvent {event : TraceEvent} (h : InMemory event) :
    Encoding.Reads readCborEvent (told event) (writeCborEvent event) := by
  rw [writeCborEvent_eq h]
  obtain ⟨hlength, hnames⟩ := sized_eventFields event
  refine ((Cbor.reads_head (by decide) hlength).andThen (Encoding.Reads.times ?_)).keep
    (ofFields_eventFields event)
  intro field hfield
  exact (Cbor.reads_text (hnames field hfield)).andThen ((reads_field (h field hfield)).keep rfl)

/-! ### Readers of JSON Lines -/

def textEntry (field : String × JsonValue Decimal) : Option (String × String) :=
  field.2.asStr.map fun value => (field.1, value)

def jsonField : JsonValue Decimal → Option Field
  | .null => some .null
  | .number (.unsigned value) => some (.number value)
  | .string value => some (.text value)
  | .mapping fields => (fields.mapM textEntry).map .texts
  | _ => none

def jsonFields : JsonValue Decimal → Option Fields
  | .mapping fields =>
    fields.mapM fun field => (jsonField field.2).map fun value => (field.1, value)
  | _ => none

def parseJsonEvent (line : List UInt8) : Option TraceEvent := do
  let text ← (fromUtf8 line).toOption
  let value ← parseJson (String.ofList text)
  let fields ← jsonFields value
  ofFields fields

/-- One event of JSON Lines. -/
def readJsonEvent : Front UInt8 TraceEvent := (Front.upTo 10).keep parseJsonEvent

theorem incremental_readJsonEvent : Incremental readJsonEvent :=
  ((steady_upTo 10).keep parseJsonEvent).incremental ((taking_upTo 10).keep _)

/-- A list is read by a check that takes back each item. -/
theorem mapM_of_reads {α β : Type} (check : β → Option α) (write : α → β)
    (h : ∀ item, check (write item) = some item) (items : List α) :
    (items.map write).mapM check = some items := by
  induction items with
  | nil => rfl
  | cons item items ih => simp [List.mapM_cons, h, ih]

theorem reread_fieldJson (field : Field) : rereadValue (fieldJson field) = fieldJson field := by
  cases field with
  | null => rfl
  | number value => rfl
  | text value => rfl
  | texts entries => simp [fieldJson, rereadValue, rereadFields_eq]

theorem jsonField_fieldJson (field : Field) : jsonField (fieldJson field) = some field := by
  cases field with
  | null => rfl
  | number value => rfl
  | text value => rfl
  | texts entries =>
    have hentries := mapM_of_reads textEntry (fun entry => (entry.1, .string entry.2))
      (fun entry => rfl) entries
    rw [fieldJson, jsonField, hentries]
    rfl

theorem jsonFields_recordJson (fields : Fields) :
    jsonFields (rereadValue (recordJson fields)) = some fields := by
  have hfields := mapM_of_reads
    (fun field => (jsonField field.2).map fun value => (field.1, value))
    (fun field => (field.1, fieldJson field.2))
    (fun field => by rw [jsonField_fieldJson, Option.map_some]) fields
  rw [recordJson, rereadValue, rereadFields_eq, List.map_map, jsonFields]
  simpa [Function.comp_def, reread_fieldJson] using hfields

theorem parseJsonEvent_write (event : TraceEvent) :
    parseJsonEvent (encodeUtf8 (writeJsonEvent event)) = some (told event) := by
  unfold parseJsonEvent
  rw [fromUtf8_encode, writeJsonEvent_eq]
  simp only [Except.toOption, Option.bind_eq_bind, Option.bind_some, parseJson_print,
    jsonFields_recordJson, ofFields_eventFields]

theorem newline_mem_encode {text : List Char} (h : 10 ∈ encodeUtf8 text) : '\n' ∈ text := by
  obtain ⟨c, hc, hbyte⟩ := List.mem_flatMap.mp h
  obtain ⟨first, rest, hencode, -, hrest⟩ := utf8EncodeChar_bytes c
  rw [hencode] at hbyte
  rcases List.mem_cons.mp hbyte with hfirst | hmem
  · have hscalar := firstScalar_encode c []
    rw [hencode, ← hfirst] at hscalar
    cases hscalar
    exact hc
  · exact absurd (hrest 10 hmem) (by decide)

theorem reads_jsonEvent (event : TraceEvent) :
    Encoding.Reads readJsonEvent (told event) (encodeUtf8 (writeJsonEvent event) ++ [10]) := by
  refine (reads_upTo ?_).keep (parseJsonEvent_write event)
  intro hmem
  have hline := newline_mem_encode hmem
  rw [writeJsonEvent_eq] at hline
  exact (printValue_line _ '\n' hline).1 rfl

/-! ### Traces -/

def cborSink : IsolatedSink CborSink := { inner := ⟨[]⟩ }

def jsonLinesSink : IsolatedSink JsonLinesSink := { inner := ⟨[]⟩ }

def jsonLine (event : TraceEvent) : List UInt8 := encodeUtf8 (writeJsonEvent event) ++ [10]

theorem cbor_appendAll (sink : IsolatedSink CborSink) (events : List TraceEvent) :
    sink.appendAll events =
      { sink with inner := ⟨sink.inner.writer ++ events.flatMap writeCborEvent⟩ } := by
  induction events generalizing sink with
  | nil => simp [IsolatedSink.appendAll]
  | cons event events ih =>
    have hcons : sink.appendAll (event :: events) = (sink.append event).appendAll events := rfl
    rw [hcons, ih, List.flatMap_cons, ← List.append_assoc]
    rfl

theorem json_appendAll (sink : IsolatedSink JsonLinesSink) (events : List TraceEvent) :
    sink.appendAll events =
      { sink with inner := ⟨sink.inner.writer ++ events.flatMap jsonLine⟩ } := by
  induction events generalizing sink with
  | nil => simp [IsolatedSink.appendAll]
  | cons event events ih =>
    have hcons : sink.appendAll (event :: events) = (sink.append event).appendAll events := rfl
    have hline : ∀ bytes : List UInt8,
        bytes ++ encodeUtf8 (writeJsonEvent event) ++ [10] = bytes ++ jsonLine event :=
      fun bytes => List.append_assoc _ _ _
    rw [hcons, ih, List.flatMap_cons, ← List.append_assoc, ← hline]
    rfl

/-- What a reader makes of the bytes that were written for events. -/
structure ReadBack (read : Front UInt8 TraceEvent) (write : TraceEvent → List UInt8)
    (events : List TraceEvent) (bytes : List UInt8) : Prop where
  whole : delivered read bytes = events.map told
  plain : (∀ event ∈ events, Plain event) → delivered read bytes = events
  /-- Of bytes that are cut off, the events whose bytes are whole. -/
  cut : ∀ part more, bytes = part ++ more → ∃ first rest, events = first ++ rest ∧
    delivered read part = first.map told ∧ (first.flatMap write).length ≤ part.length ∧
    ∀ next ∈ rest.head?, part.length < (first.flatMap write ++ write next).length

theorem map_told_plain {events : List TraceEvent} (h : ∀ event ∈ events, Plain event) :
    events.map told = events := by
  have hmap := List.map_congr_left fun event hevent => told_of_plain (h event hevent)
  rwa [List.map_id'] at hmap

theorem readBack_of_reads {read : Front UInt8 TraceEvent} (hread : Incremental read)
    {write : TraceEvent → List UInt8} {events : List TraceEvent}
    (h : ∀ event ∈ events, Encoding.Reads read (told event) (write event)) :
    ReadBack read write events (events.flatMap write) := by
  have hwhole : delivered read (events.flatMap write) = events.map told := by
    have hflat := delivered_flatMap hread h []
    rwa [List.append_nil, delivered_nil, List.append_nil] at hflat
  refine ⟨hwhole, ?_, fun part more hpart => delivered_codes hread h hpart⟩
  intro hplain
  rw [hwhole, map_told_plain hplain]

/-- The bytes of two traces are equal when they tell the same, and not otherwise. -/
theorem flatMap_write_inj {read : Front UInt8 TraceEvent} {write : TraceEvent → List UInt8}
    (htold : ∀ event, write (told event) = write event) {events others : List TraceEvent}
    (h : ReadBack read write events (events.flatMap write))
    (hothers : ReadBack read write others (others.flatMap write)) :
    events.flatMap write = others.flatMap write ↔ events.map told = others.map told := by
  have hflat : ∀ events : List TraceEvent,
      events.flatMap write = (events.map told).flatMap write := by
    intro events
    rw [List.flatMap_map]
    exact List.flatMap_congr fun event _ => (htold event).symm
  constructor
  · intro heq
    rw [← h.whole, ← hothers.whole, heq]
  · intro heq
    rw [hflat, heq, ← hflat]

/-- **A CBOR trace is read back** by its reader, and tells its events apart. -/
theorem cbor_trace_read_back {events : List TraceEvent} (h : ∀ event ∈ events, InMemory event) :
    ReadBack readCborEvent writeCborEvent events (cborSink.appendAll events).inner.writer ∧
      ∀ others, (∀ event ∈ others, InMemory event) →
        ((cborSink.appendAll events).inner.writer = (cborSink.appendAll others).inner.writer ↔
          events.map told = others.map told) := by
  have hback : ∀ events, (∀ event ∈ events, InMemory event) →
      ReadBack readCborEvent writeCborEvent events (events.flatMap writeCborEvent) := by
    intro events h
    exact readBack_of_reads incremental_readCborEvent fun event hevent =>
      reads_cborEvent (h event hevent)
  rw [cbor_appendAll]
  refine ⟨hback events h, ?_⟩
  intro others hothers
  rw [cbor_appendAll]
  refine flatMap_write_inj ?_ (hback events h) (hback others hothers)
  intro event
  cases event with
  | episodeEnd episodeEnd =>
    simp [told, writeCborEvent, writeCborEnd, cborFieldCount, eventType, endReasonName_reasonOf]
  | episodeHeader header => rfl
  | turn turn => rfl
  | tool tool => rfl

/-- An episode whose host ends it like a standard reason. -/
def shortEpisode : List TraceEvent :=
  [.episodeHeader { episodeId := "e" }, .episodeEnd ⟨.other "failed", some "é", some 300⟩]

theorem short_cbor_trace_read_back :
    delivered readCborEvent (cborSink.appendAll shortEpisode).inner.writer =
      [.episodeHeader { episodeId := "e" }, .episodeEnd ⟨.failed, some "é", some 300⟩] := by
  have hmemory : ∀ event ∈ shortEpisode, InMemory event := by decide
  rw [(cbor_trace_read_back hmemory).1.whole]
  simp [shortEpisode, told, endReasonName, reasonOf]

/-- **A trace of JSON Lines is read back** line by line, and tells its events apart. -/
theorem json_trace_read_back (events : List TraceEvent) :
    ReadBack readJsonEvent jsonLine events (jsonLinesSink.appendAll events).inner.writer ∧
      ∀ others,
        ((jsonLinesSink.appendAll events).inner.writer =
            (jsonLinesSink.appendAll others).inner.writer ↔
          events.map told = others.map told) := by
  have hback : ∀ events, ReadBack readJsonEvent jsonLine events (events.flatMap jsonLine) := by
    intro events
    exact readBack_of_reads incremental_readJsonEvent fun event _ => reads_jsonEvent event
  rw [json_appendAll]
  refine ⟨hback events, ?_⟩
  intro others
  rw [json_appendAll]
  refine flatMap_write_inj ?_ (hback events) (hback others)
  intro event
  rw [jsonLine, jsonLine, writeJsonEvent_eq, writeJsonEvent_eq, eventFields_told]

end Tea.Contract
