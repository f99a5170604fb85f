/-
  Tea/Contract/NdjsonGrammar.lean
  ===============================
  **The grammar of a Command Code body.**  A line is a record of one of a few kinds, and the
  parser is a machine over these kinds (`parse_records`).  It looks for its terminal flag
  behind the branch of the untyped error envelope, so an envelope behind the terminal
  record adds a second terminal event (`envelope_late`); nothing else breaks the grammar
  (`grammar_kept_iff`).
-/

import Tea.Provider.CommandCode
import Tea.Encoding.JsonText

namespace Tea.Contract

open Tea.Core Tea.Encoding Tea.Session Tea.Provider.CommandCode

/-! ### Kinds of records -/

/-- What can be wrong with a body. -/
inductive Fault where
  | notUtf8 | notJson | notObject | noType | noTerminal | lateEvent | field
deriving DecidableEq

/-- The error of a fault in the structure. -/
def Fault.message : Fault → String
  | .notUtf8 => "Command Code returned a non-UTF-8 NDJSON response"
  | .notJson => "Command Code returned invalid NDJSON"
  | .notObject => "Command Code NDJSON event must be an object"
  | .noType => "Command Code NDJSON event did not contain type"
  | .noTerminal => "Command Code stream ended without a terminal event"
  | .lateEvent => "Command Code response contained events after its terminal event"
  | .field => ""

/-- A line of a body: no event, an untyped error envelope, or a typed event. -/
inductive Record where
  | broken (fault : Fault)
  | envelope
  | metadata
  | silent
  | content (event : ModelStreamEvent)
  | malformed (message : String)
  | final (event : ModelStreamEvent)
deriving DecidableEq

namespace Record

/-- A text delta or a tool call. -/
def isContent : Record → Bool
  | .content _ => true
  | .malformed _ => true
  | _ => false

/-- The record ends the response. -/
def isTerminal : Record → Bool
  | .envelope => true
  | .final _ => true
  | _ => false

/-- A record that may stand before the terminal one. -/
def isOpen : Record → Bool
  | .metadata => true
  | .silent => true
  | .content _ => true
  | _ => false

/-- The events of a record with content. -/
def contents : Record → List ModelStreamEvent
  | .content event => [event]
  | _ => []

/-- The event of a record that ends the response. -/
def terminals : Record → List ModelStreamEvent
  | .envelope => [providerError]
  | .final event => [event]
  | _ => []

end Record

section

variable {F : Type} (codec : JsonCodec F) (apiKey : String)

def contentRecord : Except String ModelStreamEvent → Record
  | .ok event => .content event
  | .error message => .malformed message

def typedRecord (eventType : String) (event : Fields F) : Record :=
  if eventType = "provider-metadata" then .metadata
  else if eventType = "text-delta" then contentRecord (textDelta event)
  else if eventType = "reasoning-start" ∨ eventType = "reasoning-delta" then .silent
  else if eventType = "tool-call" then contentRecord (toolCall codec event)
  else if eventType = "finish" then
    .final (.end_ (finishReason (JsonValue.lookupField "finishReason" event)))
  else if eventType = "error" then .final providerError
  else if eventType = "abort" then .final (.aborted "Command Code stream aborted")
  else .silent

/-- The kind of a line. -/
def recordOf (line : String) : Record :=
  match codec.parse line with
  | none => .broken .notJson
  | some value =>
      match value.asObject with
      | none => .broken .notObject
      | some event =>
          match eventType event with
          | .error _ => .broken .noType
          | .ok none => .envelope
          | .ok (some eventType) => typedRecord codec eventType event

/-- The records of a text. -/
def recordsOf (text : List Char) : List Record :=
  (recordLines (String.ofList text)).map (recordOf codec)

/-! ### The machine -/

/-- The events so far, and whether the last one is terminal. -/
abbrev Progress := List ModelStreamEvent × Bool

/-- What a record does. -/
def stepRecord (s : Progress) : Record → Except String Progress
  | .broken fault => .error fault.message
  | .envelope => .ok (s.1 ++ [providerError], true)
  | .metadata => .ok s
  | .silent => if s.2 then .error Fault.lateEvent.message else .ok s
  | .content event => if s.2 then .error Fault.lateEvent.message else .ok (s.1 ++ [event], s.2)
  | .malformed message => if s.2 then .error Fault.lateEvent.message else .error message
  | .final event => if s.2 then .error Fault.lateEvent.message else .ok (s.1 ++ [event], true)

def view (s : Ndjson) : Progress := (s.events, s.terminal)

/-- Content is added, or its error returned. -/
theorem content_steps (found : Except String ModelStreamEvent) (s : Ndjson)
    (hopen : s.terminal = false) :
    (do
      let event ← found
      Except.ok { s with events := s.events ++ [event] }).map view =
      stepRecord (view s) (contentRecord found) := by
  obtain ⟨response, terminal⟩ := s
  subst hopen
  cases found <;> rfl

/-- An event before the terminal one. -/
theorem readTyped_steps (eventType : String) (event : Fields F) (s : Ndjson)
    (hopen : s.terminal = false) :
    (readTyped codec apiKey eventType event s).map view =
      stepRecord (view s) (typedRecord codec eventType event) := by
  have hfinal : ∀ final next, view next = (s.events ++ [final], true) →
      (Except.ok next : Except String Ndjson).map view = stepRecord (view s) (.final final) := by
    intro final next hnext
    change Except.ok (view next) = if s.terminal then _ else _
    rw [hopen, hnext]
    rfl
  have hsilent : (Except.ok s : Except String Ndjson).map view = stepRecord (view s) .silent := by
    change _ = if s.terminal then _ else _
    rw [hopen]
    rfl
  by_cases hmeta : eventType = "provider-metadata"
  · subst hmeta
    rfl
  · unfold readTyped typedRecord
    rw [if_neg hmeta]
    split_ifs
    · exact content_steps _ s hopen
    · exact hsilent
    · exact content_steps _ s hopen
    · exact hfinal _ _ rfl
    · exact hfinal _ _ rfl
    · exact hfinal _ _ rfl
    · exact hsilent

/-- A late event is an error, unless it is the one kind of metadata. -/
theorem typedRecord_late (eventType : String) (event : Fields F) (events : List ModelStreamEvent) :
    stepRecord (events, true) (typedRecord codec eventType event) =
      if eventType = "provider-metadata" then .ok (events, true)
      else .error Fault.lateEvent.message := by
  have hcontent : ∀ found, stepRecord (events, true) (contentRecord found) =
      .error Fault.lateEvent.message := by
    intro found
    cases found <;> rfl
  unfold typedRecord
  by_cases hmeta : eventType = "provider-metadata"
  · rw [if_pos hmeta, if_pos hmeta]
    rfl
  · rw [if_neg hmeta, if_neg hmeta]
    split_ifs
    · exact hcontent _
    · rfl
    · exact hcontent _
    · rfl
    · rfl
    · rfl
    · rfl

/-- **One line** is one step of the machine. -/
theorem readLine_steps (s : Ndjson) (line : String) :
    (readLine codec apiKey s line).map view = stepRecord (view s) (recordOf codec line) := by
  unfold readLine recordOf
  cases codec.parse line with
  | none => rfl
  | some value =>
    dsimp only
    cases value.asObject with
    | none => rfl
    | some event =>
      dsimp only
      cases htype : eventType event with
      | error message =>
        have hmessage : message = Fault.noType.message := by
          unfold eventType at htype
          split at htype
          · split_ifs at htype
            exact (Except.error.inj htype).symm
          · split_ifs at htype
            exact (Except.error.inj htype).symm
        rw [hmessage]
        rfl
      | ok found =>
        cases found with
        | none => rfl
        | some eventType =>
          dsimp only
          cases hterminal : s.terminal with
          | false =>
            exact readTyped_steps codec apiKey eventType event s hterminal
          | true =>
            have hview : view s = (s.events, true) := by rw [view, hterminal]
            rw [hview, typedRecord_late, ← hview, if_pos rfl]
            split_ifs <;> rfl

theorem readLines_steps (lines : List String) (s : Ndjson) :
    (lines.foldlM (readLine codec apiKey) s).map view =
      (lines.map (recordOf codec)).foldlM stepRecord (view s) := by
  induction lines generalizing s with
  | nil => rfl
  | cons line lines ih =>
    have hline := readLine_steps codec apiKey s line
    rw [List.foldlM_cons, List.map_cons, List.foldlM_cons, ← hline]
    cases readLine codec apiKey s line with
    | error message => rfl
    | ok next => exact ih next

/-- The events of a response, or the error. -/
def finishRecords : Except String Progress → Except String (List ModelStreamEvent)
  | .error message => .error message
  | .ok s => if s.2 then .ok s.1 else .error Fault.noTerminal.message

/-- **The parser** is the machine on the records of the body. -/
theorem parse_records {body : List UInt8} {text : List Char} (h : fromUtf8 body = .ok text) :
    (parseNdjsonResponse codec body apiKey).map (·.events) =
      finishRecords ((recordsOf codec text).foldlM stepRecord ([], false)) := by
  have hlines := readLines_steps codec apiKey (recordLines (String.ofList text)) {}
  unfold parseNdjsonResponse recordsOf
  rw [h]
  dsimp only
  change _ = finishRecords (List.foldlM stepRecord (view {}) _)
  rw [← hlines]
  cases (recordLines (String.ofList text)).foldlM (readLine codec apiKey) {} with
  | error message => rfl
  | ok s =>
    change (if s.terminal then _ else _ : Except String ParsedCommandCodeResponse).map _ =
      if s.terminal then _ else _
    split_ifs <;> rfl

/-! ### Runs of the machine -/

/-- Behind the terminal record nothing but metadata and envelopes is read. -/
theorem late_steps {records : List Record} {events : List ModelStreamEvent} {s : Progress} :
    records.foldlM stepRecord (events, true) = .ok s ↔
      (∀ r ∈ records, r = .metadata ∨ r = .envelope) ∧
        s = (events ++ records.flatMap Record.terminals, true) := by
  induction records generalizing events with
  | nil =>
    constructor
    · intro h
      obtain rfl := Except.ok.inj h
      refine ⟨(fun r hr => nomatch hr), ?_⟩
      rw [List.flatMap_nil, List.append_nil]
    · rintro ⟨-, rfl⟩
      rw [List.flatMap_nil, List.append_nil]
      rfl
  | cons r records ih =>
    have hfails : r ≠ .metadata → r ≠ .envelope →
        (∃ message, stepRecord (events, true) r = .error message) →
        ((r :: records).foldlM stepRecord (events, true) = .ok s ↔
          (∀ r' ∈ r :: records, r' = .metadata ∨ r' = .envelope) ∧
            s = (events ++ (r :: records).flatMap Record.terminals, true)) := by
      rintro hmeta henvelope ⟨message, hstep⟩
      refine iff_of_false (fun h => ?_) fun h => ?_
      · rw [List.foldlM_cons, hstep] at h
        cases h
      · rcases h.1 r List.mem_cons_self with heq | heq
        · exact hmeta heq
        · exact henvelope heq
    have hnext : ∀ more, stepRecord (events, true) r = .ok (events ++ more, true) →
        r = .metadata ∨ r = .envelope → r.terminals = more →
        ((r :: records).foldlM stepRecord (events, true) = .ok s ↔
          (∀ r' ∈ r :: records, r' = .metadata ∨ r' = .envelope) ∧
            s = (events ++ (r :: records).flatMap Record.terminals, true)) := by
      intro more hstep hr hmore
      rw [List.foldlM_cons, hstep, List.flatMap_cons, hmore, ← List.append_assoc]
      refine Iff.trans ih (and_congr_left fun _ => ?_)
      exact ⟨fun h => List.forall_mem_cons.mpr ⟨hr, h⟩, fun h => (List.forall_mem_cons.mp h).2⟩
    cases r with
    | metadata =>
      apply hnext [] _ (.inl rfl) rfl
      rw [List.append_nil]
      rfl
    | envelope => exact hnext [providerError] rfl (.inr rfl) rfl
    | broken fault => exact hfails (fun h => nomatch h) (fun h => nomatch h) ⟨_, rfl⟩
    | silent => exact hfails (fun h => nomatch h) (fun h => nomatch h) ⟨_, rfl⟩
    | content event => exact hfails (fun h => nomatch h) (fun h => nomatch h) ⟨_, rfl⟩
    | malformed message => exact hfails (fun h => nomatch h) (fun h => nomatch h) ⟨_, rfl⟩
    | final event => exact hfails (fun h => nomatch h) (fun h => nomatch h) ⟨_, rfl⟩

theorem step_open {r : Record} (h : r.isOpen = true) (events : List ModelStreamEvent) :
    stepRecord (events, false) r = .ok (events ++ r.contents, false) := by
  cases r with
  | content event => rfl
  | metadata => exact congrArg (fun events => Except.ok (events, false)) (List.append_nil _).symm
  | silent => exact congrArg (fun events => Except.ok (events, false)) (List.append_nil _).symm
  | broken fault => cases h
  | envelope => cases h
  | malformed message => cases h
  | final event => cases h

theorem step_terminal {r : Record} (h : r.isTerminal = true) (events : List ModelStreamEvent) :
    stepRecord (events, false) r = .ok (events ++ r.terminals, true) := by
  cases r with
  | envelope => rfl
  | final event => rfl
  | content event => cases h
  | metadata => cases h
  | silent => cases h
  | broken fault => cases h
  | malformed message => cases h

/-- A record that is neither is an error. -/
theorem step_error {r : Record} (hopen : r.isOpen = false) (hterminal : r.isTerminal = false)
    (events : List ModelStreamEvent) :
    ∃ message, stepRecord (events, false) r = .error message := by
  cases r with
  | broken fault => exact ⟨_, rfl⟩
  | malformed message => exact ⟨_, rfl⟩
  | envelope => cases hterminal
  | final event => cases hterminal
  | content event => cases hopen
  | metadata => cases hopen
  | silent => cases hopen

/-- The records of a response: open ones, one that ends it, and what may stand behind. -/
structure Response (records : List Record) (before : List Record) (last : Record)
    (behind : List Record) : Prop where
  parts : records = before ++ last :: behind
  opens : ∀ r ∈ before, r.isOpen = true
  ends : last.isTerminal = true
  late : ∀ r ∈ behind, r = .metadata ∨ r = .envelope

theorem open_steps {records : List Record} {events : List ModelStreamEvent} {s : Progress}
    (h : records.foldlM stepRecord (events, false) = .ok s) :
    s.2 = false ∨ ∃ before last behind, Response records before last behind ∧
      s = (events ++ before.flatMap Record.contents ++ last.terminals ++
        behind.flatMap Record.terminals, true) := by
  induction records generalizing events with
  | nil =>
    obtain rfl := Except.ok.inj h
    exact .inl rfl
  | cons r records ih =>
    rw [List.foldlM_cons] at h
    by_cases hopen : r.isOpen = true
    · rw [step_open hopen] at h
      rcases ih h with hno | ⟨before, last, behind, hresponse, hs⟩
      · exact .inl hno
      · right
        refine ⟨r :: before, last, behind, ⟨?_, ?_, hresponse.ends, hresponse.late⟩, ?_⟩
        · rw [hresponse.parts, List.cons_append]
        · exact List.forall_mem_cons.mpr ⟨hopen, hresponse.opens⟩
        · rw [hs, List.flatMap_cons, ← List.append_assoc]
    · by_cases hterminal : r.isTerminal = true
      · rw [step_terminal hterminal] at h
        obtain ⟨hlate, rfl⟩ := late_steps.mp h
        right
        refine ⟨[], r, records, ⟨rfl, (fun _ hr => nomatch hr), hterminal, hlate⟩, ?_⟩
        rw [List.flatMap_nil, List.append_nil]
      · obtain ⟨message, hmessage⟩ := step_error (Bool.eq_false_iff.mpr hopen)
          (Bool.eq_false_iff.mpr hterminal) events
        rw [hmessage] at h
        cases h

/-- A response is read. -/
theorem response_steps {records before behind : List Record} {last : Record}
    (h : Response records before last behind) (events : List ModelStreamEvent) :
    records.foldlM stepRecord (events, false) =
      .ok (events ++ before.flatMap Record.contents ++ last.terminals ++
        behind.flatMap Record.terminals, true) := by
  have hopens : before.foldlM stepRecord (events, false) =
      .ok (events ++ before.flatMap Record.contents, false) := by
    have hall := h.opens
    clear h
    induction before generalizing events with
    | nil => exact congrArg (fun events => Except.ok (events, false)) (List.append_nil _).symm
    | cons r before ih =>
      obtain ⟨hr, hbefore⟩ := List.forall_mem_cons.mp hall
      rw [List.foldlM_cons, step_open hr, List.flatMap_cons, ← List.append_assoc]
      exact ih _ hbefore
  rw [h.parts, List.foldlM_append, hopens]
  change (last :: behind).foldlM stepRecord _ = _
  rw [List.foldlM_cons, step_terminal h.ends]
  exact late_steps.mpr ⟨h.late, rfl⟩

/-! ### The events of a line -/

/-- Content is no terminal event, and the end of a response is one. -/
def Record.Sound : Record → Prop
  | .content event => event.reason = none
  | .final event => event.reason.isSome = true
  | _ => True

theorem contentRecord_sound {found : Except String ModelStreamEvent}
    (h : ∀ event, found = .ok event → event.reason = none) : (contentRecord found).Sound := by
  cases found with
  | error message => trivial
  | ok event => exact h event rfl

theorem textDelta_reason {event : Fields F} {delta : ModelStreamEvent}
    (h : textDelta event = .ok delta) : delta.reason = none := by
  unfold textDelta at h
  cases hfield : stringField event "text" "Command Code text delta" with
  | error message =>
    rw [hfield] at h
    cases h
  | ok text =>
    rw [hfield] at h
    obtain rfl := Except.ok.inj h
    rfl

theorem toolCall_reason {event : Fields F} {call : ModelStreamEvent}
    (h : toolCall codec event = .ok call) : call.reason = none := by
  unfold toolCall at h
  cases hid : stringField event "toolCallId" "Command Code tool call" with
  | error message =>
    rw [hid] at h
    cases h
  | ok id =>
    cases hname : stringField event "toolName" "Command Code tool call" with
    | error message =>
      rw [hid, hname] at h
      cases h
    | ok name =>
      rw [hid, hname] at h
      dsimp only [bind, Except.bind] at h
      split at h
      · split at h
        · obtain rfl := Except.ok.inj h
          rfl
        · cases h
      · cases h

theorem recordOf_sound (line : String) : (recordOf codec line).Sound := by
  unfold recordOf
  cases codec.parse line with
  | none => trivial
  | some value =>
    dsimp only
    cases value.asObject with
    | none => trivial
    | some event =>
      dsimp only
      cases eventType event with
      | error message => trivial
      | ok found =>
        cases found with
        | none => trivial
        | some eventType =>
          dsimp only
          unfold typedRecord
          split_ifs
          · trivial
          · exact contentRecord_sound fun _ h => textDelta_reason h
          · trivial
          · exact contentRecord_sound fun _ h => toolCall_reason codec h
          · rfl
          · rfl
          · rfl
          · trivial

/-! ### The contract -/

/-- **The grammar of a body**: an accepted one has the events of its content, in order, and
    then one terminal event; content behind a terminal record is not accepted. -/
structure GrammarKept (body : List UInt8) : Prop where
  ended : ∀ response, parseNdjsonResponse codec body apiKey = .ok response →
    ∃ text before terminal, fromUtf8 body = .ok text ∧ response.events = before ++ [terminal] ∧
      before = (recordsOf codec text).flatMap Record.contents ∧
      (∀ event ∈ before, event.reason = none) ∧ terminal.reason.isSome = true
  late : ∀ text before last between content behind, fromUtf8 body = .ok text →
    recordsOf codec text = before ++ last :: between ++ content :: behind →
    last.isTerminal = true → content.isContent = true →
    ∃ message, parseNdjsonResponse codec body apiKey = .error message

/-- An untyped error envelope stands behind the terminal record of a body that is well formed
    otherwise. -/
def LateEnvelope (body : List UInt8) : Prop :=
  ∃ text before last behind, fromUtf8 body = .ok text ∧
    Response (recordsOf codec text) before last behind ∧ .envelope ∈ behind

variable {codec apiKey}

/-- The records of a response that is accepted. -/
theorem parse_response {body : List UInt8} {response : ParsedCommandCodeResponse}
    (h : parseNdjsonResponse codec body apiKey = .ok response) :
    ∃ text before last behind, fromUtf8 body = .ok text ∧
      Response (recordsOf codec text) before last behind ∧
      response.events = before.flatMap Record.contents ++ last.terminals ++
        behind.flatMap Record.terminals := by
  cases htext : fromUtf8 body with
  | error error =>
    unfold parseNdjsonResponse at h
    rw [htext] at h
    cases h
  | ok text =>
    have hrecords := parse_records codec apiKey htext
    rw [h] at hrecords
    cases hrun : (recordsOf codec text).foldlM stepRecord ([], false) with
    | error message =>
      rw [hrun] at hrecords
      cases hrecords
    | ok s =>
      rw [hrun] at hrecords
      change Except.ok response.events = if s.2 then Except.ok s.1 else _ at hrecords
      rcases open_steps hrun with hno | ⟨before, last, behind, hresponse, rfl⟩
      · rw [hno] at hrecords
        cases hrecords
      · exact ⟨text, before, last, behind, rfl, hresponse, Except.ok.inj hrecords⟩

/-- Content stands before the terminal record only. -/
theorem Response.contents {records before behind : List Record} {last : Record}
    (h : Response records before last behind) :
    records.flatMap Record.contents = before.flatMap Record.contents := by
  have hlast : last.contents = [] := by
    have hends := h.ends
    cases last with
    | content event => cases hends
    | _ => rfl
  have hbehind : behind.flatMap Record.contents = [] := by
    apply List.flatMap_eq_nil_iff.mpr
    intro r hr
    rcases h.late r hr with rfl | rfl <;> rfl
  rw [h.parts, List.flatMap_append, List.flatMap_cons, hlast, hbehind, List.nil_append,
    List.append_nil]

theorem Response.terminals {records before behind : List Record} {last : Record}
    (h : Response records before last behind) (hsound : last.Sound) :
    ∃ terminal, last.terminals = [terminal] ∧ terminal.reason.isSome = true := by
  have hends := h.ends
  cases last with
  | envelope => exact ⟨_, rfl, rfl⟩
  | final event => exact ⟨event, rfl, hsound⟩
  | content event => cases hends
  | metadata => cases hends
  | silent => cases hends
  | broken fault => cases hends
  | malformed message => cases hends

theorem contents_reason {text : List Char} :
    ∀ event ∈ (recordsOf codec text).flatMap Record.contents, event.reason = none := by
  intro event hevent
  obtain ⟨r, hr, hin⟩ := List.mem_flatMap.mp hevent
  obtain ⟨line, -, rfl⟩ := List.mem_map.mp hr
  have hsound := recordOf_sound codec line
  cases hkind : recordOf codec line with
  | content found =>
    rw [hkind] at hin hsound
    obtain rfl := List.mem_singleton.mp hin
    exact hsound
  | _ =>
    rw [hkind] at hin
    cases hin

/-- Where content stands behind a terminal record, there is no response. -/
theorem late_content {before between behind : List Record} {last content : Record}
    (hlast : last.isTerminal = true) (hcontent : content.isContent = true) (s s' : Progress) :
    (before ++ last :: between ++ content :: behind).foldlM stepRecord s ≠ .ok s' := by
  have hlate : ∀ (records : List Record) events, content ∈ records →
      records.foldlM stepRecord (events, true) ≠ .ok s' := by
    intro records events hin h
    rcases (late_steps.mp h).1 content hin with rfl | rfl <;> cases hcontent
  obtain ⟨events, flag⟩ := s
  induction before generalizing events flag with
  | nil =>
    cases flag with
    | true =>
      apply hlate
      simp
    | false =>
      rw [List.nil_append, List.cons_append, List.foldlM_cons, step_terminal hlast]
      apply hlate
      simp
  | cons r before ih =>
    rw [List.cons_append, List.cons_append, List.foldlM_cons]
    cases hstep : stepRecord (events, flag) r with
    | error message =>
      intro h
      cases h
    | ok next => exact ih next.1 next.2

/-- **The grammar is kept** exactly if no envelope stands behind the terminal record. -/
theorem grammar_kept_iff (body : List UInt8) :
    GrammarKept codec apiKey body ↔ ¬ LateEnvelope codec body := by
  constructor
  · rintro hkept ⟨text, before, last, behind, htext, hresponse, henvelope⟩
    -- the parser accepts the body, with an event for each envelope
    have hrecords := parse_records codec apiKey htext
    rw [response_steps hresponse] at hrecords
    obtain ⟨response, hparse, hevents⟩ : ∃ response,
        parseNdjsonResponse codec body apiKey = .ok response ∧
          response.events = before.flatMap Record.contents ++ last.terminals ++
            behind.flatMap Record.terminals := by
      cases hparse : parseNdjsonResponse codec body apiKey with
      | error message =>
        rw [hparse] at hrecords
        cases hrecords
      | ok response =>
        rw [hparse] at hrecords
        exact ⟨response, rfl, Except.ok.inj hrecords⟩
    obtain ⟨text', before', terminal, htext', heq, hbefore', -, -⟩ := hkept.ended response hparse
    obtain rfl := Except.ok.inj (htext.symm.trans htext')
    have hlength := congrArg List.length (hevents.symm.trans heq)
    have hone : last.terminals.length = 1 := by
      have hends := hresponse.ends
      cases last <;> first | rfl | cases hends
    have hmore : 0 < (behind.flatMap Record.terminals).length := by
      apply List.length_pos_of_mem
      exact List.mem_flatMap.mpr ⟨_, henvelope, List.mem_singleton_self _⟩
    rw [hbefore', hresponse.contents, List.length_append, List.length_append, List.length_append,
      List.length_singleton] at hlength
    omega
  · intro hnot
    constructor
    · intro response hparse
      obtain ⟨text, before, last, behind, htext, hresponse, hevents⟩ := parse_response hparse
      have hnone : behind.flatMap Record.terminals = [] := by
        apply List.flatMap_eq_nil_iff.mpr
        intro r hr
        rcases hresponse.late r hr with rfl | rfl
        · rfl
        · exact absurd ⟨text, before, last, behind, htext, hresponse, hr⟩ hnot
      have hsound : last.Sound := by
        have hin : last ∈ recordsOf codec text := by
          rw [hresponse.parts]
          simp
        obtain ⟨line, -, hline⟩ := List.mem_map.mp hin
        exact hline ▸ recordOf_sound codec line
      obtain ⟨terminal, hterminal, hreason⟩ := hresponse.terminals hsound
      refine ⟨text, _, terminal, htext, ?_, rfl, contents_reason, hreason⟩
      rw [hevents, hnone, hterminal, List.append_nil, hresponse.contents]
    · intro text before last between content behind htext hparts hlast hcontent
      have hrecords := parse_records codec apiKey htext
      rw [hparts] at hrecords
      cases hparse : parseNdjsonResponse codec body apiKey with
      | error message => exact ⟨message, rfl⟩
      | ok response =>
        exfalso
        cases hrun : (before ++ last :: between ++ content :: behind).foldlM stepRecord ([], false)
          with
        | error message =>
          rw [hparse, hrun] at hrecords
          cases hrecords
        | ok s => exact late_content hlast hcontent _ _ hrun

end

/-! ### An envelope behind the end -/

/-- The response is aborted, and then the gateway reports an error. -/
def lateBody : List UInt8 :=
  encodeUtf8 "\x7b\"type\":\"abort\"\x7d\n\x7b\"error\":\x7b\x7d\x7d".toList

theorem envelope_late : ¬ GrammarKept textCodec "key" lateBody := by
  intro hkept
  have hevents : (parseNdjsonResponse textCodec lateBody "key").map (·.events) =
      .ok [.aborted "Command Code stream aborted", providerError] := by decide +kernel
  cases hparse : parseNdjsonResponse textCodec lateBody "key" with
  | error message =>
    rw [hparse] at hevents
    cases hevents
  | ok response =>
    rw [hparse] at hevents
    obtain ⟨text, before, terminal, -, heq, -, hbefore, -⟩ := hkept.ended response hparse
    have hsplit : [ModelStreamEvent.aborted "Command Code stream aborted"] ++ [providerError] =
        before ++ [terminal] := (Except.ok.inj hevents).symm.trans heq
    obtain ⟨rfl, -⟩ := List.append_inj' hsplit rfl
    exact absurd (hbefore _ List.mem_cons_self) (by decide)

end Tea.Contract
