/-
  Tea/Contract/RetryableResponse.lean
  ===================================
  **Malformed responses are retryable.**  A request is sent again if the structure of its
  response is broken, which is told by the text of the error.  The text for a body that is
  not UTF-8 is not among those that are looked for (`binary_response`); every other error
  is classified as it should be (`classified_iff`).
-/

import Tea.Contract.NdjsonGrammar

namespace Tea.Contract

open Tea.Core Tea.Encoding Tea.Session Tea.Provider.CommandCode

/-! ### The first fault of a body -/

/-- A field of an event is malformed; every other fault is one of the structure. -/
def Fault.structural : Fault → Bool
  | .field => false
  | _ => true

/-- What is wrong with a record, before or behind the terminal one. -/
def Record.fault (terminal : Bool) : Record → Option Fault
  | .broken fault => some fault
  | .envelope => none
  | .metadata => none
  | .malformed _ => some (if terminal then .lateEvent else .field)
  | _ => if terminal then some .lateEvent else none

/-- The first thing that is wrong with some records. -/
def faultFrom : Bool → List Record → Option Fault
  | terminal, [] => if terminal then none else some .noTerminal
  | terminal, r :: records =>
      match r.fault terminal with
      | some fault => some fault
      | none => faultFrom (terminal || r.isTerminal) records

section

variable {F : Type} (codec : JsonCodec F) (apiKey : String)

/-- The first thing that is wrong with a body. -/
def faultOf (body : List UInt8) : Option Fault :=
  match fromUtf8 body with
  | .error _ => some .notUtf8
  | .ok text => faultFrom false (recordsOf codec text)

/-- **The contract**: a body with a fault is an error, which is retryable exactly if the
    fault is one of the structure; any other body is a response. -/
def Classified (body : List UInt8) : Prop :=
  match faultOf codec body with
  | none => ∃ response, parseNdjsonResponse codec body apiKey = .ok response
  | some fault => ∃ message, parseNdjsonResponse codec body apiKey = .error message ∧
      isRetryableResponseError message = fault.structural

/-! ### The errors of a record -/

/-- A fault of a line is told by its error, and the error of a field is not mistaken for
    one. -/
def Record.Told : Record → Prop
  | .broken fault => fault.structural = true ∧ isRetryableResponseError fault.message = true
  | .malformed message => isRetryableResponseError message = false
  | _ => True

variable {codec}

theorem stringField_error {event : Fields F} {key subject message : String}
    (h : stringField event key subject = .error message) :
    message = subject ++ " did not contain " ++ key := by
  unfold stringField at h
  split at h
  · cases h
  · exact (Except.error.inj h).symm

theorem textDelta_error {event : Fields F} {message : String}
    (h : textDelta event = .error message) : isRetryableResponseError message = false := by
  unfold textDelta at h
  cases hfield : stringField event "text" "Command Code text delta" with
  | error error =>
    rw [hfield] at h
    obtain rfl := Except.error.inj h
    rw [stringField_error hfield]
    decide
  | ok text =>
    rw [hfield] at h
    cases h

theorem toolCall_error {event : Fields F} {message : String}
    (h : toolCall codec event = .error message) : isRetryableResponseError message = false := by
  unfold toolCall at h
  cases hid : stringField event "toolCallId" "Command Code tool call" with
  | error error =>
    rw [hid] at h
    obtain rfl := Except.error.inj h
    rw [stringField_error hid]
    decide
  | ok id =>
    cases hname : stringField event "toolName" "Command Code tool call" with
    | error error =>
      rw [hid, hname] at h
      obtain rfl := Except.error.inj h
      rw [stringField_error hname]
      decide
    | ok name =>
      rw [hid, hname] at h
      dsimp only [bind, Except.bind] at h
      split at h
      · split at h
        · cases h
        · obtain rfl := Except.error.inj h
          decide
      · obtain rfl := Except.error.inj h
        decide

theorem contentRecord_told {found : Except String ModelStreamEvent}
    (h : ∀ message, found = .error message → isRetryableResponseError message = false) :
    (contentRecord found).Told := by
  cases found with
  | error message => exact h message rfl
  | ok event => trivial

theorem recordOf_told (line : String) : (recordOf codec line).Told := by
  unfold recordOf
  cases codec.parse line with
  | none =>
    constructor
    · rfl
    · decide
  | some value =>
    dsimp only
    cases value.asObject with
    | none =>
      constructor
      · rfl
      · decide
    | some event =>
      dsimp only
      cases eventType event with
      | error message =>
        constructor
        · rfl
        · decide
      | ok found =>
        cases found with
        | none => trivial
        | some eventType =>
          dsimp only
          unfold typedRecord
          split_ifs
          · trivial
          · exact contentRecord_told fun _ h => textDelta_error h
          · trivial
          · exact contentRecord_told fun _ h => toolCall_error h
          · trivial
          · trivial
          · trivial
          · trivial

/-! ### The first error -/

/-- A record without a fault is read. -/
theorem step_faultless {r : Record} {terminal : Bool} (events : List ModelStreamEvent)
    (h : r.fault terminal = none) :
    ∃ more, stepRecord (events, terminal) r = .ok (more, terminal || r.isTerminal) := by
  cases r with
  | broken fault => cases h
  | malformed message => cases h
  | envelope =>
    rw [Record.isTerminal, Bool.or_true]
    exact ⟨_, rfl⟩
  | metadata =>
    change ∃ more, Except.ok (events, terminal) = Except.ok (more, terminal || false)
    rw [Bool.or_false]
    exact ⟨_, rfl⟩
  | silent =>
    cases terminal with
    | true => cases h
    | false => exact ⟨_, rfl⟩
  | content event =>
    cases terminal with
    | true => cases h
    | false => exact ⟨_, rfl⟩
  | final event =>
    cases terminal with
    | true => cases h
    | false => exact ⟨_, rfl⟩

/-- A record with a fault is an error that tells it. -/
theorem step_fault {r : Record} {terminal : Bool} {fault : Fault} (events : List ModelStreamEvent)
    (htold : r.Told) (h : r.fault terminal = some fault) :
    ∃ message, stepRecord (events, terminal) r = .error message ∧
      isRetryableResponseError message = fault.structural := by
  have hlate : isRetryableResponseError Fault.lateEvent.message = true := by decide
  cases r with
  | broken found =>
    obtain rfl := Option.some_inj.mp h
    exact ⟨_, rfl, htold.2.trans htold.1.symm⟩
  | envelope => cases h
  | metadata => cases h
  | malformed message =>
    obtain rfl := Option.some_inj.mp h
    cases terminal with
    | true => exact ⟨_, rfl, hlate⟩
    | false => exact ⟨_, rfl, htold⟩
  | silent =>
    cases terminal with
    | true =>
      obtain rfl := Option.some_inj.mp h
      exact ⟨_, rfl, hlate⟩
    | false => cases h
  | content event =>
    cases terminal with
    | true =>
      obtain rfl := Option.some_inj.mp h
      exact ⟨_, rfl, hlate⟩
    | false => cases h
  | final event =>
    cases terminal with
    | true =>
      obtain rfl := Option.some_inj.mp h
      exact ⟨_, rfl, hlate⟩
    | false => cases h

/-- **The first fault** is the error of the machine. -/
theorem fault_run {records : List Record} (htold : ∀ r ∈ records, r.Told)
    (events : List ModelStreamEvent) (terminal : Bool) :
    match faultFrom terminal records with
    | none => ∃ all, finishRecords (records.foldlM stepRecord (events, terminal)) = .ok all
    | some fault => ∃ message,
        finishRecords (records.foldlM stepRecord (events, terminal)) = .error message ∧
          isRetryableResponseError message = fault.structural := by
  induction records generalizing events terminal with
  | nil =>
    cases terminal with
    | true => exact ⟨events, rfl⟩
    | false => exact ⟨_, rfl, by decide⟩
  | cons r records ih =>
    obtain ⟨hr, hrecords⟩ := List.forall_mem_cons.mp htold
    rw [faultFrom, List.foldlM_cons]
    cases hfault : r.fault terminal with
    | some fault =>
      obtain ⟨message, hstep, hretryable⟩ := step_fault events hr hfault
      rw [hstep]
      exact ⟨message, rfl, hretryable⟩
    | none =>
      obtain ⟨more, hstep⟩ := step_faultless events hfault
      rw [hstep]
      exact ih hrecords more _

/-! ### The contract -/

/-- **Every error is classified** as it should be, exactly if the body is UTF-8. -/
theorem classified_iff (body : List UInt8) :
    Classified codec apiKey body ↔ ∃ text, fromUtf8 body = .ok text := by
  unfold Classified faultOf
  cases htext : fromUtf8 body with
  | error error =>
    have hparse : parseNdjsonResponse codec body apiKey =
        .error "Command Code returned a non-UTF-8 NDJSON response" := by
      unfold parseNdjsonResponse
      rw [htext]
    constructor
    · rintro ⟨message, hmessage, hretryable⟩
      rw [hparse] at hmessage
      obtain rfl := Except.error.inj hmessage
      exact absurd hretryable (by decide)
    · rintro ⟨text, h⟩
      cases h
  | ok text =>
    refine iff_of_true ?_ ⟨text, rfl⟩
    have htold : ∀ r ∈ recordsOf codec text, r.Told := by
      intro r hr
      obtain ⟨line, -, rfl⟩ := List.mem_map.mp hr
      exact recordOf_told line
    have hrun := fault_run htold [] false
    rw [← parse_records codec apiKey htext] at hrun
    dsimp only
    cases hfault : faultFrom false (recordsOf codec text) with
    | none =>
      rw [hfault] at hrun
      obtain ⟨all, hall⟩ := hrun
      cases hparse : parseNdjsonResponse codec body apiKey with
      | error message =>
        rw [hparse] at hall
        cases hall
      | ok response => exact ⟨response, rfl⟩
    | some fault =>
      rw [hfault] at hrun
      obtain ⟨message, hmessage, hretryable⟩ := hrun
      cases hparse : parseNdjsonResponse codec body apiKey with
      | error error =>
        rw [hparse] at hmessage
        obtain rfl := Except.error.inj hmessage
        exact ⟨_, rfl, hretryable⟩
      | ok response =>
        rw [hparse] at hmessage
        cases hmessage

end

/-- A body that is not text. -/
theorem binary_response : ¬ Classified textCodec "key" [0xff] := by
  rintro ⟨message, hmessage, hretryable⟩
  obtain rfl := Except.error.inj hmessage
  exact absurd hretryable (by decide)

end Tea.Contract
