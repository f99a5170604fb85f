/-
  Tea/Encoding/LineStream.lean
  ============================
  **Decoders of lines that arrive in chunks.**  The bytes up to the next newline are
  buffered, and each complete line is processed; a line may fail.  What a whole body
  decodes to does not depend on the chunks (`deliver_result`), but an error drops the
  events that its own chunk has already produced, so the events delivered do
  (`deliver_agrees_iff`).
-/

import Mathlib.Data.List.Basic
import Mathlib.Tactic.SplitIfs
import Mathlib.Tactic.Common

namespace Tea.Encoding

/-! ### Pushing and finishing -/

/-- A decoder between two chunks. -/
structure LineStream (σ : Type) where
  state : σ
  buffered : List UInt8 := []

/-- What became of some bytes: the stream behind them, the events of the lines up to the
    first that failed, and its error. -/
structure Pumped (σ α ε : Type) where
  stream : LineStream σ
  events : List α
  error : Option ε

/-- What a client was given: the events of its pushes, and the end of the body. -/
structure Delivery (α β ε : Type) where
  events : List α
  result : Except ε β
deriving DecidableEq

section

variable {σ α β ε : Type} (process : List UInt8 → σ → σ × Except ε (List α))

/-- The complete lines are processed in turn; `line` holds the bytes of the line so far. -/
def pump (line : List UInt8) (state : σ) : List UInt8 → Pumped σ α ε
  | [] => ⟨⟨state, line⟩, [], none⟩
  | b :: bytes =>
      if b = 10 then
        match process line state with
        | (state, .ok events) =>
            let rest := pump [] state bytes
            { rest with events := events ++ rest.events }
        | (state, .error error) => ⟨⟨state, bytes⟩, [], some error⟩
      else pump (line ++ [b]) state bytes

section

-- The equations are generated here, once for the proofs below.
attribute [local simp] pump

end

/-- `push`: the events of the lines that a chunk completes; an error drops them. -/
def push (d : LineStream σ) (bytes : List UInt8) : LineStream σ × Except ε (List α) :=
  let pumped := pump process [] d.state (d.buffered ++ bytes)
  (pumped.stream,
    match pumped.error with
    | some error => .error error
    | none => .ok pumped.events)

variable (finish : LineStream σ → Except ε β)

/-- The chunks are pushed until one fails; otherwise the body is finished. -/
def deliver (d : LineStream σ) : List (List UInt8) → Delivery α β ε
  | [] => ⟨[], finish d⟩
  | chunk :: chunks =>
      match push process d chunk with
      | (d, .ok events) =>
          let rest := deliver d chunks
          { rest with events := events ++ rest.events }
      | (_, .error error) => ⟨[], .error error⟩

/-- The decoder behind some chunks; after an error nothing more is pushed. -/
def pushAll (d : LineStream σ) : List (List UInt8) → LineStream σ
  | [] => d
  | chunk :: chunks =>
      match push process d chunk with
      | (d, .ok _) => pushAll d chunks
      | (d, .error _) => d

end

/-! ### Bytes in parts -/

section

variable {σ α β ε : Type} {process : List UInt8 → σ → σ × Except ε (List α)}
  {finish : LineStream σ → Except ε β}

/-- Bytes without a newline complete no line. -/
theorem pump_line {held : List UInt8} (h : 10 ∉ held) (line : List UInt8) (state : σ)
    (bytes : List UInt8) :
    pump process line state (held ++ bytes) = pump process (line ++ held) state bytes := by
  induction held generalizing line with
  | nil => simp
  | cons b held ih =>
    rw [List.mem_cons, not_or] at h
    rw [List.cons_append, pump, if_neg (fun heq => h.1 heq.symm), ih h.2]
    simp

/-- Without an error, what is left in the buffer has no newline. -/
theorem pump_buffered {line : List UInt8} {state : σ} {bytes : List UInt8} (hline : 10 ∉ line)
    (h : (pump process line state bytes).error = none) :
    10 ∉ (pump process line state bytes).stream.buffered := by
  induction bytes generalizing line state with
  | nil => exact hline
  | cons b bytes ih =>
    rw [pump] at h ⊢
    split_ifs at h ⊢ with hb
    · split at h
      · exact ih (by simp) h
      · cases h
    · apply ih _ h
      intro hmem
      rcases List.mem_append.mp hmem with hmem | hmem
      · exact hline hmem
      · exact hb (List.mem_singleton.mp hmem).symm

/-- **Bytes in two parts**: behind a part that does not fail, the rest goes on where it
    ended; behind an error, nothing more is processed. -/
theorem pump_append (line : List UInt8) (state : σ) (first second : List UInt8) :
    pump process line state (first ++ second) =
      let before := pump process line state first
      match before.error with
      | some error =>
          ⟨⟨before.stream.state, before.stream.buffered ++ second⟩, before.events, some error⟩
      | none =>
          let after := pump process before.stream.buffered before.stream.state second
          { after with events := before.events ++ after.events } := by
  induction first generalizing line state with
  | nil => rfl
  | cons b first ih =>
    rw [List.cons_append, pump, pump]
    split_ifs with hb
    · cases hprocess : process line state with
      | mk state' result =>
        cases result with
        | error error => rfl
        | ok events =>
          simp only [ih]
          cases (pump process [] state' first).error with
          | some error => rfl
          | none => simp
    · exact ih (line ++ [b]) state

/-- A push goes on where the last one ended. -/
theorem deliver_cons {d : LineStream σ} (h : 10 ∉ d.buffered) (chunk : List UInt8)
    (chunks : List (List UInt8)) :
    deliver process finish d (chunk :: chunks) =
      match (pump process d.buffered d.state chunk).error with
      | some error => ⟨[], .error error⟩
      | none =>
          let pumped := pump process d.buffered d.state chunk
          let rest := deliver process finish pumped.stream chunks
          { rest with events := pumped.events ++ rest.events } := by
  rw [deliver, push, pump_line h, List.nil_append]
  dsimp only
  cases (pump process d.buffered d.state chunk).error with
  | some error => rfl
  | none => rfl

/-- The state behind some chunks is the one behind all their bytes. -/
theorem pushAll_state {d : LineStream σ} (h : 10 ∉ d.buffered) (chunks : List (List UInt8)) :
    (pushAll process d chunks).state =
      (pump process d.buffered d.state chunks.flatten).stream.state := by
  induction chunks generalizing d with
  | nil => rfl
  | cons chunk chunks ih =>
    rw [List.flatten_cons, pump_append, pushAll, push, pump_line h, List.nil_append]
    cases herror : (pump process d.buffered d.state chunk).error with
    | some error => simp only [herror]
    | none =>
      simp only [herror]
      exact ih (pump_buffered h herror)

/-! ### What is delivered -/

variable (process finish)

/-- The end of the body does not depend on its chunks. -/
theorem deliver_result {d : LineStream σ} (h : 10 ∉ d.buffered) (chunks : List (List UInt8)) :
    (deliver process finish d chunks).result =
      match (pump process d.buffered d.state chunks.flatten).error with
      | some error => .error error
      | none => finish (pump process d.buffered d.state chunks.flatten).stream := by
  induction chunks generalizing d with
  | nil => rfl
  | cons chunk chunks ih =>
    rw [List.flatten_cons, pump_append, deliver_cons h]
    cases herror : (pump process d.buffered d.state chunk).error with
    | some error => simp only [herror]
    | none =>
      simp only [herror]
      exact ih (pump_buffered h herror)

/-- All events are delivered where no line fails. -/
theorem deliver_events {d : LineStream σ} (h : 10 ∉ d.buffered) (chunks : List (List UInt8))
    (hnone : (pump process d.buffered d.state chunks.flatten).error = none) :
    (deliver process finish d chunks).events =
      (pump process d.buffered d.state chunks.flatten).events := by
  induction chunks generalizing d with
  | nil => rfl
  | cons chunk chunks ih =>
    rw [List.flatten_cons, pump_append] at hnone
    rw [List.flatten_cons, pump_append, deliver_cons h]
    cases herror : (pump process d.buffered d.state chunk).error with
    | some error =>
      simp only [herror] at hnone
      cases hnone
    | none =>
      simp only [herror] at hnone ⊢
      rw [ih (pump_buffered h herror) hnone]

/-- What is delivered are the events up to some point before the error. -/
theorem deliver_begins {d : LineStream σ} (h : 10 ∉ d.buffered) (chunks : List (List UInt8)) :
    (deliver process finish d chunks).events <+:
      (pump process d.buffered d.state chunks.flatten).events := by
  induction chunks generalizing d with
  | nil => exact List.prefix_rfl
  | cons chunk chunks ih =>
    rw [List.flatten_cons, pump_append, deliver_cons h]
    cases herror : (pump process d.buffered d.state chunk).error with
    | some error => exact List.nil_prefix
    | none =>
      simp only [herror]
      exact (List.prefix_append_right_inj _).mpr (ih (pump_buffered h herror))

/-- A body in one chunk loses all its events to an error. -/
theorem deliver_whole {d : LineStream σ} (h : 10 ∉ d.buffered) {body : List UInt8}
    (herror : (pump process d.buffered d.state body).error ≠ none) :
    (deliver process finish d [body]).events = [] := by
  rw [deliver_cons h]
  cases hsome : (pump process d.buffered d.state body).error with
  | none => exact absurd hsome herror
  | some error => rfl

/-- A body that comes byte by byte loses nothing. -/
theorem deliver_bytes {d : LineStream σ} (h : 10 ∉ d.buffered) (body : List UInt8) :
    (deliver process finish d (body.map fun b => [b])).events =
      (pump process d.buffered d.state body).events := by
  induction body generalizing d with
  | nil => rfl
  | cons b body ih =>
    rw [List.map_cons, deliver_cons h]
    by_cases hb : b = 10
    · simp only [pump, if_pos hb]
      cases process d.buffered d.state with
      | mk state' result =>
        cases result with
        | error error => rfl
        | ok events =>
          simp only [List.append_nil]
          exact congrArg (events ++ ·) (ih (by simp))
    · simp only [pump, if_neg hb, List.nil_append]
      apply ih
      intro hmem
      rcases List.mem_append.mp hmem with hmem | hmem
      · exact h hmem
      · exact hb (List.mem_singleton.mp hmem).symm

/-- **Every way of cutting a body delivers the same** exactly if no line fails, or the one
    that fails comes before all events. -/
theorem deliver_agrees_iff {d : LineStream σ} (h : 10 ∉ d.buffered) (body : List UInt8) :
    (∀ chunks chunks' : List (List UInt8), chunks.flatten = body → chunks'.flatten = body →
        deliver process finish d chunks = deliver process finish d chunks') ↔
      (pump process d.buffered d.state body).error = none ∨
        (pump process d.buffered d.state body).events = [] := by
  constructor
  · intro hagree
    by_cases herror : (pump process d.buffered d.state body).error = none
    · exact .inl herror
    · right
      have hbytes : (body.map fun b => [b]).flatten = body := by
        rw [← List.flatMap_def, List.flatMap_singleton']
      have hsame := hagree [body] (body.map fun b => [b]) (by simp) hbytes
      have hwhole : (deliver process finish d [body]).events = [] := deliver_whole process finish h herror
      rw [hsame, deliver_bytes process finish h] at hwhole
      exact hwhole
  · intro hkeeps chunks chunks' hchunks hchunks'
    have hevents : ∀ chunks : List (List UInt8), chunks.flatten = body →
        (deliver process finish d chunks).events =
          (pump process d.buffered d.state body).events := by
      rintro chunks rfl
      rcases hkeeps with hnone | hempty
      · exact deliver_events process finish h chunks hnone
      · have hshort : (deliver process finish d chunks).events <+:
            (pump process d.buffered d.state chunks.flatten).events :=
          deliver_begins process finish h chunks
        rw [hempty] at hshort ⊢
        exact List.prefix_nil.mp hshort
    have hresult : (deliver process finish d chunks).result =
        (deliver process finish d chunks').result := by
      rw [deliver_result process finish h, deliver_result process finish h, hchunks, hchunks']
    have hsame := (hevents chunks hchunks).trans (hevents chunks' hchunks').symm
    calc deliver process finish d chunks
        = ⟨(deliver process finish d chunks).events, (deliver process finish d chunks).result⟩ := rfl
      _ = deliver process finish d chunks' := by rw [hsame, hresult]

/-! ### Lines -/

/-- The complete lines; `line` holds the bytes of the first one so far. -/
def completeLines (line : List UInt8) : List UInt8 → List (List UInt8)
  | [] => []
  | b :: bytes =>
      if b = 10 then line :: completeLines [] bytes else completeLines (line ++ [b]) bytes

/-- The lines up to the first that fails, and whether one did. -/
def processLines (process : List UInt8 → σ → σ × Except ε (List α)) (state : σ) :
    List (List UInt8) → σ × List α × Option ε
  | [] => (state, [], none)
  | line :: lines =>
      match process line state with
      | (state, .ok events) =>
          let rest := processLines process state lines
          (rest.1, events ++ rest.2.1, rest.2.2)
      | (state, .error error) => (state, [], some error)

/-- Bytes are processed line by line. -/
theorem pump_lines (line : List UInt8) (state : σ) (bytes : List UInt8) :
    let pumped := pump process line state bytes
    (pumped.stream.state, pumped.events, pumped.error) =
      processLines process state (completeLines line bytes) := by
  induction bytes generalizing line state with
  | nil => rfl
  | cons b bytes ih =>
    rw [pump, completeLines]
    split_ifs with hb
    · rw [processLines]
      cases process line state with
      | mk state' result =>
        cases result with
        | error error => rfl
        | ok events =>
          dsimp only
          rw [← ih]
    · exact ih (line ++ [b]) state

/-- Whether a line fails, and its events, where they do not depend on the state. -/
theorem processLines_outcome {outcome : List UInt8 → Except ε (List α)}
    (h : ∀ line state, (process line state).2 = outcome line) (state : σ)
    (lines : List (List UInt8)) :
    ((processLines process state lines).2.2 = none ↔
        ∀ line ∈ lines, (outcome line).isOk = true) ∧
      (processLines process state lines).2.1 =
        (lines.takeWhile fun line => (outcome line).isOk).flatMap fun line =>
          (outcome line).toOption.getD [] := by
  induction lines generalizing state with
  | nil => simp [processLines]
  | cons line lines ih =>
    have hline := h line state
    rw [processLines]
    cases hprocess : process line state with
    | mk state' result =>
      rw [hprocess] at hline
      cases result with
      | error error =>
        have hfails : (outcome line).isOk = false := by rw [← hline]; rfl
        simp [hfails]
      | ok events =>
        have hok : (outcome line).isOk = true := by rw [← hline]; rfl
        have hevents : (outcome line).toOption.getD [] = events := by rw [← hline]; rfl
        obtain ⟨herror, hrest⟩ := ih state'
        constructor
        · simpa [hok] using herror
        · simp [hok, hevents, hrest]

/-! ### Whole bodies -/

/-- What follows the last newline. -/
def incompleteLine (line : List UInt8) : List UInt8 → List UInt8
  | [] => line
  | b :: bytes => if b = 10 then incompleteLine [] bytes else incompleteLine (line ++ [b]) bytes

/-- The lines of a body; the last one may lack its newline. -/
def bodyLines (body : List UInt8) : List (List UInt8) :=
  completeLines [] body ++ (if incompleteLine [] body = [] then [] else [incompleteLine [] body])

theorem pump_incomplete {line : List UInt8} {state : σ} {bytes : List UInt8}
    (h : (pump process line state bytes).error = none) :
    (pump process line state bytes).stream.buffered = incompleteLine line bytes := by
  induction bytes generalizing line state with
  | nil => rfl
  | cons b bytes ih =>
    rw [pump] at h ⊢
    rw [incompleteLine]
    split_ifs at h ⊢ with hb
    · split at h
      · exact ih h
      · cases h
    · exact ih h

theorem processLines_append (state : σ) (first second : List (List UInt8)) :
    processLines process state (first ++ second) =
      let before := processLines process state first
      match before.2.2 with
      | some error => (before.1, before.2.1, some error)
      | none =>
          let after := processLines process before.1 second
          (after.1, before.2.1 ++ after.2.1, after.2.2) := by
  induction first generalizing state with
  | nil => rfl
  | cons line first ih =>
    rw [List.cons_append, processLines, processLines]
    cases process line state with
    | mk state' result =>
      cases result with
      | error error => rfl
      | ok events =>
        simp only [ih]
        cases (processLines process state' first).2.2 with
        | some error => rfl
        | none => simp

/-- A body ends with its last line, if that lacks a newline; the events of the line come
    with the end. -/
def finishWith (after : List α → σ → Except ε β) (d : LineStream σ) : Except ε β :=
  if d.buffered = [] then after [] d.state
  else
    match process d.buffered d.state with
    | (_, .error error) => .error error
    | (state, .ok events) => after events state

/-- **A whole body** is processed line by line. -/
theorem deliver_lines {after : List α → σ → Except ε β}
    (hfinish : ∀ d, finish d = finishWith process after d)
    (state : σ) (chunks : List (List UInt8)) :
    let whole := processLines process state (bodyLines chunks.flatten)
    match whole.2.2 with
    | some error => (deliver process finish { state } chunks).result = .error error
    | none =>
        ∃ events last, whole.2.1 = events ++ last ∧
          deliver process finish { state } chunks = ⟨events, after last whole.1⟩ := by
  have hempty : 10 ∉ ({ state } : LineStream σ).buffered := by simp
  have hlines := pump_lines process [] state chunks.flatten
  have hresult := deliver_result process finish hempty chunks
  have hevents := deliver_events process finish hempty chunks
  dsimp only at hlines hresult hevents
  have hdelivery : deliver process finish { state } chunks =
      ⟨(deliver process finish { state } chunks).events,
        (deliver process finish { state } chunks).result⟩ := rfl
  rw [bodyLines, processLines_append, ← hlines]
  dsimp only
  cases herror : (pump process [] state chunks.flatten).error with
  | some error =>
    rw [herror] at hresult
    exact hresult
  | none =>
    have hbuffered := pump_incomplete process herror
    rw [hevents herror, hresult, herror] at hdelivery
    dsimp only at hdelivery ⊢
    rw [hfinish, finishWith, hbuffered] at hdelivery
    split_ifs at hdelivery ⊢ with hlast
    · refine ⟨_, [], ?_, hdelivery⟩
      simp [processLines]
    · rw [processLines]
      cases hprocess : process (incompleteLine [] chunks.flatten)
          (pump process [] state chunks.flatten).stream.state with
      | mk state' result =>
        rw [hprocess] at hdelivery
        cases result with
        | error error =>
          simp only [hdelivery]
        | ok events =>
          refine ⟨_, events, ?_, hdelivery⟩
          simp [processLines]

end

end Tea.Encoding
