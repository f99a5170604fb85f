/-
  Tea/Contract/ChunkInvariance.lean
  =================================
  **Streamed bodies in chunks.**  Whether a line fails, and its content, do not depend on
  the lines before it (`local_outcome`, `openrouter_outcome`).  A push that fails drops
  the content that its chunk has already decoded, so what is delivered depends on the
  chunks exactly if a rejected line comes after content (`chunks_agree_iff`).
-/

import Tea.Provider.Reading
import Tea.Encoding.JsonText

namespace Tea.Contract

open Tea.Core Tea.Encoding Tea.Provider

section

variable {F : Type} (parse : String → Option (JsonValue F))

/-! ### One line -/

/-- What a local line comes to. -/
def localOutcome (line : List UInt8) : Except String (List ModelStreamEvent) :=
  (LocalSse.processLine parse line {}).2

/-- What an OpenRouter line comes to. -/
def openrouterOutcome (line : List UInt8) : Except String (List ModelStreamEvent) :=
  (OpenRouterSse.processLine parse line {}).2

theorem local_outcome (line : List UInt8) (d : Assembly F) :
    (LocalSse.processLine parse line d).2 = localOutcome parse line := by
  unfold localOutcome LocalSse.processLine
  cases fromUtf8 line with
  | error error => rfl
  | ok letters =>
    dsimp only
    cases sseLine letters with
    | skipped => rfl
    | done => rfl
    | data text =>
      dsimp only
      cases parse text with
      | none => rfl
      | some chunk =>
        dsimp only
        cases chunk.get "error" with
        | some error => rfl
        | none => simp only [local_reduce]

theorem openrouter_outcome (line : List UInt8) (d : OpenRouterSse.StreamingSse F) :
    (OpenRouterSse.processLine parse line d).2 = openrouterOutcome parse line := by
  unfold openrouterOutcome OpenRouterSse.processLine
  cases fromUtf8 line with
  | error error => rfl
  | ok letters =>
    dsimp only
    cases sseLine letters with
    | skipped => rfl
    | done => rfl
    | data text =>
      dsimp only
      cases parse text with
      | none => rfl
      | some chunk =>
        dsimp only
        by_cases herror : (chunk.get "error").isSome = true
        · rw [if_pos herror, if_pos herror]
        · rw [if_neg herror, if_neg herror]
          simp only [(openrouter_reduce text chunk _).1]

/-! ### Bodies -/

/-- What a client of the local decoder is given. -/
def localDelivery (chunks : List (List UInt8)) :
    Delivery ModelStreamEvent (List ModelStreamEvent) String :=
  deliver (LocalSse.processLine parse) (LocalSse.finish parse) LocalSse.start chunks

/-- What a client of the OpenRouter decoder is given. -/
def openrouterDelivery (allowPartial : Bool) (chunks : List (List UInt8)) :
    Delivery ModelStreamEvent OpenRouterSse.StreamingSseComplete String :=
  deliver (OpenRouterSse.processLine parse) (OpenRouterSse.finish parse allowPartial)
    OpenRouterSse.start chunks

/-- No complete line is rejected, or the lines before the first rejected one have no
    content. -/
def KeepsContent (outcome : List UInt8 → Except String (List ModelStreamEvent))
    (body : List UInt8) : Prop :=
  (∀ line ∈ completeLines [] body, (outcome line).isOk = true) ∨
    ∀ line ∈ (completeLines [] body).takeWhile fun line => (outcome line).isOk,
      (outcome line).toOption.getD [] = []

end

/-- The condition in terms of the lines, for a decoder whose lines stand for themselves. -/
theorem agrees_iff_keepsContent {σ β : Type}
    {process : List UInt8 → σ → σ × Except String (List ModelStreamEvent)}
    {finish : LineStream σ → Except String β}
    {outcome : List UInt8 → Except String (List ModelStreamEvent)}
    (houtcome : ∀ line state, (process line state).2 = outcome line) (state : σ)
    (body : List UInt8) :
    (∀ chunks chunks' : List (List UInt8), chunks.flatten = body → chunks'.flatten = body →
        deliver process finish { state } chunks = deliver process finish { state } chunks') ↔
      KeepsContent outcome body := by
  have hempty : 10 ∉ ({ state } : LineStream σ).buffered := by simp
  have hlines := pump_lines process [] state body
  obtain ⟨herror, hevents⟩ := processLines_outcome process houtcome state (completeLines [] body)
  rw [← hlines] at herror hevents
  dsimp only at herror hevents
  rw [deliver_agrees_iff process finish hempty body, herror, hevents, List.flatMap_eq_nil_iff]
  rfl

/-- **Bodies in chunks**: every two ways of cutting a body deliver the same content and the
    same end exactly if no complete line is rejected after content. -/
theorem chunks_agree_iff {F : Type} (parse : String → Option (JsonValue F))
    (allowPartial : Bool) (body : List UInt8) :
    ((∀ chunks chunks' : List (List UInt8), chunks.flatten = body → chunks'.flatten = body →
        localDelivery parse chunks = localDelivery parse chunks') ↔
      KeepsContent (localOutcome parse) body) ∧
    ((∀ chunks chunks' : List (List UInt8), chunks.flatten = body → chunks'.flatten = body →
        openrouterDelivery parse allowPartial chunks =
          openrouterDelivery parse allowPartial chunks') ↔
      KeepsContent (openrouterOutcome parse) body) := by
  constructor
  · exact agrees_iff_keepsContent (local_outcome parse) _ body
  · exact agrees_iff_keepsContent (openrouter_outcome parse) _ body

/-! ### Content before a malformed record -/

/-- A record with content. -/
def helloLine : List UInt8 :=
  encodeUtf8 "data:\x7b\"choices\":[\x7b\"delta\":\x7b\"content\":\"a\"\x7d\x7d]\x7d\n".toList

def malformedLine : List UInt8 := encodeUtf8 "data:x\n".toList

/-- **Content is lost**: in one chunk with the malformed record it is not delivered, in a
    chunk of its own it is. -/
theorem content_lost :
    localDelivery textCodec.parse [helloLine ++ malformedLine] =
        ⟨[], .error "local server returned an invalid SSE event"⟩ ∧
      localDelivery textCodec.parse [helloLine, malformedLine] =
        ⟨[.textDelta "a"], .error "local server returned an invalid SSE event"⟩ ∧
      openrouterDelivery textCodec.parse false [helloLine ++ malformedLine] =
        ⟨[], .error "OpenRouter returned an invalid SSE event"⟩ ∧
      openrouterDelivery textCodec.parse false [helloLine, malformedLine] =
        ⟨[.textDelta "a"], .error "OpenRouter returned an invalid SSE event"⟩ := by
  delta localDelivery openrouterDelivery LocalSse.processLine OpenRouterSse.processLine
  simp only [sseLine_letters]
  refine ⟨?_, ?_, ?_, ?_⟩
  · decide +kernel
  · decide +kernel
  · decide +kernel
  · decide +kernel

end Tea.Contract
