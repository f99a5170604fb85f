/-
  Tea/Provider/LocalSse.lean
  ==========================
  **The decoder of local responses** (`LocalSseDecoder` of `provider/local/response.rs`).
-/

import Tea.Provider.Sse

namespace Tea.Provider.LocalSse

open Tea.Core Tea.Encoding

section

variable {F : Type} (parse : String → Option (JsonValue F))

def errorMessage (error : JsonValue F) : String :=
  match error.get "message" with
  | some (.string message) => message
  | _ => "local server rejected the request"

/-- The object with the content: a delta, or else a whole message. -/
def choiceDelta (choice : JsonValue F) : Option (List (String × JsonValue F)) :=
  ((choice.get "delta").bind (·.asObject)).or ((choice.get "message").bind (·.asObject))

/-- A usage object replaces the last one, unless it is null. -/
def addUsage (d : Assembly F) (chunk : JsonValue F) : Assembly F :=
  match chunk.get "usage" with
  | some .null => d
  | some usage => { d with usage }
  | none => d

/-- A record that is no error. -/
def reduce (chunk : JsonValue F) (d : Assembly F) : Assembly F × List ModelStreamEvent :=
  let d := addUsage d chunk
  match firstChoice chunk with
  | none => (d, [])
  | some choice =>
      let d := d.addReason choice
      match choiceDelta choice with
      | none => (d, [])
      | some delta => (d.addCalls delta, deltaEvents delta)

/-- `process_line` -/
def processLine (line : List UInt8) (d : Assembly F) :
    Assembly F × Except String (List ModelStreamEvent) :=
  match fromUtf8 line with
  | .error _ => (d, .error "local server returned a non-UTF-8 SSE response")
  | .ok letters =>
      match sseLine letters with
      | .skipped => (d, .ok [])
      | .done => ({ d with sawDone := true }, .ok [])
      | .data text =>
          let d := { d with sawData := true }
          match parse text with
          | none => (d, .error "local server returned an invalid SSE event")
          | some chunk =>
              match chunk.get "error" with
              | some error =>
                  (d, .error ("local server rejected the request: " ++ errorMessage error))
              | none =>
                  let reduced := reduce chunk d
                  (reduced.1, .ok reduced.2)

def tokenCount (value : Option (JsonValue F)) : Option Nat :=
  (value.bind (·.asU64)).map (·.toNat)

def parseStreamUsage (value : JsonValue F) : Usage where
  inputTokens := tokenCount (value.get "prompt_tokens")
  outputTokens := tokenCount (value.get "completion_tokens")
  cacheReadTokens :=
    tokenCount (((value.get "prompt_tokens_details").bind (·.asObject)).bind
      (JsonValue.lookupField "cached_tokens"))

/-- The events behind the last line. -/
def settle (d : Assembly F) : Except String (List ModelStreamEvent) :=
  if !d.sawData || !d.isComplete then .error "local SSE response ended before completion"
  else do
    let calls ← toolCallEvents "local" "local tool call did not contain a name" d.toolCalls
    return calls ++ [.usage (parseStreamUsage d.usage), .end_ d.stopReason]

/-- `finish` -/
def finish (d : LineStream (Assembly F)) : Except String (List ModelStreamEvent) :=
  if d.buffered = [] then settle d.state
  else
    match processLine parse d.buffered d.state with
    | (_, .error error) => .error error
    | (state, .ok events) => do return events ++ (← settle state)

/-- `LocalSseDecoder::new` -/
def start : LineStream (Assembly F) := { state := {} }

end

end Tea.Provider.LocalSse
