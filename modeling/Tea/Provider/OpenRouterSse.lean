/-
  Tea/Provider/OpenRouterSse.lean
  ===============================
  **The decoder of OpenRouter responses** (`StreamingSseDecoder` of
  `provider/openrouter/response.rs`).  A cost keeps its decimal text, which a scanner
  takes from the raw record; its floating-point copy is left out.
-/

import Tea.Provider.Sse

namespace Tea.Provider.OpenRouterSse

open Tea.Core Tea.Encoding

/-! ### Raw numbers -/

def isAsciiWhitespace (c : Char) : Bool :=
  c = ' ' || c = '\t' || c = '\n' || c = '\x0c' || c = '\r'

def skipSpace (input : List Char) : List Char := input.dropWhile isAsciiWhitespace

def isNumberLetter (c : Char) : Bool :=
  c.isDigit || c = '-' || c = '+' || c = '.' || c = 'e' || c = 'E'

/-- `number`: the letters of a number, and the input behind it. -/
def rawNumber (input : List Char) : Option (List Char × List Char) :=
  if input.takeWhile isNumberLetter = [] then none
  else some (input.takeWhile isNumberLetter, input.dropWhile isNumberLetter)

/-- The letters of a string up to its quote, as they are written. -/
def rawLetters : List Char → Option (List Char × List Char)
  | [] => none
  | '"' :: input => some ([], input)
  | '\\' :: c :: input => (rawLetters input).map fun (letters, rest) => ('\\' :: c :: letters, rest)
  | c :: input => (rawLetters input).map fun (letters, rest) => (c :: letters, rest)

/-- `string` -/
def rawString : List Char → Option (List Char × List Char)
  | '"' :: input => rawLetters input
  | _ => none

mutual

/-- `skip_value` -/
def skipValue : Nat → List Char → Option (List Char)
  | 0, _ => none
  | fuel + 1, input =>
      match skipSpace input with
      | '\x7b' :: rest =>
          match skipSpace rest with
          | '\x7d' :: rest => some rest
          | rest => skipFields fuel rest
      | '[' :: rest =>
          match skipSpace rest with
          | ']' :: rest => some rest
          | rest => skipItems fuel rest
      | '"' :: rest => (rawLetters rest).map (·.2)
      | 't' :: 'r' :: 'u' :: 'e' :: rest => some rest
      | 'f' :: 'a' :: 'l' :: 's' :: 'e' :: rest => some rest
      | 'n' :: 'u' :: 'l' :: 'l' :: rest => some rest
      | c :: rest => if c = '-' ∨ c.isDigit then (rawNumber (c :: rest)).map (·.2) else none
      | [] => none

def skipFields : Nat → List Char → Option (List Char)
  | 0, _ => none
  | fuel + 1, input =>
      match rawString (skipSpace input) with
      | none => none
      | some (_, rest) =>
          match skipSpace rest with
          | ':' :: rest =>
              match skipValue fuel rest with
              | none => none
              | some rest =>
                  match skipSpace rest with
                  | ',' :: rest => skipFields fuel rest
                  | '\x7d' :: rest => some rest
                  | _ => none
          | _ => none

def skipItems : Nat → List Char → Option (List Char)
  | 0, _ => none
  | fuel + 1, input =>
      match skipValue fuel input with
      | none => none
      | some rest =>
          match skipSpace rest with
          | ',' :: rest => skipItems fuel rest
          | ']' :: rest => some rest
          | _ => none

end

/-- The value of the first field with a name, behind the brace of an object. -/
def rawField (name : List Char) : Nat → List Char → Option (List Char)
  | 0, _ => none
  | fuel + 1, input =>
      match rawString (skipSpace input) with
      | none => none
      | some (key, rest) =>
          match skipSpace rest with
          | ':' :: rest =>
              if key = name then some (skipSpace rest)
              else
                match skipValue fuel rest with
                | none => none
                | some rest =>
                    match skipSpace rest with
                    | ',' :: rest => rawField name fuel rest
                    | _ => none
          | _ => none

/-- `value_at_path` -/
def valueAtPath : List String → List Char → Option (List Char)
  | [], input => (rawNumber (skipSpace input)).map (·.1)
  | name :: path, input =>
      match skipSpace input with
      | '\x7b' :: rest =>
          match skipSpace rest with
          | '\x7d' :: _ => none
          | rest => (rawField name.toList (2 * rest.length + 2) rest).bind (valueAtPath path)
      | _ => none

/-- What is left of a number behind its exponent mark. -/
def validExponent (input : List Char) : Bool :=
  match input with
  | [] => true
  | c :: rest =>
      if c = 'e' ∨ c = 'E' then
        let digits := match rest with
          | '+' :: digits => digits
          | '-' :: digits => digits
          | digits => digits
        digits ≠ [] && digits.all Char.isDigit
      else false

/-- `valid_nonnegative_json_number` -/
def validNonnegativeJsonNumber (input : List Char) : Bool :=
  let behindWhole :=
    match input with
    | [] => none
    | c :: rest =>
        if c = '0' then some rest
        else if c.isDigit then some (rest.dropWhile Char.isDigit)
        else none
  match behindWhole with
  | none => false
  | some ('.' :: fraction) =>
      fraction.takeWhile Char.isDigit ≠ [] && validExponent (fraction.dropWhile Char.isDigit)
  | some rest => validExponent rest

/-- `exact_number_at_path` -/
def exactNumberAtPath (input : String) (path : List String) : Option String :=
  ((valueAtPath path input.toList).filter validNonnegativeJsonNumber).map String.ofList

/-! ### Errors -/

def asciiLower (c : Char) : Char := if 'A' ≤ c ∧ c ≤ 'Z' then Char.ofNat (c.toNat + 32) else c

/-- `contains` -/
def contains (message : List Char) (word : String) : Bool :=
  message.tails.any fun rest => word.toList.isPrefixOf rest

section

variable {F : Type}

/-- `openrouter_context_overflow` of a record with an error. -/
def contextOverflow (chunk : JsonValue F) : Bool :=
  match ((chunk.get "error").bind (·.get "message")).bind (·.asStr) with
  | none => false
  | some message =>
      let message := message.toList.map asciiLower
      let exceeded := contains message "maximum" || contains message "exceed" ||
        contains message "too long" || contains message "over limit" ||
        contains message "limit reached"
      (exceeded && contains message "context" &&
        (contains message "length" || contains message "limit" || contains message "window" ||
          contains message "token" || contains message "capacity")) ||
        contains message "too many tokens" || contains message "prompt is too long"

/-! ### Records -/

structure StreamingSse (F : Type) extends Assembly F where
  /-- The text of the record that holds the usage. -/
  usageBytes : Option String := none
  generationId : Option String := none
  model : Option String := none

/-- A text that is present and not empty. -/
def presentText (value : Option (JsonValue F)) : Option String :=
  (value.bind (·.asStr)).filter (· ≠ "")

/-- The identity of the response, and its usage: a null replaces what was there. -/
def addMeta (d : StreamingSse F) (text : String) (chunk : JsonValue F) : StreamingSse F :=
  let d := { d with
    generationId := d.generationId.or (presentText (chunk.get "id"))
    model := d.model.or (presentText (chunk.get "model")) }
  match chunk.get "usage" with
  | some usage => { d with usage, usageBytes := some text }
  | none => d

def choiceDelta (choice : JsonValue F) : Option (List (String × JsonValue F)) :=
  (choice.get "delta").bind (·.asObject)

/-- A record that is no error. -/
def reduce (text : String) (chunk : JsonValue F) (d : StreamingSse F) :
    StreamingSse F × List ModelStreamEvent :=
  let d := addMeta d text chunk
  match firstChoice chunk with
  | none => (d, [])
  | some choice =>
      let d := { d with toAssembly := d.toAssembly.addReason choice }
      match choiceDelta choice with
      | none => (d, [])
      | some delta =>
          ({ d with toAssembly := d.toAssembly.addCalls delta }, deltaEvents delta)

section

variable (parse : String → Option (JsonValue F))

/-- `process_line` -/
def processLine (line : List UInt8) (d : StreamingSse F) :
    StreamingSse F × Except String (List ModelStreamEvent) :=
  match fromUtf8 line with
  | .error _ => (d, .error "OpenRouter returned a non-UTF-8 SSE response")
  | .ok letters =>
      match sseLine letters with
      | .skipped => (d, .ok [])
      | .done => ({ d with sawDone := true }, .ok [])
      | .data text =>
          let d := { d with sawData := true }
          match parse text with
          | none => (d, .error "OpenRouter returned an invalid SSE event")
          | some chunk =>
              if (chunk.get "error").isSome then
                (d, .error (if contextOverflow chunk then "OpenRouter context capacity exceeded"
                  else "OpenRouter rejected the request"))
              else
                let reduced := reduce text chunk d
                (reduced.1, .ok reduced.2)

end

/-! ### The end of the body -/

def tokenCount (value : Option (JsonValue F)) : Option Nat :=
  (value.bind (·.asU64)).map (·.toNat)

/-- `parse_usage` -/
def parseUsage (usage : JsonValue F) : Usage where
  inputTokens := tokenCount (usage.get "prompt_tokens")
  outputTokens := tokenCount (usage.get "completion_tokens")
  reasoningTokens :=
    tokenCount (((usage.get "completion_tokens_details").bind (·.asObject)).bind
      (JsonValue.lookupField "reasoning_tokens"))
  cacheReadTokens := tokenCount ((usage.get "prompt_tokens_details").bind (·.get "cached_tokens"))
  cacheWriteTokens :=
    tokenCount ((usage.get "prompt_tokens_details").bind (·.get "cache_write_tokens"))

/-- `is_reported` -/
def isReported (usage : Usage) : Bool :=
  usage.inputTokens.isSome || usage.outputTokens.isSome || usage.reasoningTokens.isSome ||
    usage.cacheReadTokens.isSome || usage.cacheWriteTokens.isSome || usage.cost.isSome

/-- The cost in the record with the usage: its decimal text, and the model. -/
structure OpenRouterCostTurn where
  totalUsdExact : String
  model : Option String
  usage : Usage
deriving DecidableEq

def inlineCost (d : StreamingSse F) : Option OpenRouterCostTurn :=
  (d.usageBytes.bind fun text => exactNumberAtPath text ["usage", "cost"]).map fun total =>
    { totalUsdExact := total, model := d.model, usage := parseUsage d.usage }

structure StreamingSseComplete where
  events : List ModelStreamEvent
  usage : Usage
  generationId : Option String
  inlineCost : Option OpenRouterCostTurn
deriving DecidableEq

/-- The usage update, if something was reported. -/
def usageEvents (d : StreamingSse F) : List ModelStreamEvent :=
  if isReported (parseUsage d.usage) || (inlineCost d).isSome then [.usage (parseUsage d.usage)]
  else []

/-- A partial body ends as if its length were exhausted. -/
def assumeLength (allowPartial : Bool) (d : StreamingSse F) : StreamingSse F :=
  if allowPartial && !d.isComplete then { d with finishReason := some "length" } else d

/-- The end of a body behind its last line, whose events come first. -/
def settle (allowPartial : Bool) (events : List ModelStreamEvent) (d : StreamingSse F) :
    Except String StreamingSseComplete :=
  if !d.sawData || (!allowPartial && !d.isComplete) then
    .error "OpenRouter SSE response ended before completion"
  else do
    let d := assumeLength allowPartial d
    let calls ←
      toolCallEvents "openrouter" "OpenRouter tool call did not contain a name" d.toolCalls
    return {
      events := events ++ calls ++ usageEvents d ++ [.end_ d.stopReason]
      usage := parseUsage d.usage
      generationId := d.generationId
      inlineCost := inlineCost d }

/-- `finish` -/
def finish (parse : String → Option (JsonValue F)) (allowPartial : Bool)
    (d : LineStream (StreamingSse F)) : Except String StreamingSseComplete :=
  if d.buffered = [] then settle allowPartial [] d.state
  else
    match processLine parse d.buffered d.state with
    | (state, .ok events) => settle allowPartial events state
    | (state, .error error) =>
        if allowPartial then settle allowPartial [] state else .error error

/-- `StreamingSseDecoder::new` -/
def start : LineStream (StreamingSse F) := { state := {} }

end

end Tea.Provider.OpenRouterSse
