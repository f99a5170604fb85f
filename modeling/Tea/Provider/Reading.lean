/-
  Tea/Provider/Reading.lean
  =========================
  **What a line and a record do to the decoders.**  Both read a line in the same way
  (`readLine`), and both reduce a record to its fragments, its finish reason, its usage
  and its content (`local_reduce`, `openrouter_reduce`); they differ in where they look
  for the content, and in a usage that is null.
-/

import Tea.Provider.LocalSse
import Tea.Provider.OpenRouterSse

namespace Tea.Provider

open Tea.Core Tea.Encoding

/-! ### Lines -/

/-- What a line is: nothing to be read, the end mark, a record with its text, or one that
    is rejected, before or after it was seen to hold data. -/
inductive LineReading (F : Type) where
  | skipped
  | done
  | record (text : String) (chunk : JsonValue F)
  | rejected (sawData : Bool)

def LineReading.isAccepted {F : Type} : LineReading F → Bool
  | .rejected _ => false
  | _ => true

section

variable {F : Type} (parse : String → Option (JsonValue F))

def readLine (line : List UInt8) : LineReading F :=
  match fromUtf8 line with
  | .error _ => .rejected false
  | .ok letters =>
      match sseLine letters with
      | .skipped => .skipped
      | .done => .done
      | .data text =>
          match parse text with
          | none => .rejected true
          | some chunk => if (chunk.get "error").isSome then .rejected true else .record text chunk

/-- What the text of a record is. -/
def readData (text : String) : LineReading F :=
  match parse text with
  | none => .rejected true
  | some chunk => if (chunk.get "error").isSome then .rejected true else .record text chunk

theorem readLine_data {line : List UInt8} {letters : List Char} {text : String}
    (hletters : fromUtf8 line = .ok letters) (hdata : sseLetters letters = .data text) :
    readLine parse line = readData parse text := by
  rw [readLine, hletters]
  simp only [sseLine_letters, hdata]
  rfl

/-- What the local decoder makes of a line. -/
theorem local_processLine (line : List UInt8) (d : Assembly F) :
    match readLine parse line with
    | .skipped => LocalSse.processLine parse line d = (d, .ok [])
    | .done => LocalSse.processLine parse line d = ({ d with sawDone := true }, .ok [])
    | .record _ chunk =>
        LocalSse.processLine parse line d =
          ((LocalSse.reduce chunk { d with sawData := true }).1,
            .ok (LocalSse.reduce chunk { d with sawData := true }).2)
    | .rejected sawData =>
        ∃ error, LocalSse.processLine parse line d =
          ({ d with sawData := d.sawData || sawData }, .error error) := by
  unfold readLine LocalSse.processLine
  cases fromUtf8 line with
  | error error => exact ⟨_, Prod.ext (by simp) rfl⟩
  | ok letters =>
    dsimp only
    cases sseLine letters with
    | skipped => rfl
    | done => rfl
    | data text =>
      dsimp only
      cases parse text with
      | none => exact ⟨_, Prod.ext (by simp) rfl⟩
      | some chunk =>
        dsimp only
        cases hfield : chunk.get "error" with
        | some error => exact ⟨_, Prod.ext (by simp) rfl⟩
        | none => simp

/-- What the OpenRouter decoder makes of a line. -/
theorem openrouter_processLine (line : List UInt8) (d : OpenRouterSse.StreamingSse F) :
    match readLine parse line with
    | .skipped => OpenRouterSse.processLine parse line d = (d, .ok [])
    | .done =>
        OpenRouterSse.processLine parse line d = ({ d with sawDone := true }, .ok [])
    | .record text chunk =>
        OpenRouterSse.processLine parse line d =
          ((OpenRouterSse.reduce text chunk { d with sawData := true }).1,
            .ok (OpenRouterSse.reduce text chunk { d with sawData := true }).2)
    | .rejected sawData =>
        ∃ error, OpenRouterSse.processLine parse line d =
          ({ d with sawData := d.sawData || sawData }, .error error) := by
  unfold readLine OpenRouterSse.processLine
  cases fromUtf8 line with
  | error error => exact ⟨_, Prod.ext (by simp) rfl⟩
  | ok letters =>
    dsimp only
    cases sseLine letters with
    | skipped => rfl
    | done => rfl
    | data text =>
      dsimp only
      cases parse text with
      | none => exact ⟨_, Prod.ext (by simp) rfl⟩
      | some chunk =>
        dsimp only
        by_cases herror : (chunk.get "error").isSome = true
        · rw [if_pos herror, if_pos herror]
          exact ⟨_, Prod.ext (by simp) rfl⟩
        · rw [if_neg herror, if_neg herror]

theorem local_isOk (line : List UInt8) (d : Assembly F) :
    (LocalSse.processLine parse line d).2.isOk = (readLine parse line).isAccepted := by
  have hline := local_processLine parse line d
  cases hread : readLine parse line with
  | skipped =>
    simp only [hread] at hline
    rw [hline]
    rfl
  | done =>
    simp only [hread] at hline
    rw [hline]
    rfl
  | record text chunk =>
    simp only [hread] at hline
    rw [hline]
    rfl
  | rejected sawData =>
    simp only [hread] at hline
    obtain ⟨error, hline⟩ := hline
    rw [hline]
    rfl

theorem openrouter_isOk (line : List UInt8) (d : OpenRouterSse.StreamingSse F) :
    (OpenRouterSse.processLine parse line d).2.isOk = (readLine parse line).isAccepted := by
  have hline := openrouter_processLine parse line d
  cases hread : readLine parse line with
  | skipped =>
    simp only [hread] at hline
    rw [hline]
    rfl
  | done =>
    simp only [hread] at hline
    rw [hline]
    rfl
  | record text chunk =>
    simp only [hread] at hline
    rw [hline]
    rfl
  | rejected sawData =>
    simp only [hread] at hline
    obtain ⟨error, hline⟩ := hline
    rw [hline]
    rfl

end

/-! ### Records -/

section

variable {F : Type}

/-- The delta of a record, in the object that `choiceDelta` finds. -/
def recordDelta (choiceDelta : JsonValue F → Option (List (String × JsonValue F)))
    (chunk : JsonValue F) : List (String × JsonValue F) :=
  ((firstChoice chunk).bind choiceDelta).getD []

def recordReason (chunk : JsonValue F) : Option String := (firstChoice chunk).bind choiceReason

/-- The usage of a record, unless it is null. -/
def recordUsage (chunk : JsonValue F) : Option (JsonValue F) :=
  match chunk.get "usage" with
  | some .null => none
  | usage => usage

theorem local_reduce (chunk : JsonValue F) (d : Assembly F) :
    LocalSse.reduce chunk d =
      ({ d with
          toolCalls :=
            (deltaCalls (recordDelta LocalSse.choiceDelta chunk)).foldl addFragment d.toolCalls
          finishReason := (recordReason chunk).or d.finishReason
          usage := (recordUsage chunk).getD d.usage },
        deltaEvents (recordDelta LocalSse.choiceDelta chunk)) := by
  have husage : LocalSse.addUsage d chunk =
      { d with usage := (recordUsage chunk).getD d.usage } := by
    unfold LocalSse.addUsage recordUsage
    cases chunk.get "usage" with
    | none => rfl
    | some usage => cases usage <;> rfl
  simp only [LocalSse.reduce, husage, recordReason, recordDelta]
  cases firstChoice chunk with
  | none => rfl
  | some choice =>
    simp only [Option.bind_some]
    cases LocalSse.choiceDelta choice with
    | none => rfl
    | some delta => rfl

theorem openrouter_reduce (text : String) (chunk : JsonValue F)
    (d : OpenRouterSse.StreamingSse F) :
    (OpenRouterSse.reduce text chunk d).2 =
        deltaEvents (recordDelta OpenRouterSse.choiceDelta chunk) ∧
      (OpenRouterSse.reduce text chunk d).1.toAssembly =
        { d.toAssembly with
          toolCalls :=
            (deltaCalls (recordDelta OpenRouterSse.choiceDelta chunk)).foldl addFragment
              d.toolCalls
          finishReason := (recordReason chunk).or d.finishReason
          usage := (chunk.get "usage").getD d.usage } := by
  have hmeta : (OpenRouterSse.addMeta d text chunk).toAssembly =
      { d.toAssembly with usage := (chunk.get "usage").getD d.usage } := by
    unfold OpenRouterSse.addMeta
    cases chunk.get "usage" with
    | none => rfl
    | some usage => rfl
  simp only [OpenRouterSse.reduce, recordReason, recordDelta]
  cases firstChoice chunk with
  | none => exact ⟨rfl, hmeta⟩
  | some choice =>
    simp only [Option.bind_some]
    cases OpenRouterSse.choiceDelta choice with
    | none => exact ⟨rfl, by simp only [hmeta]; rfl⟩
    | some delta => exact ⟨rfl, by simp only [hmeta]; rfl⟩

end

end Tea.Provider
