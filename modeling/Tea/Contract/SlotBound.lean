/-
  Tea/Contract/SlotBound.lean
  ===========================
  **Slots for streamed tool calls.**  A fragment names its slot, and the decoder grows to
  it.  The slots stay within the number of fragments exactly if every fragment names a
  slot below that number (`slots_bounded_iff`); one fragment may ask for any number of
  them (`slots_unbounded`).
-/

import Tea.Contract.ChunkInvariance

namespace Tea.Contract

open Tea.Core Tea.Encoding Tea.Provider

/-! ### Fragments -/

section

variable {F : Type}

theorem addFragment_length (toolCalls : List (Option StreamingToolCall))
    (fragment : JsonValue F × Nat) :
    (addFragment toolCalls fragment).length =
      max toolCalls.length (callIndex fragment.2 fragment.1 + 1) := by
  simp only [addFragment, growTo, List.length_set, List.length_append, List.length_replicate]
  omega

/-- The slots are as many as the greatest index asks for. -/
theorem addFragments_length_le (fragments : List (JsonValue F × Nat))
    (toolCalls : List (Option StreamingToolCall)) (n : Nat) :
    (fragments.foldl addFragment toolCalls).length ≤ n ↔
      toolCalls.length ≤ n ∧ ∀ fragment ∈ fragments, callIndex fragment.2 fragment.1 < n := by
  induction fragments generalizing toolCalls with
  | nil => simp
  | cons fragment fragments ih =>
    rw [List.foldl_cons, ih, addFragment_length, List.forall_mem_cons]
    constructor
    · rintro ⟨hlength, hrest⟩
      exact ⟨by omega, by omega, hrest⟩
    · rintro ⟨hlength, hfirst, hrest⟩
      exact ⟨by omega, hrest⟩

variable (parse : String → Option (JsonValue F))

/-- The fragments of a line, where `choiceDelta` finds the delta. -/
def lineCalls (choiceDelta : JsonValue F → Option (List (String × JsonValue F)))
    (line : List UInt8) : List (JsonValue F × Nat) :=
  match readLine parse line with
  | .record _ chunk => deltaCalls (recordDelta choiceDelta chunk)
  | _ => []

/-- The lines of a body that are processed: the complete ones, up to a rejected one. -/
def processedLines (body : List UInt8) : List (List UInt8) :=
  (completeLines [] body).takeWhile fun line => (readLine parse line).isAccepted

/-- The slots that the fragments of a body name, in the order of the fragments. -/
def namedSlots (choiceDelta : JsonValue F → Option (List (String × JsonValue F)))
    (body : List UInt8) : List Nat :=
  ((processedLines parse body).flatMap (lineCalls parse choiceDelta)).map fun fragment =>
    callIndex fragment.2 fragment.1

/-! ### Slots -/

theorem local_toolCalls (line : List UInt8) (d : Assembly F) :
    (LocalSse.processLine parse line d).1.toolCalls =
      (lineCalls parse LocalSse.choiceDelta line).foldl addFragment d.toolCalls := by
  have hline := local_processLine parse line d
  unfold lineCalls
  cases hread : readLine parse line with
  | skipped =>
    simp only [hread] at hline
    rw [hline]
    rfl
  | done =>
    simp only [hread] at hline
    rw [hline]
    rfl
  | record text chunk =>
    simp only [hread] at hline
    rw [hline, local_reduce]
  | rejected sawData =>
    simp only [hread] at hline
    obtain ⟨error, hline⟩ := hline
    rw [hline]
    rfl

theorem openrouter_toolCalls (line : List UInt8) (d : OpenRouterSse.StreamingSse F) :
    (OpenRouterSse.processLine parse line d).1.toolCalls =
      (lineCalls parse OpenRouterSse.choiceDelta line).foldl addFragment d.toolCalls := by
  have hline := openrouter_processLine parse line d
  unfold lineCalls
  cases hread : readLine parse line with
  | skipped =>
    simp only [hread] at hline
    rw [hline]
    rfl
  | done =>
    simp only [hread] at hline
    rw [hline]
    rfl
  | record text chunk =>
    simp only [hread] at hline
    rw [hline, (openrouter_reduce text chunk _).2]
  | rejected sawData =>
    simp only [hread] at hline
    obtain ⟨error, hline⟩ := hline
    rw [hline]
    rfl

end

/-- The slots behind some lines are those of the fragments in the lines that are
    processed, for a decoder whose lines add their fragments. -/
theorem processLines_slots {F σ : Type} {parse : String → Option (JsonValue F)}
    {process : List UInt8 → σ → σ × Except String (List ModelStreamEvent)}
    {slots : σ → List (Option StreamingToolCall)}
    {choiceDelta : JsonValue F → Option (List (String × JsonValue F))}
    (hslots : ∀ line state, slots (process line state).1 =
      (lineCalls parse choiceDelta line).foldl addFragment (slots state))
    (hok : ∀ line state, (process line state).2.isOk = (readLine parse line).isAccepted)
    (state : σ) (lines : List (List UInt8)) :
    slots (processLines process state lines).1 =
      ((lines.takeWhile fun line => (readLine parse line).isAccepted).flatMap
        (lineCalls parse choiceDelta)).foldl addFragment (slots state) := by
  induction lines generalizing state with
  | nil => rfl
  | cons line lines ih =>
    have hline := hslots line state
    have hread := hok line state
    rw [processLines]
    cases hprocess : process line state with
    | mk state' result =>
      rw [hprocess] at hline hread
      cases result with
      | ok events =>
        have haccepted : (readLine parse line).isAccepted = true := hread.symm
        simp only [List.takeWhile_cons, haccepted, if_true, List.flatMap_cons, List.foldl_append]
        rw [← hline]
        exact ih state'
      | error error =>
        have haccepted : (readLine parse line).isAccepted = false := hread.symm
        have hnone : lineCalls parse choiceDelta line = [] := by
          unfold lineCalls
          cases hreading : readLine parse line with
          | rejected sawData => rfl
          | skipped => rfl
          | done => rfl
          | record text chunk =>
            rw [hreading] at haccepted
            cases haccepted
        simp only [List.takeWhile_cons, haccepted, Bool.false_eq_true, if_false]
        rw [hnone] at hline
        exact hline

/-- The slots behind some chunks are within a bound exactly if all named slots are. -/
theorem slots_le_iff {F σ : Type} {parse : String → Option (JsonValue F)}
    {process : List UInt8 → σ → σ × Except String (List ModelStreamEvent)}
    (slots : σ → List (Option StreamingToolCall))
    {choiceDelta : JsonValue F → Option (List (String × JsonValue F))}
    (hslots : ∀ line state, slots (process line state).1 =
      (lineCalls parse choiceDelta line).foldl addFragment (slots state))
    (hok : ∀ line state, (process line state).2.isOk = (readLine parse line).isAccepted)
    {state : σ} (hstart : slots state = []) (chunks : List (List UInt8)) (n : Nat) :
    (slots (pushAll process { state } chunks).state).length ≤ n ↔
      ∀ index ∈ namedSlots parse choiceDelta chunks.flatten, index < n := by
  have hempty : 10 ∉ ({ state } : LineStream σ).buffered := by simp
  have hlines := congrArg Prod.fst (pump_lines process [] state chunks.flatten)
  have hstate : (pushAll process { state } chunks).state =
      (processLines process state (completeLines [] chunks.flatten)).1 := by
    rw [pushAll_state hempty]
    exact hlines
  rw [hstate, processLines_slots hslots hok, hstart, addFragments_length_le]
  rw [namedSlots, List.forall_mem_map]
  simp [processedLines]

/-- **Slots for tool calls**: behind any chunks, a decoder holds at most as many slots as
    it has processed fragments exactly if each fragment names a slot below that number. -/
theorem slots_bounded_iff {F : Type} (parse : String → Option (JsonValue F))
    (chunks : List (List UInt8)) :
    ((pushAll (LocalSse.processLine parse) LocalSse.start chunks).state.toolCalls.length ≤
        (namedSlots parse LocalSse.choiceDelta chunks.flatten).length ↔
      ∀ index ∈ namedSlots parse LocalSse.choiceDelta chunks.flatten,
        index < (namedSlots parse LocalSse.choiceDelta chunks.flatten).length) ∧
    ((pushAll (OpenRouterSse.processLine parse) OpenRouterSse.start
          chunks).state.toolCalls.length ≤
        (namedSlots parse OpenRouterSse.choiceDelta chunks.flatten).length ↔
      ∀ index ∈ namedSlots parse OpenRouterSse.choiceDelta chunks.flatten,
        index < (namedSlots parse OpenRouterSse.choiceDelta chunks.flatten).length) := by
  constructor
  · have hstart : ({} : Assembly F).toolCalls = [] := rfl
    exact slots_le_iff (·.toolCalls) (local_toolCalls parse) (local_isOk parse) hstart chunks _
  · have hstart : ({} : OpenRouterSse.StreamingSse F).toolCalls = [] := rfl
    exact slots_le_iff (·.toolCalls) (openrouter_toolCalls parse) (openrouter_isOk parse) hstart
      chunks _

/-! ### A fragment with a great index -/

/-- A record with one fragment, whose index is five hundred. -/
def greatIndexLine : List UInt8 :=
  encodeUtf8
    "data:\x7b\"choices\":[\x7b\"delta\":\x7b\"tool_calls\":[\x7b\"index\":500\x7d]\x7d\x7d]\x7d\n".toList

/-- **Slots without bound**: one fragment in a record of 60 bytes takes 501 slots. -/
theorem slots_unbounded :
    (namedSlots textCodec.parse LocalSse.choiceDelta greatIndexLine).length = 1 ∧
      greatIndexLine.length = 60 ∧
      (pushAll (LocalSse.processLine textCodec.parse) LocalSse.start
        [greatIndexLine]).state.toolCalls.length = 501 ∧
      (pushAll (OpenRouterSse.processLine textCodec.parse) OpenRouterSse.start
        [greatIndexLine]).state.toolCalls.length = 501 := by
  refine ⟨?_, ?_, ?_, ?_⟩
  · delta namedSlots processedLines lineCalls readLine
    simp only [sseLine_letters]
    decide +kernel
  · decide +kernel
  · delta LocalSse.processLine
    simp only [sseLine_letters]
    decide +kernel
  · delta OpenRouterSse.processLine
    simp only [sseLine_letters]
    decide +kernel

end Tea.Contract
