/-
  Tea/Core/Transcript.lean
  ========================
  **Transcript well-formedness** (`validate_messages` of `compaction.rs`).

  The executable scan follows the source: one pass that records message ids, tool
  calls and tool results, with the error texts of the source, and a final look at
  the calls without a result.  Its specification is the inductive `ValidPrefix`,
  which grows a transcript one message at a time, the way the run loop does
  (`validateMessages_ok_iff`).
-/
import Tea.Core.Event
import Mathlib.Data.List.Induction
import Mathlib.Data.List.Sort

namespace Tea.Core

/-! ### The executable scan -/

/-- `message_ids`, `tool_calls` and `tool_results` of the scan. -/
structure Seen where
  ids : List MessageId := []
  calls : List (ToolCallId × String) := []
  results : List ToolCallId := []

def CompactionError.invalid (message : String) : CompactionError := .invalidReplacement message

/-- The calls of one assistant message; a call id may be used once. -/
def registerCalls :
    List (ToolCallId × String) → List AgentToolCall →
      Except CompactionError (List (ToolCallId × String))
  | calls, [] => .ok calls
  | calls, call :: rest =>
      match calls.lookup call.id with
      | some previousName => .error (.invalid ("tool call ID " ++ call.id.text ++
          " is reused by " ++ debugStr previousName ++ " and " ++ debugStr call.name))
      | none => registerCalls (calls ++ [(call.id, call.name)]) rest

def validateMessage (seen : Seen) (message : AgentMessage) : Except CompactionError Seen :=
  if message.id.val = 0 ∨ message.id.val = 18446744073709551615 then
    .error (.invalid "message IDs zero and u64::MAX are reserved")
  else if message.id ∈ seen.ids then
    .error (.invalid ("message ID " ++ toString message.id.val.toNat ++ " occurs more than once"))
  else
    let seen := { seen with ids := seen.ids ++ [message.id] }
    match message with
    | .user .. => .ok seen
    | .assistant _ _ toolCalls _ _ =>
        match registerCalls seen.calls toolCalls with
        | .error error => .error error
        | .ok calls => .ok { seen with calls }
    | .toolResult _ toolCallId toolName .. =>
        match seen.calls.lookup toolCallId with
        | some callName =>
            if callName = toolName then
              if toolCallId ∈ seen.results then
                .error (.invalid ("tool call " ++ toolCallId.text ++
                  " has more than one retained result"))
              else .ok { seen with results := seen.results ++ [toolCallId] }
            else .error (.invalid ("tool result " ++ toolCallId.text ++ " names " ++
              debugStr toolName ++ ", but its call names " ++ debugStr callName))
        | none => .error (.invalid ("tool result " ++ toolCallId.text ++
            " has no preceding assistant call"))

def scanMessages (messages : List AgentMessage) : Except CompactionError Seen :=
  messages.foldlM validateMessage {}

/-- The calls without a retained result, in the order of the source's `BTreeMap`. -/
def Seen.missingResults (seen : Seen) : List String :=
  ((seen.calls.map (·.1)).filter fun id => id ∉ seen.results).map (·.text)
    |>.insertionSort (· ≤ ·)

def validateMessages (messages : List AgentMessage) : Except CompactionError Unit :=
  match scanMessages messages with
  | .error error => .error error
  | .ok seen =>
      if seen.missingResults = [] then .ok ()
      else .error (.invalid ("retained assistant tool calls have no result: " ++
        ", ".intercalate seen.missingResults))

/-! ### The specification -/

def idsOf (messages : List AgentMessage) : List MessageId := messages.map (·.id)

def callsOf (messages : List AgentMessage) : List (ToolCallId × String) :=
  messages.flatMap fun message => message.calls.map fun call => (call.id, call.name)

def resultsOf (messages : List AgentMessage) : List ToolCallId :=
  messages.filterMap fun message => message.resultOf.map (·.1)

@[simp] theorem idsOf_append (ms ns : List AgentMessage) :
    idsOf (ms ++ ns) = idsOf ms ++ idsOf ns := by simp [idsOf]

@[simp] theorem callsOf_append (ms ns : List AgentMessage) :
    callsOf (ms ++ ns) = callsOf ms ++ callsOf ns := by simp [callsOf]

@[simp] theorem resultsOf_append (ms ns : List AgentMessage) :
    resultsOf (ms ++ ns) = resultsOf ms ++ resultsOf ns := by simp [resultsOf]

/-- `message` may follow `messages` in a transcript whose calls may still be open. -/
structure Extends (messages : List AgentMessage) (message : AgentMessage) : Prop where
  id_pos : message.id.val ≠ 0
  id_max : message.id.val ≠ 18446744073709551615
  id_fresh : message.id ∉ idsOf messages
  calls_fresh : ∀ call ∈ message.calls, call.id ∉ (callsOf messages).map (·.1)
  calls_nodup : (message.calls.map (·.id)).Nodup
  result_called : ∀ r, message.resultOf = some r → r ∈ callsOf messages
  result_first : ∀ r, message.resultOf = some r → r.1 ∉ resultsOf messages

/-- A transcript built message by message; calls may be open at its end. -/
inductive ValidPrefix : List AgentMessage → Prop where
  | nil : ValidPrefix []
  | snoc {messages message} (valid : ValidPrefix messages) (extends_ : Extends messages message) :
      ValidPrefix (messages ++ [message])

/-- Every tool call has a result. -/
def Closed (messages : List AgentMessage) : Prop :=
  ∀ call ∈ callsOf messages, call.1 ∈ resultsOf messages

/-! ### The scan meets the specification -/

def seenOf (messages : List AgentMessage) : Seen :=
  ⟨idsOf messages, callsOf messages, resultsOf messages⟩

theorem registerCalls_ok_iff {seen : List (ToolCallId × String)} {calls : List AgentToolCall}
    {seen' : List (ToolCallId × String)} :
    registerCalls seen calls = .ok seen' ↔
      seen' = seen ++ calls.map (fun call => (call.id, call.name)) ∧
        (∀ call ∈ calls, call.id ∉ seen.map (·.1)) ∧ (calls.map (·.id)).Nodup := by
  induction calls generalizing seen with
  | nil => simp [registerCalls, eq_comm]
  | cons call rest ih =>
    rcases h : seen.lookup call.id with _ | previousName
    · have hfresh : call.id ∉ seen.map (·.1) := by
        intro hmem
        obtain ⟨entry, hentry, heq⟩ := List.mem_map.mp hmem
        have := List.lookup_eq_none_iff.mp h entry hentry
        simp [heq] at this
      simp only [registerCalls, h, ih, List.append_assoc]
      constructor
      · rintro ⟨rfl, hrest, hnodup⟩
        refine ⟨by simp, ?_, ?_⟩
        · intro c hc
          rcases List.mem_cons.mp hc with rfl | hc
          · exact hfresh
          · intro hmem
            refine hrest c hc ?_
            rw [List.map_append]
            exact List.mem_append_left _ hmem
        · refine List.nodup_cons.mpr ⟨?_, hnodup⟩
          intro hmem
          obtain ⟨c, hc, heq⟩ := List.mem_map.mp hmem
          exact hrest c hc (by simp [heq])
      · rintro ⟨rfl, hall, hnodup⟩
        obtain ⟨hcall, hnodup⟩ := List.nodup_cons.mp hnodup
        refine ⟨by simp, ?_, hnodup⟩
        intro c hc hmem
        rcases List.mem_append.mp (by simpa only [List.map_append] using hmem) with hmem | hmem
        · exact hall c (List.mem_cons_of_mem _ hc) hmem
        · have heq : c.id = call.id := by simpa using hmem
          exact hcall (List.mem_map.mpr ⟨c, hc, heq⟩)
    · have hmem : call.id ∈ seen.map (·.1) := by
        obtain ⟨pre, post, rfl, _⟩ := List.lookup_eq_some_iff.mp h
        simp
      simp only [registerCalls, h]
      constructor
      · intro hne
        cases hne
      · rintro ⟨_, hall, _⟩
        exact absurd hmem (hall call (by simp))

/-- In a valid prefix a call id names one call, so a lookup finds it. -/
theorem lookup_eq_some_of_mem {entries : List (ToolCallId × String)}
    (hnodup : (entries.map (·.1)).Nodup) {id : ToolCallId} {name : String} :
    entries.lookup id = some name ↔ (id, name) ∈ entries := by
  induction entries with
  | nil => simp
  | cons entry rest ih =>
    obtain ⟨key, value⟩ := entry
    obtain ⟨hkey, hrest⟩ := List.nodup_cons.mp hnodup
    by_cases h : id = key
    · subst h
      have hno : (id, name) ∉ rest := fun hmem => hkey (List.mem_map.mpr ⟨_, hmem, rfl⟩)
      simp [hno, eq_comm]
    · have hbeq : (id == key) = false := by simpa using h
      simp [List.lookup_cons, hbeq, ih hrest, h]

theorem ValidPrefix.calls_nodup {messages : List AgentMessage} (h : ValidPrefix messages) :
    ((callsOf messages).map (·.1)).Nodup := by
  induction h with
  | nil => simp [callsOf]
  | @snoc messages message _ hext ih =>
    have hone : (callsOf [message]).map (·.1) = message.calls.map (·.id) := by simp [callsOf]
    rw [callsOf_append, List.map_append, hone]
    refine List.nodup_append.mpr ⟨ih, hext.calls_nodup, ?_⟩
    intro a ha b hb heq
    obtain ⟨call, hcall, rfl⟩ := List.mem_map.mp hb
    exact hext.calls_fresh call hcall (heq ▸ ha)

/-- One step of the scan accepts exactly the messages that extend the prefix. -/
theorem validateMessage_ok_iff {messages : List AgentMessage} (h : ValidPrefix messages)
    {message : AgentMessage} {seen : Seen} :
    validateMessage (seenOf messages) message = .ok seen ↔
      seen = seenOf (messages ++ [message]) ∧ Extends messages message := by
  unfold validateMessage
  by_cases hreserved : message.id.val = 0 ∨ message.id.val = 18446744073709551615
  · rw [if_pos hreserved]
    constructor
    · intro hne
      cases hne
    · rintro ⟨_, hext⟩
      exact absurd hreserved (not_or.mpr ⟨hext.id_pos, hext.id_max⟩)
  rw [if_neg hreserved]
  obtain ⟨hpos, hmax⟩ := not_or.mp hreserved
  by_cases hused : message.id ∈ (seenOf messages).ids
  · rw [if_pos hused]
    constructor
    · intro hne
      cases hne
    · rintro ⟨_, hext⟩
      exact absurd hused hext.id_fresh
  rw [if_neg hused]
  cases message with
  | user id content =>
    constructor
    · rintro ⟨⟩
      refine ⟨by simp [seenOf, idsOf, callsOf, resultsOf, AgentMessage.calls,
        AgentMessage.resultOf], ⟨hpos, hmax, hused, ?_, ?_, ?_, ?_⟩⟩ <;>
        simp [AgentMessage.calls, AgentMessage.resultOf]
    · rintro ⟨rfl, _⟩
      simp [seenOf, idsOf, callsOf, resultsOf, AgentMessage.calls, AgentMessage.resultOf]
  | assistant id content toolCalls stopReason errorMessage =>
    rcases hreg : registerCalls (seenOf messages).calls toolCalls with error | calls
    · simp only [hreg]
      constructor
      · intro hne
        cases hne
      · rintro ⟨_, hext⟩
        have hok := registerCalls_ok_iff.mpr
          ⟨rfl, hext.calls_fresh, hext.calls_nodup⟩
        rw [show (AgentMessage.assistant id content toolCalls stopReason errorMessage).calls
          = toolCalls from rfl] at hok
        exact absurd (hreg.symm.trans hok) (by simp)
    · obtain ⟨rfl, hfresh, hnodup⟩ := registerCalls_ok_iff.mp hreg
      simp only [hreg]
      constructor
      · rintro ⟨⟩
        refine ⟨by simp [seenOf, idsOf, callsOf, resultsOf, AgentMessage.calls,
          AgentMessage.resultOf], ⟨hpos, hmax, hused, hfresh, hnodup, ?_, ?_⟩⟩ <;>
          simp [AgentMessage.resultOf]
      · rintro ⟨rfl, _⟩
        simp [seenOf, idsOf, callsOf, resultsOf, AgentMessage.calls, AgentMessage.resultOf]
  | toolResult id toolCallId toolName content details usage added terminate isError failure =>
    rcases hlook : (seenOf messages).calls.lookup toolCallId with _ | callName
    · simp only [hlook]
      constructor
      · intro hne
        cases hne
      · rintro ⟨_, hext⟩
        have hmem := (lookup_eq_some_of_mem h.calls_nodup).mpr (hext.result_called _ rfl)
        exact absurd (hlook.symm.trans hmem) (by simp)
    · have hcalled := (lookup_eq_some_of_mem h.calls_nodup).mp hlook
      simp only [hlook]
      by_cases hname : callName = toolName
      · rw [if_pos hname]
        by_cases hdone : toolCallId ∈ (seenOf messages).results
        · rw [if_pos hdone]
          constructor
          · intro hne
            cases hne
          · rintro ⟨_, hext⟩
            exact absurd hdone (hext.result_first _ rfl)
        · rw [if_neg hdone]
          constructor
          · rintro ⟨⟩
            refine ⟨by simp [seenOf, idsOf, callsOf, resultsOf, AgentMessage.calls,
              AgentMessage.resultOf], ⟨hpos, hmax, hused, ?_, ?_, ?_, ?_⟩⟩
            · simp [AgentMessage.calls]
            · simp [AgentMessage.calls]
            · rintro r ⟨⟩
              exact hname ▸ hcalled
            · rintro r ⟨⟩
              exact hdone
          · rintro ⟨rfl, _⟩
            simp [seenOf, idsOf, callsOf, resultsOf, AgentMessage.calls, AgentMessage.resultOf]
      · rw [if_neg hname]
        constructor
        · intro hne
          cases hne
        · rintro ⟨_, hext⟩
          have hmem := (lookup_eq_some_of_mem h.calls_nodup).mpr (hext.result_called _ rfl)
          exact absurd (Option.some.inj (hlook.symm.trans hmem)) hname

theorem scanMessages_snoc (messages : List AgentMessage) (message : AgentMessage) :
    scanMessages (messages ++ [message]) =
      scanMessages messages >>= fun seen => validateMessage seen message := by
  simp [scanMessages, List.foldlM_append]

theorem scanMessages_ok_iff {messages : List AgentMessage} {seen : Seen} :
    scanMessages messages = .ok seen ↔ seen = seenOf messages ∧ ValidPrefix messages := by
  induction messages using List.reverseRecOn generalizing seen with
  | nil =>
    constructor
    · rintro ⟨⟩
      exact ⟨rfl, .nil⟩
    · rintro ⟨rfl, _⟩
      rfl
  | append_singleton messages message ih =>
    rw [scanMessages_snoc]
    rcases hscan : scanMessages messages with error | before
    · constructor
      · intro hne
        cases hne
      · rintro ⟨_, hvalid⟩
        generalize hall : messages ++ [message] = all at hvalid
        cases hvalid with
        | nil => simp at hall
        | snoc hprefix _ =>
          obtain ⟨rfl, _⟩ := List.append_inj' hall rfl
          exact absurd (hscan.symm.trans (ih.mpr ⟨rfl, hprefix⟩)) (by simp)
    · obtain ⟨rfl, hprefix⟩ := ih.mp hscan
      change validateMessage (seenOf messages) message = .ok seen ↔ _
      rw [validateMessage_ok_iff hprefix]
      constructor
      · rintro ⟨rfl, hext⟩
        exact ⟨rfl, .snoc hprefix hext⟩
      · rintro ⟨rfl, hvalid⟩
        refine ⟨rfl, ?_⟩
        generalize hall : messages ++ [message] = all at hvalid
        cases hvalid with
        | nil => simp at hall
        | snoc _ hext =>
          obtain ⟨rfl, hlast⟩ := List.append_inj' hall rfl
          cases hlast
          exact hext

theorem missingResults_eq_nil_iff (messages : List AgentMessage) :
    (seenOf messages).missingResults = [] ↔ Closed messages := by
  have hperm := List.perm_insertionSort (α := String) (· ≤ ·)
    ((((seenOf messages).calls.map (·.1)).filter
      fun id => id ∉ (seenOf messages).results).map (·.text))
  unfold Seen.missingResults Closed
  constructor
  · intro hnil call hcall
    rw [hnil] at hperm
    have hempty := hperm.nil_eq
    by_contra hopen
    have hmem : call.1.text ∈ (((seenOf messages).calls.map (·.1)).filter
        fun id => id ∉ (seenOf messages).results).map (·.text) :=
      List.mem_map.mpr ⟨call.1, List.mem_filter.mpr
        ⟨List.mem_map.mpr ⟨call, hcall, rfl⟩, decide_eq_true hopen⟩, rfl⟩
    rw [← hempty] at hmem
    exact absurd hmem (by simp)
  · intro hclosed
    have hempty : (((seenOf messages).calls.map (·.1)).filter
        fun id => id ∉ (seenOf messages).results) = [] := by
      refine List.filter_eq_nil_iff.mpr ?_
      intro id hid
      obtain ⟨call, hcall, rfl⟩ := List.mem_map.mp hid
      exact fun hopen => absurd (hclosed call hcall) (of_decide_eq_true hopen)
    rw [hempty]
    rfl

/-- **What `validate_messages` accepts**: the transcripts built by extension, with
    every call closed. -/
theorem validateMessages_ok_iff (messages : List AgentMessage) :
    validateMessages messages = .ok () ↔ ValidPrefix messages ∧ Closed messages := by
  unfold validateMessages
  rcases hscan : scanMessages messages with error | seen
  · constructor
    · intro hne
      cases hne
    · rintro ⟨hvalid, _⟩
      exact absurd (hscan.symm.trans (scanMessages_ok_iff.mpr ⟨rfl, hvalid⟩)) (by simp)
  · obtain ⟨rfl, hvalid⟩ := scanMessages_ok_iff.mp hscan
    by_cases hmissing : (seenOf messages).missingResults = []
    · simp [hmissing, hvalid, (missingResults_eq_nil_iff messages).mp hmissing]
    · have hopen : ¬ Closed messages := fun h =>
        hmissing ((missingResults_eq_nil_iff messages).mpr h)
      simp [hmissing, hopen]

end Tea.Core
