/-
  Tea/Contract/RepeatedErrors.lean
  ================================
  **Repeated tool errors.**  An error is taken for a repeated one if an earlier error has
  the same fingerprint.  The fingerprint hashes content, details, signature and guidance one
  behind the other, without marks between them, into 64 bits; so different errors may share
  it (`errors_confused`), and nothing else goes wrong (`repeated_errors_iff`).
-/

import Tea.Contract.ProjectionBound

namespace Tea.Contract

open Tea.Core Tea.Run

/-! ### Errors of a context -/

/-- What makes a tool error: content, details and failure. -/
abbrev ToolErrorKey := String × Option SerializedJson × Option ToolFailure

/-- The tool error in a message, if any. -/
def toolErrorOf : AgentMessage → Option ToolErrorKey
  | .toolResult _ _ _ content details _ _ _ true failure => some (content, details, failure)
  | _ => none

def contentOf : AgentMessage → String
  | .user _ content => content
  | .assistant _ content .. => content
  | .toolResult _ _ _ content .. => content

def fingerprintOf (key : ToolErrorKey) : UInt64 := errorFingerprint key.1 key.2.1 key.2.2

/-- **The contract**: an error whose projection is the notice of a repeated error repeats an
    earlier one. -/
def OnlyRepeatedSuppressed (policy : ToolResultProjectionPolicy) (context : ContextEnvelope) :
    Prop :=
  ∀ (i : Nat) message key projected, context.messages[i]? = some message →
    toolErrorOf message = some key →
    (projectModelContext policy context).messages[i]? = some projected →
    contentOf projected = repeatedNotice →
      ∃ j < i, ∃ earlier, context.messages[j]? = some earlier ∧ toolErrorOf earlier = some key

/-- An error with the fingerprint of an earlier one repeats an earlier one. -/
def FingerprintsTell (messages : List AgentMessage) : Prop :=
  ∀ (i : Nat) message key, messages[i]? = some message → toolErrorOf message = some key →
    (∃ j < i, ∃ earlier other, messages[j]? = some earlier ∧ toolErrorOf earlier = some other ∧
      fingerprintOf other = fingerprintOf key) →
    ∃ j < i, ∃ earlier, messages[j]? = some earlier ∧ toolErrorOf earlier = some key

/-! ### The projection of a list -/

/-- The fingerprints of the errors in some messages. -/
def fingerprintsOf (messages : List AgentMessage) : List UInt64 :=
  (messages.filterMap toolErrorOf).map fingerprintOf

/-- The projection of one message. -/
def projectMessage (policy : ToolResultProjectionPolicy) (seen : List UInt64) :
    AgentMessage → AgentMessage
  | .toolResult id toolCallId toolName content details usage added terminate isError failure =>
      .toolResult id toolCallId toolName
        (projectToolResultAsText policy content details isError failure seen).1 none usage added
        terminate isError failure
  | message => message

/-- The fingerprints that are seen behind a message. -/
def seenBehind (policy : ToolResultProjectionPolicy) (seen : List UInt64) :
    AgentMessage → List UInt64
  | .toolResult _ _ _ content details _ _ _ isError failure =>
      (projectToolResultAsText policy content details isError failure seen).2
  | _ => seen

theorem projectMessages_cons (policy : ToolResultProjectionPolicy) (message : AgentMessage)
    (rest : List AgentMessage) (seen : List UInt64) :
    projectMessages policy (message :: rest) seen =
      projectMessage policy seen message ::
        projectMessages policy rest (seenBehind policy seen message) := by
  cases message <;> rfl

/-- What is seen: the fingerprints before, and that of the message if it is an error. -/
theorem mem_seenBehind (policy : ToolResultProjectionPolicy) {seen : List UInt64}
    (message : AgentMessage) (mark : UInt64) :
    mark ∈ seenBehind policy seen message ↔
      mark ∈ seen ∨ ∃ key, toolErrorOf message = some key ∧ fingerprintOf key = mark := by
  cases message with
  | user id content => simp [seenBehind, toolErrorOf]
  | assistant id content calls reason error => simp [seenBehind, toolErrorOf]
  | toolResult id callId name content details usage added terminate isError failure =>
    change mark ∈ (projectToolResultAsText policy content details isError failure seen).2 ↔ _
    by_cases hsuppressed : Suppressed policy content details isError failure seen
    · rw [project_suppressed hsuppressed]
      unfold Suppressed at hsuppressed
      simp only [Bool.and_eq_true, List.contains_iff_mem] at hsuppressed
      obtain ⟨⟨rfl, -⟩, hseen⟩ := hsuppressed
      constructor
      · exact .inl
      · rintro (hin | ⟨key, hkey, rfl⟩)
        · exact hin
        · obtain rfl := Option.some_inj.mp hkey
          exact hseen
    · have hbehind : (projectToolResultAsText policy content details isError failure seen).2 =
          if isError then errorFingerprint content details failure :: seen else seen := by
        unfold Suppressed at hsuppressed
        unfold projectToolResultAsText
        dsimp only
        rw [if_neg hsuppressed]
      rw [hbehind]
      cases isError with
      | false => simp [toolErrorOf]
      | true =>
        simp only [if_true, List.mem_cons]
        constructor
        · rintro (rfl | hin)
          · exact .inr ⟨_, rfl, rfl⟩
          · exact .inl hin
        · rintro (hin | ⟨key, hkey, rfl⟩)
          · exact .inr hin
          · obtain rfl := Option.some_inj.mp hkey
            exact .inl rfl

/-- **The state of the projection** at a message: the fingerprints of the errors before it. -/
theorem projectMessages_getElem? (policy : ToolResultProjectionPolicy)
    (messages : List AgentMessage) (seen : List UInt64) (i : Nat) :
    ∃ seen', (projectMessages policy messages seen)[i]? =
        messages[i]?.map (projectMessage policy seen') ∧
      (i ≤ messages.length → ∀ mark, mark ∈ seen' ↔ mark ∈ seen ∨ ∃ j < i, ∃ earlier key,
        messages[j]? = some earlier ∧ toolErrorOf earlier = some key ∧
          fingerprintOf key = mark) := by
  induction messages generalizing seen i with
  | nil =>
    refine ⟨seen, rfl, ?_⟩
    intro hi mark
    obtain rfl : i = 0 := Nat.le_zero.mp hi
    simp
  | cons message rest ih =>
    rw [projectMessages_cons]
    cases i with
    | zero =>
      refine ⟨seen, rfl, ?_⟩
      intro _ mark
      simp
    | succ i =>
      obtain ⟨seen', hat, hseen⟩ := ih (seenBehind policy seen message) i
      refine ⟨seen', ?_, ?_⟩
      · rw [List.getElem?_cons_succ, List.getElem?_cons_succ, hat]
      · intro hi mark
        rw [List.length_cons, Nat.add_le_add_iff_right] at hi
        rw [hseen hi, mem_seenBehind]
        constructor
        · rintro ((hin | ⟨key, hkey, hmark⟩) | ⟨j, hj, earlier, key, hearlier, hkey, hmark⟩)
          · exact .inl hin
          · exact .inr ⟨0, Nat.succ_pos i, message, key, rfl, hkey, hmark⟩
          · exact .inr ⟨j + 1, Nat.succ_lt_succ hj, earlier, key, hearlier, hkey, hmark⟩
        · rintro (hin | ⟨j, hj, earlier, key, hearlier, hkey, hmark⟩)
          · exact .inl (.inl hin)
          · cases j with
            | zero =>
              obtain rfl := Option.some_inj.mp hearlier
              exact .inl (.inr ⟨key, hkey, hmark⟩)
            | succ j =>
              exact .inr ⟨j, Nat.lt_of_succ_lt_succ hj, earlier, key, hearlier, hkey, hmark⟩

/-! ### The contract -/

/-- A header is no notice. -/
theorem header_ne_notice (failure : Option ToolFailure) (rest : String) :
    statusHeader failure ++ rest ≠ repeatedNotice := by
  intro heq
  have hletters := congrArg (fun text : String => text.toList[1]?) heq
  have hheader : (statusHeader failure ++ rest).toList[1]? = some 't' := by
    rw [String.toList_append]
    unfold statusHeader
    rw [String.toList_append, String.toList_append]
    rfl
  have hnotice : repeatedNotice.toList[1]? = some 'r' := by decide
  simp only [hheader, hnotice] at hletters
  exact absurd hletters (by decide)

theorem project_notice_iff {policy : ToolResultProjectionPolicy} {seen : List UInt64}
    {message : AgentMessage} {key : ToolErrorKey} (hvalid : validateProjection policy = .ok ())
    (hkey : toolErrorOf message = some key) :
    contentOf (projectMessage policy seen message) = repeatedNotice ↔
      policy.deduplicateRepeatedErrors = true ∧ fingerprintOf key ∈ seen := by
  cases message with
  | user id content => cases hkey
  | assistant id content calls reason error => cases hkey
  | toolResult id callId name content details usage added terminate isError failure =>
    cases isError with
    | false => cases hkey
    | true =>
      obtain rfl := Option.some_inj.mp hkey
      have hiff : Suppressed policy content details true failure seen ↔
          policy.deduplicateRepeatedErrors = true ∧
            fingerprintOf (content, details, failure) ∈ seen := by
        unfold Suppressed
        simp only [Bool.true_and, Bool.and_eq_true, List.contains_iff_mem]
        exact Iff.rfl
      rw [← hiff]
      change (projectToolResultAsText policy content details true failure seen).1 = _ ↔ _
      constructor
      · intro hnotice
        by_contra hnot
        obtain ⟨rest, hrest⟩ := (projection_unsuppressed hvalid hnot).headed rfl hnot
        rw [hrest] at hnotice
        exact header_ne_notice failure rest hnotice
      · intro hsuppressed
        rw [project_suppressed hsuppressed]

/-- **Only identical errors are suppressed** exactly if the fingerprints tell the errors
    apart, or nothing is suppressed. -/
theorem repeated_errors_iff {policy : ToolResultProjectionPolicy}
    (hvalid : validateProjection policy = .ok ()) (context : ContextEnvelope) :
    OnlyRepeatedSuppressed policy context ↔
      (policy.deduplicateRepeatedErrors = true → FingerprintsTell context.messages) := by
  have hproject : ∀ {i : Nat} {message key}, context.messages[i]? = some message →
      toolErrorOf message = some key →
      ∃ projected, (projectModelContext policy context).messages[i]? = some projected ∧
        (contentOf projected = repeatedNotice ↔ policy.deduplicateRepeatedErrors = true ∧
          ∃ j < i, ∃ earlier other, context.messages[j]? = some earlier ∧
            toolErrorOf earlier = some other ∧ fingerprintOf other = fingerprintOf key) := by
    intro i message key hmessage hkey
    obtain ⟨seen', hat, hseen⟩ := projectMessages_getElem? policy context.messages [] i
    rw [hmessage] at hat
    refine ⟨_, hat, ?_⟩
    have hi := (List.getElem?_eq_some_iff.mp hmessage).1
    rw [project_notice_iff hvalid hkey, hseen (Nat.le_of_lt hi)]
    simp
  constructor
  · intro honly hdedup i message key hmessage hkey hsame
    obtain ⟨projected, hprojected, hnotice⟩ := hproject hmessage hkey
    exact honly i message key projected hmessage hkey hprojected (hnotice.mpr ⟨hdedup, hsame⟩)
  · intro htell i message key projected hmessage hkey hprojected hcontent
    obtain ⟨projected', hprojected', hnotice⟩ := hproject hmessage hkey
    obtain rfl := Option.some_inj.mp (hprojected.symm.trans hprojected')
    obtain ⟨hdedup, hsame⟩ := hnotice.mp hcontent
    exact htell hdedup i message key hmessage hkey hsame

/-! ### Two errors with one fingerprint -/

def errorMessage (id : UInt64) (content : String) (details : Option SerializedJson) :
    AgentMessage :=
  .toolResult ⟨id⟩ ⟨"call_read", by decide⟩ "read" content details none [] false true none

/-- What moves from the content to the details leaves no mark. -/
def confusedContext : ContextEnvelope where
  messages := [errorMessage 1 "ab" none, errorMessage 2 "a" (some ⟨"b"⟩)]
  hostMessages := []

theorem errors_confused : ¬ OnlyRepeatedSuppressed {} confusedContext := by
  intro honly
  have hprojected : ((projectModelContext {} confusedContext).messages[1]?.map contentOf) =
      some repeatedNotice := by decide +kernel
  obtain ⟨projected, hat, hcontent⟩ := Option.map_eq_some_iff.mp hprojected
  obtain ⟨j, hj, earlier, hearlier, hkey⟩ := honly 1 (errorMessage 2 "a" (some ⟨"b"⟩))
    ("a", some ⟨"b"⟩, none) projected rfl rfl hat hcontent
  obtain rfl : j = 0 := by omega
  obtain rfl := Option.some_inj.mp hearlier
  have hsame := congrArg Prod.fst (Option.some_inj.mp hkey)
  exact absurd hsame (by decide)

theorem errors_told : OnlyRepeatedSuppressed {}
    { messages := [errorMessage 1 "ab" none, errorMessage 2 "ab" none], hostMessages := [] } := by
  have hvalid : validateProjection {} = .ok () := by decide
  apply (repeated_errors_iff hvalid _).mpr
  rintro - i message key hmessage hkey ⟨j, hj, -⟩
  have hi := (List.getElem?_eq_some_iff.mp hmessage).1
  obtain rfl : i = 1 := by
    simp only [List.length_cons, List.length_nil] at hi
    omega
  obtain rfl := Option.some_inj.mp hmessage
  obtain rfl := Option.some_inj.mp hkey
  exact ⟨0, by decide, errorMessage 1 "ab" none, rfl, rfl⟩

end Tea.Contract
