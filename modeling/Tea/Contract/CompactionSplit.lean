/-
  Tea/Contract/CompactionSplit.lean
  =================================
  **The split of an automatic compaction.**  The start of the retained messages moves back
  over tool results only.  So a call is separated from its result where some other message
  stands between them, which `validate_messages` accepts (`split_torn`); where no message
  does, every split is safe (`split_safe_iff`).
-/

import Tea.Contract.StableProjection

namespace Tea.Core

/-! ### Parts of a valid transcript -/

theorem ValidPrefix.snoc_inv {messages : List AgentMessage} {message : AgentMessage}
    (h : ValidPrefix (messages ++ [message])) :
    ValidPrefix messages ∧ Extends messages message := by
  generalize hall : messages ++ [message] = all at h
  cases h with
  | nil => simp at hall
  | snoc hvalid hext =>
    obtain ⟨rfl, hlast⟩ := List.append_inj' hall rfl
    cases hlast
    exact ⟨hvalid, hext⟩

/-- A result has its call before it. -/
theorem ValidPrefix.results_called {messages : List AgentMessage} (h : ValidPrefix messages) :
    ∀ id ∈ resultsOf messages, id ∈ (callsOf messages).map (·.1) := by
  induction h with
  | nil =>
    intro id hid
    cases hid
  | @snoc messages message hvalid hext ih =>
    intro id hid
    rw [callsOf_append, List.map_append]
    rw [resultsOf_append] at hid
    apply List.mem_append_left
    rcases List.mem_append.mp hid with hold | hnew
    · exact ih id hold
    · obtain ⟨one, hone, hresult⟩ := List.mem_filterMap.mp hnew
      obtain rfl := List.mem_singleton.mp hone
      obtain ⟨r, hr, rfl⟩ := Option.map_eq_some_iff.mp hresult
      exact List.mem_map.mpr ⟨r, hext.result_called r hr, rfl⟩

theorem ValidPrefix.left {first rest : List AgentMessage} (h : ValidPrefix (first ++ rest)) :
    ValidPrefix first := by
  induction rest using List.reverseRecOn with
  | nil => rwa [List.append_nil] at h
  | append_singleton rest message ih =>
    rw [← List.append_assoc] at h
    exact ih h.snoc_inv.1

/-- What is left of a valid transcript is valid if no result in it has lost its call. -/
theorem ValidPrefix.right {first rest : List AgentMessage} (h : ValidPrefix (first ++ rest))
    (hapart : ∀ id ∈ resultsOf rest, id ∉ (callsOf first).map (·.1)) : ValidPrefix rest := by
  induction rest using List.reverseRecOn with
  | nil => exact .nil
  | append_singleton rest message ih =>
    rw [← List.append_assoc] at h
    obtain ⟨hvalid, hext⟩ := h.snoc_inv
    have hids : ∀ id, id ∈ idsOf rest → id ∈ idsOf (first ++ rest) := by
      intro id hid
      rw [idsOf_append]
      exact List.mem_append_right _ hid
    have hcalls : ∀ call, call ∈ callsOf rest → call ∈ callsOf (first ++ rest) := by
      intro call hcall
      rw [callsOf_append]
      exact List.mem_append_right _ hcall
    have hbefore : ∀ id ∈ resultsOf rest, id ∉ (callsOf first).map (·.1) := by
      intro id hid
      apply hapart
      rw [resultsOf_append]
      exact List.mem_append_left _ hid
    apply ValidPrefix.snoc (ih hvalid hbefore)
    constructor
    · exact hext.id_pos
    · exact hext.id_max
    · intro hid
      exact hext.id_fresh (hids _ hid)
    · intro call hcall hused
      obtain ⟨other, hother, heq⟩ := List.mem_map.mp hused
      exact hext.calls_fresh call hcall (List.mem_map.mpr ⟨other, hcalls other hother, heq⟩)
    · exact hext.calls_nodup
    · intro r hr
      have hcalled := hext.result_called r hr
      rw [callsOf_append] at hcalled
      rcases List.mem_append.mp hcalled with hlost | hkept
      · have hresult : r.1 ∈ resultsOf (rest ++ [message]) := by
          rw [resultsOf_append]
          apply List.mem_append_right
          apply List.mem_filterMap.mpr
          exact ⟨message, List.mem_singleton_self _, by rw [hr]; rfl⟩
        exact absurd (List.mem_map.mpr ⟨r, hlost, rfl⟩) (hapart r.1 hresult)
      · exact hkept
    · intro r hr hresult
      apply hext.result_first r hr
      rw [resultsOf_append]
      exact List.mem_append_right _ hresult

/-- No call is on both sides. -/
theorem ValidPrefix.calls_apart {first rest : List AgentMessage} (h : ValidPrefix (first ++ rest))
    {id : ToolCallId} (hfirst : id ∈ (callsOf first).map (·.1)) :
    id ∉ (callsOf rest).map (·.1) := by
  have hnodup := h.calls_nodup
  rw [callsOf_append, List.map_append] at hnodup
  intro hrest
  exact (List.nodup_append.mp hnodup).2.2 id hfirst id hrest rfl

theorem Closed.right {first rest : List AgentMessage} (h : ValidPrefix (first ++ rest))
    (hclosed : Closed (first ++ rest)) : Closed rest := by
  intro call hcall
  have hresult := hclosed call (by rw [callsOf_append]; exact List.mem_append_right _ hcall)
  rw [resultsOf_append] at hresult
  rcases List.mem_append.mp hresult with hfirst | hrest
  · have hcalled := h.left.results_called call.1 hfirst
    exact absurd (List.mem_map.mpr ⟨call, hcall, rfl⟩) (h.calls_apart hcalled)
  · exact hrest

/-- A message of the user may begin a transcript. -/
theorem ValidPrefix.user_cons {messages : List AgentMessage} (h : ValidPrefix messages)
    {id : MessageId} {content : String} (hpos : id.val ≠ 0) (hmax : id.val ≠ 18446744073709551615)
    (hfresh : id ∉ idsOf messages) : ValidPrefix (.user id content :: messages) := by
  induction h with
  | nil =>
    apply ValidPrefix.snoc ValidPrefix.nil
    constructor
    · exact hpos
    · exact hmax
    · exact hfresh
    · intro call hcall
      cases hcall
    · exact List.nodup_nil
    · intro r hr
      cases hr
    · intro r hr
      cases hr
  | @snoc messages message hvalid hext ih =>
    rw [idsOf_append] at hfresh
    have hbefore : id ∉ idsOf messages := fun hid => hfresh (List.mem_append_left _ hid)
    have hne : message.id ≠ id := by
      rintro rfl
      exact hfresh (List.mem_append_right _ (List.mem_singleton_self _))
    apply ValidPrefix.snoc (ih hbefore)
    constructor
    · exact hext.id_pos
    · exact hext.id_max
    · intro hid
      rcases List.mem_cons.mp hid with heq | hold
      · exact hne heq
      · exact hext.id_fresh hold
    · exact hext.calls_fresh
    · exact hext.calls_nodup
    · exact hext.result_called
    · exact hext.result_first

end Tea.Core

namespace Tea.Contract

open Tea.Async Tea.Core Tea.Run Tea.Encoding Tea.Provider Tea.App

/-! ### Tokens -/

theorem sum_cons (value : Nat) (values : List Nat) :
    sum (value :: values) = value + sum values := by
  have hfold : ∀ (values : List Nat) (start : Nat),
      values.foldl (· + ·) start = start + values.foldl (· + ·) 0 := by
    intro values
    induction values with
    | nil => exact fun start => (Nat.add_zero start).symm
    | cons first rest ih =>
      intro start
      rw [List.foldl_cons, List.foldl_cons, ih, ih (0 + first)]
      omega
  unfold sum
  rw [List.foldl_cons, hfold, Nat.zero_add]

theorem tokens_cons (message : AgentMessage) (rest : List AgentMessage) :
    estimateMessagesTokens (message :: rest) =
      estimateMessageTokens message + estimateMessagesTokens rest := by
  unfold estimateMessagesTokens
  rw [List.map_cons, sum_cons]

/-- A message has four tokens at least. -/
theorem tokens_pos (message : AgentMessage) : 4 ≤ estimateMessageTokens message := by
  have hbytes : 16 ≤ estimateMessageBytes message := by
    cases message <;> simp only [estimateMessageBytes, satAdd, u64Max] <;> omega
  unfold estimateMessageTokens satAdd u64Max
  omega

/-- The tokens from some message on. -/
def tokensFrom (messages : List AgentMessage) (start : Nat) : Nat :=
  estimateMessagesTokens (messages.drop start)

theorem tokensFrom_step {messages : List AgentMessage} {start : Nat} (h : start < messages.length) :
    tokensFrom messages start =
      (messages[start]?.map estimateMessageTokens).getD 0 + tokensFrom messages (start + 1) := by
  unfold tokensFrom
  rw [List.drop_eq_getElem_cons h, tokens_cons, List.getElem?_eq_getElem h]
  rfl

theorem tokensFrom_lt {messages : List AgentMessage} {start later : Nat}
    (h : later ≤ messages.length) (hlt : start < later) :
    tokensFrom messages later < tokensFrom messages start := by
  induction later with
  | zero => exact absurd hlt (Nat.not_lt_zero start)
  | succ later ih =>
    have hstep := tokensFrom_step h
    rw [List.getElem?_eq_getElem h, Option.map_some, Option.getD_some] at hstep
    have hpos := tokens_pos messages[later]
    rcases Nat.lt_succ_iff_lt_or_eq.mp hlt with hbefore | rfl
    · have hbefore := ih (Nat.le_of_lt h) hbefore
      omega
    · omega

theorem tokensFrom_le {messages : List AgentMessage} {start later : Nat}
    (h : later ≤ messages.length) (hle : start ≤ later) :
    tokensFrom messages later ≤ tokensFrom messages start := by
  rcases Nat.lt_or_eq_of_le hle with hlt | rfl
  · exact Nat.le_of_lt (tokensFrom_lt h hlt)
  · exact Nat.le_refl _

/-- A transcript has no more messages than tokens. -/
theorem length_le_tokens (messages : List AgentMessage) :
    4 * messages.length ≤ estimateMessagesTokens messages := by
  induction messages with
  | nil => exact Nat.zero_le _
  | cons message rest ih =>
    have hpos := tokens_pos message
    rw [tokens_cons, List.length_cons]
    omega

/-! ### The start of the retained messages -/

/-- The message at an index is a tool result. -/
def isResultAt (messages : List AgentMessage) (index : Nat) : Bool :=
  (messages[index]?.map (·.isToolResult)).getD false

theorem skipToolResults_le (messages : List AgentMessage) (start : Nat) :
    skipToolResults messages start ≤ start := by
  induction start with
  | zero => exact Nat.le_refl _
  | succ start ih =>
    rw [skipToolResults]
    split_ifs
    · exact Nat.le_succ_of_le ih
    · exact Nat.le_refl _

theorem skipToolResults_stops (messages : List AgentMessage) (start : Nat) :
    skipToolResults messages start = 0 ∨
      isResultAt messages (skipToolResults messages start) = false := by
  induction start with
  | zero => exact .inl rfl
  | succ start ih =>
    rw [skipToolResults]
    split_ifs with hresult
    · exact ih
    · exact .inr (Bool.eq_false_iff.mpr hresult)

theorem skipToolResults_stays {messages : List AgentMessage} {start : Nat}
    (h : isResultAt messages start = false) : skipToolResults messages start = start := by
  cases start with
  | zero => rfl
  | succ start => exact if_neg (Bool.eq_false_iff.mp h)

/-- **The recent suffix** is the shortest one with enough tokens. -/
theorem recentStart_spec {messages : List AgentMessage} (recentTokens : Nat)
    (htotal : tokensFrom messages 0 ≤ u64Max) {start : Nat} (h : start ≤ messages.length) :
    recentStart messages recentTokens start (tokensFrom messages start) ≤ start ∧
    (recentTokens ≤ tokensFrom messages
        (recentStart messages recentTokens start (tokensFrom messages start)) ∨
      recentStart messages recentTokens start (tokensFrom messages start) = 0) ∧
    (recentStart messages recentTokens start (tokensFrom messages start) < start →
      tokensFrom messages
        (recentStart messages recentTokens start (tokensFrom messages start) + 1) <
          recentTokens) := by
  induction start with
  | zero => exact ⟨Nat.le_refl _, .inr rfl, fun hlt => absurd hlt (Nat.not_lt_zero _)⟩
  | succ start ih =>
    by_cases hmore : tokensFrom messages (start + 1) < recentTokens
    · -- one more message is retained
      have hadd : satAdd (tokensFrom messages (start + 1))
          ((messages[start]?.map estimateMessageTokens).getD 0) = tokensFrom messages start := by
        have hstep := tokensFrom_step h
        have hfits := tokensFrom_le (Nat.le_of_lt h) (Nat.zero_le start)
        unfold satAdd
        omega
      rw [recentStart, if_pos hmore, hadd]
      obtain ⟨hle, henough, hfew⟩ := ih (Nat.le_of_lt h)
      refine ⟨Nat.le_succ_of_le hle, henough, ?_⟩
      intro _
      rcases Nat.lt_or_eq_of_le hle with hlt | heq
      · exact hfew hlt
      · rw [heq]
        exact hmore
    · rw [recentStart, if_neg hmore]
      refine ⟨Nat.le_refl _, .inl (Nat.le_of_not_lt hmore), ?_⟩
      intro hlt
      exact absurd hlt (Nat.lt_irrefl _)

theorem tokensFrom_length (messages : List AgentMessage) :
    tokensFrom messages messages.length = 0 := by
  unfold tokensFrom
  rw [List.drop_length]
  rfl

/-- Every message that is no result can become the first one retained. -/
theorem splitStart_at {messages : List AgentMessage} {index : Nat}
    (htotal : tokensFrom messages 0 ≤ u64Max) (hindex : index < messages.length)
    (hresult : isResultAt messages index = false) :
    splitStart messages (tokensFrom messages index) = index := by
  have hspec := recentStart_spec (tokensFrom messages index) htotal (Nat.le_refl messages.length)
  rw [tokensFrom_length] at hspec
  unfold splitStart
  generalize recentStart messages (tokensFrom messages index) messages.length 0 = start at hspec ⊢
  obtain ⟨hle, henough, hfew⟩ := hspec
  have heq : start = index := by
    rcases Nat.lt_trichotomy start index with hlt | heq | hgt
    · have hless := hfew (Nat.lt_trans hlt hindex)
      have hnext : start + 1 ≤ index := hlt
      have hmore := tokensFrom_le (Nat.le_of_lt hindex) hnext
      omega
    · exact heq
    · have hless := tokensFrom_lt hle hgt
      omega
  rw [heq]
  exact skipToolResults_stays hresult

theorem splitStart_spec {messages : List AgentMessage} (recentTokens : Nat)
    (htotal : tokensFrom messages 0 ≤ u64Max) :
    min recentTokens (tokensFrom messages 0) ≤
        tokensFrom messages (splitStart messages recentTokens) ∧
      (splitStart messages recentTokens = 0 ∨
        isResultAt messages (splitStart messages recentTokens) = false) := by
  have hspec := recentStart_spec recentTokens htotal (Nat.le_refl messages.length)
  rw [tokensFrom_length] at hspec
  unfold splitStart
  generalize recentStart messages recentTokens messages.length 0 = start at hspec ⊢
  obtain ⟨hle, henough, -⟩ := hspec
  refine ⟨?_, skipToolResults_stops messages start⟩
  have hmore := tokensFrom_le hle (skipToolResults_le messages start)
  rcases henough with henough | rfl
  · omega
  · rw [show skipToolResults messages 0 = 0 from rfl]
    omega

/-! ### The id of a summary -/

theorem candidate_val {k : Nat} (h : k ≤ 18446744073709551615) : (UInt64.ofNat k).toNat = k := by
  apply UInt64.toNat_ofNat_of_lt'
  rw [UInt64.size]
  omega

theorem satSucc_ofNat {k : Nat} (h : k < 18446744073709551615) :
    satSucc (UInt64.ofNat k) = UInt64.ofNat (k + 1) := by
  have hval : (UInt64.ofNat k).toNat = k := candidate_val (by omega)
  have hne : UInt64.ofNat k ≠ 18446744073709551615 := by
    intro heq
    have hsame := congrArg UInt64.toNat heq
    rw [hval] at hsame
    have hmax : (18446744073709551615 : UInt64).toNat = 18446744073709551615 := rfl
    omega
  unfold satSucc
  rw [if_neg hne]
  exact (UInt64.ofNat_add k 1).symm

/-- The candidates before the one chosen are used. -/
theorem firstUnused_spec (used : List MessageId) (steps k : Nat)
    (h : k + steps ≤ 18446744073709551615) :
    ∃ n ≤ steps, firstUnused used steps (UInt64.ofNat k) = UInt64.ofNat (k + n) ∧
      (∀ i < n, (⟨UInt64.ofNat (k + i)⟩ : MessageId) ∈ used) ∧
      (n < steps → (⟨UInt64.ofNat (k + n)⟩ : MessageId) ∉ used) := by
  induction steps generalizing k with
  | zero =>
    refine ⟨0, Nat.le_refl _, rfl, ?_, ?_⟩
    · intro i hi
      exact absurd hi (Nat.not_lt_zero i)
    · intro hlt
      exact absurd hlt (Nat.lt_irrefl 0)
  | succ steps ih =>
    rw [firstUnused]
    by_cases hused : (⟨UInt64.ofNat k⟩ : MessageId) ∈ used
    · rw [if_pos hused, satSucc_ofNat (by omega)]
      obtain ⟨n, hn, heq, hbefore, hfresh⟩ := ih (k + 1) (by omega)
      refine ⟨n + 1, Nat.succ_le_succ hn, ?_, ?_, ?_⟩
      · rw [heq]
        congr 1
        omega
      · intro i hi
        cases i with
        | zero => exact hused
        | succ i =>
          have hold := hbefore i (by omega)
          rwa [Nat.add_right_comm, Nat.add_assoc] at hold
      · intro hlt
        have hnew := hfresh (by omega)
        rwa [Nat.add_right_comm, Nat.add_assoc] at hnew
    · rw [if_neg hused]
      refine ⟨0, Nat.zero_le _, rfl, ?_, fun _ => hused⟩
      intro i hi
      exact absurd hi (Nat.not_lt_zero i)

/-- **The id of a summary** is new, and not a reserved one. -/
theorem nextMessageId_fresh {messages : List AgentMessage}
    (h : messages.length < 18446744073709551614) :
    nextMessageId messages ∉ idsOf messages ∧ (nextMessageId messages).val ≠ 0 ∧
      (nextMessageId messages).val ≠ 18446744073709551615 := by
  obtain ⟨n, hn, heq, hbefore, hfresh⟩ :=
    firstUnused_spec (idsOf messages) (messages.length + 1) 1 (by omega)
  -- so many different ids are not in use
  have hlt : n < messages.length + 1 := by
    rcases Nat.lt_or_eq_of_le hn with hlt | rfl
    · exact hlt
    · exfalso
      let candidates := (List.range (messages.length + 1)).map fun i =>
        (⟨UInt64.ofNat (1 + i)⟩ : MessageId)
      have hnodup : candidates.Nodup := by
        apply List.Nodup.map_on
        · intro i hi j hj hij
          have hsame := congrArg (fun id : MessageId => id.val.toNat) hij
          have hi := List.mem_range.mp hi
          have hj := List.mem_range.mp hj
          simp only at hsame
          rw [candidate_val (by omega), candidate_val (by omega)] at hsame
          omega
        · exact List.nodup_range
      have hsubset : candidates ⊆ idsOf messages := by
        intro id hid
        obtain ⟨i, hi, rfl⟩ := List.mem_map.mp hid
        exact hbefore i (List.mem_range.mp hi)
      have hlength := (List.subperm_of_subset hnodup hsubset).length_le
      rw [List.length_map, List.length_range, idsOf, List.length_map] at hlength
      omega
  have hnext : nextMessageId messages = ⟨UInt64.ofNat (1 + n)⟩ := congrArg MessageId.mk heq
  have hval : (UInt64.ofNat (1 + n)).toNat = 1 + n := candidate_val (by omega)
  rw [hnext]
  refine ⟨hfresh hlt, ?_, ?_⟩
  · intro hzero
    have hsame := congrArg UInt64.toNat hzero
    rw [hval] at hsame
    have hnone : (0 : UInt64).toNat = 0 := rfl
    omega
  · intro hmax
    have hsame := congrArg UInt64.toNat hmax
    rw [hval] at hsame
    have hlast : (18446744073709551615 : UInt64).toNat = 18446744073709551615 := rfl
    omega

/-! ### The replacement -/

/-- What the compactor may return for a request. -/
def Replaces (request : AutomaticCompactionRequest) (messages : List AgentMessage) : Prop :=
  messages = request.retainedMessages ∨
    ∃ summary, messages =
      summaryMessage (request.prefixMessages ++ request.splitTurnPrefix ++ request.retainedMessages)
        summary :: request.retainedMessages

theorem triple_any {σ Q ε α : Type} {R : Q → Type} {E : Environment σ Q R}
    {P : Moment σ Q R → Prop} {p : Future σ Q R ε α} :
    Triple E P p (Post (fun _ _ => True) (fun _ _ => True) fun _ _ => True) := by
  intro m o m' _ _
  cases o <;> trivial

theorem compactAutomatic_replaces {F : Type} {codec : JsonCodec F} {same : F → F → Bool}
    {fuel : Nat} {compactor : ProviderCompactor} {context : CompactionContext}
    {request : AutomaticCompactionRequest} {E : Surroundings} :
    Triple E (fun _ => True) (App.compactAutomatic codec same fuel compactor context request)
      (Post (fun result _ => Replaces request result.messages) (fun _ _ => True)
        fun _ _ => True) := by
  unfold App.compactAutomatic
  apply Triple.bind triple_any
  intro model
  dsimp only
  split_ifs
  · exact Triple.done (fun _ _ _ _ => trivial) fun _ _ => .inl rfl
  · apply Triple.bind triple_any
    intro summary
    exact Triple.done (fun _ _ _ _ => trivial) fun _ _ => .inr ⟨summary.1, rfl⟩

/-! ### The contract -/

/-- **A safe split**: nothing is lost, what is retained is a transcript of its own with
    enough recent tokens, and so is what the compactor returns. -/
structure SplitSafe (messages : List AgentMessage) (recentTokens : Nat) : Prop where
  whole : (automaticCompactionSplit messages recentTokens).prefixMessages ++
    (automaticCompactionSplit messages recentTokens).splitTurnPrefix ++
      (automaticCompactionSplit messages recentTokens).retainedMessages = messages
  retained : validateMessages
    (automaticCompactionSplit messages recentTokens).retainedMessages = .ok ()
  recent : min recentTokens (estimateMessagesTokens messages) ≤ estimateMessagesTokens
    (automaticCompactionSplit messages recentTokens).retainedMessages
  replaced : ∀ {F : Type} (codec : JsonCodec F) (same : F → F → Bool) (fuel : Nat)
    (compactor : ProviderCompactor) (context : CompactionContext)
    (request : AutomaticCompactionRequest) (E : Surroundings) start result finish,
    request.prefixMessages = (automaticCompactionSplit messages recentTokens).prefixMessages →
    request.splitTurnPrefix = (automaticCompactionSplit messages recentTokens).splitTurnPrefix →
    request.retainedMessages = (automaticCompactionSplit messages recentTokens).retainedMessages →
    Run E (App.compactAutomatic codec same fuel compactor context request) start (.done result)
      finish →
    validateMessages result.messages = .ok ()

/-- Only tool results stand between a call and its result: no other message has the call
    before it and the result behind it. -/
def Contiguous (messages : List AgentMessage) : Prop :=
  ∀ index < messages.length, isResultAt messages index = false →
    ∀ id ∈ resultsOf (messages.drop index), id ∉ (callsOf (messages.take index)).map (·.1)

/-- A summary before messages that are valid and keep their ids. -/
theorem summary_valid {messages retained : List AgentMessage} (summary : String)
    (hlength : messages.length < 18446744073709551614)
    (hvalid : validateMessages retained = .ok ()) (hsub : retained <:+ messages) :
    validateMessages (summaryMessage messages summary :: retained) = .ok () := by
  obtain ⟨hretained, hclosed⟩ := (validateMessages_ok_iff retained).mp hvalid
  obtain ⟨hfresh, hpos, hmax⟩ := nextMessageId_fresh hlength
  apply (validateMessages_ok_iff _).mpr
  constructor
  · apply hretained.user_cons hpos hmax
    intro hid
    apply hfresh
    obtain ⟨first, rfl⟩ := hsub
    rw [idsOf_append]
    exact List.mem_append_right _ hid
  · exact hclosed

theorem split_safe {messages : List AgentMessage} (hvalid : validateMessages messages = .ok ())
    (hfits : estimateMessagesTokens messages ≤ u64Max) {recentTokens : Nat}
    (hretained : validateMessages
      (automaticCompactionSplit messages recentTokens).retainedMessages = .ok ()) :
    SplitSafe messages recentTokens := by
  have hlength : messages.length < 18446744073709551614 := by
    have hmany := length_le_tokens messages
    unfold u64Max at hfits
    omega
  have hwhole : (automaticCompactionSplit messages recentTokens).prefixMessages ++
      (automaticCompactionSplit messages recentTokens).splitTurnPrefix ++
        (automaticCompactionSplit messages recentTokens).retainedMessages = messages := by
    by_cases hall : messages = [] ∨ recentTokens = 0
    · unfold automaticCompactionSplit
      rw [if_pos hall, List.append_nil, List.append_nil]
    · rw [(split_parts hall).1, (split_parts hall).2, List.take_append_drop]
  constructor
  · exact hwhole
  · exact hretained
  · by_cases hall : messages = [] ∨ recentTokens = 0
    · rcases hall with rfl | rfl
      · exact Nat.le_trans (Nat.min_le_right _ _) (Nat.zero_le _)
      · exact Nat.le_trans (Nat.min_le_left _ _) (Nat.zero_le _)
    · rw [(split_parts hall).2]
      exact (splitStart_spec recentTokens hfits).1
  · intro F codec same fuel compactor context request E start result finish hbuilt hturn hkept hrun
    have hreplaces := compactAutomatic_replaces start _ finish trivial hrun
    change Replaces request result.messages at hreplaces
    unfold Replaces at hreplaces
    rw [hbuilt, hturn, hkept, hwhole] at hreplaces
    rcases hreplaces with heq | ⟨summary, heq⟩
    · rw [heq]
      exact hretained
    · rw [heq]
      apply summary_valid summary hlength hretained
      exact ⟨_, hwhole⟩

/-- Two calls of one message; a message of the user stands between their results. -/
def tornTranscript : List AgentMessage := [
  .user ⟨1⟩ "go",
  .assistant ⟨2⟩ "" [⟨⟨"call_a", by decide⟩, "ls", ⟨"[]"⟩⟩, ⟨⟨"call_b", by decide⟩, "ls", ⟨"[]"⟩⟩]
    (some .toolUse) none,
  .toolResult ⟨3⟩ ⟨"call_a", by decide⟩ "ls" "" none none [] false false none,
  .user ⟨4⟩ "wait",
  .toolResult ⟨5⟩ ⟨"call_b", by decide⟩ "ls" "" none none [] false false none]

end Tea.Contract
