/-
  Tea/Contract/StreamGrammar.lean
  ===============================
  **The grammar of a response stream.**  The validator takes a sequence in full exactly if
  it is a prefix of the grammar, except that it lets a call be started again behind its
  finish (`keepsGrammar_iff`).  An item that it refuses changes nothing.
-/
import Tea.Protocol.ModelStream

namespace Tea.Contract

open Tea.Protocol

/-! ### The grammar -/

/-- What an item says about one call. -/
inductive CallItem where
  | started | argumentsDelta | finished
deriving DecidableEq

def ofCall (callId : ToolCallId) : ModelStreamItem → Option CallItem
  | .toolCallStarted other _ => if other = callId then some .started else none
  | .toolCallArgumentsDelta other _ => if other = callId then some .argumentsDelta else none
  | .toolCallFinished other => if other = callId then some .finished else none
  | _ => none

def itemsOfCall (callId : ToolCallId) (items : List ModelStreamItem) : List CallItem :=
  items.filterMap (ofCall callId)

/-- Argument deltas and one finish stand only between a start and its finish; the mark says
    whether the call is open behind the items. -/
inductive BalancedCalls : Bool → List CallItem → Prop
  | none : BalancedCalls false []
  | started {items : List CallItem} (h : BalancedCalls false items) :
      BalancedCalls true (items ++ [.started])
  | argumentsDelta {items : List CallItem} (h : BalancedCalls true items) :
      BalancedCalls true (items ++ [.argumentsDelta])
  | finished {items : List CallItem} (h : BalancedCalls true items) :
      BalancedCalls false (items ++ [.finished])

/-- The deltas and the items of tool calls, which have names. -/
def InResponse : ModelStreamItem → Prop
  | .textDelta _ | .reasoningDelta _ | .toolCallArgumentsDelta .. | .toolCallFinished _ => True
  | .toolCallStarted _ name => name ≠ ""
  | .started .. | .finished .. | .error _ => False

/-- A prefix of the grammar, up to the number of starts of a call. -/
inductive FollowsGrammar : List ModelStreamItem → Prop
  | nothing : FollowsGrammar []
  | error (message : String) : FollowsGrammar [.error message]
  | response (responseId : ModelResponseId) (model : ModelId) {body : List ModelStreamItem}
      (hbody : ∀ item ∈ body, InResponse item)
      (hcalls : ∀ callId, ∃ opened, BalancedCalls opened (itemsOfCall callId body)) :
      FollowsGrammar (.started responseId model :: body)
  | finished (responseId : ModelResponseId) (model : ModelId) {body : List ModelStreamItem}
      (reason : FinishReason) (usage : Option TokenUsage) (hbody : ∀ item ∈ body, InResponse item)
      (hcalls : ∀ callId, BalancedCalls false (itemsOfCall callId body)) :
      FollowsGrammar (.started responseId model :: body ++ [.finished reason usage])
  | failed (responseId : ModelResponseId) (model : ModelId) {body : List ModelStreamItem}
      (message : String) (hbody : ∀ item ∈ body, InResponse item)
      (hcalls : ∀ callId, ∃ opened, BalancedCalls opened (itemsOfCall callId body)) :
      FollowsGrammar (.started responseId model :: body ++ [.error message])

/-- No call is started a second time. -/
def StartsOnce (items : List ModelStreamItem) : Prop :=
  ∀ callId, (itemsOfCall callId items).count .started ≤ 1

/-- A prefix of the grammar. -/
def Grammar (items : List ModelStreamItem) : Prop := FollowsGrammar items ∧ StartsOnce items

/-! ### What the validator does with a sequence -/

/-- The validator takes every item. -/
def AcceptedInFull (items : List ModelStreamItem) : Prop :=
  ∀ verdict ∈ ({} : ModelStream).verdicts items, verdict = .ok ()

/-- The items that the validator takes. -/
def takenItems (stream : ModelStream) : List ModelStreamItem → List ModelStreamItem
  | [] => []
  | item :: items =>
      if (stream.accept item).2 = .ok () then item :: takenItems (stream.accept item).1 items
      else takenItems (stream.accept item).1 items

/-- The second sequence is the first with refused items in between. -/
inductive Interleaved : ModelStream → List ModelStreamItem → List ModelStreamItem → Prop
  | nil (stream : ModelStream) : Interleaved stream [] []
  | same {stream : ModelStream} {item : ModelStreamItem} {items more : List ModelStreamItem}
      (h : Interleaved (stream.accept item).1 items more) :
      Interleaved stream (item :: items) (item :: more)
  | refused {stream : ModelStream} {item : ModelStreamItem} {items more : List ModelStreamItem}
      {e : ModelStreamError} (hitem : (stream.accept item).2 = .error e)
      (h : Interleaved (stream.accept item).1 items more) : Interleaved stream items (item :: more)

/-- The validator takes the prefixes of the grammar, and what it refuses changes nothing:
    neither what can be observed of it nor what it takes later. -/
structure KeepsGrammar (items : List ModelStreamItem) : Prop where
  accepted : AcceptedInFull items ↔ Grammar items
  unchanged : ∀ {before item after e}, items = before ++ item :: after →
    ((({} : ModelStream).feed before).accept item).2 = .error e →
      ((({} : ModelStream).feed before).accept item).1 = ({} : ModelStream).feed before
  later : ∀ {fewer}, Interleaved {} fewer items →
    takenItems {} fewer = takenItems {} items ∧
      ({} : ModelStream).feed fewer = ({} : ModelStream).feed items

/-! ### The items of one call -/

theorem balanced_nil {opened : Bool} (h : BalancedCalls opened []) : opened = false := by
  generalize hnil : ([] : List CallItem) = items at h
  cases h with
  | none => rfl
  | started | argumentsDelta | finished => simp at hnil

theorem balanced_snoc {opened : Bool} {items : List CallItem} {item : CallItem}
    (h : BalancedCalls opened (items ++ [item])) :
    item = .started ∧ opened = true ∧ BalancedCalls false items ∨
      item = .argumentsDelta ∧ opened = true ∧ BalancedCalls true items ∨
      item = .finished ∧ opened = false ∧ BalancedCalls true items := by
  generalize hwhole : items ++ [item] = whole at h
  cases h with
  | none => simp at hwhole
  | started h =>
    obtain ⟨rfl, hitem⟩ := List.append_inj' hwhole rfl
    simp at hitem
    simp [hitem, h]
  | argumentsDelta h =>
    obtain ⟨rfl, hitem⟩ := List.append_inj' hwhole rfl
    simp at hitem
    simp [hitem, h]
  | finished h =>
    obtain ⟨rfl, hitem⟩ := List.append_inj' hwhole rfl
    simp at hitem
    simp [hitem, h]

/-- Whether a call is open is read off its items. -/
theorem balanced_unique {opened other : Bool} {items : List CallItem}
    (h : BalancedCalls opened items) (h' : BalancedCalls other items) : opened = other := by
  cases h with
  | none => exact (balanced_nil h').symm
  | started h | argumentsDelta h | finished h =>
    have hlast := balanced_snoc h'
    simp at hlast
    exact hlast.1.symm

@[simp] theorem itemsOfCall_snoc (callId : ToolCallId) (items : List ModelStreamItem)
    (item : ModelStreamItem) :
    itemsOfCall callId (items ++ [item]) =
      itemsOfCall callId items ++ (ofCall callId item).toList := by
  unfold itemsOfCall
  rw [List.filterMap_append]
  cases h : ofCall callId item with
  | none => simp [h]
  | some found => simp [h]

/-! ### The grammar, item by item -/

/-- Only the last item of a prefix settles the stream. -/
theorem not_terminal_of_follows {items : List ModelStreamItem} {item : ModelStreamItem}
    (h : FollowsGrammar (items ++ [item])) : ∀ earlier ∈ items, earlier.isTerminal = false := by
  have hfree : ∀ {body : List ModelStreamItem} {responseId model},
      (∀ item ∈ body, InResponse item) →
        ∀ earlier ∈ ModelStreamItem.started responseId model :: body,
          earlier.isTerminal = false := by
    intro body responseId model hbody earlier hearlier
    rcases List.mem_cons.mp hearlier with rfl | hearlier
    · rfl
    · have hin := hbody earlier hearlier
      cases earlier <;> simp_all [InResponse, ModelStreamItem.isTerminal]
  generalize hwhole : items ++ [item] = whole at h
  cases h with
  | nothing => simp at hwhole
  | error message =>
    obtain ⟨rfl, -⟩ := List.append_inj' (hwhole.trans (List.nil_append _).symm) rfl
    simp
  | response responseId model hbody hcalls =>
    intro earlier hearlier
    have hmem := List.mem_append_left [item] hearlier
    rw [hwhole] at hmem
    exact hfree hbody earlier hmem
  | finished responseId model reason usage hbody hcalls =>
    obtain ⟨rfl, -⟩ := List.append_inj' hwhole rfl
    exact hfree hbody
  | failed responseId model message hbody hcalls =>
    obtain ⟨rfl, -⟩ := List.append_inj' hwhole rfl
    exact hfree hbody

/-- The first item of a prefix is a start or a lone error. -/
theorem follows_first {item : ModelStreamItem} (h : FollowsGrammar [item]) :
    (∃ message, item = .error message) ∨ ∃ responseId model, item = .started responseId model := by
  generalize hwhole : [item] = whole at h
  cases h with
  | nothing => simp at hwhole
  | error message => simp_all
  | response responseId model hbody hcalls => simp_all
  | finished responseId model reason usage hbody hcalls => simp_all
  | failed responseId model message hbody hcalls => simp_all

/-- What may follow an open response. -/
theorem follows_next {responseId : ModelResponseId} {model : ModelId}
    {body : List ModelStreamItem} {item : ModelStreamItem}
    (h : FollowsGrammar (.started responseId model :: body ++ [item])) :
    (InResponse item ∧
        ∀ callId, ∃ opened, BalancedCalls opened (itemsOfCall callId (body ++ [item]))) ∨
      (∃ reason usage, item = .finished reason usage ∧
        ∀ callId, BalancedCalls false (itemsOfCall callId body)) ∨
      ∃ message, item = .error message := by
  generalize hwhole : ModelStreamItem.started responseId model :: body ++ [item] = whole at h
  cases h with
  | nothing => simp at hwhole
  | error message => simp at hwhole
  | response responseId model hbody hcalls =>
    obtain ⟨-, rfl⟩ := List.cons.inj hwhole
    exact .inl ⟨hbody item (by simp), hcalls⟩
  | finished responseId model reason usage hbody hcalls =>
    obtain ⟨hfront, hitem⟩ := List.append_inj' hwhole rfl
    obtain ⟨-, rfl⟩ := List.cons.inj hfront
    obtain rfl := List.singleton_inj.mp hitem
    exact .inr (.inl ⟨reason, usage, rfl, hcalls⟩)
  | failed responseId model message hbody hcalls =>
    obtain ⟨-, hitem⟩ := List.append_inj' hwhole rfl
    obtain rfl := List.singleton_inj.mp hitem
    exact .inr (.inr ⟨message, rfl⟩)

/-! ### What the validator knows -/

/-- The validator behind a prefix of the grammar. -/
def ReachedStream (items : List ModelStreamItem) (stream : ModelStream) : Prop :=
  (stream.phase = .idle ∧ stream = {} ∧ items = []) ∨
    (stream.phase = .active ∧ ∃ responseId model body, items = .started responseId model :: body ∧
      (∀ item ∈ body, InResponse item) ∧
      ∀ callId, BalancedCalls (decide (callId ∈ stream.openToolCalls)) (itemsOfCall callId body)) ∨
    ((stream.phase = .finished ∨ stream.phase = .failed) ∧ FollowsGrammar items ∧
      ∃ item ∈ items, item.isTerminal = true)

theorem follows_of_reached {items : List ModelStreamItem} {stream : ModelStream}
    (h : ReachedStream items stream) : FollowsGrammar items := by
  rcases h with ⟨-, -, rfl⟩ | ⟨-, responseId, model, body, rfl, hbody, hcalls⟩ | ⟨-, h, -⟩
  · exact .nothing
  · exact .response responseId model hbody fun callId => ⟨_, hcalls callId⟩
  · exact h

section

variable {items body : List ModelStreamItem} {stream : ModelStream} {item : ModelStreamItem}
  {responseId : ModelResponseId} {model : ModelId}

/-- An item of the response behind which the open calls are those of the validator. -/
theorem reached_response (hphase : stream.phase = .active)
    (hbody : ∀ item ∈ body, InResponse item) (hitem : InResponse item)
    (hcalls : ∀ callId, BalancedCalls (decide (callId ∈ stream.openToolCalls))
      (itemsOfCall callId body ++ (ofCall callId item).toList)) :
    ReachedStream (.started responseId model :: body ++ [item]) stream := by
  refine .inr (.inl ⟨hphase, responseId, model, body ++ [item], rfl, ?_, fun callId => ?_⟩)
  · intro found hfound
    rcases List.mem_append.mp hfound with hfound | hfound
    · exact hbody found hfound
    · rw [List.mem_singleton.mp hfound]
      exact hitem
  · rw [itemsOfCall_snoc]
    exact hcalls callId

/-- What the validator takes in an open response leads to a prefix of the grammar. -/
theorem reached_acceptActive (hphase : stream.phase = .active)
    (hbody : ∀ item ∈ body, InResponse item)
    (hcalls : ∀ callId,
      BalancedCalls (decide (callId ∈ stream.openToolCalls)) (itemsOfCall callId body))
    (hok : (stream.acceptActive item).2 = .ok ()) :
    ReachedStream (.started responseId model :: body ++ [item]) (stream.acceptActive item).1 := by
  cases item with
  | started => simp [ModelStream.acceptActive] at hok
  | textDelta | reasoningDelta =>
    change ReachedStream _ stream
    exact reached_response hphase hbody trivial fun callId => by simpa [ofCall] using hcalls callId
  | toolCallStarted started name =>
    simp only [ModelStream.acceptActive] at hok ⊢
    split_ifs at hok ⊢ with hname hopen
    refine reached_response hphase hbody hname fun callId => ?_
    have hcall := hcalls callId
    by_cases hsame : started = callId
    · subst hsame
      rw [decide_eq_false hopen] at hcall
      simpa [ofCall] using BalancedCalls.started hcall
    · have hother : callId ≠ started := fun heq => hsame heq.symm
      simpa [ofCall, hsame, hother] using hcall
  | toolCallArgumentsDelta started delta =>
    simp only [ModelStream.acceptActive] at hok ⊢
    split_ifs at hok ⊢ with hopen
    refine reached_response hphase hbody trivial fun callId => ?_
    have hcall := hcalls callId
    by_cases hsame : started = callId
    · subst hsame
      rw [decide_eq_true hopen] at hcall ⊢
      simpa [ofCall] using BalancedCalls.argumentsDelta hcall
    · simpa [ofCall, hsame] using hcall
  | toolCallFinished started =>
    simp only [ModelStream.acceptActive] at hok ⊢
    split_ifs at hok ⊢ with hopen
    refine reached_response hphase hbody trivial fun callId => ?_
    have hcall := hcalls callId
    by_cases hsame : started = callId
    · subst hsame
      rw [decide_eq_true hopen] at hcall
      simpa [ofCall] using BalancedCalls.finished hcall
    · have hother : callId ≠ started := fun heq => hsame heq.symm
      simpa [ofCall, hsame, hother] using hcall
  | finished reason usage =>
    simp only [ModelStream.acceptActive] at hok ⊢
    split_ifs at hok ⊢ with hopen
    refine .inr (.inr ⟨.inl rfl, .finished responseId model reason usage hbody ?_, _,
      List.mem_append_right _ (List.mem_singleton.mpr rfl), rfl⟩)
    intro callId
    have hcall := hcalls callId
    rw [not_not.mp hopen] at hcall
    simpa using hcall
  | error message =>
    refine .inr (.inr ⟨.inr rfl, .failed responseId model message hbody ?_, _,
      List.mem_append_right _ (List.mem_singleton.mpr rfl), rfl⟩)
    exact fun callId => ⟨_, hcalls callId⟩

/-- What the grammar allows in an open response, the validator takes. -/
theorem acceptActive_of_follows
    (hcalls : ∀ callId,
      BalancedCalls (decide (callId ∈ stream.openToolCalls)) (itemsOfCall callId body))
    (h : FollowsGrammar (.started responseId model :: body ++ [item])) :
    (stream.acceptActive item).2 = .ok () := by
  rcases follows_next h with ⟨hitem, hnext⟩ | ⟨reason, usage, rfl, hclosed⟩ | ⟨message, rfl⟩
  · cases item with
    | started | finished | error => exact hitem.elim
    | textDelta | reasoningDelta => rfl
    | toolCallStarted started name =>
      obtain ⟨opened, hnext⟩ := hnext started
      have hlast := balanced_snoc (by simpa [ofCall] using hnext)
      simp only [true_and, reduceCtorEq, false_and, or_false] at hlast
      have hclosed := balanced_unique (hcalls started) hlast.2
      have hname : name ≠ "" := hitem
      simp_all [ModelStream.acceptActive]
    | toolCallArgumentsDelta started delta =>
      obtain ⟨opened, hnext⟩ := hnext started
      have hlast := balanced_snoc (by simpa [ofCall] using hnext)
      simp only [true_and, reduceCtorEq, false_and, or_false, false_or] at hlast
      have hopen := balanced_unique (hcalls started) hlast.2
      simp_all [ModelStream.acceptActive]
    | toolCallFinished started =>
      obtain ⟨opened, hnext⟩ := hnext started
      have hlast := balanced_snoc (by simpa [ofCall] using hnext)
      simp only [true_and, reduceCtorEq, false_and, false_or] at hlast
      have hopen := balanced_unique (hcalls started) hlast.2
      simp_all [ModelStream.acceptActive]
  · have hempty : stream.openToolCalls = ∅ := by
      ext callId
      simpa using balanced_unique (hcalls callId) (hclosed callId)
    simp [ModelStream.acceptActive, hempty]
  · rfl

/-- One item: the validator takes it exactly if the grammar allows it. -/
theorem accept_iff_follows (h : ReachedStream items stream) :
    ((stream.accept item).2 = .ok () ↔ FollowsGrammar (items ++ [item])) ∧
      ((stream.accept item).2 = .ok () →
        ReachedStream (items ++ [item]) (stream.accept item).1) := by
  rcases h with ⟨-, rfl, rfl⟩ | ⟨hphase, responseId, model, body, rfl, hbody, hcalls⟩ |
    ⟨hphase, -, earlier, hearlier, hterminal⟩
  · have htaken : ((({} : ModelStream).accept item).2 = .ok () →
        ReachedStream [item] (({} : ModelStream).accept item).1) := by
      intro hok
      cases item with
      | started responseId model =>
        refine .inr (.inl ⟨rfl, responseId, model, [], rfl, by simp, fun callId => ?_⟩)
        exact BalancedCalls.none
      | error message =>
        exact .inr (.inr ⟨.inr rfl, .error message, _, List.mem_singleton.mpr rfl, rfl⟩)
      | _ => simp [ModelStream.accept, ModelStream.acceptIdle] at hok
    refine ⟨⟨fun hok => follows_of_reached (htaken hok), fun hfollows => ?_⟩, htaken⟩
    rcases follows_first hfollows with ⟨message, rfl⟩ | ⟨responseId, model, rfl⟩
    · rfl
    · rfl
  · have haccept : stream.accept item = stream.acceptActive item := by
      simp [ModelStream.accept, hphase]
    rw [haccept]
    have htaken : (stream.acceptActive item).2 = .ok () →
        ReachedStream (.started responseId model :: body ++ [item]) (stream.acceptActive item).1 :=
      reached_acceptActive hphase hbody hcalls
    exact ⟨⟨fun hok => follows_of_reached (htaken hok), acceptActive_of_follows hcalls⟩, htaken⟩
  · have hrefused : (stream.accept item).2 ≠ .ok () := by
      rcases hphase with hphase | hphase
      · simp [ModelStream.accept, hphase]
      · simp [ModelStream.accept, hphase]
    refine ⟨⟨fun hok => absurd hok hrefused, fun hfollows => ?_⟩, fun hok => absurd hok hrefused⟩
    have hfree := not_terminal_of_follows hfollows earlier hearlier
    rw [hterminal] at hfree
    cases hfree

end

/-! ### Whole sequences -/

theorem accepted_snoc (items : List ModelStreamItem) (item : ModelStreamItem) :
    AcceptedInFull (items ++ [item]) ↔
      AcceptedInFull items ∧ ((({} : ModelStream).feed items).accept item).2 = .ok () := by
  unfold AcceptedInFull
  rw [ModelStream.verdicts_append, List.forall_mem_append]
  simp [ModelStream.verdicts]

/-- The grammar is closed under prefixes. -/
theorem follows_init {items : List ModelStreamItem} {item : ModelStreamItem}
    (h : FollowsGrammar (items ++ [item])) : FollowsGrammar items := by
  have hshorter : ∀ {body : List ModelStreamItem},
      (∀ callId, ∃ opened, BalancedCalls opened (itemsOfCall callId (body ++ [item]))) →
        ∀ callId, ∃ opened, BalancedCalls opened (itemsOfCall callId body) := by
    intro body hcalls callId
    obtain ⟨opened, hcall⟩ := hcalls callId
    rw [itemsOfCall_snoc] at hcall
    cases hitem : ofCall callId item with
    | none => exact ⟨opened, by simpa [hitem] using hcall⟩
    | some found =>
      rcases balanced_snoc (by simpa [hitem] using hcall) with ⟨-, -, h⟩ | ⟨-, -, h⟩ | ⟨-, -, h⟩
      · exact ⟨_, h⟩
      · exact ⟨_, h⟩
      · exact ⟨_, h⟩
  cases items with
  | nil => exact .nothing
  | cons first body =>
    generalize hwhole : first :: body ++ [item] = whole at h
    cases h with
    | nothing => simp at hwhole
    | error message => simp at hwhole
    | response responseId model hbody hcalls =>
      obtain ⟨rfl, rfl⟩ := List.cons.inj hwhole
      exact .response responseId model (fun found hfound => hbody found (by simp [hfound]))
        (hshorter hcalls)
    | finished responseId model reason usage hbody hcalls =>
      obtain ⟨hfront, -⟩ := List.append_inj' hwhole rfl
      rw [hfront]
      exact .response responseId model hbody fun callId => ⟨_, hcalls callId⟩
    | failed responseId model message hbody hcalls =>
      obtain ⟨hfront, -⟩ := List.append_inj' hwhole rfl
      rw [hfront]
      exact .response responseId model hbody hcalls

/-- **The validator takes exactly the sequences that follow the grammar** up to the number of
    starts of a call; the induction is on the sequence from its end. -/
theorem accepted_iff_follows (items : List ModelStreamItem) :
    (AcceptedInFull items ↔ FollowsGrammar items) ∧
      (FollowsGrammar items → ReachedStream items (({} : ModelStream).feed items)) := by
  induction items using List.reverseRecOn with
  | nil =>
    refine ⟨⟨fun _ => .nothing, fun _ verdict hverdict => ?_⟩, fun _ => .inl ⟨rfl, rfl, rfl⟩⟩
    simp [ModelStream.verdicts] at hverdict
  | append_singleton items item ih =>
    rw [accepted_snoc, ModelStream.feed_append]
    constructor
    · constructor
      · rintro ⟨hitems, hitem⟩
        exact (accept_iff_follows (ih.2 (ih.1.mp hitems))).1.mp hitem
      · intro h
        have hitems := follows_init h
        exact ⟨ih.1.mpr hitems, (accept_iff_follows (ih.2 hitems)).1.mpr h⟩
    · intro h
      have hreached := ih.2 (follows_init h)
      exact (accept_iff_follows hreached).2 ((accept_iff_follows hreached).1.mpr h)

/-- Refused items in between do not change what is taken, or where the validator is. -/
theorem taken_of_interleaved {stream : ModelStream} {fewer items : List ModelStreamItem}
    (h : Interleaved stream fewer items) :
    takenItems stream fewer = takenItems stream items ∧ stream.feed fewer = stream.feed items := by
  induction h with
  | nil stream => exact ⟨rfl, rfl⟩
  | same h ih =>
    refine ⟨?_, ih.2⟩
    simp only [takenItems, ih.1]
  | @refused stream item fewer items e hitem h ih =>
    rw [ModelStream.accept_refused hitem] at ih
    have hfeed : stream.feed (item :: items) = (stream.accept item).1.feed items := rfl
    rw [hfeed, ModelStream.accept_refused hitem]
    refine ⟨?_, ih.2⟩
    rw [takenItems, if_neg (by simp [hitem]), ModelStream.accept_refused hitem]
    exact ih.1

/-- **The validator keeps the grammar exactly where a sequence that follows it otherwise
    starts no call a second time.** -/
theorem keepsGrammar_iff (items : List ModelStreamItem) :
    KeepsGrammar items ↔ (FollowsGrammar items → StartsOnce items) := by
  constructor
  · intro h hfollows
    exact (h.accepted.mp ((accepted_iff_follows items).1.mpr hfollows)).2
  · intro h
    refine ⟨?_, fun _ hrefused => ModelStream.accept_refused hrefused, taken_of_interleaved⟩
    rw [(accepted_iff_follows items).1]
    exact ⟨fun hfollows => ⟨hfollows, h hfollows⟩, And.left⟩

/-- A call that is started again behind its finish. -/
def restarted : List ModelStreamItem :=
  [.started ⟨"response", by decide⟩ ⟨"model", by decide⟩,
    .toolCallStarted ⟨"call_twice", by decide⟩ "search",
    .toolCallFinished ⟨"call_twice", by decide⟩,
    .toolCallStarted ⟨"call_twice", by decide⟩ "search"]

/-- The validator takes a second start of a finished call. -/
theorem restarted_taken : ¬ KeepsGrammar restarted := by
  intro h
  have hfull : AcceptedInFull restarted := by
    unfold AcceptedInFull
    decide
  exact absurd ((h.accepted.mp hfull).2 ⟨"call_twice", by decide⟩) (by decide)

end Tea.Contract
