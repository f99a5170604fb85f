/-
  Tea/Contract/SummaryComplete.lean
  =================================
  **A summary is used only if it is complete.**  `summarize` takes every terminal reason but
  `Error` for a complete summary, so the text of a response that was cut off at its length
  limit, aborted or cancelled replaces the history (`summary_truncated`).  Nothing else can
  go wrong, whenever the cancellation comes (`summary_complete_iff`).
-/

import Tea.App.Compactor
import Tea.Encoding.JsonText

namespace Tea.Contract

open Tea.Async Tea.Core Tea.Run Tea.Encoding Tea.App

/-! ### What the provider delivered -/

/-- The events delivered, oldest first. -/
def heard : List (Step Bool CompactorQuery CompactorReply) → List ModelStreamEvent
  | [] => []
  | .reply .nextEvent (.ok (some event)) :: past => heard past ++ [event]
  | _ :: past => heard past

/-- The text deltas of some events, one behind the other. -/
def textOf : List ModelStreamEvent → String
  | [] => ""
  | .textDelta delta :: events => delta ++ textOf events
  | _ :: events => textOf events

/-- The events that end no summary. -/
def isPlain : ModelStreamEvent → Bool
  | .textDelta _ => true
  | .usage _ => true
  | _ => false

/-- The events end with a terminal one that is no error. -/
def EndsWith (events : List ModelStreamEvent) (reason : StopReason) : Prop :=
  reason ≠ .error ∧ ∃ before, events = before ++ [.end_ reason] ∧ before.all isPlain = true

/-- The summary of a stream that was cut short: some text, and then the end of a response
    that did not stop by itself. -/
def CutShort (events : List ModelStreamEvent) : Prop :=
  ∃ reason, EndsWith events reason ∧ reason ≠ .stop ∧ Tui.isBlank (textOf events) = false

/-- **The contract**: a summary is the whole text of a stream that stopped normally, and not
    blank. -/
def SummaryComplete (outcome : Outcome CompactorQuery CompactionError (String × Option Usage))
    (events : List ModelStreamEvent) : Prop :=
  ∀ summary usage, outcome = .done (summary, usage) →
    (∃ before, events = before ++ [.end_ .stop]) ∧ summary = textOf events ∧
      Tui.isBlank summary = false

theorem textOf_snoc (events : List ModelStreamEvent) (event : ModelStreamEvent) :
    textOf (events ++ [event]) = textOf events ++ textOf [event] := by
  induction events with
  | nil => exact String.empty_append.symm
  | cons first events ih =>
    cases first <;> simp only [List.cons_append, textOf, ih, String.append_assoc]

/-- Events that have not ended yet. -/
theorem not_ended {events : List ModelStreamEvent} (h : events.all isPlain = true)
    (reason : StopReason) : ¬ EndsWith events reason := by
  rintro ⟨-, before, rfl, -⟩
  rw [List.all_append] at h
  cases reason <;> simp [isPlain] at h

/-- Another event than the end does not end a summary. -/
theorem not_ended_snoc {events : List ModelStreamEvent} {event : ModelStreamEvent}
    (h : ∀ reason, event = .end_ reason → reason = .error) (reason : StopReason) :
    ¬ EndsWith (events ++ [event]) reason := by
  rintro ⟨herror, before, heq, -⟩
  obtain ⟨-, hlast⟩ := List.append_inj' heq rfl
  exact herror (h reason (List.head_eq_of_cons_eq hlast))

/-! ### The loop -/

section

variable {E : Surroundings}

/-- So far only plain events were delivered. -/
def Reading (summary : String) (m : Moment Bool CompactorQuery CompactorReply) : Prop :=
  (heard m.past).all isPlain = true ∧ textOf (heard m.past) = summary

/-- How the loop ends: with the text of a stream that ended, or without an end. -/
abbrev LoopPost : Outcome CompactorQuery CompactionError (String × Option Usage) →
    Moment Bool CompactorQuery CompactorReply → Prop :=
  Post (fun value m => (∃ reason, EndsWith (heard m.past) reason) ∧ value.1 = textOf (heard m.past))
    (fun _ m => ∀ reason, ¬ EndsWith (heard m.past) reason)
    (fun _ m => ∀ reason, ¬ EndsWith (heard m.past) reason)

/-- An event that is no plain one, and no end, leaves no summary. -/
theorem fails_after {m : Moment Bool CompactorQuery CompactorReply} {event : ModelStreamEvent}
    {error : CompactionError} (h : ∀ reason, event = .end_ reason → reason = .error) :
    Triple E (· = m.reply .nextEvent (.ok (some event))) (Future.fail error) LoopPost := by
  have hstable : Stable E fun now => heard now.past = heard m.past ++ [event] :=
    fun _ _ hheard _ => hheard
  refine Triple.at (Triple.fail hstable ?_) rfl
  intro now hheard reason
  rw [hheard]
  exact not_ended_snoc h reason

theorem reading_stable (summary : String) : Stable E (Reading summary) := fun _ _ h _ => h

/-- A plain event is read, and the loop goes on. -/
theorem reading_next {summary : String} {m : Moment Bool CompactorQuery CompactorReply}
    {event : ModelStreamEvent} (h : Reading summary m) (hplain : isPlain event = true) :
    Reading (summary ++ textOf [event]) (m.reply .nextEvent (.ok (some event))) := by
  obtain ⟨hall, htext⟩ := h
  constructor
  · change (heard m.past ++ [event]).all isPlain = true
    rw [List.all_append, hall, List.all_cons, hplain]
    rfl
  · change textOf (heard m.past ++ [event]) = _
    rw [textOf_snoc, htext]

/-- Without an event there is no end. -/
theorem fails_reading {summary : String} {m : Moment Bool CompactorQuery CompactorReply}
    {error : CompactionError} (h : Reading summary m) :
    Triple E (· = m) (Future.fail error) LoopPost :=
  (Triple.fail (reading_stable summary) fun _ hnow => not_ended hnow.1).at h

/-- The end of a stream, be it an error or not. -/
theorem ends_after {summary : String} {usage : Option Usage} {reason : StopReason}
    {m : Moment Bool CompactorQuery CompactorReply} (h : Reading summary m)
    (herror : reason ≠ .error) :
    Triple E (· = m.reply .nextEvent (.ok (some (.end_ reason))))
      (Future.done (summary, usage)) LoopPost := by
  obtain ⟨hall, htext⟩ := h
  have hstable : Stable E fun now => heard now.past = heard m.past ++ [.end_ reason] :=
    fun _ _ hheard _ => hheard
  refine Triple.at (Triple.done hstable ?_) rfl
  intro now hheard
  refine ⟨⟨reason, herror, heard m.past, hheard, hall⟩, ?_⟩
  rw [hheard, textOf_snoc, htext]
  exact String.append_empty.symm

theorem readSummary_spec (fuel : Nat) (summary : String) (usage : Option Usage) :
    Triple E (Reading summary) (readSummary fuel summary usage) LoopPost := by
  induction fuel generalizing summary usage with
  | zero =>
    refine Triple.call (reading_stable summary) ?_ ?_
    · intro m h
      exact not_ended h.1
    · intro m answer
      exact nomatch answer
  | succ fuel ih =>
    refine Triple.atomic (reading_stable summary) ?_
    intro m h
    have hread : Reading summary (m.own id) := h
    cases hcancelled : m.state with
    | true => exact fails_reading hread
    | false =>
      refine (Triple.call (reading_stable summary) ?_ ?_).at hread
      · intro now hnow
        exact not_ended hnow.1
      · intro now answer hnow _
        have hheard : Reading summary now := hnow
        cases answer with
        | error error => exact fails_reading hheard
        | ok item =>
          cases item with
          | none => exact fails_reading hheard
          | some event =>
            cases event with
            | textDelta delta =>
              have hnext := reading_next hnow (show isPlain (.textDelta delta) = true from rfl)
              rw [textOf, textOf, String.append_empty] at hnext
              exact (ih _ usage).at hnext
            | usage reported =>
              have hnext := reading_next hnow (show isPlain (.usage reported) = true from rfl)
              have hnone : textOf [.usage reported] = "" := rfl
              rw [hnone, String.append_empty] at hnext
              exact (ih _ (some reported)).at hnext
            | end_ reason =>
              change Triple E _ (if reason = .error then Future.fail _ else Future.done _) LoopPost
              by_cases herror : reason = .error
              · subst herror
                exact fails_after fun _ h => (ModelStreamEvent.end_.inj h).symm
              · rw [if_neg herror]
                exact ends_after hnow herror
            | toolCall call => exact fails_after fun _ h => nomatch h
            | error message => exact fails_after fun _ h => nomatch h
            | contextOverflow message => exact fails_after fun _ h => nomatch h
            | aborted message => exact fails_after fun _ h => nomatch h

/-! ### The contract -/

/-- What is known of a run of `summarize`. -/
abbrev SummaryPost : Outcome CompactorQuery CompactionError (String × Option Usage) →
    Moment Bool CompactorQuery CompactorReply → Prop :=
  Post (fun value m => (∃ reason, EndsWith (heard m.past) reason) ∧
      value.1 = textOf (heard m.past) ∧ Tui.isBlank value.1 = false)
    (fun _ m => ¬ CutShort (heard m.past)) (fun _ m => ¬ CutShort (heard m.past))

theorem not_cutShort {events : List ModelStreamEvent} (h : ∀ reason, ¬ EndsWith events reason) :
    ¬ CutShort events := by
  rintro ⟨reason, hends, -⟩
  exact h reason hends

theorem summarize_spec {F : Type} (codec : JsonCodec F) (fuel : Nat) (model : ModelDescriptor)
    (messages : List AgentMessage) (sourceContext : Option ProviderContext) :
    Triple E (Reading "") (summarize codec fuel model messages sourceContext) SummaryPost := by
  have hfails : ∀ error, Triple E (Reading "") (Future.fail error) SummaryPost := by
    intro error
    exact Triple.fail (reading_stable "") fun _ h => not_cutShort (not_ended h.1)
  unfold summarize
  cases summaryRequest codec model messages sourceContext with
  | error error => exact hfails error
  | ok request =>
    refine Triple.call (reading_stable "") ?_ ?_
    · intro m h
      exact not_cutShort (not_ended h.1)
    · intro m answer h _
      have hstarted : Reading "" (m.reply (.stream request) answer) := h
      cases answer with
      | error error => exact (hfails _).at hstarted
      | ok started =>
        have hloop : Triple E (· = m.reply (.stream request) (.ok started))
            (readSummary fuel "" none) (Post (fun value m => (∃ reason, EndsWith (heard m.past) reason) ∧
                value.1 = textOf (heard m.past))
              (fun _ m => ¬ CutShort (heard m.past)) fun _ m => ¬ CutShort (heard m.past)) := by
          refine ((readSummary_spec fuel "" none).at hstarted).post ?_
          intro o now hnow
          cases o with
          | done value => exact hnow
          | failed error => exact not_cutShort hnow
          | pending query => exact not_cutShort hnow
        apply Triple.bind hloop
        intro value
        change Triple E _ (if Tui.isBlank value.1 then Future.fail _ else Future.done value) _
        by_cases hblank : Tui.isBlank value.1 = true
        · rw [if_pos hblank]
          refine Triple.fail (fun _ _ hnow _ => hnow) ?_
          rintro now ⟨-, htext⟩ ⟨reason, -, -, hsome⟩
          rw [← htext, hblank] at hsome
          cases hsome
        · rw [if_neg hblank]
          refine Triple.done (fun _ _ hnow _ => hnow) ?_
          rintro now ⟨hends, htext⟩
          exact ⟨hends, htext, Bool.eq_false_iff.mpr hblank⟩

/-- **A summary is complete** exactly if the stream was not cut short behind some text, in
    every run and whenever the cancellation comes. -/
theorem summary_complete_iff {F : Type} {codec : JsonCodec F} {fuel : Nat}
    {model : ModelDescriptor} {messages : List AgentMessage}
    {sourceContext : Option ProviderContext} {cancelled : Bool}
    {outcome : Outcome CompactorQuery CompactionError (String × Option Usage)}
    {finish : Moment Bool CompactorQuery CompactorReply}
    (hrun : Run E (summarize codec fuel model messages sourceContext) ⟨[], cancelled⟩ outcome
      finish) :
    SummaryComplete outcome (heard finish.past) ↔ ¬ CutShort (heard finish.past) := by
  have hstart : Reading "" (⟨[], cancelled⟩ : Moment Bool CompactorQuery CompactorReply) :=
    ⟨rfl, rfl⟩
  have hpost := summarize_spec codec fuel model messages sourceContext _ _ _ hstart hrun
  cases outcome with
  | done value =>
    obtain ⟨⟨reason, hends⟩, htext, hblank⟩ := hpost
    constructor
    · rintro hcomplete ⟨reason', hends', hstop, -⟩
      obtain ⟨⟨before, hbefore⟩, -, -⟩ := hcomplete value.1 value.2 rfl
      obtain ⟨-, before', heq, -⟩ := hends'
      obtain ⟨-, hlast⟩ := List.append_inj' (hbefore.symm.trans heq) rfl
      exact hstop (ModelStreamEvent.end_.inj (List.head_eq_of_cons_eq hlast)).symm
    · intro hcut summary usage hvalue
      obtain rfl : value = (summary, usage) := Outcome.done.inj hvalue
      have hstop : reason = .stop := by
        by_contra hne
        exact hcut ⟨reason, hends, hne, htext ▸ hblank⟩
      obtain ⟨-, before, heq, -⟩ := hends
      rw [hstop] at heq
      exact ⟨⟨before, heq⟩, htext, hblank⟩
  | failed error =>
    constructor
    · exact fun _ => hpost
    · rintro _ summary usage ⟨⟩
  | pending query =>
    constructor
    · exact fun _ => hpost
    · rintro _ summary usage ⟨⟩

end

/-! ### A summary that was cut short -/

/-- A provider that may deliver anything. -/
def anyProvider : Surroundings where
  interferes _ _ := True
  answers _ _ _ := True

/-- A provider that delivers some events. -/
def delivering : Scheduler (List ModelStreamEvent) Bool CompactorQuery CompactorReply where
  others _ _ := []
  answer
    | events, .stream _ => some (.ok (), events)
    | event :: events, .nextEvent => some (.ok (some event), events)
    | [], .nextEvent => none
    | _, .exhausted => none

theorem delivering_admitted : delivering.Admitted anyProvider where
  others _ _ _ hf := nomatch hf
  answer _ _ _ _ _ _ := trivial

/-- The run of `summarize` for nothing on the events that a provider delivers. -/
def summarized (events : List ModelStreamEvent) :
    Outcome CompactorQuery CompactionError (String × Option Usage) ×
      Moment Bool CompactorQuery CompactorReply :=
  (summarize textCodec 2 ⟨"p", "m", none⟩ [] none).exec delivering events ⟨[], false⟩

theorem summarized_run (events : List ModelStreamEvent) :
    Run anyProvider (summarize textCodec 2 ⟨"p", "m", none⟩ [] none) ⟨[], false⟩
      (summarized events).1 (summarized events).2 :=
  Future.exec_run delivering_admitted _ _ _

/-- The output limit is reached in the middle of a summary. -/
theorem summary_truncated :
    (∃ finish, Run anyProvider (summarize textCodec 2 ⟨"p", "m", none⟩ [] none) ⟨[], false⟩
      (.done ("half a", none)) finish ∧ heard finish.past = [.textDelta "half a", .end_ .length]) ∧
    ¬ SummaryComplete (.done ("half a", none)) [.textDelta "half a", .end_ .length] := by
  constructor
  · exact ⟨_, summarized_run [.textDelta "half a", .end_ .length], rfl⟩
  · intro hcomplete
    obtain ⟨⟨before, hbefore⟩, -, -⟩ := hcomplete "half a" none rfl
    have hsplit : [ModelStreamEvent.textDelta "half a"] ++ [.end_ .length] =
        before ++ [.end_ .stop] := hbefore
    obtain ⟨-, hlast⟩ := List.append_inj' hsplit rfl
    cases hlast

theorem summary_complete_run :
    SummaryComplete (summarized [.textDelta "all", .end_ .stop]).1
      (heard (summarized [.textDelta "all", .end_ .stop]).2.past) := by
  apply (summary_complete_iff (summarized_run _)).mpr
  rintro ⟨reason, ⟨-, before, heq, -⟩, hstop, -⟩
  have hsplit : [ModelStreamEvent.textDelta "all"] ++ [.end_ .stop] =
      before ++ [.end_ reason] := heq
  obtain ⟨-, hlast⟩ := List.append_inj' hsplit rfl
  cases hlast
  exact hstop rfl

end Tea.Contract
