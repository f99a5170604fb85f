/-
  Tea/Lifecycle/Writes.lean
  =========================
  **What a step of the run does to the transcript.**

  A critical section records an event and leaves the transcript alone, or it is one
  of the few that append a message, rewrite the streamed one, restore an earlier
  transcript or commit a replacement, or it changes neither (`Own.writes`).  Every
  property of the transcript is proved from these cases.
-/
import Tea.Lifecycle.Moves

namespace Tea.Lifecycle

open Tea.Async Tea.Core Tea.Run

variable {h : RunHandle} {s s' : Stage} {w w' : World}
  {acts : Now → ClientOp → Prop} {answers : Now → (query : Query) → Reply query → Prop}

/-- The transcript and the next message identifier. -/
structure Transcript where
  messages : List AgentMessage
  next : UInt64

def transcript (w : World) : Transcript where
  messages := w.agent.messages
  next := w.agent.nextMessageId

/-- The fields of a stage that say what the transcript holds. -/
structure SameWriting (s s' : Stage) : Prop where
  speech : s'.speech = s.speech
  calls : s'.calls = s.calls
  response : s'.response = s.response
  reading : s'.reading = s.reading
  decision : s'.decision = s.decision
  mark : s'.mark = s.mark
  report : s'.report = s.report
  proposal : s'.proposal = s.proposal

inductive Writes (h : RunHandle) : Stage → Transcript → Transcript → Stage → Prop where
  | same {s s' t} (moves : Moves h s s') (same : SameWriting s s') : Writes h s t t s'
  | mark {s t} (turn : InTurn s) (calls : s.calls = []) :
      Writes h s t t { s with mark := some t.messages.length }
  | report {s t} (life : s.life = .turnClosed ∨ s.life = .drained ∨ s.life = .settledTurn) :
      Writes h s t t { s with report := some (t.messages.drop h.messageStartIndex) }
  | decide {s t allowed} (turn : InTurn s)
      (overflow : (collect s.response).contextOverflow = true) :
      Writes h s t t { s with decision := some allowed }
  | append {s message s'} {t : Transcript} (appends : Appends s message s')
      (id : message.id = ⟨t.next⟩) :
      Writes h s t { messages := t.messages ++ [message], next := satSucc t.next } s'
  | openText {s text} {t : Transcript} (turn : InTurn s) (reading : s.reading = true)
      (calls : s.calls = [])
      (hasText : hasText s.response = true) :
      Writes h s t
        { messages := t.messages ++ [partialMessage ⟨t.next⟩ text], next := satSucc t.next }
        { s with speech := .streaming (partialMessage ⟨t.next⟩ text) false }
  | extendText {s id old text} {t : Transcript} (turn : TurnOpen s)
      (speech : s.speech = .streaming (partialMessage id old) true) :
      Writes h s t { t with messages := setLast t.messages (partialMessage id text) }
        { s with speech := .streaming (partialMessage id text) true }
  | closeText {s id text reason} {t : Transcript} (turn : TurnOpen s)
      (speech : s.speech = .streaming (partialMessage id text) true) (reading : s.reading = true)
      (calls : s.calls = []) (terminal : (collect s.response).reason = some reason) :
      Writes h s t
        { t with messages := setLast t.messages (.assistant id text
            (collect s.response).toolCalls (some reason) (collect s.response).errorMessage) }
        { s with
          speech := .announced (.assistant id text (collect s.response).toolCalls (some reason)
            (collect s.response).errorMessage)
          calls := (collect s.response).toolCalls, reading := false }
  | truncate {s count} {t : Transcript} (turn : InTurn s) (mark : s.mark = some count) :
      Writes h s t { t with messages := t.messages.take count }
        { s with calls := [], mark := none, due := true }
  | commit {s replacement} {agent : AgentState} (turn : InTurn s) (calls : s.calls = [])
      (proposal : s.proposal = some replacement) (valid : validateMessages replacement = .ok ()) :
      Writes h s { messages := agent.messages, next := agent.nextMessageId }
        { messages := (agent.replaceMessages replacement).messages
          next := (agent.replaceMessages replacement).nextMessageId }
        { s with mark := none }

/-- A step records an event or writes. -/
theorem Own.writes (hown : Own h s w w' s') :
    (∃ kind, Records h s kind s' ∧ w'.run.kinds = w.run.kinds ++ [kind] ∧
        transcript w' = transcript w) ∨
      (Writes h s (transcript w) (transcript w') s' ∧ w'.run.kinds = w.run.kinds) := by
  have hcore : ∀ {c : Core}, core w' = c →
      transcript w' = ⟨c.messages, c.nextMessageId⟩ ∧ w'.run = c.run := by
    rintro _ rfl
    exact ⟨rfl, rfl⟩
  have hsame : SameWriting s s := ⟨rfl, rfl, rfl, rfl, rfl, rfl, rfl, rfl⟩
  cases hown with
  | record records => exact .inl ⟨_, records, by simp, rfl⟩
  | still => exact .inr ⟨.same (.stay rfl rfl rfl) hsame, rfl⟩
  | quiet _ quiet =>
    obtain ⟨htranscript, hrun⟩ := hcore quiet.core_eq
    exact .inr ⟨htranscript ▸ .same (.stay rfl rfl rfl) hsame, by rw [hrun]; rfl⟩
  | begin life => exact .inr ⟨.same (.begin life) ⟨rfl, rfl, rfl, rfl, rfl, rfl, rfl, rfl⟩, rfl⟩
  | reject life => exact .inr ⟨.same (.reject life) ⟨rfl, rfl, rfl, rfl, rfl, rfl, rfl, rfl⟩, rfl⟩
  | advance life => exact .inr ⟨.same (.advance life) ⟨rfl, rfl, rfl, rfl, rfl, rfl, rfl, rfl⟩, rfl⟩
  | firstSteering =>
    exact .inr ⟨.same (.stay rfl rfl rfl) ⟨rfl, rfl, rfl, rfl, rfl, rfl, rfl, rfl⟩, rfl⟩
  | drainSteering life =>
    exact .inr ⟨.same (.poll (.inl ⟨life, rfl⟩) rfl rfl) ⟨rfl, rfl, rfl, rfl, rfl, rfl, rfl, rfl⟩, rfl⟩
  | drainFollowUp life =>
    exact .inr ⟨.same (.poll (.inr ⟨life, rfl⟩) rfl rfl) ⟨rfl, rfl, rfl, rfl, rfl, rfl, rfl, rfl⟩, rfl⟩
  | append appends id core_eq =>
    obtain ⟨htranscript, hrun⟩ := hcore core_eq
    exact .inr ⟨htranscript ▸ .append appends id, by rw [hrun]; rfl⟩
  | openText turn _ reading calls hasText core_eq =>
    obtain ⟨htranscript, hrun⟩ := hcore core_eq
    exact .inr ⟨htranscript ▸ .openText turn reading calls hasText, by rw [hrun]; rfl⟩
  | extendText turn speech core_eq =>
    obtain ⟨htranscript, hrun⟩ := hcore core_eq
    exact .inr ⟨htranscript ▸ .extendText turn speech, by rw [hrun]; rfl⟩
  | closeText turn speech reading calls terminal core_eq =>
    obtain ⟨htranscript, hrun⟩ := hcore core_eq
    exact .inr ⟨htranscript ▸ .closeText turn speech reading calls terminal, by rw [hrun]; rfl⟩
  | mark turn calls => exact .inr ⟨.mark turn calls, rfl⟩
  | claim =>
    exact .inr ⟨.same (.stay rfl rfl rfl) ⟨rfl, rfl, rfl, rfl, rfl, rfl, rfl, rfl⟩, rfl⟩
  | report life => exact .inr ⟨.report life, rfl⟩
  | policy => exact .inr ⟨.same (.stay rfl rfl rfl) hsame, rfl⟩
  | reserve =>
    exact .inr ⟨.same (.stay rfl rfl rfl) ⟨rfl, rfl, rfl, rfl, rfl, rfl, rfl, rfl⟩, rfl⟩
  | decide turn overflow => exact .inr ⟨.decide turn overflow, rfl⟩
  | truncate turn _ mark _ core_eq =>
    obtain ⟨htranscript, hrun⟩ := hcore core_eq
    exact .inr ⟨htranscript ▸ .truncate turn mark, by rw [hrun]; rfl⟩
  | commit turn calls proposal valid => exact .inr ⟨.commit turn calls proposal valid, rfl⟩
  | leave failed life =>
    exact .inr ⟨.same (.leave failed life) ⟨rfl, rfl, rfl, rfl, rfl, rfl, rfl, rfl⟩, rfl⟩
  | skip life quiet =>
    obtain ⟨htranscript, hrun⟩ := hcore quiet.core_eq
    exact .inr ⟨htranscript ▸ .same (.skip life rfl rfl rfl) ⟨rfl, rfl, rfl, rfl, rfl, rfl, rfl, rfl⟩,
      by rw [hrun]; rfl⟩
  | finish life => exact .inr ⟨.same (.finish life) ⟨rfl, rfl, rfl, rfl, rfl, rfl, rfl, rfl⟩, rfl⟩
  | settle life =>
    have hclient := settleAgent_client (w := w) .idle ‹_›
    have htranscript : transcript (w.settleAgent .idle ‹_›) = transcript w := by
      rw [transcript, hclient.messages, hclient.nextMessageId, transcript]
    exact .inr ⟨htranscript ▸ .same (.settle life) ⟨rfl, rfl, rfl, rfl, rfl, rfl, rfl, rfl⟩,
      hclient.kinds⟩

theorem Client.transcript (hc : Client w w') : Lifecycle.transcript w' = Lifecycle.transcript w := by
  rw [Lifecycle.transcript, hc.messages, hc.nextMessageId, Lifecycle.transcript]

/-! ### Identifiers -/

/-- The step does not begin with an exhausted allocator of message identifiers. -/
def hasRoom : Step World Query Reply → Bool
  | .own before _ => before.agent.nextMessageId.toNat < u64Max
  | _ => true

/-- The run never found the allocator exhausted. -/
def Room (past : List (Step World Query Reply)) : Prop := ∀ step ∈ past, hasRoom step = true

theorem Room.tail {step : Step World Query Reply} {past : List (Step World Query Reply)}
    (hroom : Room (step :: past)) : Room past :=
  fun step' hmem => hroom step' (List.mem_cons_of_mem step hmem)

theorem Room.own {before after : World} {past : List (Step World Query Reply)}
    (hroom : Room (.own before after :: past)) : before.agent.nextMessageId.toNat < u64Max := by
  have h := hroom _ List.mem_cons_self
  simpa [hasRoom] using h

theorem maxId_toNat (a b : UInt64) : (AgentState.maxId a b).toNat = max a.toNat b.toNat := by
  unfold AgentState.maxId
  by_cases hlt : a < b
  · rw [if_pos hlt]
    have := UInt64.lt_iff_toNat_lt.mp hlt
    omega
  · rw [if_neg hlt]
    have : ¬ a.toNat < b.toNat := fun h => hlt (UInt64.lt_iff_toNat_lt.mpr h)
    omega

/-- The next identifier never decreases. -/
theorem Writes.next_le {t t' : Transcript} (hw : Writes h s t t' s') : t.next.toNat ≤ t'.next.toNat := by
  cases hw with
  | append => exact le_satSucc _
  | openText => exact le_satSucc _
  | commit =>
    simp only [AgentState.replaceMessages, maxId_toNat]
    omega
  | _ => exact Nat.le_refl _

/-! ### Responses -/

/-- The events of the last response, as the host has sent them. -/
def responseOf : List (Step World Query Reply) → List ModelStreamEvent
  | [] => []
  | .reply (.stream _) _ :: _ => []
  | .reply .nextEvent (.ok (some event)) :: past => responseOf past ++ [event]
  | _ :: past => responseOf past

/-- Until a fault the run has received what the host has sent. -/
def Heard (s : Stage) (m : Now) : Prop := s.fault = none → s.response = responseOf m.past

theorem Own.response (hown : Own h s w w' s') : s'.response = s.response := by
  cases hown with
  | record records => cases records <;> rfl
  | append appends => cases appends <;> rfl
  | _ => rfl

theorem Replies.heard {m : Now} {query : Query} {reply : Reply query}
    (hr : Replies s query reply s') (hh : Heard s m) : Heard s' (m.reply query reply) := by
  intro hfault
  cases hr with
  | accepted => exact hh hfault
  | refused => cases hfault
  | opened => rfl
  | unopened => rfl
  | @event item turn =>
    have hresponse := hh turn.fault
    rcases Stage.receive_cases (s := s) item with ⟨event, rfl, _, heq⟩ | ⟨rfl, _, heq⟩ | ⟨_, heq⟩
    · rw [heq]
      exact congrArg (· ++ [event]) hresponse
    · rw [heq]
      exact hresponse
    · rw [heq] at hfault
      cases hfault
  | unprepared => cases hfault
  | undecided => cases hfault
  | declined => exact hh hfault
  | proposed => exact hh hfault
  | unproposed => exact hh hfault
  | passive hpassive =>
    cases query with
    | stream => exact False.elim hpassive
    | nextEvent => exact False.elim hpassive
    | _ => exact hh hfault

end Tea.Lifecycle
