/-
  Tea/Contract/TranscriptHistory.lean
  ===================================
  **The history of the transcript**: every event finds the lines that it writes to, and a line
  that nothing writes to any longer stays as it is.
-/
import Tea.Tui.Transcript

namespace Tea.Contract

open Tea.Core Tea.Tui

/-! ### Lines -/

/-- The entries with their sequences, and the lines that are being written. -/
structure Lines where
  entries : List TranscriptEntry
  sequences : List (Option UInt64)
  streaming : Option Nat
  active : ToolCallId → Option Nat

def linesOf (s : AppState) : Lines :=
  ⟨s.transcript, s.transcriptSequences, s.streamingLine, s.activeToolLines⟩

namespace Lines

/-- A stream or a tool writes to the line. -/
def Live (L : Lines) (i : Nat) : Prop := L.streaming = some i ∨ ∃ id, L.active id = some i

/-- **The invariant**: each entry has a sequence, the line of the stream is the only one that is
    streamed, and tools are found where they say they are. -/
structure Aligned (L : Lines) : Prop where
  length : L.sequences.length = L.entries.length
  streaming : ∀ i, L.streaming = some i ↔ ∃ text, L.entries[i]? = some (.assistant text true)
  active : ∀ id i, L.active id = some i →
    ∃ p : ToolProjection, L.entries[i]? = some (.tool p) ∧ p.callId = id
  placed : ∀ i (p : ToolProjection), L.entries[i]? = some (.tool p) → p.transcriptIndex = i

/-- An entry that nothing writes to. -/
def Finished (i : Nat) : TranscriptEntry → Prop
  | .assistant _ streaming => streaming = false
  | .tool p => p.transcriptIndex = i
  | _ => True

def push (L : Lines) (sequence : Option UInt64) (entry : TranscriptEntry) : Lines :=
  { L with entries := L.entries ++ [entry], sequences := L.sequences ++ [sequence] }

def activate (L : Lines) (id : ToolCallId) (index : Option Nat) : Lines :=
  { L with active := fun other => if other = id then index else L.active other }

/-- What one event may do to the lines. -/
inductive Change (L : Lines) : Lines → Prop
  | same : Change L L
  | push {sequence : Option UInt64} {entry : TranscriptEntry}
      (h : Finished L.entries.length entry) : Change L (L.push sequence entry)
  | stream {sequence : Option UInt64} {text : String} (h : L.streaming = none) :
      Change L { L.push sequence (.assistant text true) with streaming := some L.entries.length }
  | extend {i : Nat} {text : String} (h : L.streaming = some i) :
      Change L { L with entries := L.entries.set i (.assistant text true) }
  | finish {i : Nat} {sequence : Option UInt64} {entry : TranscriptEntry}
      (h : L.streaming = some i)
      (hentry : (∃ e, entry = .error e) ∨ ∃ t, entry = .assistant t false) :
      Change L { L with
        entries := L.entries.set i entry, sequences := L.sequences.set i sequence
        streaming := none }
  | begin {sequence : Option UInt64} {p : ToolProjection}
      (h : p.transcriptIndex = L.entries.length) :
      Change L ((L.push sequence (.tool p)).activate p.callId (some L.entries.length))
  | update {i : Nat} {sequence : Option UInt64} {p p' : ToolProjection}
      (h : L.active p.callId = some i) (hentry : L.entries[i]? = some (.tool p))
      (hid : p'.callId = p.callId) (hindex : p'.transcriptIndex = p.transcriptIndex)
      {left : Option Nat} (hleft : left = some i ∨ left = none) :
      Change L ({ L with
        entries := L.entries.set i (.tool p')
        sequences := L.sequences.set i sequence }.activate p.callId left)

/-! ### What a change preserves -/

theorem getElem?_snoc {entries : List TranscriptEntry} {entry other : TranscriptEntry} {i : Nat} :
    (entries ++ [entry])[i]? = some other ↔
      entries[i]? = some other ∨ i = entries.length ∧ other = entry := by
  rcases Nat.lt_trichotomy i entries.length with hlt | rfl | hgt
  · rw [List.getElem?_append_left hlt]
    constructor
    · exact .inl
    · rintro (h | ⟨rfl, -⟩)
      · exact h
      · exact absurd hlt (Nat.lt_irrefl _)
  · simp [eq_comm]
  · rw [List.getElem?_eq_none (by simp; omega), List.getElem?_eq_none (by omega)]
    simp
    omega

theorem getElem?_set {entries : List TranscriptEntry} {i j : Nat} {entry other : TranscriptEntry}
    (h : i < entries.length) : (entries.set i entry)[j]? = some other ↔
      (j = i ∧ other = entry) ∨ (j ≠ i ∧ entries[j]? = some other) := by
  rw [List.getElem?_set]
  by_cases hij : i = j
  · subst hij
    simp [h, eq_comm]
  · simp [hij, Ne.symm hij]

theorem lt_of_getElem? {entries : List TranscriptEntry} {i : Nat} {entry : TranscriptEntry}
    (h : entries[i]? = some entry) : i < entries.length :=
  (List.getElem?_eq_some_iff.mp h).1

theorem Aligned.change {L L' : Lines} (h : L.Aligned) (hchange : L.Change L') : L'.Aligned := by
  cases hchange with
  | same => exact h
  | @push sequence entry hentry =>
    refine ⟨?_, ?_, ?_, ?_⟩
    · simp [push, h.length]
    · intro i
      have hold := h.streaming i
      constructor
      · intro hstream
        obtain ⟨text, htext⟩ := hold.mp hstream
        exact ⟨text, getElem?_snoc.mpr (.inl htext)⟩
      · rintro ⟨text, htext⟩
        rcases getElem?_snoc.mp htext with htext | ⟨-, rfl⟩
        · exact hold.mpr ⟨text, htext⟩
        · cases hentry
    · intro id i hactive
      obtain ⟨p, hp, hid⟩ := h.active id i hactive
      exact ⟨p, getElem?_snoc.mpr (.inl hp), hid⟩
    · intro i p hp
      rcases getElem?_snoc.mp hp with hp | ⟨rfl, rfl⟩
      · exact h.placed i p hp
      · exact hentry
  | @stream sequence text hnone =>
    refine ⟨?_, ?_, ?_, ?_⟩
    · simp [push, h.length]
    · intro i
      constructor
      · intro hstream
        cases hstream
        exact ⟨text, getElem?_snoc.mpr (.inr ⟨rfl, rfl⟩)⟩
      · rintro ⟨text', htext⟩
        rcases getElem?_snoc.mp htext with htext | ⟨rfl, -⟩
        · have hsome := (h.streaming i).mpr ⟨text', htext⟩
          rw [hnone] at hsome
          cases hsome
        · rfl
    · intro id i hactive
      obtain ⟨p, hp, hid⟩ := h.active id i hactive
      exact ⟨p, getElem?_snoc.mpr (.inl hp), hid⟩
    · intro i p hp
      rcases getElem?_snoc.mp hp with hp | ⟨-, hp⟩
      · exact h.placed i p hp
      · cases hp
  | @extend i text hstream =>
    obtain ⟨old, hold⟩ := (h.streaming i).mp hstream
    have hlt := lt_of_getElem? hold
    refine ⟨?_, ?_, ?_, ?_⟩
    · simp [h.length]
    · intro j
      dsimp only
      rw [h.streaming j]
      by_cases hij : j = i
      · subst hij
        constructor
        · intro _
          exact ⟨text, (getElem?_set hlt).mpr (.inl ⟨rfl, rfl⟩)⟩
        · intro _
          exact ⟨old, hold⟩
      · constructor
        · rintro ⟨other, hother⟩
          exact ⟨other, (getElem?_set hlt).mpr (.inr ⟨hij, hother⟩)⟩
        · rintro ⟨other, hother⟩
          rcases (getElem?_set hlt).mp hother with ⟨heq, -⟩ | ⟨-, hother⟩
          · exact absurd heq hij
          · exact ⟨other, hother⟩
    · intro id j hactive
      obtain ⟨p, hp, hid⟩ := h.active id j hactive
      have hij : j ≠ i := by
        rintro rfl
        rw [hold] at hp
        cases hp
      exact ⟨p, (getElem?_set hlt).mpr (.inr ⟨hij, hp⟩), hid⟩
    · intro j p hp
      rcases (getElem?_set hlt).mp hp with ⟨-, hp⟩ | ⟨-, hp⟩
      · cases hp
      · exact h.placed j p hp
  | @finish i sequence entry hstream hentry =>
    obtain ⟨old, hold⟩ := (h.streaming i).mp hstream
    have hlt := lt_of_getElem? hold
    refine ⟨?_, ?_, ?_, ?_⟩
    · simp [h.length]
    · intro j
      constructor
      · intro hsome
        cases hsome
      · rintro ⟨text, htext⟩
        rcases (getElem?_set hlt).mp htext with ⟨-, htext⟩ | ⟨hij, htext⟩
        · rcases hentry with ⟨e, rfl⟩ | ⟨t, rfl⟩
          · cases htext
          · cases htext
        · have hsome := (h.streaming j).mpr ⟨text, htext⟩
          rw [hstream] at hsome
          exact absurd (Option.some.inj hsome).symm hij
    · intro id j hactive
      obtain ⟨p, hp, hid⟩ := h.active id j hactive
      have hij : j ≠ i := by
        rintro rfl
        rw [hold] at hp
        cases hp
      exact ⟨p, (getElem?_set hlt).mpr (.inr ⟨hij, hp⟩), hid⟩
    · intro j p hp
      rcases (getElem?_set hlt).mp hp with ⟨-, hp⟩ | ⟨-, hp⟩
      · rcases hentry with ⟨e, rfl⟩ | ⟨t, rfl⟩
        · cases hp
        · cases hp
      · exact h.placed j p hp
  | @begin sequence p hindex =>
    refine ⟨?_, ?_, ?_, ?_⟩
    · simp [activate, push, h.length]
    · intro i
      constructor
      · intro hstream
        obtain ⟨text, htext⟩ := (h.streaming i).mp hstream
        exact ⟨text, getElem?_snoc.mpr (.inl htext)⟩
      · rintro ⟨text, htext⟩
        rcases getElem?_snoc.mp htext with htext | ⟨-, hentry⟩
        · exact (h.streaming i).mpr ⟨text, htext⟩
        · cases hentry
    · intro id i hactive
      rw [activate] at hactive
      dsimp only at hactive
      split_ifs at hactive with hid
      · cases hactive
        exact ⟨p, getElem?_snoc.mpr (.inr ⟨rfl, rfl⟩), hid.symm⟩
      · obtain ⟨q, hq, hqid⟩ := h.active id i hactive
        exact ⟨q, getElem?_snoc.mpr (.inl hq), hqid⟩
    · intro i q hq
      rcases getElem?_snoc.mp hq with hold | ⟨rfl, hlast⟩
      · exact h.placed i q hold
      · cases hlast
        exact hindex
  | @update i sequence p p' hactive hentry hid hindex left hleft =>
    have hlt := lt_of_getElem? hentry
    refine ⟨?_, ?_, ?_, ?_⟩
    · simp [activate, h.length]
    · intro j
      have hother : (∃ text, L.entries[j]? = some (.assistant text true)) ↔
          ∃ text, (L.entries.set i (.tool p'))[j]? = some (.assistant text true) := by
        constructor
        · rintro ⟨text, htext⟩
          have hij : j ≠ i := by
            rintro rfl
            rw [hentry] at htext
            cases htext
          exact ⟨text, (getElem?_set hlt).mpr (.inr ⟨hij, htext⟩)⟩
        · rintro ⟨text, htext⟩
          rcases (getElem?_set hlt).mp htext with ⟨-, htext⟩ | ⟨-, htext⟩
          · cases htext
          · exact ⟨text, htext⟩
      exact (h.streaming j).trans hother
    · intro id j hj
      have hold : L.active id = some j := by
        rw [activate] at hj
        dsimp only at hj
        split_ifs at hj with heq
        · rcases hleft with rfl | rfl
          · rw [heq, hactive, hj]
          · cases hj
        · exact hj
      obtain ⟨q, hq, hqid⟩ := h.active id j hold
      by_cases hij : j = i
      · subst hij
        rw [hentry] at hq
        cases hq
        exact ⟨p', (getElem?_set hlt).mpr (.inl ⟨rfl, rfl⟩), hid.trans hqid⟩
      · exact ⟨q, (getElem?_set hlt).mpr (.inr ⟨hij, hq⟩), hqid⟩
    · intro j q hq
      rcases (getElem?_set hlt).mp hq with ⟨rfl, hnew⟩ | ⟨-, hold⟩
      · cases hnew
        rw [hindex]
        exact h.placed j p hentry
      · exact h.placed j q hold

/-! ### What a change keeps -/

/-- How an entry may change while something writes to it. -/
inductive Becomes : TranscriptEntry → TranscriptEntry → Prop
  | same {entry : TranscriptEntry} : Becomes entry entry
  | streamed {text text' : String} {streaming : Bool} :
      Becomes (.assistant text true) (.assistant text' streaming)
  | failed {text error : String} : Becomes (.assistant text true) (.error error)
  | tool {p p' : ToolProjection} (hid : p'.callId = p.callId)
      (hindex : p'.transcriptIndex = p.transcriptIndex) : Becomes (.tool p) (.tool p')

theorem Becomes.trans {e e' e'' : TranscriptEntry} (h : Becomes e e') (h' : Becomes e' e'') :
    Becomes e e'' := by
  cases h with
  | same => exact h'
  | streamed =>
    cases h' with
    | same => exact .streamed
    | streamed => exact .streamed
    | failed => exact .failed
  | failed =>
    cases h' with
    | same => exact .failed
  | tool hid hindex =>
    cases h' with
    | same => exact .tool hid hindex
    | tool hid' hindex' => exact .tool (hid'.trans hid) (hindex'.trans hindex)

/-- Entries stay where they are, and those that nothing writes to stay as they are. -/
structure Evolves (L L' : Lines) : Prop where
  entries : ∀ (i : Nat) (entry : TranscriptEntry), L.entries[i]? = some entry →
    ∃ entry', L'.entries[i]? = some entry' ∧ Becomes entry entry'
  finished : ∀ (i : Nat) (entry : TranscriptEntry), L.entries[i]? = some entry → ¬ L.Live i →
    L'.entries[i]? = some entry ∧ L'.sequences[i]? = L.sequences[i]? ∧ ¬ L'.Live i

theorem Evolves.refl (L : Lines) : L.Evolves L where
  entries _ entry h := ⟨entry, h, .same⟩
  finished _ _ h hlive := ⟨h, rfl, hlive⟩

theorem Evolves.trans {L L' L'' : Lines} (h : L.Evolves L') (h' : L'.Evolves L'') :
    L.Evolves L'' where
  entries i entry hentry := by
    obtain ⟨entry', hentry', hbecomes⟩ := h.entries i entry hentry
    obtain ⟨entry'', hentry'', hbecomes'⟩ := h'.entries i entry' hentry'
    exact ⟨entry'', hentry'', hbecomes.trans hbecomes'⟩
  finished i entry hentry hlive := by
    obtain ⟨hsame, hsequence, hlive'⟩ := h.finished i entry hentry hlive
    obtain ⟨hsame', hsequence', hlive''⟩ := h'.finished i entry hsame hlive'
    exact ⟨hsame', hsequence'.trans hsequence, hlive''⟩

/-- Entries behind the last one change none of the others. -/
theorem evolves_of_append {L L' : Lines} (h : L.Aligned) {entry : TranscriptEntry}
    {sequence : Option UInt64} (hentries : L'.entries = L.entries ++ [entry])
    (hsequences : L'.sequences = L.sequences ++ [sequence])
    (hlive : ∀ i, L'.Live i → L.Live i ∨ i = L.entries.length) : L.Evolves L' where
  entries i other hother := by
    refine ⟨other, ?_, .same⟩
    rw [hentries]
    exact getElem?_snoc.mpr (.inl hother)
  finished i other hother hnot := by
    have hlt := lt_of_getElem? hother
    refine ⟨?_, ?_, ?_⟩
    · rw [hentries]
      exact getElem?_snoc.mpr (.inl hother)
    · rw [hsequences, List.getElem?_append_left (by rw [h.length]; exact hlt)]
    · intro hnew
      rcases hlive i hnew with hold | rfl
      · exact hnot hold
      · exact Nat.lt_irrefl _ hlt

/-- A line that is written to is the only one that changes. -/
theorem evolves_of_set {L L' : Lines} {i : Nat} {old entry : TranscriptEntry}
    (hold : L.entries[i]? = some old) (hbecomes : Becomes old entry)
    (hentries : L'.entries = L.entries.set i entry) (hlive : L.Live i)
    (hsequences : L'.sequences = L.sequences ∨
      ∃ sequence, L'.sequences = L.sequences.set i sequence)
    (hless : ∀ j, L'.Live j → L.Live j) : L.Evolves L' where
  entries j other hother := by
    have hlt := lt_of_getElem? hold
    rw [hentries]
    by_cases hij : j = i
    · subst hij
      rw [hold] at hother
      cases hother
      exact ⟨entry, (getElem?_set hlt).mpr (.inl ⟨rfl, rfl⟩), hbecomes⟩
    · exact ⟨other, (getElem?_set hlt).mpr (.inr ⟨hij, hother⟩), .same⟩
  finished j other hother hnot := by
    have hlt := lt_of_getElem? hold
    have hij : j ≠ i := by
      rintro rfl
      exact hnot hlive
    refine ⟨?_, ?_, fun hnew => hnot (hless j hnew)⟩
    · rw [hentries]
      exact (getElem?_set hlt).mpr (.inr ⟨hij, hother⟩)
    · rcases hsequences with hsame | ⟨sequence, hset⟩
      · rw [hsame]
      · rw [hset, List.getElem?_set_ne (Ne.symm hij)]

theorem Change.evolves {L L' : Lines} (hchange : L.Change L') (h : L.Aligned) : L.Evolves L' := by
  cases hchange with
  | same => exact .refl L
  | push hentry => exact evolves_of_append h rfl rfl fun _ hlive => .inl hlive
  | stream hnone =>
    refine evolves_of_append h rfl rfl ?_
    rintro i (hstream | hactive)
    · exact .inr (Option.some.inj hstream).symm
    · exact .inl (.inr hactive)
  | extend hstream =>
    obtain ⟨old, hold⟩ := (h.streaming _).mp hstream
    exact evolves_of_set hold .streamed rfl (.inl hstream) (.inl rfl) fun _ hlive => hlive
  | finish hstream hentry =>
    obtain ⟨old, hold⟩ := (h.streaming _).mp hstream
    refine evolves_of_set hold ?_ rfl (.inl hstream) (.inr ⟨_, rfl⟩) ?_
    · rcases hentry with ⟨e, rfl⟩ | ⟨t, rfl⟩
      · exact .failed
      · exact .streamed
    · rintro j (hnone | hactive)
      · cases hnone
      · exact .inr hactive
  | begin hindex =>
    refine evolves_of_append h rfl rfl ?_
    rintro i (hstream | ⟨id, hactive⟩)
    · exact .inl (.inl hstream)
    · rw [activate] at hactive
      dsimp only at hactive
      split_ifs at hactive with hid
      · exact .inr (Option.some.inj hactive).symm
      · exact .inl (.inr ⟨id, hactive⟩)
  | update hactive hentry hid hindex hleft =>
    refine evolves_of_set hentry (.tool hid hindex) rfl (.inr ⟨_, hactive⟩) (.inr ⟨_, rfl⟩) ?_
    rintro j (hstream | ⟨id, hj⟩)
    · exact .inl hstream
    · rw [activate] at hj
      dsimp only at hj
      split_ifs at hj with heq
      · rcases hleft with rfl | rfl
        · cases hj
          exact .inr ⟨_, hactive⟩
        · cases hj
      · exact .inr ⟨id, hj⟩

end Lines

open Lines

/-! ### Events are changes -/

/-- There is no panic, and the lines change as they may. -/
def Handles (s : AppState) (result : Option AppState) : Prop :=
  ∃ s', result = some s' ∧ (linesOf s).Change (linesOf s')

variable {s : AppState}

theorem handles_same {s' : AppState} (h : linesOf s' = linesOf s) : Handles s (some s') :=
  ⟨s', rfl, by rw [h]; exact .same⟩

theorem handles_push {sequence : Option UInt64} {entry : TranscriptEntry}
    (h : Finished s.transcript.length entry) : Handles s (some (s.pushEntry sequence entry)) :=
  ⟨_, rfl, .push h⟩

theorem handles_pushTool {p : ToolProjection} (h : p.transcriptIndex = s.transcript.length) :
    Handles s (some (s.pushTool p)) :=
  ⟨_, rfl, .begin h⟩

theorem written {i : Nat} (h : i < s.transcriptSequences.length) (entry : TranscriptEntry)
    (sequence : Option UInt64) :
    ∃ s', (s.writeEntry i entry).writeSequence i sequence = some s' ∧
      linesOf s' = { linesOf s with
        entries := s.transcript.set i entry
        sequences := s.transcriptSequences.set i sequence } :=
  ⟨_, if_pos h, rfl⟩

theorem handles_updateMessage (h : (linesOf s).Aligned) (sequence : Option UInt64)
    (delta : String) : Handles s (some (s.updateMessage sequence delta)) := by
  unfold AppState.updateMessage
  cases hstream : s.streamingLine with
  | none => exact ⟨_, rfl, .stream hstream⟩
  | some i =>
    obtain ⟨text, htext⟩ := (h.streaming i).mp hstream
    have hentry : s.transcript[i]? = some (.assistant text true) := htext
    dsimp only
    rw [hentry]
    exact ⟨_, rfl, .extend hstream⟩

theorem handles_endMessage (h : (linesOf s).Aligned) (sequence : Option UInt64)
    (content : String) (errorMessage : Option String) :
    Handles s (s.endMessage sequence content errorMessage) := by
  unfold AppState.endMessage AppState.endMessageLine
  cases hstream : s.streamingLine with
  | none =>
    have hnone : ∀ s' : AppState, s'.streamingLine = none →
        linesOf s'.stopStreaming = linesOf s' := by
      intro s' hs'
      rw [linesOf, linesOf, hs']
      rfl
    cases errorMessage with
    | none =>
      refine ⟨_, rfl, ?_⟩
      rw [hnone (s.pushEntry sequence (.assistant content false)) hstream]
      exact .push rfl
    | some error =>
      refine ⟨_, rfl, ?_⟩
      rw [hnone (s.pushEntry sequence (.error error)) hstream]
      exact .push trivial
  | some i =>
    obtain ⟨text, htext⟩ := (h.streaming i).mp hstream
    have hentry : s.transcript[i]? = some (.assistant text true) := htext
    have hlength : s.transcriptSequences.length = s.transcript.length := h.length
    have hlt : i < s.transcriptSequences.length := by
      rw [hlength]
      exact lt_of_getElem? hentry
    cases errorMessage with
    | none =>
      dsimp only
      rw [hentry]
      obtain ⟨s', hs', hlines⟩ := written hlt (.assistant content false) sequence
      dsimp only
      rw [hs']
      refine ⟨_, rfl, ?_⟩
      have hstopped : linesOf s'.stopStreaming = { linesOf s' with streaming := none } := rfl
      rw [hstopped, hlines]
      exact .finish hstream (.inr ⟨content, rfl⟩)
    | some error =>
      dsimp only
      rw [hentry]
      obtain ⟨s', hs', hlines⟩ := written hlt (.error error) sequence
      dsimp only
      rw [hs']
      refine ⟨_, rfl, ?_⟩
      have hstopped : linesOf s'.stopStreaming = { linesOf s' with streaming := none } := rfl
      rw [hstopped, hlines]
      exact .finish hstream (.inl ⟨error, rfl⟩)

/-- A line of a tool is rewritten where it is, or there is a new one. -/
theorem updateToolLine_spec (h : (linesOf s).Aligned) (id : ToolCallId)
    (sequence : Option UInt64) (toolName : String) (state : ToolState)
    (progress result : Option String) :
    (∃ i p p' s', s.activeToolLines id = some i ∧ s.transcript[i]? = some (.tool p) ∧
        p.callId = id ∧ p'.callId = p.callId ∧ p'.transcriptIndex = p.transcriptIndex ∧
        s.updateToolLine id sequence toolName state progress result = some s' ∧
        linesOf s' = { linesOf s with
          entries := s.transcript.set i (.tool p')
          sequences := s.transcriptSequences.set i sequence }) ∨
      s.activeToolLines id = none ∧ ∃ q, q.callId = id ∧
        q.transcriptIndex = s.transcript.length ∧
        s.updateToolLine id sequence toolName state progress result = some (s.pushTool q) := by
  unfold AppState.updateToolLine
  cases hactive : s.activeToolLines id with
  | none => exact .inr ⟨rfl, _, rfl, rfl, rfl⟩
  | some i =>
    obtain ⟨p, hp, hid⟩ := h.active id i hactive
    have hentry : s.transcript[i]? = some (.tool p) := hp
    have hlength : s.transcriptSequences.length = s.transcript.length := h.length
    have hlt : i < s.transcriptSequences.length := by
      rw [hlength]
      exact lt_of_getElem? hentry
    dsimp only
    rw [hentry]
    obtain ⟨s', hs', hlines⟩ := written hlt (.tool { p with
      sequence, toolName, state
      latestProgress := progress <|> p.latestProgress
      settledResult := result <|> p.settledResult }) sequence
    exact .inl ⟨i, p, { p with
      sequence, toolName, state
      latestProgress := progress <|> p.latestProgress
      settledResult := result <|> p.settledResult }, s', rfl, hentry, hid, rfl, rfl, hs', hlines⟩

theorem activate_same {L : Lines} {id : ToolCallId} {index : Option Nat}
    (h : L.active id = index) : L.activate id index = L := by
  have hsame : (fun other => if other = id then index else L.active other) = L.active := by
    funext other
    split_ifs with hother
    · rw [hother, h]
    · rfl
  rw [activate, hsame]

theorem handles_progress (h : (linesOf s).Aligned) (id : ToolCallId) (sequence : Option UInt64)
    (toolName : String) (state : ToolState) (progress result : Option String) :
    Handles s (s.updateToolLine id sequence toolName state progress result) := by
  rcases updateToolLine_spec h id sequence toolName state progress result with
    ⟨i, p, p', s', hactive, hentry, rfl, hid, hindex, hresult, hlines⟩ |
    ⟨-, q, rfl, hindex, hresult⟩
  · refine ⟨s', hresult, ?_⟩
    have hkept : { linesOf s with
        entries := s.transcript.set i (.tool p')
        sequences := s.transcriptSequences.set i sequence }.activate p.callId (some i) =
        linesOf s' := by
      rw [hlines]
      exact activate_same hactive
    rw [← hkept]
    exact .update hactive hentry hid hindex (.inl rfl)
  · rw [hresult]
    exact handles_pushTool hindex

theorem handles_end (h : (linesOf s).Aligned) (id : ToolCallId) (sequence : Option UInt64)
    (toolName : String) (state : ToolState) (progress result : Option String) :
    Handles s ((s.updateToolLine id sequence toolName state progress result).map
      fun s => s.activate id none) := by
  rcases updateToolLine_spec h id sequence toolName state progress result with
    ⟨i, p, p', s', hactive, hentry, rfl, hid, hindex, hresult, hlines⟩ |
    ⟨hnone, q, rfl, hindex, hresult⟩
  · rw [hresult]
    refine ⟨_, rfl, ?_⟩
    have hleft : linesOf (s'.activate p.callId none) = (linesOf s').activate p.callId none := rfl
    rw [hleft, hlines]
    exact .update hactive hentry hid hindex (.inr rfl)
  · rw [hresult]
    refine ⟨_, rfl, ?_⟩
    have hpushed : linesOf ((s.pushTool q).activate q.callId none) =
        ((linesOf s).push q.sequence (.tool q)).activate q.callId none := by
      rw [Lines.activate, linesOf, AppState.activate, AppState.pushTool, AppState.activate]
      dsimp only
      congr 1
      funext other
      split_ifs
      · rfl
      · rfl
    rw [hpushed, activate_same hnone]
    exact .push hindex

theorem applyEvent_handles (h : (linesOf s).Aligned) (event : AgentEvent) :
    Handles s (s.applyEvent event) := by
  unfold AppState.applyEvent
  cases event.kind with
  | messageStart message =>
    cases message with
    | user id content => exact handles_push trivial
    | assistant | toolResult => exact handles_same rfl
  | messageUpdate message textDelta =>
    cases message with
    | assistant =>
      cases textDelta with
      | none => exact handles_same rfl
      | some delta => exact handles_updateMessage h _ delta
    | user | toolResult => exact handles_same rfl
  | messageEnd message =>
    cases message with
    | assistant id content calls reason errorMessage => exact handles_endMessage h _ content _
    | user | toolResult => exact handles_same rfl
  | toolExecutionStart id toolName arguments => exact handles_pushTool rfl
  | toolExecutionUpdate id toolName update => exact handles_progress h id _ _ _ _ _
  | toolExecutionEnd id toolName result => exact handles_end h id _ _ _ _ _
  | turnEnd turnId reason =>
    refine handles_same ?_
    cases reason <;> rfl
  | agentEnd messages =>
    refine handles_same ?_
    split_ifs
    · rfl
    · rfl
  | _ => exact handles_same rfl

/-! ### Restored conversations -/

theorem aligned_empty : (linesOf s.clearTranscript).Aligned where
  length := rfl
  streaming i := by
    constructor
    · intro h
      cases h
    · rintro ⟨text, h⟩
      cases h
  active id i h := by cases h
  placed i p h := by cases h

theorem restoreMessage_change (message : AgentMessage) :
    (linesOf s).Change (linesOf (s.restoreMessage message)) := by
  cases message with
  | user id content => exact .push (by trivial)
  | assistant id content calls reason errorMessage =>
    cases errorMessage with
    | none => exact .push (by rfl)
    | some error => exact .push (by trivial)
  | toolResult => exact .push rfl

theorem restoreMessages_aligned (messages : List AgentMessage) :
    (linesOf (s.restoreMessages messages)).Aligned := by
  have hfold : ∀ s : AppState, (linesOf s).Aligned →
      (linesOf (messages.foldl AppState.restoreMessage s)).Aligned := by
    induction messages with
    | nil => exact fun _ h => h
    | cons message messages ih => exact fun s h => ih _ (h.change (restoreMessage_change message))
  exact hfold _ aligned_empty

/-! ### Histories -/

/-- What the host does to its transcript. -/
inductive TranscriptStep where
  | event (event : AgentEvent)
  | welcome (version : String)
  | restore (messages : List AgentMessage)
  | clear

def transcriptStep (s : AppState) : TranscriptStep → Option AppState
  | .event event => s.applyEvent event
  | .welcome version => some (s.welcomeLine version)
  | .restore messages => some (s.restoreMessages messages)
  | .clear => some s.clearTranscript

/-- One step after another, as long as none panics. -/
def transcriptAfter : AppState → List TranscriptStep → Option AppState
  | s, [] => some s
  | s, step :: steps => (transcriptStep s step).bind fun s' => transcriptAfter s' steps

theorem transcriptStep_aligned (h : (linesOf s).Aligned) (step : TranscriptStep) :
    ∃ s', transcriptStep s step = some s' ∧ (linesOf s').Aligned := by
  cases step with
  | event event =>
    obtain ⟨s', hs', hchange⟩ := applyEvent_handles h event
    exact ⟨s', hs', h.change hchange⟩
  | welcome version => exact ⟨_, rfl, h.change (.push (by trivial))⟩
  | restore messages => exact ⟨_, rfl, restoreMessages_aligned messages⟩
  | clear => exact ⟨_, rfl, aligned_empty⟩

theorem transcriptAfter_aligned (h : (linesOf s).Aligned) (steps : List TranscriptStep) :
    ∃ s', transcriptAfter s steps = some s' ∧ (linesOf s').Aligned := by
  induction steps generalizing s with
  | nil => exact ⟨s, rfl, h⟩
  | cons step steps ih =>
    obtain ⟨s', hs', haligned⟩ := transcriptStep_aligned h step
    obtain ⟨s'', hs'', haligned'⟩ := ih haligned
    exact ⟨s'', by rw [transcriptAfter, hs']; exact hs'', haligned'⟩

theorem applyEvents_evolves (h : (linesOf s).Aligned) (events : List AgentEvent) :
    ∃ s', transcriptAfter s (events.map .event) = some s' ∧ (linesOf s').Aligned ∧
      (linesOf s).Evolves (linesOf s') := by
  induction events generalizing s with
  | nil => exact ⟨s, rfl, h, .refl _⟩
  | cons event events ih =>
    obtain ⟨s', hs', hchange⟩ := applyEvent_handles h event
    obtain ⟨s'', hs'', haligned, hevolves⟩ := ih (h.change hchange)
    refine ⟨s'', ?_, haligned, (hchange.evolves h).trans hevolves⟩
    rw [List.map_cons, transcriptAfter, transcriptStep, hs']
    exact hs''

/-- **The transcript never panics**: whatever events come in whatever order, whatever is
    restored or cleared, each line that is written to is found where it is looked for. -/
theorem transcript_aligned (steps : List TranscriptStep) :
    ∃ s, transcriptAfter {} steps = some s ∧ (linesOf s).Aligned :=
  transcriptAfter_aligned (@aligned_empty {}) steps

end Tea.Contract
