/-
  Tea/Contract/PromptHistory.lean
  ===============================
  **The history of prompts is a cursor** that stays between the first prompt and the draft; up and
  down move it, and the composer shows what it is at.
-/
import Mathlib.Data.List.Chain
import Mathlib.Tactic.SplitIfs
import Tea.Tui.History

namespace Tea.Contract

open Tea.Tui

/-! ### The abstract cursor -/

/-- A move of a cursor that stays in the places up to `last`. -/
def moveCursor (last : Nat) (place : Nat) (up : Bool) : Nat :=
  if up then place - 1 else min (place + 1) last

/-- Where the cursor is behind the moves. -/
def cursorBehind (last : Nat) (place : Nat) (moves : List Bool) : Nat :=
  moves.foldl (moveCursor last) place

/-! ### One key -/

section

variable {s : PromptLine}

/-- Up at the draft keeps the draft and shows the last prompt. -/
theorem up_live (hindex : s.historyIndex = none) {prompt : String}
    (hprompt : s.history[s.history.length - 1]? = some prompt) :
    s.up = { s with
      historyIndex := some (s.history.length - 1)
      historyDraft := some s.text
      text := prompt } := by
  have hne : s.history ≠ [] := by
    intro hnil
    simp [hnil] at hprompt
  simp [PromptLine.up, PromptLine.beginHistoryNavigation, PromptLine.historyPrevious,
    PromptLine.replaceFromEditor, hindex, hne, hprompt]

theorem up_empty (hindex : s.historyIndex = none) (hnil : s.history = []) :
    s.up = { s with historyDraft := some s.text } := by
  simp [PromptLine.up, PromptLine.beginHistoryNavigation, PromptLine.historyPrevious,
    PromptLine.replaceFromEditor, hindex, hnil]

/-- Up at a prompt shows the one before it, or the first one again. -/
theorem up_past {index : Nat} (hindex : s.historyIndex = some index) {prompt : String}
    (hprompt : s.history[index - 1]? = some prompt) :
    s.up = { s with historyIndex := some (index - 1), text := prompt } := by
  have hne : s.history ≠ [] := by
    intro hnil
    simp [hnil] at hprompt
  simp [PromptLine.up, PromptLine.beginHistoryNavigation, PromptLine.historyPrevious,
    PromptLine.replaceFromEditor, hindex, hne, hprompt]

theorem down_live (hindex : s.historyIndex = none) : s.down = s := by
  simp [PromptLine.down, PromptLine.historyNext, PromptLine.replaceFromEditor, hindex]

/-- Down at the last prompt shows the draft again. -/
theorem down_last {index : Nat} (hindex : s.historyIndex = some index)
    (hlast : s.history.length ≤ index + 1) :
    s.down = { s with
      historyIndex := none, historyDraft := none, text := s.historyDraft.getD "" } := by
  simp [PromptLine.down, PromptLine.historyNext, PromptLine.replaceFromEditor, hindex, hlast]

theorem down_past {index : Nat} (hindex : s.historyIndex = some index) {prompt : String}
    (hprompt : s.history[index + 1]? = some prompt) :
    s.down = { s with historyIndex := some (index + 1), text := prompt } := by
  have hlt : ¬ s.history.length ≤ index + 1 := by
    have hbound := (List.getElem?_eq_some_iff.mp hprompt).1
    omega
  simp [PromptLine.down, PromptLine.historyNext, PromptLine.replaceFromEditor, hindex, hlt,
    hprompt]

end

/-! ### What the history keeps -/

/-- The cursor is at a prompt and the draft is kept; no prompt is blank, and no two neighbours are
    the same. -/
structure PromptsKept (s : PromptLine) : Prop where
  index : ∀ place, s.historyIndex = some place →
    place < s.history.length ∧ s.historyDraft.isSome = true
  nonblank : ∀ prompt ∈ s.history, isBlank prompt = false
  distinct : s.history.IsChain (· ≠ ·)

theorem PromptsKept.up {s : PromptLine} (h : PromptsKept s) : PromptsKept s.up := by
  cases hindex : s.historyIndex with
  | none =>
    by_cases hempty : s.history = []
    · rw [up_empty hindex hempty]
      refine ⟨?_, h.nonblank, h.distinct⟩
      intro place hplace
      cases hindex.symm.trans hplace
    · have hpos := List.length_pos_iff.mpr hempty
      have hlt : s.history.length - 1 < s.history.length := by omega
      rw [up_live hindex (List.getElem?_eq_getElem hlt)]
      refine ⟨?_, h.nonblank, h.distinct⟩
      intro place hplace
      cases hplace
      exact ⟨hlt, rfl⟩
  | some index =>
    obtain ⟨hlt, hdraft⟩ := h.index index hindex
    have hlt' : index - 1 < s.history.length := by omega
    rw [up_past hindex (List.getElem?_eq_getElem hlt')]
    refine ⟨?_, h.nonblank, h.distinct⟩
    intro place hplace
    cases hplace
    exact ⟨hlt', hdraft⟩

theorem PromptsKept.down {s : PromptLine} (h : PromptsKept s) : PromptsKept s.down := by
  cases hindex : s.historyIndex with
  | none =>
    rw [down_live hindex]
    exact h
  | some index =>
    obtain ⟨hlt, hdraft⟩ := h.index index hindex
    by_cases hlast : s.history.length ≤ index + 1
    · rw [down_last hindex hlast]
      refine ⟨?_, h.nonblank, h.distinct⟩
      intro place hplace
      cases hplace
    · have hlt' : index + 1 < s.history.length := by omega
      rw [down_past hindex (List.getElem?_eq_getElem hlt')]
      refine ⟨?_, h.nonblank, h.distinct⟩
      intro place hplace
      cases hplace
      exact ⟨hlt', hdraft⟩

theorem PromptsKept.recordHistory {s : PromptLine} (h : PromptsKept s) (prompt : String) :
    PromptsKept (s.recordHistory prompt) := by
  unfold PromptLine.recordHistory
  by_cases hblank : isBlank prompt = true
  · rw [if_pos hblank]
    exact h
  · rw [if_neg hblank]
    refine ⟨?_, ?_, ?_⟩
    · intro place hplace
      cases hplace
    · intro other hother
      dsimp only at hother
      split_ifs at hother with hlast
      · exact h.nonblank other hother
      · rcases List.mem_append.mp hother with hother | hother
        · exact h.nonblank other hother
        · rw [List.mem_singleton.mp hother]
          simpa using hblank
    · dsimp only
      split_ifs with hlast
      · exact h.distinct
      · rw [List.isChain_append]
        refine ⟨h.distinct, List.isChain_singleton _, ?_⟩
        intro before hbefore after hafter heq
        rw [List.head?_cons, Option.mem_some_iff] at hafter
        subst hafter heq
        exact hlast hbefore

theorem PromptsKept.apply {s : PromptLine} (h : PromptsKept s) (key : LineKey) :
    PromptsKept (key.apply s) := by
  cases key with
  | up => exact h.up
  | down => exact h.down
  | edit text => exact ⟨h.index, h.nonblank, h.distinct⟩
  | submit =>
    have hcleared : PromptsKept { s with text := "" } := ⟨h.index, h.nonblank, h.distinct⟩
    rw [LineKey.apply, PromptLine.submit]
    split_ifs
    · exact hcleared
    · exact hcleared.recordHistory s.text
  | clear =>
    refine ⟨?_, ?_, List.isChain_nil⟩
    · intro place hplace
      cases hplace
    · intro prompt hprompt
      cases hprompt

theorem promptsKept_run {s : PromptLine} (h : PromptsKept s) (keys : List LineKey) :
    PromptsKept (keys.foldl LineKey.apply s) := by
  induction keys generalizing s with
  | nil => exact h
  | cons key keys ih => exact ih (h.apply key)

/-! ### The cursor of the history -/

/-- The line is at a place of the prompts with the draft behind them. -/
structure AtPlace (prompts : List String) (draft : String) (place : Nat) (s : PromptLine) :
    Prop where
  history : s.history = prompts
  bound : place ≤ prompts.length
  live : place = prompts.length → s.historyIndex = none ∧ s.text = draft
  past : place < prompts.length →
    s.historyIndex = some place ∧ s.historyDraft = some draft ∧ prompts[place]? = some s.text

theorem AtPlace.up {prompts : List String} {draft : String} {place : Nat} {s : PromptLine}
    (h : AtPlace prompts draft place s) :
    AtPlace prompts draft (moveCursor prompts.length place true) s.up := by
  have hmove : moveCursor prompts.length place true = place - 1 := rfl
  obtain ⟨rfl, hbound, hlive, hpast⟩ := h
  rw [hmove]
  by_cases hplace : place = s.history.length
  · obtain ⟨hindex, htext⟩ := hlive hplace
    subst hplace
    by_cases hempty : s.history = []
    · rw [up_empty hindex hempty]
      refine ⟨rfl, Nat.sub_le _ _, fun _ => ⟨hindex, htext⟩, ?_⟩
      intro hlt
      simp [hempty] at hlt
    · have hpos := List.length_pos_iff.mpr hempty
      have hlt : s.history.length - 1 < s.history.length := by omega
      have hprompt := List.getElem?_eq_getElem hlt
      rw [up_live hindex hprompt]
      refine ⟨rfl, Nat.sub_le _ _, ?_, fun _ => ⟨rfl, congrArg some htext, hprompt⟩⟩
      intro heq
      omega
  · obtain ⟨hindex, hdraft, htext⟩ := hpast (by omega)
    have hlt : place - 1 < s.history.length := by omega
    have hprompt := List.getElem?_eq_getElem hlt
    rw [up_past hindex hprompt]
    refine ⟨rfl, by omega, ?_, fun _ => ⟨rfl, hdraft, hprompt⟩⟩
    intro heq
    omega

theorem AtPlace.down {prompts : List String} {draft : String} {place : Nat} {s : PromptLine}
    (h : AtPlace prompts draft place s) :
    AtPlace prompts draft (moveCursor prompts.length place false) s.down := by
  have hmove : moveCursor prompts.length place false = min (place + 1) prompts.length := rfl
  obtain ⟨rfl, hbound, hlive, hpast⟩ := h
  rw [hmove]
  by_cases hplace : place = s.history.length
  · have hmin : min (place + 1) s.history.length = place := by omega
    rw [down_live (hlive hplace).1, hmin]
    exact ⟨rfl, hbound, hlive, hpast⟩
  · obtain ⟨hindex, hdraft, htext⟩ := hpast (by omega)
    by_cases hlast : s.history.length ≤ place + 1
    · have hmin : min (place + 1) s.history.length = s.history.length := by omega
      rw [down_last hindex hlast, hmin, hdraft]
      refine ⟨rfl, Nat.le_refl _, fun _ => ⟨rfl, rfl⟩, ?_⟩
      intro hlt
      exact absurd hlt (Nat.lt_irrefl _)
    · have hmin : min (place + 1) s.history.length = place + 1 := by omega
      have hlt : place + 1 < s.history.length := by omega
      have hprompt := List.getElem?_eq_getElem hlt
      rw [down_past hindex hprompt, hmin]
      refine ⟨rfl, Nat.le_of_lt hlt, ?_, fun _ => ⟨rfl, hdraft, hprompt⟩⟩
      intro heq
      omega

/-- The key of a move. -/
def moveKey (up : Bool) : LineKey := if up then .up else .down

theorem AtPlace.run {prompts : List String} {draft : String} {place : Nat} {s : PromptLine}
    (h : AtPlace prompts draft place s) (moves : List Bool) :
    AtPlace prompts draft (cursorBehind prompts.length place moves)
      ((moves.map moveKey).foldl LineKey.apply s) := by
  induction moves generalizing place s with
  | nil => exact h
  | cons up moves ih =>
    cases up with
    | true => exact ih h.up
    | false => exact ih h.down

/-- The line after the keys. -/
def lineAfter (keys : List LineKey) : PromptLine := keys.foldl LineKey.apply {}

end Tea.Contract
