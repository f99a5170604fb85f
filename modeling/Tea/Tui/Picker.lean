/-
  Tea/Tui/Picker.lean
  ===================
  **The model picker and the session picker** (`host.rs`, `picker.rs`, `state.rs`): what a filter
  keeps, the lines of the overlay, and the operations on the filter and the selection.
-/
import Tea.Provider.Registry
import Tea.Tui.Transcript

namespace Tea.Tui

open Tea.Session
open Tea.Provider.Registry (ProviderRegistry)

/-! ### Filters -/

/-- `to_ascii_lowercase` -/
def asciiLowercase (text : String) : String := String.ofList (text.toList.map Char.toLower)

/-- `text.contains(filter)` -/
def containsText (text filter : String) : Bool := filter.toList <:+: text.toList

structure ModelCandidate where
  provider : String
  providerName : String
  model : Option Provider.Registry.ModelDescriptor
deriving DecidableEq

def ModelCandidate.label (candidate : ModelCandidate) : String :=
  match candidate.model with
  | some model => candidate.providerName ++ " · " ++ model.id
  | none => candidate.providerName ++ " · custom model…"

/-- `model_candidates` -/
def modelCandidates (registry : ProviderRegistry) (filter : String) : List ModelCandidate :=
  let filter := asciiLowercase filter
  registry.entries.flatMap fun entry =>
    let named := containsText (asciiLowercase entry.id) filter ||
      containsText (asciiLowercase entry.displayName) filter
    let models := entry.models.filter fun model =>
      containsText (asciiLowercase model.id) filter ||
        containsText (asciiLowercase model.displayName) filter || named
    models.map (fun model => ⟨entry.id, entry.displayName, some model⟩) ++
      if entry.allowsCustomModels && (containsText "custom model" filter || named) then
        [⟨entry.id, entry.displayName, none⟩]
      else []

/-- The sessions that a filter keeps. -/
def sessionMatches (filter : String) (entries : List SessionSummary) : List SessionSummary :=
  entries.filter fun entry =>
    let model := (entry.model.map fun model => model.provider ++ " " ++ model.model).getD ""
    containsText (asciiLowercase (entry.id ++ " " ++ model)) (asciiLowercase filter)

def sessionRow (entry : SessionSummary) : String :=
  let model := (entry.model.map fun model => model.provider ++ "/" ++ model.model).getD
    "unknown model"
  entry.id ++ " · " ++ model ++ " · " ++ toString entry.messageCount ++ " messages"

/-! ### Lines -/

def usizeMax : Nat := 18446744073709551615

/-- The candidate of a row behind its marker. -/
def markedRow (selected : Nat) (candidate : String) (index : Nat) : String :=
  (if index = selected then "❯" else " ") ++ " " ++ candidate

def overlayTitle (title filter : String) (count : Nat) : String :=
  title ++ " " ++ toString count ++ " · " ++ if filter = "" then "Type to filter" else filter

/-- `overlay_lines` -/
def overlayLines (title filter : String) (candidates : List String) (selected maxRows : Nat) :
    List String :=
  let body :=
    if candidates = [] then ["  No matching models"]
    else
      let visible := min (max (maxRows - 2) 1) candidates.length
      let start := min (selected - (visible - 1)) (candidates.length - visible)
      ((candidates.drop start).take visible).zipIdx.map fun (candidate, offset) =>
        markedRow selected candidate (start + offset)
  overlayTitle title filter candidates.length :: body ++
    ["↑/↓ navigate · Enter select · Esc close"]

namespace Picker

variable (registry : ProviderRegistry)

/-- The rows of the candidates that the filter keeps. -/
def rows : Picker → List String
  | .model filter _ => (modelCandidates registry filter).map ModelCandidate.label
  | .customModel _ _ => []
  | .session filter _ entries => (sessionMatches filter entries).map sessionRow

/-- `picker_lines_visible` -/
def linesVisible (maxRows : Nat) (picker : Picker) : List String :=
  match picker with
  | .model filter selected => overlayLines "Models" filter (picker.rows registry) selected maxRows
  | .customModel provider input =>
    ["custom model for " ++ provider, "> " ++ input, "Enter selects; Esc cancels"]
  | .session filter selected _ =>
    overlayLines "Sessions" filter (picker.rows registry) selected maxRows

/-! ### Operations -/

/-- `picker_insert` -/
def insert (text : String) : Picker → Picker
  | .model filter _ => .model (filter ++ text) 0
  | .customModel provider input => .customModel provider (input ++ text)
  | .session filter _ entries => .session (filter ++ text) 0 entries

/-- `String::pop` -/
def pop (text : String) : String := String.ofList text.toList.dropLast

/-- `picker_backspace` -/
def backspace : Picker → Picker
  | .model filter _ => .model (pop filter) 0
  | .customModel provider input => .customModel provider (pop input)
  | .session filter _ entries => .session (pop filter) 0 entries

/-- `(selected + delta).rem_euclid(length)` -/
def moved (selected : Nat) (delta : Int) (length : Nat) : Nat :=
  if length = 0 then selected else (((selected : Int) + delta) % length).toNat

/-- `picker_move` -/
def move (delta : Int) (picker : Picker) : Picker :=
  match picker with
  | .model filter selected =>
    .model filter (moved selected delta (modelCandidates registry filter).length)
  | .customModel _ _ => picker
  | .session filter selected entries =>
    .session filter (moved selected delta (sessionMatches filter entries).length) entries

def selected : Picker → Nat
  | .model _ selected => selected
  | .customModel _ _ => 0
  | .session _ selected _ => selected

/-- The selection is a candidate, if there is one. -/
def Selects (picker : Picker) : Prop :=
  picker.rows registry ≠ [] → picker.selected < (picker.rows registry).length

theorem moved_lt (selected : Nat) (delta : Int) {length : Nat} (h : 0 < length) :
    moved selected delta length < length := by
  have hpos : (0 : Int) < length := by omega
  have hmod := Int.emod_lt_of_pos ((selected : Int) + delta) hpos
  have hnonneg := Int.emod_nonneg ((selected : Int) + delta) (ne_of_gt hpos)
  rw [moved, if_neg (Nat.ne_of_gt h)]
  omega

theorem selects_zero {picker : Picker} (h : picker.selected = 0) : picker.Selects registry := by
  intro hne
  rw [h]
  exact List.length_pos_iff.mpr hne

theorem selects_insert (text : String) (picker : Picker) :
    (picker.insert text).Selects registry := by
  apply selects_zero
  cases picker <;> rfl

theorem selects_backspace (picker : Picker) : picker.backspace.Selects registry := by
  apply selects_zero
  cases picker <;> rfl

theorem selects_move (delta : Int) (picker : Picker) :
    (picker.move registry delta).Selects registry := by
  intro hne
  have hpos := List.length_pos_iff.mpr hne
  cases picker with
  | model filter selected =>
    simp only [move, rows, List.length_map] at hpos ⊢
    exact moved_lt selected delta hpos
  | customModel provider input => exact hpos
  | session filter selected entries =>
    simp only [move, rows, List.length_map] at hpos ⊢
    exact moved_lt selected delta hpos

/-! ### The whole list -/

/-- As many rows as a machine can count show every candidate. -/
theorem overlayLines_usizeMax {title filter : String} {candidates : List String} {selected : Nat}
    (hcount : candidates.length < usizeMax - 2) (hne : candidates ≠ []) :
    overlayLines title filter candidates selected usizeMax =
      overlayTitle title filter candidates.length ::
        candidates.zipIdx.map (fun (candidate, index) => markedRow selected candidate index) ++
        ["↑/↓ navigate · Enter select · Esc close"] := by
  have hvisible : min (max (usizeMax - 2) 1) candidates.length = candidates.length := by
    unfold usizeMax at hcount ⊢
    omega
  unfold overlayLines
  simp only [if_neg hne, hvisible, Nat.sub_self, Nat.min_zero, List.drop_zero, List.take_length,
    Nat.zero_add]

end Picker

end Tea.Tui
