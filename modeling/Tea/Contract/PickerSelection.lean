/-
  Tea/Contract/PickerSelection.lean
  =================================
  **The selection of a picker** is a candidate, is marked, and is what Enter commits; the frame
  shows it when the rows up to it fit between the rules, and not otherwise.
-/
import Tea.App.Picking
import Tea.Contract.SwitchAtomicity
import Tea.Contract.WordWrap
import Tea.Render.SurfaceRows

namespace Tea.Contract

open Tea.App Tea.Core Tea.Render Tea.Session Tea.Tui
open Tea.App (AppError)
open Tea.Provider.Registry (ProviderRegistry)

/-! ### Edits -/

/-- A key that edits the filter or moves the selection. -/
inductive PickerEdit where
  | insert (text : String)
  | backspace
  | move (delta : Int)

def PickerEdit.apply (registry : ProviderRegistry) : PickerEdit → Picker → Picker
  | .insert text, picker => picker.insert text
  | .backspace, picker => picker.backspace
  | .move delta, picker => picker.move registry delta

/-- A picker of a list. -/
inductive ListPicker : Picker → Prop where
  | model (filter : String) (selected : Nat) : ListPicker (.model filter selected)
  | session (filter : String) (selected : Nat) (entries : List SessionSummary) :
    ListPicker (.session filter selected entries)

/-- A picker as it is opened. -/
inductive OpenedPicker : Picker → Prop where
  | model : OpenedPicker (.model "" 0)
  | session (entries : List SessionSummary) : OpenedPicker (.session "" 0 entries)

/-- The picker behind the edits. -/
def editedPicker (registry : ProviderRegistry) (picker : Picker) (edits : List PickerEdit) :
    Picker :=
  edits.foldl (fun picker edit => edit.apply registry picker) picker

/-- The edits change the picker of the state alone. -/
def editPicker (registry : ProviderRegistry) (state : AppState) (edit : PickerEdit) : AppState :=
  { state with picker := state.picker.map (edit.apply registry) }

variable (registry : ProviderRegistry)

theorem OpenedPicker.list {picker : Picker} (h : OpenedPicker picker) : ListPicker picker := by
  cases h with
  | model => exact .model _ _
  | session entries => exact .session _ _ entries

theorem OpenedPicker.selects {picker : Picker} (h : OpenedPicker picker) :
    picker.Selects registry := by
  apply Picker.selects_zero
  cases h <;> rfl

theorem PickerEdit.list {picker : Picker} (edit : PickerEdit) (h : ListPicker picker) :
    ListPicker (edit.apply registry picker) := by
  cases h with
  | model filter selected => cases edit <;> exact .model _ _
  | session filter selected entries => cases edit <;> exact .session _ _ entries

theorem PickerEdit.selects (picker : Picker) (edit : PickerEdit) :
    (edit.apply registry picker).Selects registry := by
  cases edit with
  | insert text => exact Picker.selects_insert registry text picker
  | backspace => exact Picker.selects_backspace registry picker
  | move delta => exact Picker.selects_move registry delta picker

theorem editedPicker_keeps {picker : Picker} (edits : List PickerEdit)
    (h : ListPicker picker ∧ picker.Selects registry) :
    ListPicker (editedPicker registry picker edits) ∧
      (editedPicker registry picker edits).Selects registry := by
  induction edits generalizing picker with
  | nil => exact h
  | cons edit edits ih => exact ih ⟨edit.list registry h.1, edit.selects registry picker⟩

/-- The surface of a list stays the one that it was opened on. -/
theorem foldl_editPicker {picker : Picker} (h : ListPicker picker) (state : AppState)
    (edits : List PickerEdit) :
    edits.foldl (editPicker registry) (showPicker picker state) =
      showPicker (editedPicker registry picker edits) state := by
  induction edits generalizing picker with
  | nil => rfl
  | cons edit edits ih =>
    rw [List.foldl_cons, editedPicker, List.foldl_cons]
    refine Eq.trans ?_ (ih (edit.list registry h))
    congr 1
    cases h with
    | model filter selected => cases edit <;> rfl
    | session filter selected entries => cases edit <;> rfl

/-! ### Choices -/

/-- A candidate of a picker. -/
inductive Choice where
  | model (candidate : ModelCandidate)
  | session (summary : SessionSummary)

def Choice.row : Choice → String
  | .model candidate => candidate.label
  | .session summary => sessionRow summary

/-- The candidates that the filter keeps. -/
def choices : Picker → List Choice
  | .model filter _ => (modelCandidates registry filter).map .model
  | .customModel _ _ => []
  | .session filter _ entries => (sessionMatches filter entries).map .session

theorem rows_eq (picker : Picker) :
    picker.rows registry = (choices registry picker).map Choice.row := by
  cases picker <;> simp [Picker.rows, choices, Choice.row, Function.comp_def]

/-- The lines of a list: the title, a row for each candidate, and the keys. -/
theorem linesVisible_eq {picker : Picker} (h : ListPicker picker)
    (hcount : (choices registry picker).length < usizeMax - 2)
    (hne : choices registry picker ≠ []) :
    ∃ title, picker.linesVisible registry usizeMax =
      title :: (choices registry picker).zipIdx.map
        (fun marked => markedRow picker.selected marked.1.row marked.2) ++
        ["↑/↓ navigate · Enter select · Esc close"] := by
  have hrows : (picker.rows registry).length < usizeMax - 2 := by
    rwa [rows_eq, List.length_map]
  have hrows' : picker.rows registry ≠ [] := by
    rwa [rows_eq, ne_eq, List.map_eq_nil_iff]
  have hmap : (picker.rows registry).zipIdx.map
      (fun marked => markedRow picker.selected marked.1 marked.2) =
        (choices registry picker).zipIdx.map
          (fun marked => markedRow picker.selected marked.1.row marked.2) := by
    rw [rows_eq, List.zipIdx_map, List.map_map]
    rfl
  cases h with
  | model filter selected =>
    exact ⟨_, (Picker.overlayLines_usizeMax hrows hrows').trans (by rw [← hmap]; rfl)⟩
  | session filter selected entries =>
    exact ⟨_, (Picker.overlayLines_usizeMax hrows hrows').trans (by rw [← hmap]; rfl)⟩

/-! ### Visibility -/

section

variable {registry}

theorem surfaceText_showPicker (footer : String × String) {picker : Picker} (h : ListPicker picker)
    (state : AppState) :
    surfaceText footer (showPicker picker state) registry =
      picker.linesVisible registry usizeMax := by
  cases h with
  | model filter selected => rfl
  | session filter selected entries => rfl

/-- A candidate is in the line below the candidates before it. -/
theorem linesVisible_candidate {picker : Picker} (h : ListPicker picker)
    (hcount : (choices registry picker).length < usizeMax - 2) {index : Nat} {choice : Choice}
    (hchoice : (choices registry picker)[index]? = some choice) :
    (picker.linesVisible registry usizeMax)[index + 1]? =
      some (markedRow picker.selected choice.row index) := by
  have hlt : index < (choices registry picker).length :=
    (List.getElem?_eq_some_iff.mp hchoice).1
  have hne : choices registry picker ≠ [] := List.ne_nil_of_length_pos (Nat.zero_lt_of_lt hlt)
  obtain ⟨title, htitle⟩ := linesVisible_eq registry h hcount hne
  rw [htitle, List.cons_append, List.getElem?_cons_succ,
    List.getElem?_append_left (by simpa using hlt)]
  simp [hchoice]

theorem visible_marker : visible '❯' = true := by decide

/-- The row of the marker is not blank. -/
theorem wrapLines_marked_ne_nil {width : Nat} (hwidth : 0 < width) (style : Style)
    (row : String) (selected : Nat) :
    wrapLines (markedRow selected row selected) width style ≠ [] := by
  intro hnil
  have hraw : wrapRawText (markedRow selected row selected).toList width = [] :=
    List.map_eq_nil_iff.mp hnil
  have hkept := visible_wrapRawText (markedRow selected row selected).toList hwidth
  rw [hraw, markedRow, if_pos rfl] at hkept
  simp [visible_marker] at hkept

/-- How many rows of the frame the lines up to the selected one take. -/
def rowsToSelection (picker : Picker) (registry : ProviderRegistry) (width : Nat) : Nat :=
  (((picker.linesVisible registry usizeMax).take (picker.selected + 2)).flatMap fun text =>
    wrapRawText text.toList width).length

/-- The rows of a line that are placed. -/
def placedRows (placements : List Placement) (line : Nat) : List RenderLine :=
  (placements.filter fun placement => placement.line = line).map Placement.row

theorem placedRows_eq (placements : List Placement) (line : Nat) :
    placedRows placements line =
      ((placements.map Placement.numbered).filter fun row => row.1 = line).map Prod.snd := by
  rw [placedRows, List.filter_map, List.map_map]
  rfl

/-- The rows of the marked candidate are all placed if, and only if, there is room for them. -/
theorem placedRows_marked_iff (footer : String × String) {picker : Picker} (h : ListPicker picker)
    (state : AppState) {width height : Nat} (hwidth : 0 < width) (hheight : 8 ≤ height)
    (fits : height < 65536) (hcount : (choices registry picker).length < usizeMax - 2)
    {choice : Choice} (hchoice : (choices registry picker)[picker.selected]? = some choice) :
    placedRows (surfacePlacements footer (showPicker picker state) registry width height)
        (picker.selected + 1) =
        wrapLines (markedRow picker.selected choice.row picker.selected) width
          (({} : Theme).style .text) ↔
      rowsToSelection picker registry width ≤ height - 4 := by
  have hline := linesVisible_candidate h hcount hchoice
  obtain ⟨hlt, hget⟩ := List.getElem?_eq_some_iff.mp hline
  have hsplit : picker.linesVisible registry usizeMax =
      (picker.linesVisible registry usizeMax).take (picker.selected + 1) ++
        markedRow picker.selected choice.row picker.selected ::
          (picker.linesVisible registry usizeMax).drop (picker.selected + 2) := by
    rw [← hget, List.getElem_cons_drop, List.take_append_drop]
  have hbefore : ((picker.linesVisible registry usizeMax).take (picker.selected + 1)).length =
      picker.selected + 1 := by
    rw [List.length_take]
    omega
  have hplaced : (surfacePlacements footer (showPicker picker state) registry width height).map
      Placement.numbered = (numberedRows width (({} : Theme).style .text) 0
        (picker.linesVisible registry usizeMax)).take (height - 4) := by
    have hstart : (showPicker picker state).surfaceOffset = 0 := rfl
    rw [surfacePlacements, surfaceText_showPicker footer h, hstart, Nat.zero_min,
      List.drop_zero, placeLines_eq (by omega) 0 _ (by omega), Nat.sub_sub]
  have hfilter := @filter_numberedRows width (({} : Theme).style .text)
    ((picker.linesVisible registry usizeMax).take (picker.selected + 1))
    (markedRow picker.selected choice.row picker.selected)
    ((picker.linesVisible registry usizeMax).drop (picker.selected + 2)) (height - 4)
  rw [← hsplit, hbefore, ← hplaced] at hfilter
  have hrows : rowsToSelection picker registry width =
      (((picker.linesVisible registry usizeMax).take (picker.selected + 1)).flatMap fun text =>
        wrapLines text width (({} : Theme).style .text)).length +
      (wrapLines (markedRow picker.selected choice.row picker.selected) width
        (({} : Theme).style .text)).length := by
    rw [rowsToSelection, ← List.take_append_getElem hlt, List.flatMap_append, List.length_append,
      hget]
    simp [wrapLines, List.length_flatMap]
  have hpos := List.length_pos_iff.mpr (wrapLines_marked_ne_nil hwidth
    (({} : Theme).style .text) choice.row picker.selected)
  rw [placedRows_eq, hfilter, List.map_map, hrows]
  have hid : Prod.snd ∘ (fun row : RenderLine => (picker.selected + 1, row)) = id := rfl
  rw [hid, List.map_id, List.take_eq_self_iff]
  omega

end

/-! ### Enter -/

section

variable {F Config P : Type} (host : SwitchHost F Config P) {s s' : SwitchState P}

/-- The commit of a candidate. -/
def commitChoice (s : SwitchState P) (picker : Picker) : Choice → SwitchState P
  | .model candidate => s.commitModel host picker candidate
  | .session summary => s.commitSession host picker summary

theorem commitPicker_eq {picker : Picker} (h : ListPicker picker)
    (hs : s.state.picker = some picker) :
    s.commitPicker host =
      ((choices host.registry picker)[picker.selected]?.map
        (commitChoice host s picker)).getD s := by
  rw [SwitchState.commitPicker, hs]
  cases h with
  | model filter selected => simp [choices, Picker.selected, commitChoice, Function.comp_def]
  | session filter selected entries =>
    simp [choices, Picker.selected, commitChoice, Function.comp_def]

theorem configuredProvider_descriptor {provider model : String}
    {configured : Provider.Registry.ConfiguredProvider P}
    (h : SwitchState.configuredProvider host provider model = .ok configured) :
    configured.descriptor = ⟨provider, model, none⟩ := by
  unfold SwitchState.configuredProvider at h
  cases hresolved : host.registry.resolveModel provider model with
  | error error =>
    rw [hresolved] at h
    cases h
  | ok selection =>
    have hdescriptor : selection.descriptor = ⟨provider, model, none⟩ := by
      unfold ProviderRegistry.resolveModel at hresolved
      cases hentry : host.registry.provider provider with
      | none =>
        rw [hentry] at hresolved
        cases hresolved
      | some entry =>
        simp only [hentry] at hresolved
        split_ifs at hresolved
        cases hresolved
        rfl
    cases hconfiguration : SwitchState.providerConfiguration host provider model with
    | error error =>
      rw [hresolved, hconfiguration] at h
      cases h
    | ok configuration =>
      rw [hresolved, hconfiguration] at h
      have hbuild : (host.registry.build host.adapter selection.descriptor configuration) =
          .ok configured := by
        cases hbuilt : host.registry.build host.adapter selection.descriptor configuration with
        | error error =>
          simp only [Except.mapError, bind, Except.bind, hbuilt] at h
          cases h
        | ok built =>
          simp only [Except.mapError, bind, Except.bind, hbuilt] at h
          cases h
          rfl
      rw [ProviderRegistry.build] at hbuild
      cases hagain : host.registry.resolveModel selection.descriptor.provider
          selection.descriptor.model with
      | error error =>
        rw [hagain] at hbuild
        cases hbuild
      | ok again =>
        simp only [hagain, bind, Except.bind] at hbuild
        split_ifs at hbuild
        cases hbuild
        exact hdescriptor

theorem selectedModel_showModel (s : SwitchState P) (agent : HostAgent P)
    (descriptor : ModelDescriptor) (contextWindow : Option ContextWindow) :
    (s.showModel host agent descriptor contextWindow).state.selectedModel =
      agent.world.agent.model := by
  unfold SwitchState.showModel
  dsimp only
  split_ifs
  · cases host.saveLastModel descriptor with
    | some error => rfl
    | none => rfl
  · rfl

/-- A selection that succeeds while the agent is idle shows the model that was selected. -/
theorem selectModel_selected {provider model : String} (hidle : IdleState s)
    (h : s.selectModel host provider model = (.ok (), s')) :
    s'.state.selectedModel = some ⟨provider, model, none⟩ := by
  unfold SwitchState.selectModel at h
  rw [not_active hidle, if_neg Bool.false_ne_true] at h
  split_ifs at h
  · cases h
  cases hconfigured : SwitchState.configuredProvider host provider model with
  | error error =>
    rw [hconfigured] at h
    cases h
  | ok configured =>
    have hdescriptor := configuredProvider_descriptor host hconfigured
    simp only [hconfigured, SwitchState.onAgent] at h
    cases hcore : s.core with
    | none =>
      rw [hcore] at h
      cases h
    | some agent =>
      have hactive := (hidle agent hcore).active
      simp only [hcore, HostAgent.replaceModelProvider, HostAgent.replaceAutomaticCompaction,
        hactive, Except.mapError, validatePolicy_selected] at h
      cases h
      rw [selectedModel_showModel]
      exact congrArg some hdescriptor

/-- A session that is resumed while the agent is idle is the one that was asked for. -/
theorem resumeSession_current {id : String} (hidle : IdleState s)
    (h : s.resumeSession host id = (.ok (), s')) :
    ∃ record, SwitchState.loadSession host id = .ok record ∧ s'.currentSession = some record := by
  have hrestored : ∀ (s s' : SwitchState P) record, s.restoreSession id record = (.ok (), s') →
      s'.currentSession = some record := by
    intro s s' record h
    unfold SwitchState.restoreSession at h
    rcases hthinking : s.onAgent (fun agent => agent.replaceThinkingLevel record.thinkingLevel) with
      ⟨error | _, s₁⟩
    · rw [hthinking] at h
      cases h
    · rw [hthinking] at h
      dsimp only at h
      rcases hmessages : s₁.onAgent (fun agent => agent.restoreMessages record.messages) with
        ⟨error | _, s₂⟩
      · rw [hmessages] at h
        cases h
      · rw [hmessages] at h
        dsimp only at h
        cases hcore : s₂.core with
        | none =>
          rw [hcore] at h
          cases h
        | some agent =>
          rw [hcore] at h
          cases h
          rfl
  unfold SwitchState.resumeSession at h
  rw [not_active hidle, if_neg Bool.false_ne_true] at h
  cases hloaded : SwitchState.loadSession host id with
  | error error =>
    rw [hloaded] at h
    cases h
  | ok record =>
    simp only [hloaded] at h
    refine ⟨record, rfl, ?_⟩
    cases hvalid : validateMessages record.messages with
    | error error =>
      rw [hvalid] at h
      cases h
    | ok _ =>
      simp only [hvalid] at h
      cases hmodel : record.model with
      | none =>
        rw [hmodel] at h
        exact hrestored _ _ _ h
      | some model =>
        simp only [hmodel] at h
        rcases hselected : s.selectModel host model.provider model.model with ⟨error | _, s₁⟩
        · rw [hselected] at h
          cases h
        · rw [hselected] at h
          exact hrestored _ _ _ h

/-- What Enter does with the selection of a picker. -/
structure EnterCommits (s : SwitchState P) (picker : Picker) : Prop where
  nothing : choices host.registry picker = [] → s.commitPicker host = s
  choice : ∀ choice, (choices host.registry picker)[picker.selected]? = some choice →
    s.commitPicker host = commitChoice host s picker choice
  model : ∀ candidate model s',
    (choices host.registry picker)[picker.selected]? = some (.model candidate) →
    candidate.model = some model → IdleState s →
    s.selectModel host candidate.provider model.id = (.ok (), s') →
    s.commitPicker host = s' ∧
      (s.commitPicker host).state.selectedModel = some ⟨candidate.provider, model.id, none⟩
  session : ∀ summary s',
    (choices host.registry picker)[picker.selected]? = some (.session summary) →
    IdleState s → s.resumeSession host summary.id = (.ok (), s') →
    s.commitPicker host = s' ∧
      ∃ record, SwitchState.loadSession host summary.id = .ok record ∧
        (s.commitPicker host).currentSession = some record

theorem enter_commits {picker : Picker} (h : ListPicker picker)
    (hs : s.state.picker = some picker) : EnterCommits host s picker := by
  have hcommit := commitPicker_eq host h hs
  refine ⟨?_, ?_, ?_, ?_⟩
  · intro hnone
    rw [hcommit, hnone]
    rfl
  · intro choice hchoice
    rw [hcommit, hchoice]
    rfl
  · intro candidate model s' hchoice hmodel hidle hselected
    have hs' : s.commitPicker host = s' := by
      rw [hcommit, hchoice, Option.map_some, Option.getD_some, commitChoice,
        SwitchState.commitModel, hmodel]
      dsimp only
      rw [hselected]
      rfl
    exact ⟨hs', hs' ▸ selectModel_selected host hidle hselected⟩
  · intro summary s' hchoice hidle hresumed
    have hs' : s.commitPicker host = s' := by
      rw [hcommit, hchoice, Option.map_some, Option.getD_some, commitChoice,
        SwitchState.commitSession, hresumed]
      rfl
    exact ⟨hs', hs' ▸ resumeSession_current host hidle hresumed⟩

/-! ### The selection -/

/-- What a picker of a list shows of its selection, and what Enter does with it. -/
structure SelectionShown (footer : String × String) (s : SwitchState P) (picker : Picker)
    {width height : Nat} (fits : width < 2 ^ 16 ∧ height < 2 ^ 16) : Prop where
  chosen : choices host.registry picker ≠ [] →
    picker.selected < (choices host.registry picker).length
  marked : ∀ index choice, (choices host.registry picker)[index]? = some choice →
    (surfaceText footer s.state host.registry)[index + 1]? =
      some (markedRow picker.selected choice.row index)
  visible : ∀ choice, (choices host.registry picker)[picker.selected]? = some choice →
    placedRows (surfacePlacements footer s.state host.registry width height)
        (picker.selected + 1) =
      wrapLines (markedRow picker.selected choice.row picker.selected) width
        (({} : Theme).style .text)
  drawn : ∀ placement ∈ surfacePlacements footer s.state host.registry width height,
    SameRow placement.y (renderSurface footer s.state host.registry width height fits)
      (putPlacement width (Grid.new width height fits) placement)
  enter : EnterCommits host s picker

/-- The application behind the edits of a picker that was opened. -/
def pickedState (s : SwitchState P) (picker : Picker) (edits : List PickerEdit) : SwitchState P :=
  { s with state := edits.foldl (editPicker host.registry) (showPicker picker s.state) }

/-- **The selection of a picker is marked, is shown and is what Enter commits** if, and only if,
    there is no candidate or the frame has room for the lines up to the selected one. -/
theorem selection_shown_iff (footer : String × String) (s : SwitchState P) {opened : Picker}
    (hopened : OpenedPicker opened) (edits : List PickerEdit) {width height : Nat}
    (hwidth : 0 < width) (hheight : 8 ≤ height) (fits : width < 2 ^ 16 ∧ height < 2 ^ 16)
    (hcount : (choices host.registry (editedPicker host.registry opened edits)).length <
      usizeMax - 2) :
    SelectionShown host footer (pickedState host s opened edits)
        (editedPicker host.registry opened edits) fits ↔
      choices host.registry (editedPicker host.registry opened edits) = [] ∨
        rowsToSelection (editedPicker host.registry opened edits) host.registry width ≤
          height - 4 := by
  have hpow : 2 ^ 16 = 65536 := by decide
  obtain ⟨hlist, hselects⟩ := editedPicker_keeps host.registry edits
    ⟨hopened.list, hopened.selects host.registry⟩
  have hstate : (pickedState host s opened edits).state =
      showPicker (editedPicker host.registry opened edits) s.state :=
    foldl_editPicker host.registry hopened.list s.state edits
  have hchosen : choices host.registry (editedPicker host.registry opened edits) ≠ [] →
      (editedPicker host.registry opened edits).selected <
        (choices host.registry (editedPicker host.registry opened edits)).length := by
    intro hne
    have hlt := hselects (by rwa [rows_eq, ne_eq, List.map_eq_nil_iff])
    rwa [rows_eq, List.length_map] at hlt
  constructor
  · intro hshown
    by_cases hne : choices host.registry (editedPicker host.registry opened edits) = []
    · exact .inl hne
    · have hchoice := List.getElem?_eq_getElem (hchosen hne)
      have hvisible := hshown.visible _ hchoice
      rw [hstate] at hvisible
      exact .inr ((placedRows_marked_iff footer hlist s.state hwidth hheight (by omega) hcount
        hchoice).mp hvisible)
  · intro hroom
    refine ⟨hchosen, ?_, ?_, ?_, enter_commits host hlist ?_⟩
    · intro index choice hchoice
      rw [hstate, surfaceText_showPicker footer hlist]
      exact linesVisible_candidate hlist hcount hchoice
    · intro choice hchoice
      rw [hstate]
      apply (placedRows_marked_iff footer hlist s.state hwidth hheight (by omega) hcount
        hchoice).mpr
      rcases hroom with hnone | hroom
      · rw [hnone] at hchoice
        cases hchoice
      · exact hroom
    · intro placement hmem
      exact surface_row footer _ host.registry fits hmem
    · rw [hstate]
      rfl

end

/-! ### Small frames -/

/-- A line that is not blank takes a row. -/
theorem length_le_wrapped {width : Nat} (hwidth : 0 < width) {lines : List String}
    (h : ∀ text ∈ lines, text.toList.filter visible ≠ []) :
    lines.length ≤ (lines.flatMap fun text => wrapRawText text.toList width).length := by
  induction lines with
  | nil => exact Nat.le_refl _
  | cons text lines ih =>
    have hrow : wrapRawText text.toList width ≠ [] := by
      intro hnil
      have hkept := visible_wrapRawText text.toList hwidth
      rw [hnil] at hkept
      exact h text List.mem_cons_self hkept.symm
    have hpos := List.length_pos_iff.mpr hrow
    have hle := ih fun text hmem => h text (List.mem_cons_of_mem _ hmem)
    rw [List.flatMap_cons, List.length_append, List.length_cons]
    omega

def savedSession (id : String) : SessionSummary :=
  { id, modifiedAtMs := 0, cwd := "", model := none, messageCount := 1 }

/-- Four saved sessions. -/
def fourSessions : Picker :=
  .session "" 0 [savedSession "a", savedSession "b", savedSession "c", savedSession "d"]

theorem opened_fourSessions : OpenedPicker fourSessions := .session _

/-- A frame of eight rows has room for the first of four sessions. -/
theorem first_of_four_shown :
    SelectionShown bareHost ("", "") (pickedState bareHost bareState fourSessions [])
        (editedPicker bareHost.registry fourSessions [])
        (⟨by decide, by decide⟩ : 40 < 2 ^ 16 ∧ 8 < 2 ^ 16) ↔
      choices bareHost.registry (editedPicker bareHost.registry fourSessions []) = [] ∨
        rowsToSelection (editedPicker bareHost.registry fourSessions []) bareHost.registry 40 ≤
          4 :=
  selection_shown_iff bareHost ("", "") bareState opened_fourSessions [] (by decide) (by decide)
    ⟨by decide, by decide⟩ (by decide)

/-- The lines up to the last of the four sessions. -/
def linesOfFour : List String :=
  ["Sessions 4 · Type to filter", "  a · unknown model · 1 messages",
    "  b · unknown model · 1 messages", "  c · unknown model · 1 messages",
    "❯ d · unknown model · 1 messages"]

/-- The last of four sessions is selected with one key, and a frame of eight rows leaves it out. -/
theorem last_of_four_hidden :
    ¬ SelectionShown bareHost ("", "")
      (pickedState bareHost bareState fourSessions [.move (-1)])
      (editedPicker bareHost.registry fourSessions [.move (-1)])
      (⟨by decide, by decide⟩ : 40 < 2 ^ 16 ∧ 8 < 2 ^ 16) := by
  intro hshown
  have hlist : ListPicker (editedPicker bareHost.registry fourSessions [.move (-1)]) :=
    .session _ _ _
  have hstate := foldl_editPicker bareHost.registry opened_fourSessions.list bareState.state
    [.move (-1)]
  have hchoice : (choices bareHost.registry
      (editedPicker bareHost.registry fourSessions [.move (-1)]))[(editedPicker
        bareHost.registry fourSessions [.move (-1)]).selected]? =
      some (.session (savedSession "d")) := by
    rfl
  have hvisible := hshown.visible _ hchoice
  rw [pickedState, hstate] at hvisible
  have hrows := (placedRows_marked_iff ("", "") hlist bareState.state (by decide) (by decide)
    (by decide) (by decide) hchoice).mp hvisible
  have hlines : ((editedPicker bareHost.registry fourSessions [.move (-1)]).linesVisible
      bareHost.registry usizeMax).take 5 = linesOfFour := by
    decide
  have hwidth : 0 < 40 := by decide
  have hfive : linesOfFour.length ≤
      (linesOfFour.flatMap fun text => wrapRawText text.toList 40).length :=
    length_le_wrapped hwidth (by decide)
  rw [← hlines] at hfive
  have hlength : 5 ≤ rowsToSelection (editedPicker bareHost.registry fourSessions [.move (-1)])
      bareHost.registry 40 := hfive
  omega

end Tea.Contract
