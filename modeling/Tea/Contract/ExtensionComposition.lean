/-
  Tea/Contract/ExtensionComposition.lean
  ======================================
  **The composition of extensions**: it succeeds exactly if no two tools have the same name,
  and then the policies are asked in the order of the registry until one does not allow a call.
-/
import Tea.App.Extensions

namespace Tea.Contract

open Tea.App Tea.Luau Tea.Tools
open Tea.Core (BeforeToolCall ContextEnvelope Effect HookError HookSet ToolCall)

variable {W Value Json Token Tool : Type} {Future : Type → Type}

/-! ### Policies in their order -/

section

variable (mlua : Mlua Value Json) (call : ToolCall)

/-- The policies allow the call, one after the other. -/
inductive Allows : List (LuaPolicy W Value Json) → W → W → Prop
  | nil {w : W} : Allows [] w w
  | cons {policy : LuaPolicy W Value Json} {policies : List (LuaPolicy W Value Json)}
      {w w' w'' : W} (first : policy.decision mlua call w = (.ok .allow, w'))
      (rest : Allows policies w' w'') : Allows (policy :: policies) w w''

/-- One policy does not allow the call, and the ones behind it are not asked; or all of them
    allow it, and the hook of the host is. -/
def FirstRefusal {A : Type} (settle : Except HookError BeforeToolCall → A) (base : Effect W A)
    (policies : List (LuaPolicy W Value Json)) (w : W) (out : A × W) : Prop :=
  (∃ before policy after w₁ result w₂, policies = before ++ policy :: after ∧
      Allows mlua call before w w₁ ∧ policy.decision mlua call w₁ = (result, w₂) ∧
      result ≠ .ok .allow ∧ out = (settle result, w₂)) ∨
    ∃ w₁, Allows mlua call policies w w₁ ∧ out = base w₁

variable {mlua call}

theorem firstRefusal_refused {A : Type} (settle : Except HookError BeforeToolCall → A)
    {base : Effect W A} {policy : LuaPolicy W Value Json}
    {policies : List (LuaPolicy W Value Json)} {w w' : W}
    {result : Except HookError BeforeToolCall} (h : policy.decision mlua call w = (result, w'))
    (hresult : result ≠ .ok .allow) :
    FirstRefusal mlua call settle base (policy :: policies) w (settle result, w') :=
  .inl ⟨[], policy, policies, w, result, w', rfl, .nil, h, hresult, rfl⟩

theorem firstRefusal_allowed {A : Type} {settle : Except HookError BeforeToolCall → A}
    {base : Effect W A} {policy : LuaPolicy W Value Json}
    {policies : List (LuaPolicy W Value Json)} {w w' : W} {out : A × W}
    (h : policy.decision mlua call w = (.ok .allow, w'))
    (hrest : FirstRefusal mlua call settle base policies w' out) :
    FirstRefusal mlua call settle base (policy :: policies) w out := by
  rcases hrest with ⟨before, other, after, w₁, result, w₂, rfl, hbefore, hother, hne, hout⟩ |
    ⟨w₁, hall, hout⟩
  · exact .inl ⟨policy :: before, other, after, w₁, result, w₂, rfl, .cons h hbefore, hother, hne,
      hout⟩
  · exact .inr ⟨w₁, .cons h hall, hout⟩

end

/-! ### Composed hooks -/

section

variable {ready : {A : Type} → A → Future A} {mlua : Mlua Value Json}

/-- The hooks of some policies before those of the host. -/
def policyHooks (ready : {A : Type} → A → Future A) (mlua : Mlua Value Json)
    (policies : List (LuaPolicy W Value Json)) (base : HookSet W Token Future) :
    HookSet W Token Future :=
  policies.foldr (luaPolicyHookSet ready mlua) base

variable {base : HookSet W Token Future} (policies : List (LuaPolicy W Value Json))

theorem beforeToolCall_policyHooks (call : ToolCall) (w : W) :
    FirstRefusal mlua call id (base.beforeToolCall call) policies w
      ((policyHooks ready mlua policies base).beforeToolCall call w) := by
  induction policies generalizing w with
  | nil => exact .inr ⟨w, .nil, rfl⟩
  | cons policy policies ih =>
    rw [policyHooks, List.foldr_cons, luaPolicyHookSet]
    dsimp only
    generalize hdecision : policy.decision mlua call w = out
    obtain ⟨result, w'⟩ := out
    cases result with
    | error error => exact firstRefusal_refused id hdecision (by simp)
    | ok decision =>
      cases decision with
      | allow => exact firstRefusal_allowed hdecision (ih w')
      | block reason => exact firstRefusal_refused id hdecision (by simp)
      | terminate reason => exact firstRefusal_refused id hdecision (by simp)

theorem beforeToolCallAsync_policyHooks (call : ToolCall) (context : ContextEnvelope)
    (cancellation : Token) (w : W) :
    FirstRefusal mlua call ready (base.beforeToolCallAsync call context cancellation) policies w
      ((policyHooks ready mlua policies base).beforeToolCallAsync call context cancellation w) := by
  induction policies generalizing w with
  | nil => exact .inr ⟨w, .nil, rfl⟩
  | cons policy policies ih =>
    rw [policyHooks, List.foldr_cons, luaPolicyHookSet]
    dsimp only
    generalize hdecision : policy.decision mlua call w = out
    obtain ⟨result, w'⟩ := out
    cases result with
    | error error => exact firstRefusal_refused ready hdecision (by simp)
    | ok decision =>
      cases decision with
      | allow => exact firstRefusal_allowed hdecision (ih w')
      | block reason => exact firstRefusal_refused ready hdecision (by simp)
      | terminate reason => exact firstRefusal_refused ready hdecision (by simp)

/-- The hooks agree but for the decisions about calls. -/
def SameOtherHooks (hooks base : HookSet W Token Future) : Prop :=
  hooks = { base with
    beforeToolCall := hooks.beforeToolCall
    beforeToolCallAsync := hooks.beforeToolCallAsync }

theorem sameOtherHooks_policyHooks :
    SameOtherHooks (policyHooks ready mlua policies base) base := by
  induction policies with
  | nil => rfl
  | cons policy policies ih =>
    unfold SameOtherHooks at ih ⊢
    rw [policyHooks, List.foldr_cons, luaPolicyHookSet]
    rw [policyHooks] at ih
    rw [ih]

end

/-! ### Names and prompts -/

/-- The tools that an extension declares. -/
def declaredBy (extension : TeaExtension W Value Json) : List (HostTool Tool Json) :=
  extension.policy.tools.map fun tool => .declared (.fromPolicy extension.name tool)

/-- The tools that the extensions declare, in the order of the registry. -/
def declaredTools (tea : List (TeaExtension W Value Json)) : List (HostTool Tool Json) :=
  tea.flatMap declaredBy

/-- The prompts that are not empty, line by line. -/
def joined (fragments : List String) : String :=
  "\n".intercalate (fragments.filter (· ≠ ""))

theorem joined_empty (fragments : List String) :
    joined fragments = "" ↔ fragments.filter (· ≠ "") = [] := by
  unfold joined
  constructor
  · intro h
    rcases hfilter : fragments.filter (· ≠ "") with _ | ⟨fragment, rest⟩
    · rfl
    · have hmem : fragment ∈ fragments.filter (· ≠ "") := by
        rw [hfilter]
        exact List.mem_cons_self
      have hne : fragment ≠ "" := by simpa using (List.mem_filter.mp hmem).2
      rw [hfilter] at h
      rcases rest with _ | ⟨other, rest⟩
      · rw [String.intercalate_singleton] at h
        exact absurd h hne
      · rw [String.intercalate_cons_cons] at h
        have hlength := congrArg String.length h
        simp at hlength
  · intro h
    rw [h, String.intercalate_nil]

theorem joined_singleton (fragment : String) : joined [fragment] = fragment := by
  by_cases h : fragment = ""
  · rw [h]
    rfl
  · simp [joined, h]

/-- A fragment behind others. -/
theorem pushFragment_joined (fragments : List String) (fragment : String) :
    pushFragment (joined fragments) fragment =
      "\n".intercalate (fragments.filter (· ≠ "") ++ [fragment]) := by
  unfold pushFragment
  by_cases h : fragments.filter (· ≠ "") = []
  · rw [if_pos ((joined_empty fragments).mpr h), (joined_empty fragments).mpr h, h, List.nil_append,
      String.intercalate_singleton, String.empty_append]
  · rw [if_neg (mt (joined_empty fragments).mp h),
      String.intercalate_append_of_ne_nil h (List.cons_ne_nil _ _), String.intercalate_singleton,
      joined]

theorem joined_snoc (fragments : List String) (append : String) :
    (if append = "" then joined fragments else pushFragment (joined fragments) append) =
      joined (fragments ++ [append]) := by
  by_cases h : append = ""
  · rw [if_pos h, h]
    simp [joined]
  · rw [if_neg h, pushFragment_joined]
    simp [joined, h]

/-! ### Going through the extensions -/

/-- `seen` has the names of the registry. -/
def Consistent (c : Composition Json Tool) : Prop :=
  ∀ name, name ∈ c.seen ↔ name ∈ c.tools.order

/-- What is there after some tools have been added. -/
structure Grown (c c' : Composition Json Tool) (fragments : List String)
    (added : List (HostTool Tool Json)) : Prop where
  consistent : Consistent c'
  order : c'.tools.order = c.tools.order ++ added.map HostTool.name
  listed : c'.tools.listed = c.tools.listed ++ added
  prompt : ∀ start, c.prompt = joined start → c'.prompt = joined (start ++ fragments)

theorem Grown.trans {c c' c'' : Composition Json Tool} {fragments fragments' : List String}
    {added added' : List (HostTool Tool Json)} (h : Grown c c' fragments added)
    (h' : Grown c' c'' fragments' added') :
    Grown c c'' (fragments ++ fragments') (added ++ added') where
  consistent := h'.consistent
  order := by rw [h'.order, h.order, List.map_append, List.append_assoc]
  listed := by rw [h'.listed, h.listed, List.append_assoc]
  prompt start hstart := by rw [h'.prompt _ (h.prompt start hstart), List.append_assoc]

theorem Grown.nil {c : Composition Json Tool} (h : Consistent c) : Grown c c [] [] where
  consistent := h
  order := (List.append_nil _).symm
  listed := (List.append_nil _).symm
  prompt start hstart := by rw [hstart, List.append_nil]

/-- Another tool is added exactly if its name is new. -/
theorem declareTool_spec {c : Composition Json Tool} (hc : Consistent c) (extension : String)
    (tool : PolicyTool Json) :
    (tool.name ∈ c.tools.order ∧ ∃ error, declareTool extension c tool = .error error) ∨
      (tool.name ∉ c.tools.order ∧ ∃ c', declareTool extension c tool = .ok c' ∧
        Grown c c' [] [.declared (.fromPolicy extension tool)]) := by
  by_cases h : tool.name ∈ c.seen
  · exact .inl ⟨(hc _).mp h, _, if_pos h⟩
  · have hnew : tool.name ∉ c.tools.order := mt (hc _).mpr h
    refine .inr ⟨hnew, _, if_neg h, ?_, ?_, ?_, ?_⟩
    · intro name
      rw [ToolRegistry.order_insert _ hnew]
      simp [hc name, HostTool.name, TeaDeclaredTool.fromPolicy, or_comm]
    · exact ToolRegistry.order_insert _ hnew
    · exact ToolRegistry.listed_insert _ hnew
    · intro start hstart
      rw [List.append_nil]
      exact hstart

/-- Tools are added exactly if their names are new and distinct. -/
theorem declareTools_spec (extension : String) (tools : List (PolicyTool Json))
    {c : Composition Json Tool} (hc : Consistent c) :
    (¬ (c.tools.order ++ tools.map PolicyTool.name).Nodup ∧
        ∃ error, tools.foldlM (declareTool extension) c = .error error) ∨
      ∃ c', tools.foldlM (declareTool extension) c = .ok c' ∧
        Grown c c' [] (tools.map fun tool => .declared (.fromPolicy extension tool)) := by
  induction tools generalizing c with
  | nil => exact .inr ⟨c, rfl, .nil hc⟩
  | cons tool tools ih =>
    rcases declareTool_spec hc extension tool with ⟨hold, error, herror⟩ | ⟨hnew, c', hok, hgrown⟩
    · left
      constructor
      · intro hnodup
        exact List.disjoint_of_nodup_append hnodup hold List.mem_cons_self
      · exact ⟨error, by rw [List.foldlM_cons, herror]; rfl⟩
    · have hstep : (tool :: tools).foldlM (declareTool extension) c =
          tools.foldlM (declareTool extension) c' := by
        rw [List.foldlM_cons, hok]
        rfl
      rcases ih hgrown.consistent with ⟨hdup, error, herror⟩ | ⟨c'', hrest, hgrown'⟩
      · left
        refine ⟨?_, error, by rw [hstep, herror]⟩
        rw [hgrown.order, List.append_assoc] at hdup
        exact hdup
      · exact .inr ⟨c'', by rw [hstep, hrest], hgrown.trans hgrown'⟩

theorem names_declaredBy (extension : TeaExtension W Value Json) :
    (declaredBy extension : List (HostTool Tool Json)).map HostTool.name =
      extension.policy.tools.map PolicyTool.name := by
  rw [declaredBy, List.map_map]
  rfl

theorem addExtension_spec {c : Composition Json Tool} (hc : Consistent c)
    (extension : TeaExtension W Value Json) :
    (¬ (c.tools.order ++ (declaredBy extension : List (HostTool Tool Json)).map
        HostTool.name).Nodup ∧ ∃ error, addExtension c extension = .error error) ∨
      ∃ c', addExtension c extension = .ok c' ∧
        Grown c c' [extension.policy.systemPromptAppend] (declaredBy extension) := by
  rw [names_declaredBy]
  unfold addExtension
  dsimp only
  generalize hprompt : (if extension.policy.systemPromptAppend = "" then c.prompt
    else pushFragment c.prompt extension.policy.systemPromptAppend) = prompt
  have hc' : Consistent { c with prompt := prompt } := hc
  rcases declareTools_spec extension.name extension.policy.tools hc' with
    hfailed | ⟨c', hok, hgrown⟩
  · exact .inl hfailed
  · refine .inr ⟨c', hok, hgrown.consistent, hgrown.order, hgrown.listed, ?_⟩
    intro start hstart
    have hfirst : prompt = joined (start ++ [extension.policy.systemPromptAppend]) := by
      rw [← hprompt, hstart, joined_snoc]
    have hlast := hgrown.prompt _ hfirst
    rwa [List.append_nil] at hlast

theorem addExtensions_spec (tea : List (TeaExtension W Value Json)) {c : Composition Json Tool}
    (hc : Consistent c) :
    (¬ (c.tools.order ++ (declaredTools tea : List (HostTool Tool Json)).map
        HostTool.name).Nodup ∧ ∃ error, tea.foldlM addExtension c = .error error) ∨
      ∃ c', tea.foldlM addExtension c = .ok c' ∧
        Grown c c' (tea.map fun extension => extension.policy.systemPromptAppend)
          (declaredTools tea) := by
  induction tea generalizing c with
  | nil => exact .inr ⟨c, rfl, .nil hc⟩
  | cons extension tea ih =>
    have hsplit : (declaredTools (extension :: tea) : List (HostTool Tool Json)) =
        declaredBy extension ++ declaredTools tea := List.flatMap_cons
    rw [hsplit, List.map_append, ← List.append_assoc]
    rcases addExtension_spec hc extension with ⟨hdup, error, herror⟩ | ⟨c', hok, hgrown⟩
    · left
      refine ⟨fun hnodup => hdup (hnodup.sublist (List.sublist_append_left _ _)), error, ?_⟩
      rw [List.foldlM_cons, herror]
      rfl
    · have hstep : (extension :: tea).foldlM addExtension c = tea.foldlM addExtension c' := by
        rw [List.foldlM_cons, hok]
        rfl
      rcases ih hgrown.consistent with ⟨hdup, error, herror⟩ | ⟨c'', hrest, hgrown'⟩
      · left
        rw [hgrown.order] at hdup
        exact ⟨hdup, error, by rw [hstep, herror]⟩
      · exact .inr ⟨c'', by rw [hstep, hrest], hgrown.trans hgrown'⟩

/-! ### The composed configuration -/

/-- The tools behind those of the extensions. -/
def teaTools (teaHome : String) : List (HostTool Tool Json) := [.handbook, .files teaHome]

/-- All tools in the order in which they are registered. -/
def toolsOf (configuration : AgentConfiguration W Json Token Tool Future)
    (tea : List (TeaExtension W Value Json)) (teaHome : String) : List (HostTool Tool Json) :=
  configuration.tools.listed ++ declaredTools tea ++ teaTools teaHome

structure Composed (ready : {A : Type} → A → Future A) (mlua : Mlua Value Json)
    (base : AgentConfiguration W Json Token Tool Future) (tea : List (TeaExtension W Value Json))
    (teaHome : String) (composed : AgentConfiguration W Json Token Tool Future) : Prop where
  tools : composed.tools.listed = toolsOf base tea teaHome
  names : composed.tools.order = (toolsOf base tea teaHome).map HostTool.name
  prompt : composed.systemPrompt = "\n".intercalate
    ((base.systemPrompt :: tea.map fun extension => extension.policy.systemPromptAppend).filter
      (· ≠ "") ++ [Tea.Tui.trim teaAuthoringPrompt])
  before : ∀ call w, FirstRefusal mlua call id (base.hooks.beforeToolCall call)
    (tea.map TeaExtension.policy) w (composed.hooks.beforeToolCall call w)
  beforeAsync : ∀ call context cancellation w,
    FirstRefusal mlua call ready (base.hooks.beforeToolCallAsync call context cancellation)
      (tea.map TeaExtension.policy) w
      (composed.hooks.beforeToolCallAsync call context cancellation w)
  otherHooks : SameOtherHooks composed.hooks base.hooks

theorem reserveNames_spec (seen : List String) :
    (("tea_extension_handbook" ∈ seen ∨ "tea_extension_files" ∈ seen) ∧ ∃ error,
      ["tea_extension_handbook", "tea_extension_files"].foldlM reserveName seen = .error error) ∨
    ("tea_extension_handbook" ∉ seen ∧ "tea_extension_files" ∉ seen) ∧ ∃ seen',
      ["tea_extension_handbook", "tea_extension_files"].foldlM reserveName seen = .ok seen' := by
  have hne : "tea_extension_files" ≠ "tea_extension_handbook" := by decide
  rw [List.foldlM_cons]
  by_cases hhandbook : "tea_extension_handbook" ∈ seen
  · left
    rw [reserveName, if_pos hhandbook]
    exact ⟨.inl hhandbook, _, rfl⟩
  · rw [reserveName, if_neg hhandbook]
    by_cases hfiles : "tea_extension_files" ∈ seen
    · left
      refine ⟨.inr hfiles, ?_⟩
      have hmem : "tea_extension_files" ∈ "tea_extension_handbook" :: seen :=
        List.mem_cons_of_mem _ hfiles
      change ∃ error, (["tea_extension_files"].foldlM reserveName
        ("tea_extension_handbook" :: seen)) = .error error
      rw [List.foldlM_cons, reserveName, if_pos hmem]
      exact ⟨_, rfl⟩
    · right
      refine ⟨⟨hhandbook, hfiles⟩, ?_⟩
      have hmem : "tea_extension_files" ∉ "tea_extension_handbook" :: seen := by
        simp [hne, hfiles]
      change ∃ seen', (["tea_extension_files"].foldlM reserveName
        ("tea_extension_handbook" :: seen)) = .ok seen'
      rw [List.foldlM_cons, reserveName, if_neg hmem]
      exact ⟨_, rfl⟩

theorem hooks_composed (ready : {A : Type} → A → Future A) (mlua : Mlua Value Json)
    (tea : List (TeaExtension W Value Json)) (base : HookSet W Token Future) :
    tea.reverse.foldl (fun hooks extension => luaPolicyHookSet ready mlua extension.policy hooks)
      base = policyHooks ready mlua (tea.map TeaExtension.policy) base := by
  rw [List.foldl_reverse, policyHooks, List.foldr_map]

/-- **The composition of extensions.**  It succeeds exactly if the names of all tools are
    distinct; the tools and the prompts are in the order of the registry, and so are the
    policies, each of which is asked only if the ones before it allow the call. -/
theorem extensions_composed (ready : {A : Type} → A → Future A) (mlua : Mlua Value Json)
    (base : AgentConfiguration W Json Token Tool Future) (tea : List (TeaExtension W Value Json))
    (teaHome : String) :
    ((∃ composed, composeTeaConfiguration ready mlua base tea teaHome = .ok composed) ↔
      ((toolsOf base tea teaHome).map HostTool.name).Nodup) ∧
    ∀ composed, composeTeaConfiguration ready mlua base tea teaHome = .ok composed →
      Composed ready mlua base tea teaHome composed := by
  have hnames : (toolsOf base tea teaHome).map HostTool.name = base.tools.order ++
      (declaredTools tea : List (HostTool Tool Json)).map HostTool.name ++
      ["tea_extension_handbook", "tea_extension_files"] := by
    rw [toolsOf, List.map_append, List.map_append, ToolRegistry.map_listed]
    rfl
  have hc : Consistent (⟨base.tools.order, base.systemPrompt, base.tools⟩ :
      Composition Json Tool) := fun _ => Iff.rfl
  rcases addExtensions_spec tea hc with ⟨hdup, error, herror⟩ | ⟨c, hok, hgrown⟩
  · have hfailed : composeTeaConfiguration ready mlua base tea teaHome = .error error := by
      rw [composeTeaConfiguration, herror]
      rfl
    rw [hfailed, hnames]
    refine ⟨⟨?_, fun hnodup => ?_⟩, ?_⟩
    · rintro ⟨composed, h⟩
      cases h
    · exact absurd (hnodup.sublist (List.sublist_append_left _ _)) hdup
    · intro composed h
      cases h
  · have horder : c.tools.order = base.tools.order ++
        (declaredTools tea : List (HostTool Tool Json)).map HostTool.name := hgrown.order
    rcases reserveNames_spec c.seen with ⟨htaken, error, herror⟩ | ⟨hfree, seen, hreserved⟩
    · have hfailed : composeTeaConfiguration ready mlua base tea teaHome = .error error := by
        rw [composeTeaConfiguration, hok]
        change (do
          let _ ← ["tea_extension_handbook", "tea_extension_files"].foldlM reserveName c.seen
          _) = _
        rw [herror]
        rfl
      rw [hfailed, hnames, ← horder]
      refine ⟨⟨?_, fun hnodup => ?_⟩, ?_⟩
      · rintro ⟨composed, h⟩
        cases h
      · have hdisjoint := List.disjoint_of_nodup_append hnodup
        rcases htaken with htaken | htaken
        · exact (hdisjoint ((hgrown.consistent _).mp htaken) (by simp)).elim
        · exact (hdisjoint ((hgrown.consistent _).mp htaken) (by simp)).elim
      · intro composed h
        cases h
    · have hhandbook : (HostTool.handbook : HostTool Tool Json).name ∉ c.tools.order :=
        mt (hgrown.consistent _).mpr hfree.1
      have hfiles : (HostTool.files teaHome : HostTool Tool Json).name ∉
          (c.tools.insert .handbook).order := by
        rw [ToolRegistry.order_insert _ hhandbook]
        have hold := mt (hgrown.consistent _).mpr hfree.2
        simp [HostTool.name, hold]
      have hmade : composeTeaConfiguration ready mlua base tea teaHome = .ok {
          systemPrompt := pushFragment c.prompt (Tea.Tui.trim teaAuthoringPrompt)
          tools := (c.tools.insert .handbook).insert (.files teaHome)
          hooks := policyHooks ready mlua (tea.map TeaExtension.policy) base.hooks } := by
        rw [composeTeaConfiguration, hok, ← hooks_composed]
        change (do
          let _ ← ["tea_extension_handbook", "tea_extension_files"].foldlM reserveName c.seen
          _) = _
        rw [hreserved]
        rfl
      have hlisted : ((c.tools.insert .handbook).insert (.files teaHome)).listed =
          toolsOf base tea teaHome := by
        rw [ToolRegistry.listed_insert _ hfiles, ToolRegistry.listed_insert _ hhandbook,
          hgrown.listed, List.append_assoc]
        rfl
      have horder' : ((c.tools.insert .handbook).insert (.files teaHome)).order =
          (toolsOf base tea teaHome).map HostTool.name := by
        rw [← hlisted, ToolRegistry.map_listed]
      rw [hmade]
      refine ⟨⟨fun _ => ?_, fun _ => ⟨_, rfl⟩⟩, ?_⟩
      · rw [← horder']
        exact ToolRegistry.distinct _
      · intro composed h
        cases h
        refine ⟨hlisted, horder', ?_, beforeToolCall_policyHooks _, ?_,
          sameOtherHooks_policyHooks _⟩
        · rw [hgrown.prompt [base.systemPrompt] (joined_singleton _).symm, pushFragment_joined]
          rfl
        · exact beforeToolCallAsync_policyHooks _

end Tea.Contract
