/-
  Tea/App/Extensions.lean
  =======================
  **The configuration of the host with its extensions** (`compose_tea_configuration`): the
  prompts, tools and policies of the loaded extensions in the order of their registry.
-/
import Tea.Luau.Policy
import Tea.Tools.Registry

namespace Tea.App

open Tea.Core Tea.Luau Tea.Tools

/-- `TEA_AUTHORING_PROMPT` -/
def teaAuthoringPrompt : String :=
  "\nTea extensions\n\n" ++
  "When the user asks to create or modify a Tea extension, call " ++
  "`tea_extension_handbook` before\nwriting source. " ++
  "Use `tea_extension_files` only for Tea extension files. Its writes are drafts:\n" ++
  "they cannot change the extension registry, activate a new extension, or grant authority. " ++
  "Tea\nextensions are reloaded only after a run has settled, so the current run keeps its " ++
  "original tools,\nprompt, and hooks.\n"

/-! ### Tools of the host -/

/-- A declaration of an extension, which the model sees but which has no effect. -/
structure TeaDeclaredTool (Json : Type) where
  name : String
  description : String
  schema : Json
  executionMode : ToolExecutionMode
  extension : String

def TeaDeclaredTool.fromPolicy {Json : Type} (extension : String) (tool : PolicyTool Json) :
    TeaDeclaredTool Json where
  name := tool.name
  description := tool.description
  schema := tool.schema
  executionMode := tool.executionMode
  extension := extension

/-- A registered tool: one of the host under its name, a declared one, or one of the two for
    the authors of extensions. -/
inductive HostTool (Tool Json : Type) where
  | host (name : String) (tool : Tool)
  | declared (tool : TeaDeclaredTool Json)
  | handbook
  | files (teaHome : String)

variable {W Value Json Token Tool : Type} {Future : Type → Type}

def HostTool.name : HostTool Tool Json → String
  | .host name _ => name
  | .declared tool => tool.name
  | .handbook => "tea_extension_handbook"
  | .files _ => "tea_extension_files"

/-! ### Composition -/

structure AgentConfiguration (W Json Token Tool : Type) (Future : Type → Type) where
  systemPrompt : String
  tools : ToolRegistry (HostTool Tool Json) HostTool.name
  hooks : HookSet W Token Future

structure TeaExtension (W Value Json : Type) where
  name : String
  policy : LuaPolicy W Value Json

/-- `seen`, `prompt` and the tools while the extensions are gone through. -/
structure Composition (Json Tool : Type) where
  seen : List String
  prompt : String
  tools : ToolRegistry (HostTool Tool Json) HostTool.name

def pushFragment (prompt fragment : String) : String :=
  (if prompt = "" then prompt else prompt ++ "\n") ++ fragment

/-- An error is the message of an `AppError::Setup`. -/
def declareTool (extension : String) (c : Composition Json Tool) (tool : PolicyTool Json) :
    Except String (Composition Json Tool) :=
  if tool.name ∈ c.seen then
    .error ("Tea extension " ++ debugStr extension ++ " duplicates tool " ++ debugStr tool.name)
  else .ok { c with
    seen := tool.name :: c.seen
    tools := c.tools.insert (.declared (.fromPolicy extension tool)) }

def addExtension (c : Composition Json Tool) (extension : TeaExtension W Value Json) :
    Except String (Composition Json Tool) :=
  let append := extension.policy.systemPromptAppend
  let prompt := if append = "" then c.prompt else pushFragment c.prompt append
  extension.policy.tools.foldlM (declareTool extension.name) { c with prompt := prompt }

def reserveName (seen : List String) (reserved : String) : Except String (List String) :=
  if reserved ∈ seen then
    .error ("Tea extension tool name is reserved: " ++ debugStr reserved)
  else .ok (reserved :: seen)

def composeTeaConfiguration (ready : {A : Type} → A → Future A) (mlua : Mlua Value Json)
    (configuration : AgentConfiguration W Json Token Tool Future)
    (tea : List (TeaExtension W Value Json)) (teaHome : String) :
    Except String (AgentConfiguration W Json Token Tool Future) := do
  let c ← tea.foldlM addExtension
    ⟨configuration.tools.order, configuration.systemPrompt, configuration.tools⟩
  let _ ← ["tea_extension_handbook", "tea_extension_files"].foldlM reserveName c.seen
  -- wrapping in reverse: the decision of the first extension runs first
  return {
    systemPrompt := pushFragment c.prompt (Tea.Tui.trim teaAuthoringPrompt)
    tools := (c.tools.insert .handbook).insert (.files teaHome)
    hooks := tea.reverse.foldl
      (fun hooks extension => luaPolicyHookSet ready mlua extension.policy hooks)
      configuration.hooks }

end Tea.App
