/-
  Tea/Provider/Registry.lean
  ==========================
  **The registry of providers** (`provider/registry`): the adapters that are compiled in with
  their models, the resolution of a model, and the configuration of an adapter for it.
-/
import Tea.Core.State
import Tea.Core.Text
import Tea.Tui.Commands

namespace Tea.Provider.Registry

open Tea.Core (debugStr)

/-! ### The catalog -/

/-- A model of the catalog. -/
structure ModelDescriptor where
  id : String
  displayName : String
  contextWindow : Option UInt64
deriving DecidableEq

structure ProviderEntry where
  id : String
  displayName : String
  models : List ModelDescriptor
  allowsCustomModels : Bool
deriving DecidableEq

def ProviderEntry.model (entry : ProviderEntry) (modelId : String) : Option ModelDescriptor :=
  entry.models.find? fun model => model.id = modelId

inductive RegistryError where
  | unknownProvider (provider : String)
  | emptyModel (provider : String)
  | unknownModel (provider model : String)
  | configurationProviderMismatch (expected actual : String)
  | configurationModelMismatch (expected actual : String)
deriving DecidableEq

def RegistryError.display : RegistryError → String
  | .unknownProvider provider => "unknown provider " ++ debugStr provider
  | .emptyModel provider => "model for provider " ++ debugStr provider ++ " must not be empty"
  | .unknownModel provider model => "unknown model " ++ provider ++ "/" ++ model
  | .configurationProviderMismatch expected actual =>
    "provider configuration is for " ++ actual ++ ", selected provider is " ++ expected
  | .configurationModelMismatch expected actual =>
    "provider configuration model " ++ debugStr actual ++ " does not match selected model " ++
      debugStr expected

/-- A resolved model, and whether it is outside of the catalog. -/
structure ModelSelection where
  descriptor : Core.ModelDescriptor
  custom : Bool
deriving DecidableEq

/-- What a configuration of an adapter says of itself, and the adapter made of it. -/
structure Adapter (Config P : Type) where
  family : Config → String
  model : Config → String
  provider : Config → P

structure ConfiguredProvider (P : Type) where
  descriptor : Core.ModelDescriptor
  provider : P

/-! ### Resolution -/

structure ProviderRegistry where
  entries : List ProviderEntry

namespace ProviderRegistry

variable (registry : ProviderRegistry)

def provider (providerId : String) : Option ProviderEntry :=
  registry.entries.find? fun entry => entry.id = providerId

def resolveModel (providerId modelId : String) : Except RegistryError ModelSelection :=
  match registry.provider providerId with
  | none => .error (.unknownProvider providerId)
  | some entry =>
    if Tui.isBlank modelId then .error (.emptyModel providerId)
    else
      let custom := (entry.model modelId).isNone
      if custom && !entry.allowsCustomModels then .error (.unknownModel providerId modelId)
      else .ok { descriptor := ⟨providerId, modelId, none⟩, custom }

def build {Config P : Type} (adapter : Adapter Config P) (descriptor : Core.ModelDescriptor)
    (configuration : Config) : Except RegistryError (ConfiguredProvider P) := do
  let _ ← registry.resolveModel descriptor.provider descriptor.model
  if descriptor.provider ≠ adapter.family configuration then
    .error (.configurationProviderMismatch descriptor.provider (adapter.family configuration))
  else if adapter.model configuration ≠ descriptor.model then
    .error (.configurationModelMismatch descriptor.model (adapter.model configuration))
  else .ok { descriptor, provider := adapter.provider configuration }

end ProviderRegistry

end Tea.Provider.Registry
