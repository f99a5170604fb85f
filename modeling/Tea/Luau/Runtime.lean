/-
  Tea/Luau/Runtime.lean
  =====================
  **Loading the modules of a bundle** (`tea-luau/bundle_runtime.rs`).  The Luau VM is a
  parameter: a script is a strategy that requires modules, sees what each `require` returns
  or raises, and ends with a value or a failure.  The registry key of a cached module stands
  for the value that is kept under it.
-/
import Tea.Luau.Bundle

namespace Tea.Luau

open Tea.Encoding

inductive RuntimeError where
  | bundleMismatch
  | virtualModuleDenied (request : List Char)
  | absoluteImport (request : List Char)
  | nonRelativeImport (request : List Char)
  | noRequesterContext (request : List Char)
  | resolve (error : ResolveError)
  | moduleNotFound (path : ModulePath)
  | cycle (path : ModulePath)
  | lua (path : ModulePath) (message : List Char)
  | registry (message : List Char)

/-- What a script raises: an error of the loader that it lets through, or one of its own. -/
inductive Failure where
  | bundle (error : RuntimeError)
  | lua (message : List Char)

/-- A script between two calls of `require`: the world is what else the VM holds. -/
inductive Strategy (σ V : Type) where
  | finish (result : Except Failure V) (world : σ)
  | require (request : List Char) (world : σ) (next : Except RuntimeError V → σ → Strategy σ V)

/-- The VM: `lua.load(source).set_name(path).eval()` and `create_registry_value`. -/
structure Lua (σ V : Type) where
  eval : ModulePath → List Char → σ → Strategy σ V
  createRegistryValue : V → σ → Except (List Char) σ

/-- What happens in a VM. -/
inductive Event (V : Type) where
  /-- The source of a module is about to be evaluated. -/
  | began (path : ModulePath)
  /-- Its evaluation has returned a value, or failed. -/
  | ended (path : ModulePath) (value : Option V)
  /-- A module that was asked for has been handed over, or refused. -/
  | answered (path : ModulePath) (answer : Except RuntimeError V)

/-- A runtime; its identity is the address of its bundle. -/
structure BundleRuntime where
  identity : Nat
  bundle : Bundle

/-- The state of the runtime that is installed in a VM. -/
structure RuntimeState (V : Type) where
  runtime : BundleRuntime
  cache : List (ModulePath × V)
  loading : List ModulePath

/-- A VM with an installed runtime, and what has happened in it. -/
structure Vm (σ V : Type) where
  state : RuntimeState V
  world : σ
  log : List (Event V)

variable {σ V : Type}

/-! ### The state -/

/-- `cache.get` -/
def RuntimeState.cached (state : RuntimeState V) (path : ModulePath) : Option V :=
  (state.cache.find? (·.1 = path)).map (·.2)

/-- `finish_loading` -/
def finishLoading (loading : List ModulePath) (path : ModulePath) : List ModulePath :=
  if loading.getLast? = some path then loading.dropLast
  else (loading.reverse.erase path).reverse

/-- The first part of `load_module`: an answer at once, or the source to be evaluated. -/
def RuntimeState.preload (state : RuntimeState V) (path : ModulePath) :
    Except (Except RuntimeError V) (List Char) :=
  match state.cached path with
  | some value => .error (.ok value)
  | none =>
    if path ∈ state.loading then .error (.error (.cycle path))
    else
      match state.runtime.bundle.modules.get path with
      | some source => .ok source
      | none => .error (.error (.moduleNotFound path))

/-- `guard.loading.push(path)` -/
def Vm.began (vm : Vm σ V) (path : ModulePath) : Vm σ V where
  state := { vm.state with loading := vm.state.loading ++ [path] }
  world := vm.world
  log := vm.log ++ [.began path]

/-- An evaluation is over: the path is taken off the stack. -/
def Vm.ended (vm : Vm σ V) (path : ModulePath) (value : Option V) : Vm σ V where
  state := { vm.state with loading := finishLoading vm.state.loading path }
  world := vm.world
  log := vm.log ++ [.ended path value]

/-- `guard.cache.insert(path, key)` -/
def Vm.cacheInsert (vm : Vm σ V) (path : ModulePath) (value : V) (world : σ) : Vm σ V where
  state := { vm.state with cache := (path, value) :: vm.state.cache.filter (·.1 ≠ path) }
  world := world
  log := vm.log

def Vm.answered (vm : Vm σ V) (path : ModulePath) (answer : Except RuntimeError V) : Vm σ V where
  state := vm.state
  world := vm.world
  log := vm.log ++ [.answered path answer]

/-- What the loader makes of a failed evaluation. -/
def Failure.ofModule (path : ModulePath) : Failure → RuntimeError
  | .bundle error => error
  | .lua message => .lua path message

/-- The last part of `load_module`. -/
def conclude (lua : Lua σ V) (path : ModulePath) (evaluation : Except Failure V)
    (vm : Vm σ V) : Except RuntimeError V × Vm σ V :=
  match evaluation with
  | .ok value =>
    match lua.createRegistryValue value vm.world with
    | .ok world => (.ok value, (vm.ended path (some value)).cacheInsert path value world)
    | .error message => (.error (.registry message), vm.ended path (some value))
  | .error failure => (.error (failure.ofModule path), vm.ended path none)

/-! ### Scripts -/

/-- `load_required`, with the loader of modules as an argument. -/
def loadRequired
    (load : ModulePath → Vm σ V → Option (Except RuntimeError V × Vm σ V))
    (request : List Char) (vm : Vm σ V) : Option (Except RuntimeError V × Vm σ V) :=
  if request.head? = some '@' then some (.error (.virtualModuleDenied request), vm)
  else if request.head? = some '/' ∨ request.head? = some '\\' ∨
      (encodeUtf8 request)[1]? = some 58 then
    some (.error (.absoluteImport request), vm)
  else if isRelative request = false then some (.error (.nonRelativeImport request), vm)
  else
    match vm.state.loading.getLast? with
    | none => some (.error (.noRequesterContext request), vm)
    | some requester =>
      match vm.state.runtime.bundle.resolveRelative requester request with
      | .error error => some (.error (.resolve error), vm)
      | .ok resolved =>
        (load resolved.path vm).map fun loaded =>
          (loaded.1, loaded.2.answered resolved.path loaded.1)

/-- A script runs to its end. -/
def runStrategy
    (load : ModulePath → Vm σ V → Option (Except RuntimeError V × Vm σ V)) :
    Strategy σ V → Vm σ V → Option (Except Failure V × Vm σ V)
  | .finish result world, vm => some (result, { vm with world })
  | .require request world next, vm =>
    (loadRequired load request { vm with world }).bind fun answer =>
      runStrategy load (next answer.1 answer.2.world) answer.2

/-- `load_module`; `none` where evaluations would be nested more deeply than `depth`. -/
def loadModule (lua : Lua σ V) :
    Nat → ModulePath → Vm σ V → Option (Except RuntimeError V × Vm σ V)
  | 0, path, vm =>
    match vm.state.preload path with
    | .error answer => some (answer, vm)
    | .ok _ => none
  | depth + 1, path, vm =>
    match vm.state.preload path with
    | .error answer => some (answer, vm)
    | .ok source =>
      (runStrategy (loadModule lua depth) (lua.eval path source vm.world) (vm.began path)).map
        fun evaluated => conclude lua path evaluated.1 evaluated.2

/-! ### The host -/

/-- `eval_entrypoint` -/
def evalEntrypoint (lua : Lua σ V) (depth : Nat) (runtime : BundleRuntime) (vm : Vm σ V) :
    Option (Except RuntimeError V × Vm σ V) :=
  if vm.state.runtime.identity ≠ runtime.identity then some (.error .bundleMismatch, vm)
  else
    let path := runtime.bundle.manifest.entrypoint
    (loadModule lua depth path vm).map fun loaded => (loaded.1, loaded.2.answered path loaded.1)

/-- What the host does with a VM: it evaluates an entrypoint, or calls into a script. -/
inductive HostStep (σ V : Type) where
  | evalEntrypoint (runtime : BundleRuntime)
  | call (script : σ → Strategy σ V)

def hostStep (lua : Lua σ V) (depth : Nat) (vm : Vm σ V) : HostStep σ V → Option (Vm σ V)
  | .evalEntrypoint runtime => (evalEntrypoint lua depth runtime vm).map (·.2)
  | .call script => (runStrategy (loadModule lua depth) (script vm.world) vm).map (·.2)

def hostSteps (lua : Lua σ V) (depth : Nat) : List (HostStep σ V) → Vm σ V → Option (Vm σ V)
  | [], vm => some vm
  | step :: steps, vm => (hostStep lua depth vm step).bind (hostSteps lua depth steps)

/-- `install` -/
def BundleRuntime.install (runtime : BundleRuntime) (world : σ) : Vm σ V where
  state := { runtime, cache := [], loading := [] }
  world := world
  log := []

end Tea.Luau
