/-
  Tea/Contract/LoaderDiscipline.lean
  ==================================
  **The loader of a VM.**  Whatever the scripts of a bundle require and catch, a module is
  evaluated successfully at most once, a cycle is refused, evaluations are nested no more
  deeply than there are modules, and the stack is empty when the host has its VM back.
-/
import Tea.Luau.Runtime

namespace Tea.Contract

open Tea.Luau

variable {σ V : Type}

/-! ### Logs -/

/-- The modules that are being evaluated behind an event. -/
def evaluatingAfter : List ModulePath → Event V → List ModulePath
  | stack, .began path => stack ++ [path]
  | stack, .ended path _ => stack.erase path
  | stack, .answered _ _ => stack

/-- The modules whose evaluation has begun and not ended. -/
def evaluating (log : List (Event V)) : List ModulePath := log.foldl evaluatingAfter []

/-- No event evaluates a module successfully that an earlier one has evaluated so. -/
def SuccessOnce (first second : Event V) : Prop :=
  ∀ path value value', first = .ended path (some value) → second ≠ .ended path (some value')

/-- What the loader promises when the host has its VM back. -/
structure Disciplined (bundle : Bundle) (vm : Vm σ V) : Prop where
  once : vm.log.Pairwise SuccessOnce
  cached : ∀ before path answer after value, vm.log = before ++ .answered path answer :: after →
    .ended path (some value) ∈ before → answer = .ok value
  cyclic : ∀ before path answer after, vm.log = before ++ .answered path answer :: after →
    path ∈ evaluating before → answer = .error (.cycle path)
  nested : ∀ before, before <+: vm.log →
    (evaluating before).length ≤ bundle.modules.entries.length
  idle : vm.state.loading = []
  settled : ∀ path value,
    vm.state.cached path = some value ↔ .ended path (some value) ∈ vm.log

/-- An event keeps to what has happened before. -/
def Proper (bundle : Bundle) (before : List (Event V)) : Event V → Prop
  | .began _ => (evaluating before).length < bundle.modules.entries.length
  | .ended path _ => ∀ value, .ended path (some value) ∉ before
  | .answered path answer => (path ∈ evaluating before → answer = .error (.cycle path)) ∧
      ∀ value, .ended path (some value) ∈ before → answer = .ok value

/-- Every event of the log is proper. -/
def ProperLog (bundle : Bundle) (log : List (Event V)) : Prop :=
  ∀ before event after, log = before ++ event :: after → Proper bundle before event

theorem evaluating_snoc (log : List (Event V)) (event : Event V) :
    evaluating (log ++ [event]) = evaluatingAfter (evaluating log) event := by
  rw [evaluating, List.foldl_append]
  rfl

theorem properLog_nil (bundle : Bundle) : ProperLog bundle ([] : List (Event V)) := by
  intro before event after h
  simp at h

theorem ProperLog.snoc {bundle : Bundle} {log : List (Event V)} {event : Event V}
    (h : ProperLog bundle log) (hevent : Proper bundle log event) :
    ProperLog bundle (log ++ [event]) := by
  intro before other after hsplit
  rcases List.eq_nil_or_concat after with rfl | ⟨after, last, rfl⟩
  · obtain ⟨rfl, hlast⟩ := List.append_inj' hsplit rfl
    cases hlast
    exact hevent
  · rw [List.concat_eq_append, ← List.cons_append, ← List.append_assoc] at hsplit
    exact h before other after (List.append_inj' hsplit rfl).1

theorem ProperLog.init {bundle : Bundle} {log : List (Event V)} {event : Event V}
    (h : ProperLog bundle (log ++ [event])) : ProperLog bundle log ∧ Proper bundle log event := by
  constructor
  · rintro before other after rfl
    exact h before other (after ++ [event]) (by simp)
  · exact h log event [] rfl

theorem ProperLog.once {bundle : Bundle} {log : List (Event V)} (h : ProperLog bundle log) :
    log.Pairwise SuccessOnce := by
  induction log using List.reverseRecOn with
  | nil => exact List.Pairwise.nil
  | append_singleton log event ih =>
    obtain ⟨hlog, hevent⟩ := h.init
    refine List.pairwise_append.mpr ⟨ih hlog, List.pairwise_singleton _ _, ?_⟩
    intro first hfirst second hsecond path value value' hvalue hvalue'
    rw [List.mem_singleton] at hsecond
    subst hsecond hvalue hvalue'
    exact hevent value hfirst

theorem ProperLog.nested {bundle : Bundle} {log : List (Event V)} (h : ProperLog bundle log) :
    (evaluating log).length ≤ bundle.modules.entries.length := by
  induction log using List.reverseRecOn with
  | nil => exact Nat.zero_le _
  | append_singleton log event ih =>
    obtain ⟨hlog, hevent⟩ := h.init
    have hle := ih hlog
    rw [evaluating_snoc]
    cases event with
    | began path =>
      rw [evaluatingAfter, List.length_append, List.length_singleton]
      exact hevent
    | ended path value => exact (List.length_erase_le ..).trans hle
    | answered path answer => exact hle

theorem ProperLog.of_prefix {bundle : Bundle} {before log : List (Event V)}
    (h : ProperLog bundle log) (hbefore : before <+: log) : ProperLog bundle before := by
  obtain ⟨rest, rfl⟩ := hbefore
  rintro first event after rfl
  exact h first event (after ++ rest) (by simp)

/-! ### The state -/

/-- What holds of the state between two steps of any script. -/
structure LoaderKept (runtime : BundleRuntime) (state : RuntimeState V) (log : List (Event V)) :
    Prop where
  same : state.runtime = runtime
  nodup : state.loading.Nodup
  inside : ∀ path ∈ state.loading, runtime.bundle.modules.containsKey path = true
  stack : evaluating log = state.loading
  settled : ∀ path value, state.cached path = some value ↔ .ended path (some value) ∈ log
  fresh : ∀ path ∈ state.loading, state.cached path = none
  proper : ProperLog runtime.bundle log

theorem containsKey_mem {modules : ModuleMap} {path : ModulePath}
    (h : modules.containsKey path = true) : path ∈ modules.entries.map (·.1) := by
  obtain ⟨source, hsource⟩ := Option.isSome_iff_exists.mp h
  exact List.mem_map_of_mem (f := (·.1)) (ModuleMap.get_eq_some_iff.mp hsource)

/-- Different modules are no more than there are. -/
theorem length_le_modules {modules : ModuleMap} {paths : List ModulePath} (hnodup : paths.Nodup)
    (h : ∀ path ∈ paths, modules.containsKey path = true) :
    paths.length ≤ modules.entries.length := by
  have hsubset : paths ⊆ modules.entries.map (·.1) := fun path hpath =>
    containsKey_mem (h path hpath)
  have hle := (List.subperm_of_subset hnodup hsubset).length_le
  rwa [List.length_map] at hle

@[simp] theorem finishLoading_append (loading : List ModulePath) (path : ModulePath) :
    finishLoading (loading ++ [path]) path = loading := by
  rw [finishLoading, List.getLast?_concat, if_pos rfl, List.dropLast_concat]

theorem cached_cacheInsert (vm : Vm σ V) (path other : ModulePath) (value : V) (world : σ) :
    (vm.cacheInsert path value world).state.cached other =
      if other = path then some value else vm.state.cached other := by
  simp only [Vm.cacheInsert, RuntimeState.cached]
  by_cases h : other = path
  · rw [if_pos h, List.find?_cons_of_pos (by simpa using h.symm)]
    rfl
  · rw [if_neg h, List.find?_cons_of_neg (by simpa using Ne.symm h), List.find?_filter]
    congr 2
    funext entry
    by_cases hentry : entry.1 = other
    · simp [hentry, h]
    · simp [hentry]

/-! ### Loading a module -/

/-- The loader of modules serves scripts at this depth. -/
def Serves (runtime : BundleRuntime)
    (load : ModulePath → Vm σ V → Option (Except RuntimeError V × Vm σ V)) (depth : Nat) : Prop :=
  ∀ path vm, LoaderKept runtime vm.state vm.log →
    runtime.bundle.modules.entries.length ≤ vm.state.loading.length + depth →
    ∃ answer vm', load path vm = some (answer, vm') ∧ LoaderKept runtime vm'.state vm'.log ∧
      vm'.state.loading = vm.state.loading ∧
      Proper runtime.bundle vm'.log (.answered path answer)

/-- An answer without an evaluation is proper. -/
theorem proper_of_preload {runtime : BundleRuntime} {state : RuntimeState V}
    {log : List (Event V)} {path : ModulePath} {answer : Except RuntimeError V}
    (h : LoaderKept runtime state log) (hpreload : state.preload path = .error answer) :
    Proper runtime.bundle log (.answered path answer) := by
  rw [RuntimeState.preload] at hpreload
  rw [Proper, h.stack]
  simp only [← h.settled]
  cases hcached : state.cached path with
  | some value =>
    rw [hcached] at hpreload
    cases hpreload
    constructor
    · intro hloading
      rw [h.fresh path hloading] at hcached
      cases hcached
    · intro other hother
      cases hother
      rfl
  | none =>
    rw [hcached] at hpreload
    simp only at hpreload
    refine ⟨?_, fun value hvalue => by cases hvalue⟩
    intro hloading
    rw [if_pos hloading] at hpreload
    cases hpreload
    rfl

theorem preload_ok {runtime : BundleRuntime} {state : RuntimeState V} {log : List (Event V)}
    {path : ModulePath} {source : List Char} (h : LoaderKept runtime state log)
    (hpreload : state.preload path = .ok source) :
    state.cached path = none ∧ path ∉ state.loading ∧
      runtime.bundle.modules.containsKey path = true := by
  rw [RuntimeState.preload] at hpreload
  cases hcached : state.cached path with
  | some value =>
    rw [hcached] at hpreload
    cases hpreload
  | none =>
    rw [hcached] at hpreload
    simp only at hpreload
    split at hpreload
    · cases hpreload
    next hloading =>
      refine ⟨rfl, hloading, ?_⟩
      rw [← h.same, ModuleMap.containsKey]
      split at hpreload
      next hget => rw [hget]; rfl
      next => cases hpreload

theorem LoaderKept.began {runtime : BundleRuntime} {vm : Vm σ V} {path : ModulePath}
    (h : LoaderKept runtime vm.state vm.log) (hcached : vm.state.cached path = none)
    (hloading : path ∉ vm.state.loading)
    (hmodule : runtime.bundle.modules.containsKey path = true) :
    LoaderKept runtime (vm.began path).state (vm.began path).log := by
  have hnodup : (vm.state.loading ++ [path]).Nodup :=
    List.nodup_append.mpr ⟨h.nodup, List.nodup_singleton _, by
      rintro other hother last hlast rfl
      rw [List.mem_singleton.mp hlast] at hother
      exact hloading hother⟩
  have hinside : ∀ other ∈ vm.state.loading ++ [path],
      runtime.bundle.modules.containsKey other = true := by
    intro other hother
    rcases List.mem_append.mp hother with hother | hother
    · exact h.inside other hother
    · rwa [List.mem_singleton.mp hother]
  refine ⟨h.same, hnodup, hinside, ?_, ?_, ?_, h.proper.snoc ?_⟩
  · simp only [Vm.began]
    rw [evaluating_snoc, evaluatingAfter, h.stack]
  · intro other value
    refine (h.settled other value).trans ?_
    simp [Vm.began]
  · intro other hother
    rcases List.mem_append.mp hother with hother | hother
    · exact h.fresh other hother
    · rw [List.mem_singleton.mp hother]
      exact hcached
  · have hle := length_le_modules hnodup hinside
    rw [List.length_append, List.length_singleton] at hle
    rw [Proper, h.stack]
    exact hle

/-- Behind an evaluation of the module on top of the stack, without its cache entry. -/
theorem ended_state {runtime : BundleRuntime} {vm : Vm σ V} {path : ModulePath}
    {loading : List ModulePath} (value : Option V) (h : LoaderKept runtime vm.state vm.log)
    (htop : vm.state.loading = loading ++ [path]) :
    (vm.ended path value).state.loading = loading ∧ path ∉ loading ∧
      vm.state.cached path = none ∧ evaluating (vm.ended path value).log = loading ∧
      ProperLog runtime.bundle (vm.ended path value).log := by
  have hnodup := h.nodup
  rw [htop] at hnodup
  have hnot : path ∉ loading := fun hpath =>
    (List.nodup_append.mp hnodup).2.2 path hpath path (List.mem_singleton_self _) rfl
  have hcached := h.fresh path (by rw [htop]; simp)
  refine ⟨?_, hnot, hcached, ?_, h.proper.snoc ?_⟩
  · simp only [Vm.ended, htop, finishLoading_append]
  · simp only [Vm.ended]
    rw [evaluating_snoc, evaluatingAfter, h.stack, htop, List.erase_append_right _ hnot]
    simp
  · intro other hother
    rw [← h.settled, hcached] at hother
    cases hother

/-- A value can be kept in the registry. -/
def KeepsValues (lua : Lua σ V) : Prop :=
  ∀ value world, ∃ kept, lua.createRegistryValue value world = .ok kept

/-- Behind an evaluation that has come to an end the loader goes on as before it. -/
theorem LoaderKept.ended {runtime : BundleRuntime} {vm : Vm σ V} {path : ModulePath}
    {loading : List ModulePath} {value : Option V} (h : LoaderKept runtime vm.state vm.log)
    (state : RuntimeState V) (htop : vm.state.loading = loading ++ [path])
    (hsame : state.runtime = vm.state.runtime) (hloading : state.loading = loading)
    (hcached : ∀ other, state.cached other = if other = path then value else
      vm.state.cached other) :
    LoaderKept runtime state (vm.ended path value).log := by
  obtain ⟨-, hnot, hnone, hstack, hproper⟩ := ended_state value h htop
  have hnodup := h.nodup
  rw [htop] at hnodup
  have hsub : ∀ other ∈ loading, other ∈ vm.state.loading := by
    intro other hother
    rw [htop]
    exact List.mem_append_left _ hother
  refine ⟨hsame.trans h.same, ?_, ?_, hstack.trans hloading.symm, ?_, ?_, hproper⟩
  · rw [hloading]
    exact (List.nodup_append.mp hnodup).1
  · rw [hloading]
    exact fun other hother => h.inside other (hsub other hother)
  · intro other value'
    simp only [hcached, Vm.ended, List.mem_append, List.mem_singleton, Event.ended.injEq]
    rw [← h.settled]
    split
    next hother => simp [hother, hnone, eq_comm]
    next hother => simp [hother]
  · rw [hloading]
    intro other hother
    rw [hcached, if_neg fun heq : other = path => hnot (heq ▸ hother)]
    exact h.fresh other (hsub other hother)

theorem conclude_kept {lua : Lua σ V} (hlua : KeepsValues lua) {runtime : BundleRuntime}
    {vm : Vm σ V} {path : ModulePath} {loading : List ModulePath}
    (evaluation : Except Failure V) (h : LoaderKept runtime vm.state vm.log)
    (htop : vm.state.loading = loading ++ [path]) :
    ∃ answer vm', conclude lua path evaluation vm = (answer, vm') ∧
      LoaderKept runtime vm'.state vm'.log ∧ vm'.state.loading = loading ∧
      Proper runtime.bundle vm'.log (.answered path answer) := by
  cases evaluation with
  | error failure =>
    obtain ⟨hloading, hnot, hnone, hstack, -⟩ := ended_state none h htop
    have hcached : ∀ other, (vm.ended path none).state.cached other =
        if other = path then none else vm.state.cached other := by
      intro other
      split
      next hother => rw [hother]; exact hnone
      next => rfl
    have hkept := h.ended (vm.ended path none).state htop rfl hloading hcached
    refine ⟨_, _, rfl, hkept, hloading, ?_, ?_⟩
    · intro hpath
      exact absurd (hstack ▸ hpath) hnot
    · intro value hvalue
      rw [← hkept.settled, hcached, if_pos rfl] at hvalue
      cases hvalue
  | ok value =>
    obtain ⟨hloading, hnot, hnone, hstack, -⟩ := ended_state (some value) h htop
    obtain ⟨world, hworld⟩ := hlua value vm.world
    have hcached := fun other => cached_cacheInsert (vm.ended path (some value)) path other value
      world
    have hkept := h.ended ((vm.ended path (some value)).cacheInsert path value world).state htop
      rfl hloading hcached
    have hconclude : conclude lua path (.ok value) vm =
        (.ok value, (vm.ended path (some value)).cacheInsert path value world) := by
      rw [conclude]
      simp only [hworld]
    refine ⟨_, _, hconclude, hkept, hloading, ?_, ?_⟩
    · intro hpath
      exact absurd (hstack ▸ hpath) hnot
    · intro value' hvalue
      have hsome := (hkept.settled path value').mpr hvalue
      rw [hcached, if_pos rfl] at hsome
      rw [Option.some.inj hsome]

/-! ### Scripts -/

theorem LoaderKept.answered {runtime : BundleRuntime} {vm : Vm σ V} {path : ModulePath}
    {answer : Except RuntimeError V} (h : LoaderKept runtime vm.state vm.log)
    (hproper : Proper runtime.bundle vm.log (.answered path answer)) :
    LoaderKept runtime (vm.answered path answer).state (vm.answered path answer).log := by
  refine ⟨h.same, h.nodup, h.inside, ?_, ?_, h.fresh, h.proper.snoc hproper⟩
  · simp only [Vm.answered]
    rw [evaluating_snoc]
    exact h.stack
  · intro other value
    refine (h.settled other value).trans ?_
    simp [Vm.answered]

theorem loadRequired_kept {runtime : BundleRuntime}
    {load : ModulePath → Vm σ V → Option (Except RuntimeError V × Vm σ V)} {depth : Nat}
    (hload : Serves runtime load depth) (request : List Char) {vm : Vm σ V}
    (h : LoaderKept runtime vm.state vm.log)
    (hdepth : runtime.bundle.modules.entries.length ≤ vm.state.loading.length + depth) :
    ∃ answer vm', loadRequired load request vm = some (answer, vm') ∧
      LoaderKept runtime vm'.state vm'.log ∧ vm'.state.loading = vm.state.loading := by
  rw [loadRequired]
  split
  · exact ⟨_, _, rfl, h, rfl⟩
  split
  · exact ⟨_, _, rfl, h, rfl⟩
  split
  · exact ⟨_, _, rfl, h, rfl⟩
  split
  · exact ⟨_, _, rfl, h, rfl⟩
  split
  · exact ⟨_, _, rfl, h, rfl⟩
  next resolved _ =>
    obtain ⟨answer, vm', hsome, hkept, hloading, hproper⟩ := hload resolved.path vm h hdepth
    rw [hsome]
    exact ⟨_, _, rfl, hkept.answered hproper, hloading⟩

/-- **A script keeps what the loader keeps**, and comes to an end. -/
theorem runStrategy_kept {runtime : BundleRuntime}
    {load : ModulePath → Vm σ V → Option (Except RuntimeError V × Vm σ V)} {depth : Nat}
    (hload : Serves runtime load depth) (script : Strategy σ V) {vm : Vm σ V}
    (h : LoaderKept runtime vm.state vm.log)
    (hdepth : runtime.bundle.modules.entries.length ≤ vm.state.loading.length + depth) :
    ∃ result vm', runStrategy load script vm = some (result, vm') ∧
      LoaderKept runtime vm'.state vm'.log ∧ vm'.state.loading = vm.state.loading := by
  induction script generalizing vm with
  | finish result world => exact ⟨_, _, rfl, h, rfl⟩
  | require request world next ih =>
    have h' : LoaderKept runtime ({ vm with world } : Vm σ V).state vm.log := h
    obtain ⟨answer, vm₁, hsome, hkept, hloading⟩ := loadRequired_kept hload request h' hdepth
    obtain ⟨result, vm₂, hrun, hkept₂, hloading₂⟩ :=
      ih answer vm₁.world hkept (by rw [hloading]; exact hdepth)
    refine ⟨result, vm₂, ?_, hkept₂, hloading₂.trans hloading⟩
    rw [runStrategy, hsome]
    exact hrun

/-- **The loader serves scripts at every depth.** -/
theorem loadModule_serves {lua : Lua σ V} (hlua : KeepsValues lua) (runtime : BundleRuntime)
    (depth : Nat) : Serves runtime (loadModule lua depth) depth := by
  induction depth with
  | zero =>
    intro path vm h hdepth
    cases hpreload : vm.state.preload path with
    | error answer =>
      refine ⟨answer, vm, ?_, h, rfl, proper_of_preload h hpreload⟩
      simp only [loadModule, hpreload]
    | ok source =>
      -- all modules are on the stack already
      obtain ⟨hcached, hloading, hmodule⟩ := preload_ok h hpreload
      have hbegan := h.began hcached hloading hmodule
      have hle := length_le_modules hbegan.nodup hbegan.inside
      simp only [Vm.began, List.length_append, List.length_singleton] at hle
      omega
  | succ depth ih =>
    intro path vm h hdepth
    cases hpreload : vm.state.preload path with
    | error answer =>
      refine ⟨answer, vm, ?_, h, rfl, proper_of_preload h hpreload⟩
      simp only [loadModule, hpreload]
    | ok source =>
      obtain ⟨hcached, hloading, hmodule⟩ := preload_ok h hpreload
      obtain ⟨result, vm₁, hrun, hkept, htop⟩ :=
        runStrategy_kept ih (lua.eval path source vm.world) (h.began hcached hloading hmodule)
          (by simp only [Vm.began, List.length_append, List.length_singleton]; omega)
      obtain ⟨answer, vm₂, hconclude, hkept₂, hloading₂, hproper⟩ :=
        conclude_kept hlua result hkept htop
      refine ⟨answer, vm₂, ?_, hkept₂, hloading₂, hproper⟩
      simp only [loadModule, hpreload, hrun, Option.map_some, hconclude]

/-! ### The host -/

theorem hostStep_kept {lua : Lua σ V} (hlua : KeepsValues lua) {runtime : BundleRuntime}
    (step : HostStep σ V) {vm : Vm σ V} (h : LoaderKept runtime vm.state vm.log)
    (hidle : vm.state.loading = []) :
    ∃ vm', hostStep lua runtime.bundle.modules.entries.length vm step = some vm' ∧
      LoaderKept runtime vm'.state vm'.log ∧ vm'.state.loading = [] := by
  have hload := loadModule_serves hlua runtime runtime.bundle.modules.entries.length
  cases step with
  | evalEntrypoint other =>
    rw [hostStep, evalEntrypoint]
    split
    · exact ⟨_, rfl, h, hidle⟩
    · obtain ⟨answer, vm', hsome, hkept, hloading, hproper⟩ :=
        hload other.bundle.manifest.entrypoint vm h (by omega)
      simp only [hsome, Option.map_some]
      exact ⟨_, rfl, hkept.answered hproper, hloading.trans hidle⟩
  | call script =>
    obtain ⟨result, vm', hsome, hkept, hloading⟩ :=
      runStrategy_kept hload (script vm.world) h (by omega)
    rw [hostStep, hsome]
    exact ⟨_, rfl, hkept, hloading.trans hidle⟩

theorem hostSteps_kept {lua : Lua σ V} (hlua : KeepsValues lua) {runtime : BundleRuntime}
    (steps : List (HostStep σ V)) {vm : Vm σ V} (h : LoaderKept runtime vm.state vm.log)
    (hidle : vm.state.loading = []) :
    ∃ vm', hostSteps lua runtime.bundle.modules.entries.length steps vm = some vm' ∧
      LoaderKept runtime vm'.state vm'.log ∧ vm'.state.loading = [] := by
  induction steps generalizing vm with
  | nil => exact ⟨vm, rfl, h, hidle⟩
  | cons step steps ih =>
    obtain ⟨vm₁, hstep, hkept, hidle₁⟩ := hostStep_kept hlua step h hidle
    rw [hostSteps, hstep]
    exact ih hkept hidle₁

theorem install_kept (runtime : BundleRuntime) (world : σ) :
    LoaderKept runtime (runtime.install world : Vm σ V).state
      (runtime.install world : Vm σ V).log where
  same := rfl
  nodup := List.nodup_nil
  inside := fun _ h => absurd h List.not_mem_nil
  stack := rfl
  settled := fun path value => by simp [BundleRuntime.install, RuntimeState.cached]
  fresh := fun _ h => absurd h List.not_mem_nil
  proper := properLog_nil _

/-- `return require(request)`, for a request; any other source returns a constant. -/
def returned (source : List Char) (world : Unit) : Strategy Unit (List Char) :=
  if isRelative source then
    .require source world fun answer world => .finish (answer.mapError .bundle) world
  else .finish (.ok source) world

/-- A VM whose sources are single return statements. -/
def returningLua : Lua Unit (List Char) where
  eval _ source world := returned source world
  createRegistryValue _ world := .ok world

def entryPath : ModulePath where
  text := ['e']
  accepted := by decide

def valuePath : ModulePath where
  text := ['v']
  accepted := by decide

/-- A bundle whose entrypoint returns what a second module returns. -/
def returningBundle : Bundle where
  manifest := BundleManifest.bare entryPath
  modules := { entries := [(entryPath, ['.', '/', 'v']), (valuePath, ['1'])], ordered := by decide }
  present := by decide
  addressable := by decide

end Tea.Contract
