/-
  Tea/Luau/Capability.lean
  ========================
  **Capabilities of a policy** (`capability/domain.rs`): the operations of the virtual
  modules in their derived order, and the sets of operations that are granted.
-/
import Tea.Encoding.OrderedKeys
import Tea.Tui.Commands
import Mathlib.Data.List.Lex
import Mathlib.Data.String.Basic

namespace Tea.Luau

open Tea.Encoding
open Tea.Tui (isBlank)

/-! ### Operations -/

inductive CapabilityModule where
  | agent
  | world
  | trace
  | task
  | json
  | time
deriving DecidableEq

/-- `json_key` -/
def CapabilityModule.jsonKey : CapabilityModule → String
  | .agent => "agent"
  | .world => "world"
  | .trace => "trace"
  | .task => "task"
  | .json => "json"
  | .time => "time"

inductive AgentOperation where
  | events
  | tools
  | stop
deriving DecidableEq

def AgentOperation.asStr : AgentOperation → String
  | .events => "events"
  | .tools => "tools"
  | .stop => "stop"

def AgentOperation.parse (value : String) : Option AgentOperation :=
  if value = "events" then some .events
  else if value = "tools" then some .tools
  else if value = "stop" then some .stop
  else none

inductive McpOperation where
  | call
  | listResources
  | readResource
deriving DecidableEq

def McpOperation.asStr : McpOperation → String
  | .call => "call"
  | .listResources => "list_resources"
  | .readResource => "read_resource"

def McpOperation.parse (value : String) : Option McpOperation :=
  if value = "call" then some .call
  else if value = "list_resources" then some .listResources
  else if value = "read_resource" then some .readResource
  else none

/-- A permission for one method of a server, at one target or at none. -/
structure McpPermission where
  server : String
  operation : McpOperation
  target : Option String
deriving DecidableEq

inductive WorldOperation where
  | fsRead
  | fsWrite
  | exec
  | mcp (permission : McpPermission)
deriving DecidableEq

inductive TraceOperation where
  | emit
deriving DecidableEq

def TraceOperation.asStr : TraceOperation → String
  | .emit => "emit"

inductive TaskOperation where
  | spawn
  | join
  | cancel
  | status
deriving DecidableEq

def TaskOperation.asStr : TaskOperation → String
  | .spawn => "spawn"
  | .join => "join"
  | .cancel => "cancel"
  | .status => "status"

def TaskOperation.parse (value : String) : Option TaskOperation :=
  if value = "spawn" then some .spawn
  else if value = "join" then some .join
  else if value = "cancel" then some .cancel
  else if value = "status" then some .status
  else none

inductive JsonOperation where
  | parse
  | stringify
deriving DecidableEq

def JsonOperation.asStr : JsonOperation → String
  | .parse => "parse"
  | .stringify => "stringify"

/-- `JsonOperation::parse` -/
def JsonOperation.ofStr (value : String) : Option JsonOperation :=
  if value = "parse" then some .parse
  else if value = "stringify" then some .stringify
  else none

inductive TimeOperation where
  | now
  | sleep
deriving DecidableEq

def TimeOperation.asStr : TimeOperation → String
  | .now => "now"
  | .sleep => "sleep"

def TimeOperation.parse (value : String) : Option TimeOperation :=
  if value = "now" then some .now
  else if value = "sleep" then some .sleep
  else none

inductive CapabilityOperation where
  | agent (operation : AgentOperation)
  | world (operation : WorldOperation)
  | trace (operation : TraceOperation)
  | task (operation : TaskOperation)
  | json (operation : JsonOperation)
  | time (operation : TimeOperation)
deriving DecidableEq

namespace CapabilityOperation

/-- `module` -/
def moduleOf : CapabilityOperation → CapabilityModule
  | .agent _ => .agent
  | .world _ => .world
  | .trace _ => .trace
  | .task _ => .task
  | .json _ => .json
  | .time _ => .time

/-- `sort_key`, which is also the name of the operation in an error. -/
def sortKey : CapabilityOperation → String
  | .agent operation => operation.asStr
  | .world .fsRead => "fs.read"
  | .world .fsWrite => "fs.write"
  | .world .exec => "exec"
  | .world (.mcp permission) =>
    "mcp." ++ permission.server ++ "." ++ permission.operation.asStr ++ "." ++
      permission.target.getD ""
  | .trace operation => operation.asStr
  | .task operation => operation.asStr
  | .json operation => operation.asStr
  | .time operation => operation.asStr

/-- A text in the order of its bytes, which is that of its scalar values. -/
def textKey (text : String) : List Nat := text.toList.map Char.toNat

/-- A target: none stands before every other one. -/
def targetKey : Option String → List Nat
  | none => []
  | some target => 0 :: textKey target

/-- The derived order of operations is the lexicographic order of these keys: the positions
    of the variants, and then what they hold. -/
def orderKey : CapabilityOperation → List (List Nat)
  | .agent operation => [[0], [operation.ctorIdx]]
  | .world .fsRead => [[1], [0]]
  | .world .fsWrite => [[1], [1]]
  | .world .exec => [[1], [2]]
  | .world (.mcp permission) =>
    [[1], [3], textKey permission.server, [permission.operation.ctorIdx],
      targetKey permission.target]
  | .trace .emit => [[2], [0]]
  | .task operation => [[3], [operation.ctorIdx]]
  | .json operation => [[4], [operation.ctorIdx]]
  | .time operation => [[5], [operation.ctorIdx]]

theorem textKey_inj {text other : String} (h : textKey text = textKey other) : text = other := by
  refine String.toList_injective (List.map_injective_iff.mpr ?_ h)
  intro c d hc
  exact Char.toNat_inj.mp hc

theorem targetKey_inj {target other : Option String} (h : targetKey target = targetKey other) :
    target = other := by
  cases target with
  | none =>
    cases other with
    | none => rfl
    | some other => simp [targetKey] at h
  | some target =>
    cases other with
    | none => simp [targetKey] at h
    | some other =>
      simp only [targetKey, List.cons.injEq, true_and] at h
      rw [textKey_inj h]

theorem orderKey_inj {operation other : CapabilityOperation}
    (h : operation.orderKey = other.orderKey) : operation = other := by
  rcases operation with op | op | op | op | op | op <;>
    rcases other with op' | op' | op' | op' | op' | op' <;> cases op <;> cases op' <;>
    simp [orderKey, AgentOperation.ctorIdx, TaskOperation.ctorIdx, JsonOperation.ctorIdx,
      TimeOperation.ctorIdx] at h ⊢
  rename_i permission permission'
  obtain ⟨server, method, target⟩ := permission
  obtain ⟨server', method', target'⟩ := permission'
  obtain ⟨hserver, hmethod, htarget⟩ := h
  obtain rfl := textKey_inj hserver
  obtain rfl := targetKey_inj htarget
  cases method <;> cases method' <;> simp [McpOperation.ctorIdx] at hmethod ⊢

end CapabilityOperation

/-! ### Errors -/

inductive JsonKind where
  | null
  | boolean
  | number
  | string
  | array
  | mapping
deriving DecidableEq

/-- The message of a malformed manifest, with the values that are written into it. -/
inductive Explanation where
  /-- `must not be empty` -/
  | empty
  /-- `missing required field` -/
  | missingField
  /-- `missing mcp` -/
  | missingMcp
  /-- `expected object, got {:?}` and its like -/
  | expected (shape : String) (got : JsonKind)
  /-- `expected a known operation string` -/
  | expectedOperation
  /-- `unknown field {:?}` -/
  | unknownField (key : String)
  /-- `unknown operation {:?} for {}` -/
  | unknownOperation (name : String) (owner : CapabilityModule)
  /-- `unknown MCP operation {:?}` -/
  | unknownMcpOperation (name : String)
  /-- The text of an error about an empty name of this kind. -/
  | emptyName (kind : String)
deriving DecidableEq

inductive CapabilityError where
  | json
  | malformed (path : String) (message : Explanation)
  | unsupportedAbiVersion (expected actual : UInt64)
  | duplicateGrant (owner : CapabilityModule)
  | duplicateOperation (owner : CapabilityModule) (operation : String)
  | operationModuleMismatch (owner : CapabilityModule) (operation : String)
  | denied (owner : CapabilityModule) (operation : String)
deriving DecidableEq

/-- `validate_non_empty` -/
def validateNonEmpty (kind value : String) : Except CapabilityError Unit :=
  if isBlank value then .error (.malformed kind .empty) else .ok ()

/-- The check of a target, if there is one. -/
def validateTarget : Option String → Except CapabilityError Unit
  | none => .ok ()
  | some target => validateNonEmpty "MCP target" target

/-- `McpPermission::new` -/
def McpPermission.new (server : String) (operation : McpOperation) (target : Option String) :
    Except CapabilityError McpPermission := do
  validateNonEmpty "MCP server" server
  validateTarget target
  return { server, operation, target }

/-! ### Grants -/

/-- A validated set of operations for one virtual module. -/
structure CapabilityGrant where
  owner : CapabilityModule
  operations : List CapabilityOperation
  ordered : KeysIncrease CapabilityOperation.orderKey operations
  own : ∀ operation ∈ operations, operation.moduleOf = owner

def CapabilityGrant.empty (owner : CapabilityModule) : CapabilityGrant where
  owner := owner
  operations := []
  ordered := List.Pairwise.nil
  own := fun _ h => absurd h List.not_mem_nil

/-- `validated.insert` of an operation that is not there -/
def CapabilityGrant.insert (grant : CapabilityGrant) (operation : CapabilityOperation)
    (hown : operation.moduleOf = grant.owner) (hnew : operation ∉ grant.operations) :
    CapabilityGrant where
  owner := grant.owner
  operations := insertByKey CapabilityOperation.orderKey operation grant.operations
  ordered := grant.ordered.insert fun other hother hkey =>
    hnew (CapabilityOperation.orderKey_inj hkey ▸ hother)
  own := by
    intro other hother
    rcases mem_insertByKey.mp hother with rfl | hother
    · exact hown
    · exact grant.own other hother

/-- The loop of `CapabilityGrant::new`. -/
def CapabilityGrant.collect (grant : CapabilityGrant) :
    List CapabilityOperation → Except CapabilityError CapabilityGrant
  | [] => .ok grant
  | operation :: operations =>
    if hown : operation.moduleOf = grant.owner then
      if hnew : operation ∉ grant.operations then
        (grant.insert operation hown hnew).collect operations
      else .error (.duplicateOperation grant.owner operation.sortKey)
    else .error (.operationModuleMismatch grant.owner operation.sortKey)

/-- `CapabilityGrant::new` -/
def CapabilityGrant.new (owner : CapabilityModule) (operations : List CapabilityOperation) :
    Except CapabilityError CapabilityGrant := (CapabilityGrant.empty owner).collect operations

/-- `allows` of a permission -/
def McpPermission.allows (granted requested : McpPermission) : Bool :=
  granted.server = requested.server && granted.operation = requested.operation &&
    granted.target = requested.target

/-- `allows` of a granted operation of an MCP server -/
def CapabilityOperation.allowsMcp (requested : McpPermission) : CapabilityOperation → Bool
  | .world (.mcp granted) => granted.allows requested
  | _ => false

/-- `allows` -/
def CapabilityGrant.allows (grant : CapabilityGrant) : CapabilityOperation → Bool
  | .world (.mcp requested) => grant.operations.any (·.allowsMcp requested)
  | requested => requested ∈ grant.operations

/-! ### Manifests -/

def CAPABILITY_ABI_VERSION : UInt64 := 1

/-- A complete grant set for one VM. -/
structure CapabilityManifest where
  abiVersion : UInt64
  grants : List CapabilityGrant
  supported : abiVersion = CAPABILITY_ABI_VERSION
  ordered : KeysIncrease (·.owner.ctorIdx) grants

/-- `CapabilityManifest::empty` -/
def CapabilityManifest.empty : CapabilityManifest where
  abiVersion := CAPABILITY_ABI_VERSION
  grants := []
  supported := rfl
  ordered := List.Pairwise.nil

/-- `by_module.insert` of a grant for a module that has none -/
def CapabilityManifest.insert (manifest : CapabilityManifest) (grant : CapabilityGrant)
    (hnew : ∀ other ∈ manifest.grants, other.owner.ctorIdx ≠ grant.owner.ctorIdx) :
    CapabilityManifest where
  abiVersion := manifest.abiVersion
  grants := insertByKey (·.owner.ctorIdx) grant manifest.grants
  supported := manifest.supported
  ordered := manifest.ordered.insert hnew

/-- The loop of `CapabilityManifest::new`. -/
def CapabilityManifest.collect (manifest : CapabilityManifest) :
    List CapabilityGrant → Except CapabilityError CapabilityManifest
  | [] => .ok manifest
  | grant :: grants =>
    if hnew : ∀ other ∈ manifest.grants, other.owner.ctorIdx ≠ grant.owner.ctorIdx then
      (manifest.insert grant hnew).collect grants
    else .error (.duplicateGrant grant.owner)

/-- `CapabilityManifest::new` -/
def CapabilityManifest.new (grants : List CapabilityGrant) :
    Except CapabilityError CapabilityManifest := CapabilityManifest.empty.collect grants

/-- `grant` -/
def CapabilityManifest.grant (manifest : CapabilityManifest) (owner : CapabilityModule) :
    Option CapabilityGrant := manifest.grants.find? (·.owner = owner)

/-- `check`; the arguments of a request are for its provider. -/
def CapabilityManifest.check (manifest : CapabilityManifest) (operation : CapabilityOperation) :
    Except CapabilityError Unit :=
  if ((manifest.grant operation.moduleOf).map (·.allows operation)).getD false then .ok ()
  else .error (.denied operation.moduleOf operation.sortKey)

end Tea.Luau
