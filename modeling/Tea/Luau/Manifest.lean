/-
  Tea/Luau/Manifest.lean
  ======================
  **Capability manifests as JSON** (`capability/manifest.rs`): the canonical encoding and
  the strict decoder.  The text codec is a parameter.
-/
import Tea.Encoding.Json
import Tea.Luau.Capability

namespace Tea.Luau

open Tea.Encoding
open Tea.Tui (isBlank)

variable {F : Type}

/-- `kind` -/
def kindOf : JsonValue F → JsonKind
  | .null => .null
  | .bool _ => .boolean
  | .number _ => .number
  | .string _ => .string
  | .array _ => .array
  | .mapping _ => .mapping

/-! ### Encoding -/

/-- The fields of a permission. -/
def permissionFields (permission : McpPermission) : List (String × JsonValue F) :=
  [("server", .string permission.server), ("operation", .string permission.operation.asStr)] ++
    (permission.target.map fun target => ("target", .string target)).toList

/-- `operation_to_json` -/
def operationToJson : CapabilityOperation → JsonValue F
  | .world (.mcp permission) => .object [("mcp", .object (permissionFields permission))]
  | operation => .string operation.sortKey

/-- The fields of a manifest. -/
def manifestFields (manifest : CapabilityManifest) : List (String × JsonValue F) :=
  ("abi_version", .number (.unsigned manifest.abiVersion)) ::
    manifest.grants.map fun grant =>
      (grant.owner.jsonKey, .array (grant.operations.map operationToJson))

/-- `to_json` -/
def CapabilityManifest.toJson (manifest : CapabilityManifest) : JsonValue F :=
  .object (manifestFields manifest)

/-- `to_json_string` -/
def CapabilityManifest.toJsonString (codec : JsonCodec F) (manifest : CapabilityManifest) :
    String := codec.print manifest.toJson

/-! ### Decoding -/

/-- `malformed` -/
def malformed {α : Type} (path : String) (message : Explanation) : Except CapabilityError α :=
  .error (.malformed path message)

def expectObject (value : JsonValue F) (path : String) :
    Except CapabilityError (List (String × JsonValue F)) :=
  match value with
  | .mapping fields => .ok fields
  | other => malformed path (.expected "object" (kindOf other))

def expectArray (value : JsonValue F) (path : String) :
    Except CapabilityError (List (JsonValue F)) :=
  match value with
  | .array values => .ok values
  | other => malformed path (.expected "array" (kindOf other))

def expectString (value : JsonValue F) (path : String) : Except CapabilityError String :=
  match value with
  | .string value => if isBlank value then malformed path .empty else .ok value
  | other => malformed path (.expected "string" (kindOf other))

def requiredString (fields : List (String × JsonValue F)) (key path : String) :
    Except CapabilityError String :=
  match JsonValue.lookupField key fields with
  | some value => expectString value (path ++ "." ++ key)
  | none => malformed (path ++ "." ++ key) .missingField

def requiredU64 (fields : List (String × JsonValue F)) (key : String) :
    Except CapabilityError UInt64 :=
  match JsonValue.lookupField key fields with
  | some (.number (.unsigned value)) => .ok value
  | some (.number (.signed value)) =>
    if 0 ≤ value then .ok value.toUInt64
    else malformed key (.expected "non-negative integer" .number)
  | some value => malformed key (.expected "non-negative integer" (kindOf value))
  | none => malformed key .missingField

def rejectUnknownKeys (fields : List (String × JsonValue F)) (known : List String)
    (path : String) : Except CapabilityError Unit :=
  match fields.find? (·.1 ∉ known) with
  | some field => malformed path (.unknownField field.1)
  | none => .ok ()

/-- `parse_simple_operation` -/
def parseSimpleOperation (owner : CapabilityModule) (name path : String) :
    Except CapabilityError CapabilityOperation :=
  let operation :=
    match owner with
    | .agent => (AgentOperation.parse name).map .agent
    | .world =>
      if name = "fs.read" then some (.world .fsRead)
      else if name = "fs.write" then some (.world .fsWrite)
      else if name = "exec" then some (.world .exec)
      else none
    | .trace => if TraceOperation.emit.asStr = name then some (.trace .emit) else none
    | .task => (TaskOperation.parse name).map .task
    | .json => (JsonOperation.ofStr name).map .json
    | .time => (TimeOperation.parse name).map .time
  match operation with
  | some operation => .ok operation
  | none => malformed path (.unknownOperation name owner)

/-- `map_err(|error| malformed(path, error.to_string()))` -/
def renamed (path : String) : CapabilityError → CapabilityError
  | .malformed kind _ => .malformed path (.emptyName kind)
  | error => error

/-- A target is read from the field of this name, if there is one. -/
def readTarget (fields : List (String × JsonValue F)) (path : String) :
    Except CapabilityError (Option String) :=
  match JsonValue.lookupField "target" fields with
  | some value => (expectString value (path ++ ".mcp.target")).map some
  | none => .ok none

/-- `parse_mcp_operation` -/
def parseMcpOperation (value : JsonValue F) (path : String) :
    Except CapabilityError WorldOperation := do
  let fields ← expectObject value (path ++ ".mcp")
  rejectUnknownKeys fields ["server", "operation", "target"] (path ++ ".mcp")
  let server ← requiredString fields "server" (path ++ ".mcp")
  let operationName ← requiredString fields "operation" (path ++ ".mcp")
  match McpOperation.parse operationName with
  | none => malformed (path ++ ".mcp.operation") (.unknownMcpOperation operationName)
  | some operation =>
    let target ← readTarget fields path
    ((McpPermission.new server operation target).mapError (renamed path)).map .mcp

/-- `parse_operation` -/
def parseOperation (owner : CapabilityModule) (value : JsonValue F) (path : String) :
    Except CapabilityError CapabilityOperation :=
  match value with
  | .string name => parseSimpleOperation owner name path
  | .mapping fields =>
    if owner = .world then do
      rejectUnknownKeys fields ["mcp"] path
      match JsonValue.lookupField "mcp" fields with
      | some mcp => (parseMcpOperation mcp path).map .world
      | none => malformed path .missingMcp
    else malformed path .expectedOperation
  | _ => malformed path .expectedOperation

/-- The loop of `parse_grant`. -/
def parseOperations (owner : CapabilityModule) :
    Nat → List (JsonValue F) → Except CapabilityError (List CapabilityOperation)
  | _, [] => .ok []
  | index, value :: values => do
    let operation ← parseOperation owner value (owner.jsonKey ++ "[" ++ toString index ++ "]")
    let operations ← parseOperations owner (index + 1) values
    return operation :: operations

/-- `parse_grant` -/
def parseGrant (owner : CapabilityModule) (value : JsonValue F) :
    Except CapabilityError CapabilityGrant := do
  let values ← expectArray value owner.jsonKey
  let operations ← parseOperations owner 0 values
  CapabilityGrant.new owner operations

def capabilityModules : List CapabilityModule := [.agent, .world, .trace, .task, .json, .time]

/-- The loop of `from_json`. -/
def parseGrants (fields : List (String × JsonValue F)) :
    List CapabilityModule → Except CapabilityError (List CapabilityGrant)
  | [] => .ok []
  | owner :: owners =>
    match JsonValue.lookupField owner.jsonKey fields with
    | some value => do
      let grant ← parseGrant owner value
      let grants ← parseGrants fields owners
      return grant :: grants
    | none => parseGrants fields owners

/-- `from_json` -/
def CapabilityManifest.fromJson (value : JsonValue F) :
    Except CapabilityError CapabilityManifest := do
  let fields ← expectObject value "manifest"
  let abiVersion ← requiredU64 fields "abi_version"
  if abiVersion ≠ CAPABILITY_ABI_VERSION then
    .error (.unsupportedAbiVersion CAPABILITY_ABI_VERSION abiVersion)
  else do
    rejectUnknownKeys fields ("abi_version" :: capabilityModules.map (·.jsonKey)) "manifest"
    let grants ← parseGrants fields capabilityModules
    CapabilityManifest.new grants

/-- `parse_json` -/
def CapabilityManifest.parseJson (codec : JsonCodec F) (input : String) :
    Except CapabilityError CapabilityManifest :=
  match codec.parse input with
  | some value => CapabilityManifest.fromJson value
  | none => .error .json

end Tea.Luau
