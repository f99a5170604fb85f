/-
  Tea/App/ExtensionFiles.lean
  ===========================
  **The authoring tool of extension files** (`tea_extension_files` of `app/tea.rs`): it lists the
  files below a directory of the extensions, and reads one of them.
-/
import Tea.Core.Event
import Tea.Encoding.Json
import Tea.Encoding.Utf8
import Tea.Files.Tree

namespace Tea.App.ExtensionFiles

open Tea.Core Tea.Encoding Tea.Files

/-! ### Components -/

/-- What `Path::components` gives for a path that is not absolute. -/
inductive Component where
  | curDir
  | parentDir
  | normal (segment : List UInt8)
deriving DecidableEq

/-- `Path::components`: a dot counts at the start of a path alone. -/
def components (path : List UInt8) : List Component :=
  (if (segments path).head? = some [46] then [.curDir] else []) ++
    ((segments path).filter fun segment => segment ≠ [] && segment ≠ [46]).map fun segment =>
      if segment = [46, 46] then .parentDir else .normal segment

/-! ### Errors -/

def toolName : String := "tea_extension_files"

def maxAuthoredFileBytes : Nat := 128 * 1024

/-- `invalid_tool_args` -/
def invalidToolArgs (message : String) : ToolError := .invalidArguments toolName message

def execution (message : String) : ToolError := .execution toolName message

/-- `tool_io` of a path that leads nowhere. -/
def toolIo (error : PathError) : ToolError := execution error.display

/-! ### Paths -/

/-- `0` and the control characters of ASCII. -/
def isControl (byte : UInt8) : Bool := byte.toNat < 32 || byte.toNat = 127

def checkComponents : List Component → Except String Unit
  | [] => .ok ()
  | .curDir :: _ => .error "`.` path segments are not allowed"
  | .parentDir :: _ => .error "path traversal is not allowed"
  | .normal _ :: rest => checkComponents rest

/-- `contained_path`, with the steps of the joined path. -/
def containedPath (root : List (Step FileName)) (relative : String) :
    Except String (List (Step FileName)) :=
  let bytes := encodeUtf8 relative.toList
  if relative = "" ∨ '\\' ∈ relative.toList ∨ bytes.any isControl then
    .error "path is empty or contains an invalid character"
  else if bytes.head? = some 47 then .error "absolute paths are not allowed"
  else
    match checkComponents (components bytes) with
    | .error message => .error message
    | .ok () => .ok (root ++ (segments bytes).map stepOf)

section

variable (fs : FileSystem) (root : List (Step FileName))

/-- `ensure_contained_canonical` -/
def ensureContainedCanonical (path : List FileName) : Except ToolError Unit :=
  match canonicalize fs root, canonicalize fs (path.map .name) with
  | .error error, _ => .error (toolIo error)
  | .ok _, .error error => .error (toolIo error)
  | .ok canonicalRoot, .ok canonicalPath =>
    if canonicalRoot <+: canonicalPath then .ok ()
    else .error (.blocked toolName "path escapes the Tea extensions root")

def resolveExisting (relative : String) : Except ToolError (List FileName) :=
  match containedPath root relative with
  | .error message => .error (invalidToolArgs message)
  | .ok lexical =>
    match canonicalize fs lexical with
    | .error error => .error (toolIo error)
    | .ok path => (ensureContainedCanonical fs root path).map fun _ => path

/-! ### Listing -/

/-- `to_string_lossy().replace('\\', "/")` -/
def shownPath (names : List FileName) : String :=
  String.ofList ((fromUtf8Lossy (pathText names)).map fun c => if c = '\\' then '/' else c)

/-- What `collect_files` does with a regular file. -/
def collectFile (canonicalRoot path : List FileName) : Except ToolError (List String) :=
  match canonicalize fs (path.map .name) with
  | .error error => .error (toolIo error)
  | .ok canonical =>
    match ensureContainedCanonical fs (canonicalRoot.map .name) canonical with
    | .error error => .error error
    | .ok () =>
      if canonicalRoot <+: canonical then .ok [shownPath (canonical.drop canonicalRoot.length)]
      else .error (invalidToolArgs "file escaped Tea extension root")

/-- The outputs one behind the other, up to the first error. -/
def joinOutputs : List (FileName × Except ToolError (List String)) → Except ToolError (List String)
  | [] => .ok []
  | (_, .error error) :: _ => .error error
  | (_, .ok files) :: rest => (joinOutputs rest).map (files ++ ·)

/-- The order of names, which is the one of their bytes. -/
def nameLe (name other : FileName) : Bool := name.val ≤ other.val

mutual

/-- `collect_files`, which takes the entries of a directory in the order of their names. -/
def collectFiles (canonicalRoot path : List FileName) :
    FileSystem → Except ToolError (List String)
  | .file _ => collectFile fs canonicalRoot path
  | .dir entries =>
    joinOutputs ((collectEntries canonicalRoot path entries).mergeSort fun entry other =>
      nameLe entry.1 other.1)
  | .symlink _ _ => .ok []
  | .other => .ok []

def collectEntries (canonicalRoot path : List FileName) :
    List (FileName × FileSystem) → List (FileName × Except ToolError (List String))
  | [] => []
  | (name, node) :: rest =>
    (name, collectFiles canonicalRoot (path ++ [name]) node) ::
      collectEntries canonicalRoot path rest

end

def emptyListing : String := "No Tea extension files"

/-- The result of a list: the files one in a line. -/
def listingText (files : List String) : String :=
  if files = [] then emptyListing
  else String.ofList (['\n'].intercalate (files.map String.toList))

/-- The order of strings, which is the one of their bytes. -/
def stringLe (text other : String) : Bool := encodeUtf8 text.toList ≤ encodeUtf8 other.toList

def list (relative : String) : Except ToolError String :=
  match resolveExisting fs root relative with
  | .error error => .error error
  | .ok directory =>
    match fs.get directory with
    | some (.dir entries) =>
      match canonicalize fs root with
      | .error error => .error (toolIo error)
      | .ok canonicalRoot =>
        (collectFiles fs canonicalRoot directory (.dir entries)).map fun files =>
          listingText (files.mergeSort stringLe)
    | _ => .error (execution "list path is not a directory")

/-! ### Reading -/

def read (relative : String) : Except ToolError String :=
  match resolveExisting fs root relative with
  | .error error => .error error
  | .ok path =>
    match fs.get path with
    | some (.file bytes) =>
      if maxAuthoredFileBytes < bytes.length then
        .error (execution ("read exceeds " ++ toString maxAuthoredFileBytes ++ " bytes"))
      else
        match fromUtf8 bytes with
        | .error _ => .error (execution "Tea extension files must be UTF-8 text")
        | .ok text => .ok (String.ofList text)
    | some (.dir _) => .error (execution "Is a directory (os error 21)")
    | _ => .error (execution "No such device or address (os error 6)")

/-! ### Operations -/

/-- `path` of the arguments, which is a dot when there is none. -/
def relativeOf {F : Type} (fields : List (String × JsonValue F)) : String :=
  match JsonValue.lookupField "path" fields with
  | some (.string path) => path
  | _ => "."

/-- `execute_now` of a call that is not cancelled; `author` is what `write_draft` and `validate`
    return. -/
def execute {F : Type} (author : String → String → Except ToolError String)
    (fields : List (String × JsonValue F)) : Except ToolError String :=
  match JsonValue.lookupField "operation" fields with
  | some (.string operation) =>
    if operation = "list" then list fs root (relativeOf fields)
    else if operation = "read" then read fs root (relativeOf fields)
    else if operation = "write_draft" ∨ operation = "validate" then
      author operation (relativeOf fields)
    else .error (invalidToolArgs "operation must be one of list, read, write_draft, validate")
  | _ => .error (invalidToolArgs "operation must be a string")

end

end Tea.App.ExtensionFiles
