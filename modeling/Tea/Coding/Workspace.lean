/-
  Tea/Coding/Workspace.lean
  =========================
  **The workspace of the coding tools** (`WorkspaceRoot` of `tools/workspace.rs`): a path is
  resolved by its letters first and by the file system then, and has to stay inside both times.
-/
import Tea.Coding.Arguments
import Tea.Encoding.Utf8
import Tea.Files.Tree

namespace Tea.Coding

open Tea.Encoding Tea.Files

/-- A canonical directory. -/
structure WorkspaceRoot (fs : FileSystem) where
  path : List FileName
  directory : ∃ entries, fs.get path = some (.dir entries)

def escapes : OperationError := ⟨"path escapes the workspace root"⟩

/-- The loop of `lexically_resolve` over the segments of a path; a parent of the top is an
    error. -/
def resolveSegments :
    List (List UInt8) → List (List UInt8) → Except OperationError (List (List UInt8))
  | done, [] => .ok done
  | done, segment :: rest =>
    if segment = [] ∨ segment = [46] then resolveSegments done rest
    else if segment = [46, 46] then
      if done = [] then .error escapes else resolveSegments done.dropLast rest
    else resolveSegments (done ++ [segment]) rest

/-- `Path::exists` -/
def pathExists (fs : FileSystem) (path : List (List UInt8)) : Bool :=
  path.all (fun segment => 0 ∉ segment) && (canonicalize fs (path.map stepOf)).isOk

/-- `fs::canonicalize`, with the text of its error. -/
def canonicalPath (fs : FileSystem) (path : List (List UInt8)) : Except String (List FileName) :=
  if path.any fun segment => 0 ∈ segment then
    .error "file name contained an unexpected NUL byte"
  else (canonicalize fs (path.map stepOf)).mapError PathError.display

/-- The longest part of a path that exists, and the segments behind it. -/
def existingPart (fs : FileSystem) : Nat → List (List UInt8) →
    List (List UInt8) × List (List UInt8)
  | 0, path => (path, [])
  | fuel + 1, path =>
    if pathExists fs path then (path, [])
    else
      let (existing, suffix) := existingPart fs fuel path.dropLast
      (existing, suffix ++ path.getLast?.toList)

namespace WorkspaceRoot

variable {fs : FileSystem} (root : WorkspaceRoot fs)

/-- The segments of the root. -/
def segments : List (List UInt8) := root.path.map Subtype.val

/-- `ensure_inside` -/
def ensureInside (path : List (List UInt8)) : Except OperationError Unit :=
  if root.segments <+: path then .ok () else .error escapes

def lexicallyResolve (input : String) : Except OperationError (List (List UInt8)) :=
  let bytes := encodeUtf8 input.toList
  if bytes = [] then .error ⟨"path cannot be empty"⟩
  else
    let start := if bytes.head? = some 47 then [] else root.segments
    match resolveSegments start (Files.segments bytes) with
    | .error error => .error error
    | .ok path => (root.ensureInside path).map fun _ => path

def resolveExisting (input : String) : Except OperationError (List FileName) :=
  match root.lexicallyResolve input with
  | .error error => .error error
  | .ok candidate =>
    match canonicalPath fs candidate with
    | .error message => .error ⟨"path is not accessible: " ++ message⟩
    | .ok resolved => (root.ensureInside (resolved.map Subtype.val)).map fun _ => resolved

/-- The canonical part of the path that exists, and what is still to be made behind it. -/
def resolveForWrite (input : String) :
    Except OperationError (List FileName × List (List UInt8)) :=
  match root.lexicallyResolve input with
  | .error error => .error error
  | .ok candidate =>
    let (existing, suffix) := existingPart fs candidate.length candidate
    match canonicalPath fs existing with
    | .error message => .error ⟨"write parent is not accessible: " ++ message⟩
    | .ok resolved =>
      match root.ensureInside (resolved.map Subtype.val) with
      | .error error => .error error
      | .ok () =>
        (root.ensureInside (resolved.map Subtype.val ++ suffix)).map fun _ => (resolved, suffix)

end WorkspaceRoot

end Tea.Coding
