/-
  Tea/Session/Store.lean
  ======================
  **The session store** (`SessionStore` of `app/session.rs`): processes save, load and
  list sessions in the directories of one Tea home.  A save is a sequence of file
  operations, each a step of its own that may fail; the steps of different processes
  interleave.  `targets` and `saves` are history: where each save was aimed, and the
  saves that returned without an error.
-/

import Tea.Session.Decode
import Tea.Async.Execution
import Mathlib.Data.List.AList
import Mathlib.Data.List.Sort

namespace Tea.Session

open Tea.Async Tea.Core Tea.Encoding

/-! ### Names -/

/-- `encoded_cwd` of a path, which is a string of bytes. -/
def encodedCwd (cwd : List UInt8) : String :=
  let path := (fromUtf8Lossy cwd).map fun c => if c = '\\' then '/' else c
  let path := (path.dropWhile (· = '/')).map fun c => if c = '/' ∨ c = ':' then '-' else c
  "--" ++ String.ofList path ++ "--"

/-- `replace([':', '.'], "-")` -/
def dashed (timestamp : String) : String :=
  String.ofList (timestamp.toList.map fun c => if c = ':' ∨ c = '.' then '-' else c)

def filenameTimestamp (timestamp : String) (now : UInt64) : String :=
  let sanitized := dashed timestamp
  if sanitized ≠ "" ∧ sanitized.toList.all (fun c => isAsciiAlphanumeric c || c = '-' || c = '_')
  then sanitized
  else dashed (timestampIso now)

/-- The name of the file of a session that is not stored yet. -/
def sessionName (timestamp id : String) (now : UInt64) : String :=
  filenameTimestamp timestamp now ++ "_" ++ id ++ ".jsonl"

def temporaryName (nonce : UInt64) : String := ".session-" ++ toString nonce.toNat ++ ".tmp"

/-- A name with the extension `jsonl`. -/
def isSessionName (name : String) : Bool :=
  ".jsonl".toList.isSuffixOf name.toList && name ≠ ".jsonl"

/-! ### Files -/

/-- A directory of the Tea home, and a name in it. -/
abbrev FileKey := String × String

structure StoredFile where
  bytes : List UInt8
  modifiedMs : UInt64
deriving DecidableEq

abbrev Home := AList fun _ : FileKey => StoredFile

def Home.read (home : Home) (key : FileKey) : Option StoredFile := home.lookup key

/-- A rename is atomic: the file at the target, if any, is replaced. -/
def Home.rename (home : Home) (source target : FileKey) : Home :=
  match home.lookup source with
  | some file => (home.erase source).insert target file
  | none => home

/-- The names that a directory lists. -/
def Home.names (home : Home) (directory : String) : List String :=
  (home.keys.filter fun key => key.1 = directory).map (·.2)

section

variable {F : Type} (codec : JsonCodec F)

/-- The record in a file, if it can be decoded. -/
def Home.record (home : Home) (key : FileKey) : Option SessionRecord :=
  (home.read key).bind fun file => (decodeFile codec key.2 file.bytes).toOption

/-- What `read_dir` gives: an error, or names in the order in which they are read; a name
    is missing where an operation on the entry fails. -/
abbrev Scan := Except String (List String)

def ioError {α : Type} (path message : String) : Except SessionError α :=
  .error (.io path message)

/-- `find_path` -/
def findPath (home : Home) (directory id : String) (scan : Scan) :
    Except SessionError (Option String) :=
  match scan with
  | .error message => ioError directory message
  | .ok names =>
      .ok (names.find? fun name =>
        isSessionName name && (home.record codec (directory, name)).any (·.id = id))

/-! ### Saving -/

/-- A call of `save`: the record, what `ensure_directory` and the scan of the directory
    come to, and the clock while the entries are encoded and when a name is made. -/
structure SaveCall where
  workspace : List UInt8
  record : SessionRecord
  ensure : Option SessionError := none
  scan : Scan := .ok []
  clock : Nat → UInt64 × UInt64 := fun _ => (0, 0)
  now : UInt64 := 0

def SaveCall.directory (call : SaveCall) : String := encodedCwd call.workspace

/-- A save on its way through the file system. -/
structure Saving where
  workspace : List UInt8
  record : SessionRecord
  temporary : FileKey
  destination : FileKey
  bytes : List UInt8

/-- The stamps of the entries, from a counter on. -/
def SaveCall.stamps (call : SaveCall) (nextId : UInt64) (k : Nat) : Stamp :=
  { nextId := nextId + UInt64.ofNat k, entryMs := (call.clock k).1,
    messageMs := (call.clock k).2 }

/-- `save` up to its first write: what it is going to do, and how many identifiers it
    took. -/
def prepare (home : Home) (nextId : UInt64) (call : SaveCall) :
    Except SessionError Saving × Nat :=
  match validateSessionId call.record.id with
  | .error message => (contract call.directory message, 0)
  | .ok () =>
      match call.ensure with
      | some error => (.error error, 0)
      | none =>
          match findPath codec home call.directory call.record.id call.scan with
          | .error error => (.error error, 0)
          | .ok found =>
              let name := found.getD
                (sessionName call.record.timestamp call.record.id call.now)
              let stamps := call.stamps nextId
              let entries := (encodeFile codec call.record stamps).length - 1
              let bytes := encodeUtf8 (encodeSource codec call.record stamps).toList
              if MAX_SESSION_BYTES < bytes.length then
                (contract name "session exceeds the 16 MiB safety limit", entries)
              else
                let nonce := nextId + UInt64.ofNat entries
                (.ok {
                  workspace := call.workspace, record := call.record
                  temporary := (call.directory, temporaryName nonce)
                  destination := (call.directory, name), bytes }, entries + 1)

/-- Where a process stands in a save. -/
inductive Stage where
  | idle
  | writing (saving : Saving)
  | protecting (saving : Saving)
  | renaming (saving : Saving)
  | removing (saving : Saving) (error : SessionError)

structure Process where
  nextId : UInt64 := 1
  stage : Stage := .idle

/-- A save that was started: where it was aimed, and its record. -/
structure Target where
  workspace : List UInt8
  destination : FileKey
  record : SessionRecord
deriving DecidableEq

/-- What the session picker shows of a session. -/
structure SessionSummary where
  id : String
  modifiedAtMs : UInt64
  cwd : String
  model : Option ModelDescriptor
  messageCount : Nat
deriving DecidableEq

/-- What a call returned. -/
inductive Answer where
  | saved (p : Nat) (result : Except SessionError FileKey)
  | loaded (p : Nat) (result : Except SessionError SessionRecord)
  | listed (p : Nat) (result : Except SessionError (List SessionSummary))
deriving DecidableEq

structure Store where
  home : Home := ∅
  processes : List Process
  targets : List Target := []
  saves : List Target := []
  answers : List Answer := []

namespace Store

variable (s : Store)

def stageOf (p : Nat) : Option Stage := (s.processes[p]?).map (·.stage)

def nextIdOf (p : Nat) : UInt64 := ((s.processes[p]?).map (·.nextId)).getD 1

def setProcess (p : Nat) (process : Process) : Store :=
  { s with processes := s.processes.set p process }

def setStage (p : Nat) (stage : Stage) : Store :=
  s.setProcess p { nextId := s.nextIdOf p, stage }

def answer (answer : Answer) : Store := { s with answers := s.answers ++ [answer] }

/-- The call of process `p` ends with an error. -/
def fail (p : Nat) (error : SessionError) : Store :=
  (s.setStage p .idle).answer (.saved p (.error error))

end Store

def Saving.target (saving : Saving) : Target :=
  { workspace := saving.workspace, destination := saving.destination, record := saving.record }

/-! ### Loading and listing -/

/-- `load` -/
def load (home : Home) (workspace : List UInt8) (id : String) (scan : Scan) :
    Except SessionError SessionRecord := do
  let directory := encodedCwd workspace
  match validateSessionId id with
  | .error message => contract directory message
  | .ok () =>
      match ← findPath codec home directory id scan with
      | none => ioError directory "entity not found"
      | some name =>
          match home.read (directory, name) with
          | some file => decodeFile codec name file.bytes
          | none => ioError name "entity not found"

/-- The summary of a file, if it is a session. -/
def summaryOf (home : Home) (directory name : String) : Option SessionSummary :=
  if isSessionName name then
    (home.read (directory, name)).bind fun file =>
      (decodeFile codec name file.bytes).toOption.map fun record =>
        { id := record.id, modifiedAtMs := file.modifiedMs, cwd := record.cwd,
          model := record.model, messageCount := record.messages.length }
  else none

/-- The newest session first. -/
def newest (left right : SessionSummary) : Bool :=
  right.modifiedAtMs < left.modifiedAtMs ||
    (left.modifiedAtMs = right.modifiedAtMs && left.id ≤ right.id)

/-- `list` -/
def list (home : Home) (workspace : List UInt8) (scan : Scan) :
    Except SessionError (List SessionSummary) :=
  let directory := encodedCwd workspace
  match scan with
  | .error message => ioError directory message
  | .ok names =>
      .ok ((names.filterMap (summaryOf codec home directory)).insertionSort fun a b =>
        newest a b = true)

/-! ### Steps -/

/-- The steps of the processes.  A file operation fails with a message; a failed write
    leaves some bytes behind, or nothing. -/
inductive Label where
  | begin (p : Nat) (call : SaveCall)
  | write (p : Nat) (now : UInt64)
  | writeFails (p : Nat) (left : Option StoredFile) (message : String)
  | protect (p : Nat)
  | protectFails (p : Nat) (message : String)
  | rename (p : Nat)
  | renameFails (p : Nat) (message : String)
  | remove (p : Nat)
  | removeFails (p : Nat)
  | takeId (p : Nat)
  | load (p : Nat) (workspace : List UInt8) (id : String) (scan : Scan)
  | list (p : Nat) (workspace : List UInt8) (scan : Scan)

/-- A scan gives names of the directory, each at most once. -/
def Home.scans (home : Home) (directory : String) : Scan → Bool
  | .error _ => true
  | .ok names => decide names.Nodup && names.all fun name => name ∈ home.names directory

namespace Store

variable (s : Store)

/-- One step; none where the label is not enabled. -/
def step : Label → Option Store
  | .begin p call =>
      match s.stageOf p with
      | some .idle =>
          if s.home.scans call.directory call.scan then
            let (result, taken) := prepare codec s.home (s.nextIdOf p) call
            let nextId := s.nextIdOf p + UInt64.ofNat taken
            match result with
            | .error error =>
                some ((s.setProcess p { nextId, stage := .idle }).answer
                  (.saved p (.error error)))
            | .ok saving =>
                some { s.setProcess p { nextId, stage := .writing saving } with
                  targets := s.targets ++ [saving.target] }
          else none
      | _ => none
  | .write p now =>
      match s.stageOf p with
      | some (.writing saving) =>
          some { s.setStage p (.protecting saving) with
            home := s.home.insert saving.temporary ⟨saving.bytes, now⟩ }
      | _ => none
  | .writeFails p left message =>
      match s.stageOf p with
      | some (.writing saving) =>
          let home :=
            match left with
            | some file => s.home.insert saving.temporary file
            | none => s.home
          some ({ s with home }.fail p (.io saving.temporary.2 message))
      | _ => none
  | .protect p =>
      match s.stageOf p with
      | some (.protecting saving) =>
          if (s.home.read saving.temporary).isSome then some (s.setStage p (.renaming saving))
          else none
      | _ => none
  | .protectFails p message =>
      match s.stageOf p with
      | some (.protecting saving) =>
          some (s.setStage p (.removing saving (.io saving.temporary.2 message)))
      | _ => none
  | .rename p =>
      match s.stageOf p with
      | some (.renaming saving) =>
          if (s.home.read saving.temporary).isSome then
            some ({ s.setStage p .idle with
              home := s.home.rename saving.temporary saving.destination
              saves := s.saves ++ [saving.target] }.answer (.saved p (.ok saving.destination)))
          else none
      | _ => none
  | .renameFails p message =>
      match s.stageOf p with
      | some (.renaming saving) =>
          some (s.setStage p (.removing saving (.io saving.destination.2 message)))
      | _ => none
  | .remove p =>
      match s.stageOf p with
      | some (.removing saving error) =>
          some ({ s with home := s.home.erase saving.temporary }.fail p error)
      | _ => none
  | .removeFails p =>
      match s.stageOf p with
      | some (.removing _ error) => some (s.fail p error)
      | _ => none
  | .takeId p =>
      match s.stageOf p with
      | some stage => some (s.setProcess p { nextId := s.nextIdOf p + 1, stage })
      | none => none
  | .load p workspace id scan =>
      match s.stageOf p with
      | some .idle =>
          if s.home.scans (encodedCwd workspace) scan then
            some (s.answer (.loaded p (Session.load codec s.home workspace id scan)))
          else none
      | _ => none
  | .list p workspace scan =>
      match s.stageOf p with
      | some .idle =>
          if s.home.scans (encodedCwd workspace) scan then
            some (s.answer (.listed p (Session.list codec s.home workspace scan)))
          else none
      | _ => none

end Store

/-- The executions of the store. -/
abbrev StoreRuns (start : Store) :=
  Execution (fun (s : Store) label s' => s.step codec label = some s') start

end

end Tea.Session
