/-
  Tea/Session/Holdings.lean
  =========================
  **What the files of a Tea home hold.**  A session file is the complete encoding of a
  record that was saved to it (`Encodes`), the names of sessions and of temporary files
  are apart, and a save that is prepared aims at a file of its own session or at a new
  name (`prepare_ok`).
-/

import Tea.Session.Store
import Tea.Session.RoundTrip

namespace Tea.Session

open Tea.Core Tea.Encoding

/-! ### Names -/

theorem isSessionName_append {stem : String} (h : stem ≠ "") :
    isSessionName (stem ++ ".jsonl") = true := by
  have hne : stem.toList ≠ [] := by
    intro hnil
    exact h (String.toList_eq_nil_iff.mp hnil)
  simp only [isSessionName, Bool.and_eq_true, List.isSuffixOf_iff_suffix, String.toList_append,
    List.suffix_append, true_and]
  simp only [ne_eq, decide_eq_true_eq]
  intro heq
  have hlength := congrArg (fun name => name.toList.length) heq
  simp only [String.toList_append, List.length_append] at hlength
  exact hne (List.length_eq_zero_iff.mp (by omega))

theorem isSessionName_sessionName (timestamp id : String) (now : UInt64) :
    isSessionName (sessionName timestamp id now) = true := by
  apply isSessionName_append
  intro hempty
  have hlist := congrArg String.toList hempty
  simp at hlist

theorem isSessionName_temporaryName (nonce : UInt64) :
    isSessionName (temporaryName nonce) = false := by
  have hend : (temporaryName nonce).toList.getLast? = some 'p' := by
    rw [temporaryName, String.toList_append, List.getLast?_append]
    rfl
  rw [isSessionName, Bool.and_eq_false_imp]
  intro hsuffix
  rw [List.isSuffixOf_iff_suffix] at hsuffix
  obtain ⟨stem, hstem⟩ := hsuffix
  rw [← hstem] at hend
  simp at hend

/-! ### Files -/

theorem Home.read_insert (home : Home) (key other : FileKey) (file : StoredFile) :
    Home.read (home.insert key file) other =
      if other = key then some file else home.read other := by
  unfold Home.read
  split_ifs with heq
  · subst heq
    exact AList.lookup_insert home
  · exact AList.lookup_insert_ne heq

theorem Home.read_erase (home : Home) (key other : FileKey) :
    Home.read (home.erase key) other = if other = key then none else home.read other := by
  unfold Home.read
  split_ifs with heq
  · subst heq
    exact AList.lookup_erase other home
  · exact AList.lookup_erase_ne heq

/-- A rename moves a file. -/
theorem Home.read_rename {home : Home} {source target : FileKey} {file : StoredFile}
    (h : home.read source = some file) (other : FileKey) :
    (home.rename source target).read other =
      if other = target then some file
      else if other = source then none else home.read other := by
  have hlookup : home.lookup source = some file := h
  rw [Home.rename, hlookup, Home.read_insert, Home.read_erase]

/-! ### Encodings -/

section

variable {F : Type} {codec : JsonCodec F}

/-- The bytes are the complete encoding of the record. -/
def Encodes (codec : JsonCodec F) (record : SessionRecord) (bytes : List UInt8) : Prop :=
  validateSessionId record.id = .ok () ∧ bytes.length ≤ MAX_SESSION_BYTES ∧
    ∃ stamps, bytes = encodeUtf8 (encodeSource codec record stamps).toList

theorem Encodes.decode {record : SessionRecord} {bytes : List UInt8}
    (h : Encodes codec record bytes) (path : String) :
    decodeFile codec path bytes = .ok (rereadRecord codec record) := by
  obtain ⟨hid, hsize, stamps, rfl⟩ := h
  exact decodeFile_encode hid stamps hsize

/-- The record of a file that encodes one. -/
theorem Encodes.record {home : Home} {key : FileKey} {file : StoredFile} {record : SessionRecord}
    (h : Encodes codec record file.bytes) (hread : home.read key = some file) :
    home.record codec key = some (rereadRecord codec record) := by
  rw [Home.record, hread, Option.bind_some, h.decode]
  rfl

/-- **A save that is prepared** has a valid record, a temporary name and its encoding; it
    aims at a file in which the scan found its session, or at the name made for it. -/
theorem prepare_ok {home : Home} {nextId : UInt64} {call : SaveCall} {saving : Saving}
    {taken : Nat} (h : prepare codec home nextId call = (.ok saving, taken)) :
    saving.workspace = call.workspace ∧ saving.record = call.record ∧
      Encodes codec call.record saving.bytes ∧
      (∃ nonce, saving.temporary = (call.directory, temporaryName nonce)) ∧
      ∃ found, findPath codec home call.directory call.record.id call.scan = .ok found ∧
        saving.destination = (call.directory,
          found.getD (sessionName call.record.timestamp call.record.id call.now)) := by
  unfold prepare at h
  split at h
  · cases h
  · rename_i hid
    split at h
    · cases h
    · split at h
      · cases h
      · rename_i found hfound
        dsimp only at h
        split_ifs at h with hsize
        · cases h
        · cases h
          refine ⟨rfl, rfl, ⟨hid, Nat.le_of_not_lt hsize, _, rfl⟩, ⟨_, rfl⟩, found, hfound, rfl⟩

/-- A save of a valid record that fits is prepared. -/
theorem prepare_fits {nextId : UInt64} {call : SaveCall} {found : Option String}
    (hid : validateSessionId call.record.id = .ok ()) (hensure : call.ensure = none)
    (hsize : (encodeUtf8 (encodeSource codec call.record (call.stamps nextId)).toList).length ≤
      MAX_SESSION_BYTES) :
    ∃ saving taken,
      (∀ home, findPath codec home call.directory call.record.id call.scan = .ok found →
        prepare codec home nextId call = (.ok saving, taken)) ∧
      saving.temporary = (call.directory, temporaryName (nextId +
        UInt64.ofNat ((encodeFile codec call.record (call.stamps nextId)).length - 1))) := by
  let saving : Saving := {
    workspace := call.workspace
    record := call.record
    temporary := (call.directory, temporaryName (nextId +
      UInt64.ofNat ((encodeFile codec call.record (call.stamps nextId)).length - 1)))
    destination := (call.directory,
      found.getD (sessionName call.record.timestamp call.record.id call.now))
    bytes := encodeUtf8 (encodeSource codec call.record (call.stamps nextId)).toList }
  refine ⟨saving, (encodeFile codec call.record (call.stamps nextId)).length - 1 + 1, ?_, rfl⟩
  intro home hfound
  unfold prepare
  rw [hid, hensure, hfound]
  exact if_neg (Nat.not_lt.mpr hsize)

/-- A name that the scan finds is the name of a session file with the record's id. -/
theorem findPath_some {home : Home} {directory id name : String} {scan : Scan}
    (h : findPath codec home directory id scan = .ok (some name)) :
    isSessionName name = true ∧ ∃ record, home.record codec (directory, name) = some record ∧
      record.id = id := by
  unfold findPath at h
  split at h
  · cases h
  · rw [Except.ok.injEq] at h
    have hfound := List.find?_some h
    rw [Bool.and_eq_true, Option.any_eq_true] at hfound
    obtain ⟨hname, record, hrecord, hid⟩ := hfound
    exact ⟨hname, record, hrecord, by simpa using hid⟩

end

end Tea.Session
