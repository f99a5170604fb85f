/-
  Tea/Contract/ConcurrentSaves.lean
  =================================
  **Saves of several processes into one Tea home.**  A temporary name is unique within a
  process, but the directory is shared: with equal counters two processes write the same
  temporary file, and one renames what the other wrote (`sessions_mixed`).  In every run
  in which no process writes a temporary file that another one is still using, and no new
  file takes the name of another session's, each session file is the complete encoding of
  a record saved to it, and a save that returns has stored its own record
  (`saves_kept_apart`).
-/

import Tea.Session.Moves
import Tea.Contract.SessionRoundTrip

namespace Tea.Contract

open Tea.Async Tea.Core Tea.Encoding Tea.Session

section

variable {F : Type} (codec : JsonCodec F)

/-! ### What the files hold -/

/-- Each session file is the complete encoding of a record that was saved to it, and all
    saves aimed at it are of the session of that record. -/
def FilesOwned (s : Store) : Prop :=
  ∀ key file, isSessionName key.2 = true → s.home.read key = some file →
    ∃ t ∈ s.saves, t.destination = key ∧ Encodes codec t.record file.bytes ∧
      ∀ t' ∈ s.targets, t'.destination = key → t'.record.id = t.record.id

/-- Saves that were aimed at one file are of one session. -/
def OneSession (targets : List Target) : Prop :=
  ∀ t ∈ targets, ∀ t' ∈ targets, t.destination = t'.destination → t.record.id = t'.record.id

/-- No save is under way; the files are those of earlier saves. -/
structure AtRest (s : Store) : Prop where
  idle : ∀ process ∈ s.processes, process.stage = .idle
  saved : ∀ t ∈ s.saves, t ∈ s.targets
  targets : OneSession s.targets
  files : FilesOwned codec s

/-! ### The condition -/

/-- The temporary file that a process has written and still uses. -/
def temporaryOf : Stage → Option FileKey
  | .protecting saving | .renaming saving | .removing saving _ => some saving.temporary
  | .idle | .writing _ => none

/-- No other process uses the temporary file that `p` is about to write. -/
def WritesAlone (s : Store) (p : Nat) : Prop :=
  ∀ saving, s.stageOf p = some (.writing saving) →
    ∀ q < s.processes.length, q ≠ p → (s.stageOf q).bind temporaryOf ≠ some saving.temporary

/-- The name for a session that the scan does not find is not that of another session. -/
def NamesOwnFile (s : Store) (call : SaveCall) : Prop :=
  findPath codec s.home call.directory call.record.id call.scan = .ok none →
    ∀ t ∈ s.targets,
      t.destination =
        (call.directory, sessionName call.record.timestamp call.record.id call.now) →
      t.record.id = call.record.id

/-- The transition takes no file of another process or of another session. -/
def TakesOwn (t : Transition Store Label) : Prop :=
  match t.label with
  | .begin _ call => NamesOwnFile codec t.before call
  | .write p _ | .writeFails p _ _ => WritesAlone t.before p
  | _ => True

end

/-! ### The invariant -/

section

variable {F : Type} {codec : JsonCodec F} {s s' : Store}

/-- A save under way: it was aimed, it has the encoding of its record, and its names are
    those of a session and of a temporary file. -/
structure Aimed (codec : JsonCodec F) (s : Store) (saving : Saving) : Prop where
  target : saving.target ∈ s.targets
  encodes : Encodes codec saving.record saving.bytes
  destination : isSessionName saving.destination.2 = true
  temporary : isSessionName saving.temporary.2 = false

/-- The temporary file is what the save wrote. -/
def Stored (s : Store) (saving : Saving) : Prop :=
  ∃ file, s.home.read saving.temporary = some file ∧ file.bytes = saving.bytes

def StageSound (codec : JsonCodec F) (s : Store) : Stage → Prop
  | .idle => True
  | .writing saving | .removing saving _ => Aimed codec s saving
  | .protecting saving | .renaming saving => Aimed codec s saving ∧ Stored s saving

/-- No process other than `p` uses the file. -/
def FreeFor (s : Store) (p : Nat) (key : FileKey) : Prop :=
  ∀ q ≠ p, ∀ stage, s.stageOf q = some stage → temporaryOf stage ≠ some key

structure Sound (codec : JsonCodec F) (s : Store) : Prop where
  saved : ∀ t ∈ s.saves, t ∈ s.targets
  targets : OneSession s.targets
  files : ∀ key file, isSessionName key.2 = true → s.home.read key = some file →
    ∃ t ∈ s.saves, t.destination = key ∧ Encodes codec t.record file.bytes
  stages : ∀ p stage, s.stageOf p = some stage → StageSound codec s stage
  apart : ∀ p stage key, s.stageOf p = some stage → temporaryOf stage = some key →
    FreeFor s p key

theorem Sound.filesOwned (h : Sound codec s) : FilesOwned codec s := by
  intro key file hname hread
  obtain ⟨t, ht, hkey, hencodes⟩ := h.files key file hname hread
  refine ⟨t, ht, hkey, hencodes, ?_⟩
  intro t' ht' hkey'
  apply h.targets t' ht' t (h.saved t ht)
  rw [hkey, hkey']

theorem AtRest.sound (h : AtRest codec s) : Sound codec s := by
  have hidle : ∀ p stage, s.stageOf p = some stage → stage = .idle := by
    intro p stage hstage
    obtain ⟨process, hprocess, rfl⟩ := Option.map_eq_some_iff.mp hstage
    exact h.idle process (List.mem_of_getElem? hprocess)
  constructor
  · exact h.saved
  · exact h.targets
  · intro key file hname hread
    obtain ⟨t, ht, hkey, hencodes, -⟩ := h.files key file hname hread
    exact ⟨t, ht, hkey, hencodes⟩
  · intro p stage hstage
    rw [hidle p stage hstage]
    trivial
  · intro p stage key hstage hkey
    rw [hidle p stage hstage] at hkey
    cases hkey

/-! ### Steps -/

theorem Aimed.more {saving : Saving} (h : Aimed codec s saving)
    (htargets : ∀ t ∈ s.targets, t ∈ s'.targets) : Aimed codec s' saving :=
  ⟨htargets _ h.target, h.encodes, h.destination, h.temporary⟩

/-- A stage stays sound while its temporary file is left alone. -/
theorem StageSound.more {stage : Stage} (h : StageSound codec s stage)
    (htargets : ∀ t ∈ s.targets, t ∈ s'.targets)
    (hhome : ∀ key, temporaryOf stage = some key → s'.home.read key = s.home.read key) :
    StageSound codec s' stage := by
  cases stage with
  | idle => trivial
  | writing saving => exact Aimed.more h htargets
  | removing saving error => exact Aimed.more h htargets
  | protecting saving =>
    refine ⟨Aimed.more h.1 htargets, ?_⟩
    rw [Stored, hhome saving.temporary rfl]
    exact h.2
  | «renaming» saving =>
    refine ⟨Aimed.more h.1 htargets, ?_⟩
    rw [Stored, hhome saving.temporary rfl]
    exact h.2

/-- A move of `p` that leaves the temporary files of the others alone keeps the stages. -/
theorem Sound.move (h : Sound codec s) {p : Nat} {new : Stage}
    (hstages : ∀ q, s'.stageOf q = if q = p then some new else s.stageOf q)
    (htargets : ∀ t ∈ s.targets, t ∈ s'.targets)
    (hhome : ∀ key, ¬ FreeFor s p key → s'.home.read key = s.home.read key)
    (hnew : StageSound codec s' new)
    (hfree : ∀ key, temporaryOf new = some key → FreeFor s p key) :
    (∀ q stage, s'.stageOf q = some stage → StageSound codec s' stage) ∧
      ∀ q stage key, s'.stageOf q = some stage → temporaryOf stage = some key →
        FreeFor s' q key := by
  constructor
  · intro q stage hstage
    rw [hstages] at hstage
    split_ifs at hstage with hq
    · cases hstage
      exact hnew
    · apply StageSound.more (h.stages q stage hstage) htargets
      intro key hkey
      apply hhome
      intro hfreeFor
      exact hfreeFor q hq stage hstage hkey
  · intro q stage key hstage hkey r hr other hother heq
    rw [hstages] at hstage hother
    split_ifs at hstage hother with hq hrp hrp
    · exact hr (hrp.trans hq.symm)
    · cases hstage
      exact hfree key hkey r hrp other hother heq
    · cases hother
      exact hfree key heq q hq stage hstage hkey
    · exact h.apart q stage key hstage hkey r hr other hother heq

/-- A move that starts and completes no save, and changes at most temporary files that
    no other process uses. -/
theorem Sound.update (h : Sound codec s) {p : Nat} {new : Stage}
    (hstages : ∀ q, s'.stageOf q = if q = p then some new else s.stageOf q)
    (htargets : s'.targets = s.targets) (hsaves : s'.saves = s.saves)
    (hhome : ∀ key, s'.home.read key = s.home.read key ∨
      isSessionName key.2 = false ∧ FreeFor s p key)
    (hnew : StageSound codec s' new)
    (hfree : ∀ key, temporaryOf new = some key → FreeFor s p key) : Sound codec s' := by
  obtain ⟨hsound, hapart⟩ := h.move hstages (fun t ht => by rwa [htargets])
    (fun key hused => (hhome key).resolve_right fun hother => hused hother.2) hnew hfree
  refine ⟨?_, ?_, ?_, hsound, hapart⟩
  · rw [hsaves, htargets]
    exact h.saved
  · rw [htargets]
    exact h.targets
  · intro key file hname hread
    rcases hhome key with hsame | ⟨hplain, -⟩
    · rw [hsame] at hread
      rw [hsaves]
      exact h.files key file hname hread
    · rw [hname] at hplain
      cases hplain

/-- The temporary files in use are not session files. -/
theorem Sound.temporary_plain (h : Sound codec s) {q : Nat} {stage : Stage} {key : FileKey}
    (hstage : s.stageOf q = some stage) (hkey : temporaryOf stage = some key) :
    isSessionName key.2 = false := by
  have hsound := h.stages q stage hstage
  cases stage with
  | idle => cases hkey
  | writing saving => cases hkey
  | protecting saving =>
    cases hkey
    exact hsound.1.temporary
  | «renaming» saving =>
    cases hkey
    exact hsound.1.temporary
  | removing saving error =>
    cases hkey
    exact hsound.temporary

/-- Where `p` writes alone, its temporary file is free for it. -/
theorem WritesAlone.freeFor {p : Nat} {saving : Saving} (h : WritesAlone s p)
    (hstage : s.stageOf p = some (.writing saving)) : FreeFor s p saving.temporary := by
  intro q hq stage hother hkey
  apply h saving hstage q (Store.lt_of_stageOf hother) hq
  rw [hother, Option.bind_some, hkey]

/-- A prepared save is aimed, at a file of its own session. -/
theorem Sound.aimed (h : Sound codec s) {call : SaveCall} {saving : Saving} {nextId : UInt64}
    {taken : Nat} (hprepared : prepare codec s.home nextId call = (.ok saving, taken))
    (hnames : NamesOwnFile codec s call) (htargets : s'.targets = s.targets ++ [saving.target]) :
    Aimed codec s' saving ∧
      ∀ t ∈ s.targets, t.destination = saving.destination → t.record.id = saving.record.id := by
  obtain ⟨-, hrecord, hencodes, ⟨nonce, htemporary⟩, found, hfound, hdestination⟩ :=
    prepare_ok hprepared
  have htarget : saving.target ∈ s'.targets := by simp [htargets]
  have hplain : isSessionName saving.temporary.2 = false := by
    rw [htemporary]
    exact isSessionName_temporaryName nonce
  rw [← hrecord] at hencodes hfound
  cases found with
  | none =>
    refine ⟨⟨htarget, hencodes, ?_, hplain⟩, ?_⟩
    · rw [hdestination]
      exact isSessionName_sessionName ..
    · intro t ht hkey
      rw [hrecord]
      rw [hrecord] at hfound
      exact hnames hfound t ht (hkey.trans hdestination)
  | some name =>
    obtain ⟨hname, record, hread, hid⟩ := findPath_some hfound
    obtain ⟨file, hfile, -⟩ := Option.bind_eq_some_iff.mp hread
    obtain ⟨t, ht, hkey, hstored⟩ :=
      h.files (call.directory, name) file hname hfile
    have hsame : record = rereadRecord codec t.record :=
      Option.some.inj (hread.symm.trans (hstored.record hfile))
    refine ⟨⟨htarget, hencodes, ?_, hplain⟩, ?_⟩
    · rw [hdestination]
      exact hname
    · intro t' ht' hkey'
      have hid' := h.targets t' ht' t (h.saved t ht)
        (hkey'.trans (hdestination.trans hkey.symm))
      rw [hid', ← hid, hsame]
      rfl

/-- A rename puts the encoding of its record into the session file. -/
theorem Sound.stored (h : Sound codec s) {p : Nat} {saving : Saving} {file : StoredFile}
    (hold : s.stageOf p = some (.renaming saving))
    (htemporary : s.home.read saving.temporary = some file) :
    Encodes codec saving.record file.bytes := by
  obtain ⟨haimed, other, hother, hbytes⟩ := h.stages p _ hold
  rw [htemporary] at hother
  cases hother
  rw [hbytes]
  exact haimed.encodes

theorem Sound.renamed (h : Sound codec s) {p : Nat} {saving : Saving} {file : StoredFile}
    (hold : s.stageOf p = some (.renaming saving))
    (hstages : ∀ q, s'.stageOf q = if q = p then some .idle else s.stageOf q)
    (htemporary : s.home.read saving.temporary = some file)
    (hhome : s'.home = s.home.rename saving.temporary saving.destination)
    (htargets : s'.targets = s.targets) (hsaves : s'.saves = s.saves ++ [saving.target]) :
    Sound codec s' := by
  have haimed : Aimed codec s saving := (h.stages p _ hold).1
  have hread : ∀ key, s'.home.read key = if key = saving.destination then some file
      else if key = saving.temporary then none else s.home.read key := by
    intro key
    rw [hhome]
    exact Home.read_rename htemporary key
  have hother : ∀ key, ¬ FreeFor s p key → s'.home.read key = s.home.read key := by
    intro key hused
    have hsource : key ≠ saving.temporary := by
      rintro rfl
      exact hused (h.apart p _ _ hold rfl)
    have htarget : key ≠ saving.destination := by
      rintro rfl
      apply hused
      intro q hq stage hstage hkey
      have hplain := h.temporary_plain hstage hkey
      rw [haimed.destination] at hplain
      cases hplain
    rw [hread, if_neg htarget, if_neg hsource]
  obtain ⟨hsound, hapart⟩ := h.move hstages (fun t ht => by rwa [htargets]) hother trivial
    (fun key hkey => by cases hkey)
  refine ⟨?_, ?_, ?_, hsound, hapart⟩
  · intro t ht
    rw [hsaves, List.mem_append, List.mem_singleton] at ht
    rw [htargets]
    rcases ht with ht | rfl
    · exact h.saved t ht
    · exact haimed.target
  · rw [htargets]
    exact h.targets
  · intro key other hname hkey
    rw [hread] at hkey
    rw [hsaves]
    split_ifs at hkey with htarget hsource
    · cases hkey
      refine ⟨saving.target, by simp, htarget.symm, ?_⟩
      exact h.stored hold htemporary
    · obtain ⟨t, ht, hdestination, hencodes⟩ := h.files key other hname hkey
      exact ⟨t, List.mem_append_left _ ht, hdestination, hencodes⟩

/-- **A step that takes no file of another keeps the invariant.** -/
theorem Sound.step (h : Sound codec s) {label : Label} (hstep : s.step codec label = some s')
    (hown : TakesOwn codec ⟨s, label, s'⟩) : Sound codec s' := by
  obtain ⟨p, old, new, hold, hstages, hmove⟩ := step_moves hstep
  have hlive := h.stages p old hold
  cases hmove with
  | @begins p call saving taken prepared home targets saves =>
    obtain ⟨haimed, hsession⟩ := h.aimed prepared hown targets
    obtain ⟨hsound, hapart⟩ := h.move hstages (fun t ht => by simp [targets, ht])
      (fun key _ => by rw [home]) haimed (fun key hkey => by cases hkey)
    refine ⟨?_, ?_, ?_, hsound, hapart⟩
    · intro t ht
      rw [saves] at ht
      rw [targets]
      exact List.mem_append_left _ (h.saved t ht)
    · intro t ht t' ht' hkey
      rw [targets, List.mem_append, List.mem_singleton] at ht ht'
      rcases ht with ht | rfl
      · rcases ht' with ht' | rfl
        · exact h.targets t ht t' ht' hkey
        · exact hsession t ht hkey
      · rcases ht' with ht' | rfl
        · exact (hsession t' ht' hkey.symm).symm
        · rfl
    · rw [home, saves]
      exact h.files
  | @writes p now saving home targets saves =>
    have hfree := hown.freeFor hold
    have hread := Home.read_insert s.home saving.temporary
    have haimed : Aimed codec s' saving := Aimed.more hlive fun t ht => by rwa [targets]
    refine h.update hstages targets saves ?_ ⟨haimed, ?_⟩ ?_
    · intro key
      by_cases hkey : key = saving.temporary
      · right
        rw [hkey]
        exact ⟨haimed.temporary, hfree⟩
      · left
        rw [home, hread, if_neg hkey]
    · refine ⟨⟨saving.bytes, now⟩, ?_, rfl⟩
      rw [home, hread, if_pos rfl]
    · intro key hkey
      cases hkey
      exact hfree
  | @writeFails p left message saving home targets saves =>
    have hfree := hown.freeFor hold
    refine h.update hstages targets saves ?_ trivial (fun key hkey => by cases hkey)
    intro key
    by_cases hkey : key = saving.temporary
    · right
      rw [hkey]
      exact ⟨hlive.temporary, hfree⟩
    · left
      exact home key hkey
  | @protects p saving files =>
    refine h.update hstages files.targets files.saves (fun key => .inl (by rw [files.home])) ?_ ?_
    · apply StageSound.more hlive
      · intro t ht
        rwa [files.targets]
      · intro key _
        rw [files.home]
    · intro key hkey
      exact h.apart p _ key hold hkey
  | @fails label p old saving error stage files =>
    refine h.update hstages files.targets files.saves (fun key => .inl (by rw [files.home])) ?_ ?_
    · have haimed : Aimed codec s saving := by
        rcases stage with rfl | rfl
        · exact hlive.1
        · exact hlive.1
      apply haimed.more
      intro t ht
      rwa [files.targets]
    · intro key hkey
      apply h.apart p _ key hold
      rcases stage with rfl | rfl
      · exact hkey
      · exact hkey
  | @renames p saving file temporary home targets saves =>
    exact h.renamed hold hstages temporary home targets saves
  | @removes p saving error home targets saves =>
    refine h.update hstages targets saves ?_ trivial (fun key hkey => by cases hkey)
    intro key
    by_cases hkey : key = saving.temporary
    · right
      rw [hkey]
      exact ⟨hlive.temporary, h.apart p _ _ hold rfl⟩
    · left
      rw [home, Home.read_erase, if_neg hkey]
  | @rests label p old new stage files =>
    refine h.update hstages files.targets files.saves (fun key => .inl (by rw [files.home])) ?_ ?_
    · rcases stage with rfl | rfl
      · apply StageSound.more hlive
        · intro t ht
          rwa [files.targets]
        · intro key _
          rw [files.home]
      · trivial
    · intro key hkey
      rcases stage with rfl | rfl
      · exact h.apart p _ key hold hkey
      · cases hkey

/-- **Saves are kept apart**: every session file is at all times the complete encoding of
    a record saved to it, all saves to it are of one session, and a save that returns has
    stored its own record. -/
theorem saves_kept_apart {start : Store} {past : List (Transition Store Label)}
    (hrun : StoreRuns codec start past s) (hrest : AtRest codec start)
    (hown : ∀ t ∈ past, TakesOwn codec t) :
    FilesOwned codec s ∧
      ∀ t ∈ past, ∀ p key,
        t.after.answers = t.before.answers ++ [Answer.saved p (.ok key)] →
        ∃ saving file, t.before.stageOf p = some (.renaming saving) ∧
          saving.destination = key ∧ t.after.home.read key = some file ∧
          Encodes codec saving.record file.bytes := by
  have hstep : ∀ s label s', s.step codec label = some s' → TakesOwn codec ⟨s, label, s'⟩ →
      Sound codec s → Sound codec s' := fun s label s' hmade howned h => h.step hmade howned
  refine ⟨(hrun.invariant hrest.sound hstep hown).filesOwned, ?_⟩
  intro t ht p key hanswer
  have hmade := hrun.always hrest.sound hstep hown t ht
  obtain ⟨q, old, new, hold, -, hmove⟩ := step_moves hmade.2
  obtain ⟨saving, file, rfl, rfl, rfl, htemporary, hhome⟩ := hmove.of_saved hanswer
  refine ⟨saving, file, hold, rfl, ?_, hmade.1.stored hold htemporary⟩
  rw [hhome, Home.read_rename htemporary, if_pos rfl]

end

/-! ### Two processes with equal counters -/

/-- Two processes that have just started. -/
def twoProcesses : Store := { processes := [{}, {}] }

/-- The first process renames what the second one wrote. -/
def mixingSteps (first second : SaveCall) : List Label :=
  [.begin 0 first, .write 0 0, .begin 1 second, .write 1 0, .protect 0, .rename 0]

/-- Two first saves with one temporary name mix: the file of the first holds what the
    second one wrote. -/
theorem mixing_runs {F : Type} {codec : JsonCodec F} {first second : SaveCall} {a b : Saving}
    {n m : Nat} (hfirst : first.scan = .ok []) (hsecond : second.scan = .ok [])
    (ha : ∀ home, prepare codec home 1 first = (.ok a, n))
    (hb : ∀ home, prepare codec home 1 second = (.ok b, m))
    (htemporary : b.temporary = a.temporary) :
    ∃ past s, trail (Store.step codec) twoProcesses (mixingSteps first second) = some (past, s) ∧
      s.home.read a.destination = some ⟨b.bytes, 0⟩ ∧ s.saves = [a.target] ∧
      s.answers = [.saved 0 (.ok a.destination)] := by
  have hscan : ∀ (home : Home) directory, home.scans directory (.ok []) = true := by
    intro home directory
    simp [Home.scans]
  have hsingleton : ∀ (key : FileKey) (file : StoredFile),
      AList.lookup key (AList.singleton key file : Home) = some file := by
    intro key file
    rw [← AList.insert_empty, AList.lookup_insert]
  simp only [trail, mixingSteps, Store.step, twoProcesses, ha, hb, Store.stageOf, Store.nextIdOf,
    Store.setStage, Store.setProcess, Store.answer, htemporary, hfirst, hsecond, hscan,
    hsingleton, Home.read, Home.rename, List.getElem?_cons_zero, List.set_cons_zero,
    List.getElem?_cons_succ, List.set_cons_succ, Option.map_some, Option.getD_some,
    Option.bind_some, Option.isSome_some, if_true, AList.insert_empty, AList.insert_singleton_eq]
  simp

/-- The save of an empty session. -/
def saveOf (id : String) : SaveCall where
  workspace := []
  record := {
    id := id, timestamp := "2024", cwd := "/w", model := none, thinkingLevel := .off
    messages := [] }

theorem saveOf_prepared {id : String} (h : id = "a" ∨ id = "b") :
    ∃ saving taken, (∀ home, prepare textCodec home 1 (saveOf id) = (.ok saving, taken)) ∧
      saving.temporary = ("----", ".session-2.tmp") := by
  have hid : validateSessionId (saveOf id).record.id = .ok () := by
    rcases h with rfl | rfl
    · decide
    · decide
  have hsize : (encodeUtf8 (encodeSource textCodec (saveOf id).record
      ((saveOf id).stamps 1)).toList).length ≤ MAX_SESSION_BYTES := by
    rw [encodeSource_letters]
    rcases h with rfl | rfl
    · decide +kernel
    · decide +kernel
  have hname : ((saveOf id).directory, temporaryName (1 + UInt64.ofNat
      ((encodeFile textCodec (saveOf id).record ((saveOf id).stamps 1)).length - 1))) =
      ("----", ".session-2.tmp") := by
    rcases h with rfl | rfl
    · decide
    · decide
  obtain ⟨saving, taken, hprepared, htemporary⟩ := prepare_fits hid rfl hsize
  exact ⟨saving, taken, fun home => hprepared home rfl, htemporary.trans hname⟩

theorem twoProcesses_atRest {F : Type} {codec : JsonCodec F} : AtRest codec twoProcesses := by
  constructor
  · simp [twoProcesses]
  · intro t ht
    cases ht
  · intro t ht
    cases ht
  · intro key file hname hread
    cases hread

/-- **Two sessions mix**: the first process returns from its save of session `a`, and the
    file of that session is session `b`. -/
theorem sessions_mixed : ∃ past s key,
    StoreRuns textCodec twoProcesses past s ∧ AtRest textCodec twoProcesses ∧
      s.answers = [.saved 0 (.ok key)] ∧
      (∀ t ∈ s.saves, t.record.id = "a") ∧
      ((s.home.record textCodec key).map (·.id)) = some "b" ∧ ¬ FilesOwned textCodec s := by
  obtain ⟨a, n, ha, hnameA⟩ := saveOf_prepared (.inl rfl)
  obtain ⟨b, m, hb, hnameB⟩ := saveOf_prepared (.inr rfl)
  obtain ⟨past, s, htrail, hread, hsaves, hanswers⟩ :=
    mixing_runs rfl rfl ha hb (hnameB.trans hnameA.symm)
  obtain ⟨-, hrecordA, -, -, found, hfound, hdestination⟩ := prepare_ok (ha ∅)
  obtain ⟨-, hrecordB, hencodes, -⟩ := prepare_ok (hb ∅)
  have hrun : StoreRuns textCodec twoProcesses past s := trail_execution .start htrail
  have hids : ∀ t ∈ s.saves, t.record.id = "a" := by
    intro t ht
    rw [hsaves, List.mem_singleton] at ht
    rw [ht, Saving.target, hrecordA]
    rfl
  have hrecord : s.home.record textCodec a.destination =
      some (rereadRecord textCodec (saveOf "b").record) := hencodes.record hread
  refine ⟨past, s, a.destination, hrun, twoProcesses_atRest, hanswers, hids, ?_, ?_⟩
  · rw [hrecord]
    rfl
  · intro hfiles
    have hname : isSessionName a.destination.2 = true := by
      cases hfound
      rw [hdestination]
      exact isSessionName_sessionName ..
    obtain ⟨t, ht, -, hother, -⟩ := hfiles a.destination _ hname hread
    have hsame := Option.some.inj (hrecord.symm.trans (hother.record hread))
    have hid : "b" = t.record.id := congrArg (·.id) hsame
    rw [hids t ht] at hid
    revert hid
    decide

/-- Both saves are prepared, but the second process writes when the first has returned. -/
def orderedSteps (first second : SaveCall) : List Label :=
  [.begin 0 first, .begin 1 second, .write 0 0, .protect 0, .rename 0, .write 1 0, .protect 1,
   .rename 1]

theorem ordered_runs {F : Type} {codec : JsonCodec F} {first second : SaveCall} {a b : Saving}
    {n m : Nat} (hfirst : first.scan = .ok []) (hsecond : second.scan = .ok [])
    (ha : ∀ home, prepare codec home 1 first = (.ok a, n))
    (hb : ∀ home, prepare codec home 1 second = (.ok b, m))
    (hother : a.destination ≠
      (second.directory, sessionName second.record.timestamp second.record.id second.now)) :
    ∃ past s, trail (Store.step codec) twoProcesses (orderedSteps first second) = some (past, s) ∧
      (∀ t ∈ past, TakesOwn codec t) ∧
      s.answers = [.saved 0 (.ok a.destination), .saved 1 (.ok b.destination)] := by
  have hscan : ∀ (home : Home) directory, home.scans directory (.ok []) = true := by
    intro home directory
    simp [Home.scans]
  simp only [trail, orderedSteps, Store.step, twoProcesses, ha, hb, Store.stageOf, Store.nextIdOf,
    Store.setStage, Store.setProcess, Store.answer, hfirst, hsecond, hscan, Home.read,
    List.getElem?_cons_zero, List.set_cons_zero, List.getElem?_cons_succ, List.set_cons_succ,
    Option.map_some, Option.getD_some, Option.bind_some, Option.isSome_some, if_true,
    AList.lookup_insert]
  refine ⟨_, _, rfl, ?_, rfl⟩
  simp only [List.mem_cons, List.not_mem_nil, or_false, forall_eq_or_imp, forall_eq, TakesOwn,
    true_and, and_true]
  refine ⟨?_, ?_, ?_, ?_⟩
  · intro _ t ht
    cases ht
  · intro _ t ht hkey
    have ht : t = a.target := List.mem_singleton.mp ht
    rw [ht] at hkey
    exact absurd hkey hother
  · intro saving _ q hq hne
    have hq : q = 1 := by
      change q < 2 at hq
      omega
    subst hq
    simp [Store.stageOf, temporaryOf]
  · intro saving _ q hq hne
    have hq : q = 0 := by
      change q < 2 at hq
      omega
    subst hq
    simp [Store.stageOf, temporaryOf]

theorem saves_kept_apart_ordered : ∃ past s keyA keyB,
    StoreRuns textCodec twoProcesses past s ∧
      s.answers = [.saved 0 (.ok keyA), .saved 1 (.ok keyB)] ∧ FilesOwned textCodec s := by
  obtain ⟨a, n, ha, -⟩ := saveOf_prepared (.inl rfl)
  obtain ⟨b, m, hb, -⟩ := saveOf_prepared (.inr rfl)
  obtain ⟨-, -, -, -, found, hfound, hdestination⟩ := prepare_ok (ha ∅)
  have hother : a.destination ≠ ((saveOf "b").directory,
      sessionName (saveOf "b").record.timestamp (saveOf "b").record.id (saveOf "b").now) := by
    cases hfound
    rw [hdestination]
    decide +kernel
  obtain ⟨past, s, htrail, hown, hanswers⟩ := ordered_runs rfl rfl ha hb hother
  have hrun : StoreRuns textCodec twoProcesses past s := trail_execution .start htrail
  refine ⟨past, s, _, _, hrun, hanswers, ?_⟩
  exact (saves_kept_apart hrun twoProcesses_atRest hown).1

end Tea.Contract
