/-
  Tea/Session/Moves.lean
  ======================
  **What a step of the session store can do** (`step_moves`).  One process moves from a
  stage to the next; only a write, a failed write and a removal touch a temporary file,
  and only a rename touches a session file and completes a save.
-/

import Tea.Session.Holdings

namespace Tea.Session

open Tea.Core Tea.Encoding

variable {F : Type} {codec : JsonCodec F} {s s' : Store}

/-! ### Stages after an update -/

namespace Store

theorem lt_of_stageOf {p : Nat} {stage : Stage} (h : s.stageOf p = some stage) :
    p < s.processes.length := by
  by_contra hout
  rw [stageOf, List.getElem?_eq_none (by omega)] at h
  cases h

theorem stageOf_setProcess {p : Nat} (h : p < s.processes.length) (process : Process) (q : Nat) :
    (s.setProcess p process).stageOf q = if q = p then some process.stage else s.stageOf q := by
  by_cases hq : q = p
  · subst hq
    simp [stageOf, setProcess, h]
  · have hne : p ≠ q := fun heq => hq heq.symm
    simp [stageOf, setProcess, hq, List.getElem?_set_ne hne]

theorem stageOf_setStage {p : Nat} (h : p < s.processes.length) (stage : Stage) (q : Nat) :
    (s.setStage p stage).stageOf q = if q = p then some stage else s.stageOf q :=
  stageOf_setProcess h _ q

theorem stageOf_same {p : Nat} {stage : Stage} (h : s.stageOf p = some stage) (q : Nat) :
    s.stageOf q = if q = p then some stage else s.stageOf q := by
  split_ifs with heq
  · rw [heq, h]
  · rfl

@[simp] theorem setStage_home (p : Nat) (stage : Stage) : (s.setStage p stage).home = s.home := rfl

@[simp] theorem setStage_saves (p : Nat) (stage : Stage) :
    (s.setStage p stage).saves = s.saves := rfl

@[simp] theorem setStage_targets (p : Nat) (stage : Stage) :
    (s.setStage p stage).targets = s.targets := rfl

end Store

/-! ### Moves -/

/-- The files and the history of the saves are as they were. -/
structure SameFiles (s s' : Store) : Prop where
  home : s'.home = s.home
  targets : s'.targets = s.targets
  saves : s'.saves = s.saves

/-- The answers are as before, or one more was given that does not report a save. -/
def NothingSaved (s s' : Store) : Prop :=
  s'.answers = s.answers ∨
    ∃ answer, s'.answers = s.answers ++ [answer] ∧ ∀ p key, answer ≠ .saved p (.ok key)

/-- What a step with a label does, from the stage `old` of its process to `new`. -/
inductive Moves (codec : JsonCodec F) (s s' : Store) : Label → Nat → Stage → Stage → Prop
  /-- A save is prepared. -/
  | begins {p : Nat} {call : SaveCall} {saving : Saving} {taken : Nat}
      (prepared : prepare codec s.home (s.nextIdOf p) call = (.ok saving, taken))
      (home : s'.home = s.home) (targets : s'.targets = s.targets ++ [saving.target])
      (saves : s'.saves = s.saves) (answers : NothingSaved s s') :
      Moves codec s s' (.begin p call) p .idle (.writing saving)
  /-- The temporary file is written. -/
  | writes {p : Nat} {now : UInt64} {saving : Saving}
      (home : s'.home = s.home.insert saving.temporary ⟨saving.bytes, now⟩)
      (targets : s'.targets = s.targets) (saves : s'.saves = s.saves)
      (answers : NothingSaved s s') :
      Moves codec s s' (.write p now) p (.writing saving) (.protecting saving)
  /-- The write fails; the temporary file is whatever was left. -/
  | writeFails {p : Nat} {left : Option StoredFile} {message : String} {saving : Saving}
      (home : ∀ key, key ≠ saving.temporary → s'.home.read key = s.home.read key)
      (targets : s'.targets = s.targets) (saves : s'.saves = s.saves)
      (answers : NothingSaved s s') :
      Moves codec s s' (.writeFails p left message) p (.writing saving) .idle
  /-- The temporary file is made private. -/
  | protects {p : Nat} {saving : Saving} (files : SameFiles s s') (answers : NothingSaved s s') :
      Moves codec s s' (.protect p) p (.protecting saving) (.renaming saving)
  /-- The temporary file could not be made private, or could not be renamed. -/
  | fails {label : Label} {p : Nat} {old : Stage} {saving : Saving} {error : SessionError}
      (stage : old = .protecting saving ∨ old = .renaming saving) (files : SameFiles s s')
      (answers : NothingSaved s s') :
      Moves codec s s' label p old (.removing saving error)
  /-- The temporary file becomes the session file. -/
  | renames {p : Nat} {saving : Saving} {file : StoredFile}
      (temporary : s.home.read saving.temporary = some file)
      (home : s'.home = s.home.rename saving.temporary saving.destination)
      (targets : s'.targets = s.targets) (saves : s'.saves = s.saves ++ [saving.target])
      (answers : s'.answers = s.answers ++ [.saved p (.ok saving.destination)]) :
      Moves codec s s' (.rename p) p (.renaming saving) .idle
  /-- The temporary file of a failed save is removed. -/
  | removes {p : Nat} {saving : Saving} {error : SessionError}
      (home : s'.home = s.home.erase saving.temporary) (targets : s'.targets = s.targets)
      (saves : s'.saves = s.saves) (answers : NothingSaved s s') :
      Moves codec s s' (.remove p) p (.removing saving error) .idle
  /-- The files stay as they are, and so does the stage, unless a call ends. -/
  | rests {label : Label} {p : Nat} {old new : Stage} (stage : new = old ∨ new = .idle)
      (files : SameFiles s s') (answers : NothingSaved s s') :
      Moves codec s s' label p old new

/-- An answer that reports a failed save. -/
theorem nothingSaved_error {p : Nat} {error : SessionError}
    (h : s'.answers = s.answers ++ [.saved p (.error error)]) : NothingSaved s s' := by
  right
  refine ⟨_, h, ?_⟩
  intro q key heq
  cases heq

/-- **Every step is such a move of one process.** -/
theorem step_moves {label : Label} (h : s.step codec label = some s') :
    ∃ p old new, s.stageOf p = some old ∧
      (∀ q, s'.stageOf q = if q = p then some new else s.stageOf q) ∧
      Moves codec s s' label p old new := by
  cases label with
  | «begin» p call =>
    simp only [Store.step] at h
    split at h
    · rename_i hstage
      have hlt := Store.lt_of_stageOf hstage
      split at h
      · split at h
        · cases h
          refine ⟨p, .idle, .idle, hstage, Store.stageOf_setProcess hlt _, ?_⟩
          exact .rests (.inl rfl) ⟨rfl, rfl, rfl⟩ (nothingSaved_error rfl)
        · rename_i saving hresult
          cases h
          refine ⟨p, .idle, .writing saving, hstage, Store.stageOf_setProcess hlt _, ?_⟩
          exact .begins (Prod.ext hresult rfl) rfl rfl rfl (.inl rfl)
      · cases h
    · cases h
  | write p now =>
    simp only [Store.step] at h
    split at h
    · rename_i saving hstage
      have hlt := Store.lt_of_stageOf hstage
      cases h
      refine ⟨p, .writing saving, .protecting saving, hstage, ?_, ?_⟩
      · exact Store.stageOf_setStage hlt _
      · exact .writes rfl rfl rfl (.inl rfl)
    · cases h
  | writeFails p left message =>
    simp only [Store.step] at h
    split at h
    · rename_i saving hstage
      have hlt := Store.lt_of_stageOf hstage
      cases h
      refine ⟨p, .writing saving, .idle, hstage, ?_, ?_⟩
      · exact Store.stageOf_setStage (s := { s with home := _ }) hlt _
      · apply Moves.writeFails
        · intro key hkey
          cases left with
          | none => rfl
          | some file => exact (Home.read_insert ..).trans (if_neg hkey)
        · rfl
        · rfl
        · exact nothingSaved_error rfl
    · cases h
  | protect p =>
    simp only [Store.step] at h
    split at h
    · rename_i saving hstage
      have hlt := Store.lt_of_stageOf hstage
      split at h
      · cases h
        refine ⟨p, .protecting saving, .renaming saving, hstage, ?_, ?_⟩
        · exact Store.stageOf_setStage hlt _
        · exact .protects ⟨rfl, rfl, rfl⟩ (.inl rfl)
      · cases h
    · cases h
  | protectFails p message =>
    simp only [Store.step] at h
    split at h
    · rename_i saving hstage
      have hlt := Store.lt_of_stageOf hstage
      cases h
      refine ⟨p, _, _, hstage, Store.stageOf_setStage hlt _, ?_⟩
      exact .fails (.inl rfl) ⟨rfl, rfl, rfl⟩ (.inl rfl)
    · cases h
  | rename p =>
    simp only [Store.step] at h
    split at h
    · rename_i saving hstage
      have hlt := Store.lt_of_stageOf hstage
      split at h
      · rename_i hfile
        obtain ⟨file, hfile⟩ := Option.isSome_iff_exists.mp hfile
        cases h
        refine ⟨p, .renaming saving, .idle, hstage, ?_, ?_⟩
        · exact Store.stageOf_setStage hlt _
        · exact .renames hfile rfl rfl rfl rfl
      · cases h
    · cases h
  | renameFails p message =>
    simp only [Store.step] at h
    split at h
    · rename_i saving hstage
      have hlt := Store.lt_of_stageOf hstage
      cases h
      refine ⟨p, _, _, hstage, Store.stageOf_setStage hlt _, ?_⟩
      exact .fails (.inr rfl) ⟨rfl, rfl, rfl⟩ (.inl rfl)
    · cases h
  | remove p =>
    simp only [Store.step] at h
    split at h
    · rename_i saving error hstage
      have hlt := Store.lt_of_stageOf hstage
      cases h
      refine ⟨p, .removing saving error, .idle, hstage, ?_, ?_⟩
      · exact Store.stageOf_setStage (s := { s with home := _ }) hlt _
      · exact .removes rfl rfl rfl (nothingSaved_error rfl)
    · cases h
  | removeFails p =>
    simp only [Store.step] at h
    split at h
    · rename_i saving error hstage
      have hlt := Store.lt_of_stageOf hstage
      cases h
      refine ⟨p, _, .idle, hstage, Store.stageOf_setStage hlt _, ?_⟩
      exact .rests (.inr rfl) ⟨rfl, rfl, rfl⟩ (nothingSaved_error rfl)
    · cases h
  | takeId p =>
    simp only [Store.step] at h
    split at h
    · rename_i stage hstage
      have hlt := Store.lt_of_stageOf hstage
      cases h
      refine ⟨p, stage, stage, hstage, Store.stageOf_setProcess hlt _, ?_⟩
      exact .rests (.inl rfl) ⟨rfl, rfl, rfl⟩ (.inl rfl)
    · cases h
  | load p workspace id scan =>
    simp only [Store.step] at h
    split at h
    · rename_i hstage
      split at h
      · cases h
        refine ⟨p, .idle, .idle, hstage, ?_, .rests (.inl rfl) ⟨rfl, rfl, rfl⟩ ?_⟩
        · exact Store.stageOf_same hstage
        · exact .inr ⟨_, rfl, fun q key heq => by cases heq⟩
      · cases h
    · cases h
  | list p workspace scan =>
    simp only [Store.step] at h
    split at h
    · rename_i hstage
      split at h
      · cases h
        refine ⟨p, .idle, .idle, hstage, ?_, .rests (.inl rfl) ⟨rfl, rfl, rfl⟩ ?_⟩
        · exact Store.stageOf_same hstage
        · exact .inr ⟨_, rfl, fun q key heq => by cases heq⟩
      · cases h
    · cases h

/-- Only a rename reports a save. -/
theorem Moves.of_saved {label : Label} {p q : Nat} {old new : Stage} {key : FileKey}
    (h : Moves codec s s' label q old new)
    (hanswer : s'.answers = s.answers ++ [.saved p (.ok key)]) :
    ∃ saving file, p = q ∧ old = .renaming saving ∧ saving.destination = key ∧
      s.home.read saving.temporary = some file ∧
      s'.home = s.home.rename saving.temporary saving.destination := by
  have hnone : ¬ NothingSaved s s' := by
    rintro (hsame | ⟨answer, hone, hnot⟩)
    · rw [hsame] at hanswer
      simp at hanswer
    · rw [hone] at hanswer
      have heq := List.append_cancel_left hanswer
      cases heq
      exact hnot p key rfl
  cases h with
  | «begins» _ _ _ _ answers => exact absurd answers hnone
  | writes _ _ _ answers => exact absurd answers hnone
  | writeFails _ _ _ answers => exact absurd answers hnone
  | protects _ answers => exact absurd answers hnone
  | fails _ _ answers => exact absurd answers hnone
  | removes _ _ _ answers => exact absurd answers hnone
  | rests _ _ answers => exact absurd answers hnone
  | renames temporary home _ _ answers =>
    rw [answers] at hanswer
    have heq := List.append_cancel_left hanswer
    cases heq
    exact ⟨_, _, rfl, rfl, rfl, temporary, home⟩

end Tea.Session
