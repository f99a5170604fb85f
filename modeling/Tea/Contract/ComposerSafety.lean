/-
  Tea/Contract/ComposerSafety.lean
  ================================
  **The prompt buffer never panics.**  After any operations the cursor is a character
  boundary of the text, every further operation is defined, and a movement leaves the text
  as it is.
-/
import Tea.Tui.Cursor

namespace Tea.Contract

open Tea.Encoding Tea.Tui Tea.Tui.Composer

/-! ### Operations -/

/-- The operations that move the cursor. -/
inductive Movement where
  | left
  | right
  | wordLeft
  | wordRight
  | lineUp
  | lineDown
  | visualLineUp (width : UInt16)
  | visualLineDown (width : UInt16)
  | home
  | «end»

/-- The operations of the buffer, with the text that each is given. -/
inductive BufferOperation where
  | insert (symbol : Char)
  | insertNewline
  | insertStr (text : List Char)
  | insertStrMultiline (text : List Char)
  | replaceFromEditor (text : List Char)
  | replace (text : List Char)
  | backspace
  | delete
  | clear
  | take
  | submit
  | move (movement : Movement)

def Movement.apply (composer : Composer) : Movement → Option Composer
  | .left => composer.moveLeft
  | .right => composer.moveRight
  | .wordLeft => composer.moveWordLeft
  | .wordRight => composer.moveWordRight
  | .lineUp => composer.moveLineUp
  | .lineDown => composer.moveLineDown
  | .visualLineUp width => (composer.moveVisualLineUp width).map Prod.fst
  | .visualLineDown width => (composer.moveVisualLineDown width).map Prod.fst
  | .home => composer.home
  | .end => composer.end

def BufferOperation.apply (composer : Composer) : BufferOperation → Option Composer
  | .insert symbol => (composer.insert symbol).map Prod.fst
  | .insertNewline => composer.insertNewline
  | .insertStr text => (composer.insertStr text).map Prod.fst
  | .insertStrMultiline text => composer.insertStrMultiline text
  | .replaceFromEditor text => some (composer.replaceFromEditor text)
  | .replace text => some (composer.replace text).1
  | .backspace => composer.backspace
  | .delete => composer.delete
  | .clear => some composer.clear
  | .take => some composer.take.2
  | .submit => some composer.submit.2
  | .move movement => movement.apply composer

/-- The buffer after a sequence of operations; none of them panicked. -/
def edit (composer : Composer) : List BufferOperation → Option Composer
  | [] => some composer
  | operation :: operations =>
      (operation.apply composer).bind fun edited => edit edited operations

/-! ### One operation -/

theorem movement_moves {composer : Composer} (h : composer.Sound) (movement : Movement) :
    Moves composer (movement.apply composer) := by
  obtain ⟨before, after, rfl⟩ := (sound_iff composer).mp h
  cases movement with
  | left => exact moveLeft_moves before after
  | right => exact moveRight_moves before after
  | wordLeft => exact moveWordLeft_moves before after
  | wordRight => exact moveWordRight_moves before after
  | lineUp => exact moveLineUp_moves before after
  | lineDown => exact moveLineDown_moves before after
  | visualLineUp width =>
    obtain ⟨moved, hmoved, hmoves⟩ := moveVisualLine_moves before after width (-1)
    rwa [Movement.apply, moveVisualLineUp, hmoved]
  | visualLineDown width =>
    obtain ⟨moved, hmoved, hmoves⟩ := moveVisualLine_moves before after width 1
    rwa [Movement.apply, moveVisualLineDown, hmoved]
  | home => exact home_moves before after
  | «end» => exact end_moves before after

/-- A refused text leaves the buffer as it is. -/
theorem keeps_unless {composer : Composer} {edited : Option Composer} {refused : Prop}
    [Decidable refused] (h : composer.Sound) (hedited : Keeps edited) :
    Keeps ((if refused then some (composer, .error .newline)
      else edited.map fun edited => ((edited, .ok ()) : Edited)).map Prod.fst) := by
  split_ifs
  · exact ⟨composer, rfl, h⟩
  · obtain ⟨kept, rfl, hkept⟩ := hedited
    exact ⟨kept, rfl, hkept⟩

theorem operation_keeps {composer : Composer} (h : composer.Sound) (operation : BufferOperation) :
    Keeps (operation.apply composer) := by
  obtain ⟨before, after, rfl⟩ := (sound_iff composer).mp h
  cases operation with
  | insert symbol => exact keeps_unless h (insertText_keeps before after [symbol])
  | insertNewline => exact insertText_keeps before after ['\n']
  | insertStr text => exact keeps_unless h (insertText_keeps before after text)
  | insertStrMultiline text => exact insertText_keeps before after text
  | replaceFromEditor text => exact ⟨_, rfl, sound_ofText text⟩
  | replace text =>
    refine ⟨_, rfl, ?_⟩
    rw [Composer.replace]
    split_ifs
    · exact h
    · exact sound_ofText text
  | backspace => exact backspace_keeps before after
  | delete => exact delete_keeps before after
  | clear => exact ⟨_, rfl, sound_ofText []⟩
  | take => exact ⟨_, rfl, sound_ofText []⟩
  | submit => exact ⟨_, rfl, sound_ofText []⟩
  | move movement =>
    obtain ⟨cursor, hmoved, hcursor⟩ := movement_moves h movement
    exact ⟨_, hmoved, hcursor⟩

/-! ### Any sequence of operations -/

theorem edit_keeps {composer : Composer} (h : composer.Sound) (operations : List BufferOperation) :
    Keeps (edit composer operations) := by
  induction operations generalizing composer with
  | nil => exact ⟨composer, rfl, h⟩
  | cons operation operations ih =>
    obtain ⟨edited, hedited, hsound⟩ := operation_keeps h operation
    rw [edit, hedited, Option.bind_some]
    exact ih hsound

/-- **Any operations can be made.**  None of them panics, the cursor they leave is a character
    boundary and not behind the end, and no movement changes the text. -/
theorem composer_safe (operations : List BufferOperation) :
    ∃ composer, edit Composer.new operations = some composer ∧
      OnBoundary composer.text composer.cursor ∧
      composer.cursor ≤ utf8Length composer.text ∧
      ∀ movement : Movement, ∃ moved, movement.apply composer = some moved ∧
        moved.text = composer.text := by
  obtain ⟨composer, hcomposer, hsound⟩ := edit_keeps (sound_ofText []) operations
  refine ⟨composer, hcomposer, hsound, hsound.le, fun movement => ?_⟩
  obtain ⟨cursor, hmoved, -⟩ := movement_moves hsound movement
  exact ⟨_, hmoved, rfl⟩

end Tea.Contract
