/-
  Tea/Encoding/Offsets.lean
  =========================
  **Byte offsets into a text.**  A text is cut at an offset that lies on a character
  boundary, and nowhere else; the searches answer such offsets.
-/
import Mathlib.Data.List.Basic

namespace Tea.Encoding

/-! ### Cutting -/

/-- The length of a text in UTF-8. -/
def utf8Length : List Char → Nat
  | [] => 0
  | c :: cs => c.utf8Size + utf8Length cs

/-- `text[..offset]` and `text[offset..]`, where the offset is a character boundary. -/
def cut : List Char → Nat → Option (List Char × List Char)
  | cs, 0 => some ([], cs)
  | [], _ + 1 => none
  | c :: cs, offset + 1 =>
      if c.utf8Size ≤ offset + 1 then
        (cut cs (offset + 1 - c.utf8Size)).map fun parts => (c :: parts.1, parts.2)
      else none

/-- `text[start..stop]` -/
def slice (text : List Char) (start stop : Nat) : Option (List Char) :=
  if start ≤ stop then
    (cut text stop).bind fun parts => (cut parts.1 start).map Prod.snd
  else none

/-- The offset is a character boundary of the text. -/
def OnBoundary (text : List Char) (offset : Nat) : Prop :=
  ∃ before after, text = before ++ after ∧ offset = utf8Length before

@[simp] theorem utf8Length_nil : utf8Length [] = 0 := rfl

@[simp] theorem utf8Length_cons (c : Char) (cs : List Char) :
    utf8Length (c :: cs) = c.utf8Size + utf8Length cs := rfl

@[simp] theorem utf8Size_lineBreak : '\n'.utf8Size = 1 := rfl

@[simp] theorem utf8Length_append (before after : List Char) :
    utf8Length (before ++ after) = utf8Length before + utf8Length after := by
  induction before with
  | nil => simp
  | cons c before ih =>
    simp only [List.cons_append, utf8Length_cons, ih]
    omega

@[simp] theorem utf8Length_reverse (text : List Char) :
    utf8Length text.reverse = utf8Length text := by
  induction text with
  | nil => rfl
  | cons c text ih =>
    rw [List.reverse_cons, utf8Length_append, ih, utf8Length_cons, utf8Length_cons]
    exact Nat.add_comm _ _

theorem cut_cons {c : Char} {cs : List Char} {offset : Nat} (h : c.utf8Size ≤ offset) :
    cut (c :: cs) offset =
      (cut cs (offset - c.utf8Size)).map fun parts => (c :: parts.1, parts.2) := by
  have hpos := Char.utf8Size_pos c
  cases offset with
  | zero => omega
  | succ offset => rw [cut, if_pos h]

/-- Behind a first part a text is cut at the length of that part. -/
@[simp] theorem cut_append (before after : List Char) :
    cut (before ++ after) (utf8Length before) = some (before, after) := by
  induction before with
  | nil => cases after <;> rfl
  | cons c before ih =>
    rw [List.cons_append, cut_cons (by simp), utf8Length_cons, Nat.add_sub_cancel_left, ih]
    rfl

/-- The two parts are the text, and the first one ends at the offset. -/
theorem cut_eq_some {text before after : List Char} {offset : Nat}
    (h : cut text offset = some (before, after)) :
    text = before ++ after ∧ offset = utf8Length before := by
  induction text generalizing offset before with
  | nil =>
    cases offset with
    | zero =>
      obtain ⟨rfl, rfl⟩ := Prod.mk.inj (Option.some.inj h)
      exact ⟨rfl, rfl⟩
    | succ offset => cases h
  | cons c text ih =>
    cases offset with
    | zero =>
      obtain ⟨rfl, rfl⟩ := Prod.mk.inj (Option.some.inj h)
      exact ⟨rfl, rfl⟩
    | succ offset =>
      rw [cut] at h
      split_ifs at h with hfits
      obtain ⟨⟨before', after'⟩, hcut, hparts⟩ := Option.map_eq_some_iff.mp h
      obtain ⟨rfl, rfl⟩ := Prod.mk.inj hparts
      obtain ⟨rfl, hoffset⟩ := ih hcut
      refine ⟨rfl, ?_⟩
      rw [utf8Length_cons, ← hoffset]
      omega

theorem slice_append (before chars after : List Char) :
    slice (before ++ chars ++ after) (utf8Length before) (utf8Length (before ++ chars)) =
      some chars := by
  rw [slice, if_pos (by simp), cut_append, Option.bind_some, cut_append, Option.map_some]

theorem onBoundary_append (before after : List Char) :
    OnBoundary (before ++ after) (utf8Length before) := ⟨before, after, rfl, rfl⟩

theorem OnBoundary.le {text : List Char} {offset : Nat} (h : OnBoundary text offset) :
    offset ≤ utf8Length text := by
  obtain ⟨before, after, rfl, rfl⟩ := h
  rw [utf8Length_append]
  omega

/-! ### Searching -/

/-- `text.find(symbol)` -/
def find (symbol : Char) : List Char → Option Nat
  | [] => none
  | c :: cs => if c = symbol then some 0 else (find symbol cs).map (c.utf8Size + ·)

/-- `text.rfind(symbol)` -/
def rfind (symbol : Char) : List Char → Option Nat
  | [] => none
  | c :: cs =>
      match rfind symbol cs with
      | some offset => some (c.utf8Size + offset)
      | none => if c = symbol then some 0 else none

theorem find_eq_some {symbol : Char} {text : List Char} {offset : Nat}
    (h : find symbol text = some offset) :
    ∃ before after, text = before ++ symbol :: after ∧ offset = utf8Length before := by
  induction text generalizing offset with
  | nil => cases h
  | cons c text ih =>
    rw [find] at h
    split_ifs at h with hc
    · obtain rfl := Option.some.inj h
      exact ⟨[], text, by rw [hc]; rfl, rfl⟩
    · obtain ⟨offset', hfind, rfl⟩ := Option.map_eq_some_iff.mp h
      obtain ⟨before, after, rfl, rfl⟩ := ih hfind
      exact ⟨c :: before, after, rfl, rfl⟩

theorem rfind_eq_some {symbol : Char} {text : List Char} {offset : Nat}
    (h : rfind symbol text = some offset) :
    ∃ before after, text = before ++ symbol :: after ∧ offset = utf8Length before := by
  induction text generalizing offset with
  | nil => cases h
  | cons c text ih =>
    rw [rfind] at h
    cases hrest : rfind symbol text with
    | some found =>
      rw [hrest] at h
      obtain rfl := Option.some.inj h
      obtain ⟨before, after, rfl, rfl⟩ := ih hrest
      exact ⟨c :: before, after, rfl, rfl⟩
    | none =>
      rw [hrest] at h
      dsimp only at h
      split_ifs at h with hc
      obtain rfl := Option.some.inj h
      exact ⟨[], text, by rw [hc]; rfl, rfl⟩

/-- The offset of a character by its number, or the end of the text (`char_offset`). -/
def charOffset : List Char → Nat → Nat
  | [], _ => 0
  | _, 0 => 0
  | c :: cs, target + 1 => c.utf8Size + charOffset cs target

theorem onBoundary_charOffset (text : List Char) (target : Nat) :
    OnBoundary text (charOffset text target) := by
  induction text generalizing target with
  | nil => exact ⟨[], [], rfl, rfl⟩
  | cons c text ih =>
    cases target with
    | zero => exact ⟨[], c :: text, rfl, rfl⟩
    | succ target =>
      obtain ⟨before, after, htext, hoffset⟩ := ih target
      refine ⟨c :: before, after, by rw [htext]; rfl, ?_⟩
      rw [charOffset, hoffset]
      rfl

end Tea.Encoding
