/-
  Tea/Encoding/FixedWidth.lean
  ============================
  **Decimal fields of fixed widths**, each with a mark behind it: their texts are ordered as
  their values are, and no two of them are the same.
-/
import Mathlib.Data.Char
import Mathlib.Data.List.Lex
import Mathlib.Tactic.IntervalCases

namespace Tea.Encoding

/-- Lists of one length decide the order whatever is behind them. -/
theorem append_lt_append {α : Type} [LinearOrder α] {front front' back back' : List α}
    (hlength : front.length = front'.length) (h : front < front') :
    front ++ back < front' ++ back' := by
  induction front generalizing front' with
  | nil =>
    rw [List.eq_nil_of_length_eq_zero hlength.symm] at h
    exact absurd h (lt_irrefl _)
  | cons c front ih =>
    cases front' with
    | nil => cases hlength
    | cons c' front' =>
      rw [List.cons_append, List.cons_append, List.cons_lt_cons_iff]
      rcases List.cons_lt_cons_iff.mp h with hlt | ⟨rfl, hlt⟩
      · exact .inl hlt
      · exact .inr ⟨rfl, ih (Nat.succ.inj hlength) hlt⟩

/-! ### One field -/

/-- The last digits of a number, as many as the field is wide. -/
def fixedDigits : Nat → Nat → List Char
  | 0, _ => []
  | width + 1, n => fixedDigits width (n / 10) ++ [Nat.digitChar (n % 10)]

/-- The first number that is too wide. -/
def fieldLimit : Nat → Nat
  | 0 => 1
  | width + 1 => 10 * fieldLimit width

theorem length_fixedDigits (width n : Nat) : (fixedDigits width n).length = width := by
  induction width generalizing n with
  | zero => rfl
  | succ width ih => rw [fixedDigits, List.length_append, ih, List.length_singleton]

theorem digitChar_lt {a b : Nat} (h : a < b) (hb : b < 10) :
    Nat.digitChar a < Nat.digitChar b := by
  interval_cases b <;> interval_cases a <;> decide

theorem fixedDigits_lt {width n m : Nat} (h : n < m) (hm : m < fieldLimit width) :
    fixedDigits width n < fixedDigits width m := by
  induction width generalizing n m with
  | zero =>
    rw [fieldLimit] at hm
    omega
  | succ width ih =>
    rw [fieldLimit] at hm
    rw [fixedDigits, fixedDigits]
    rcases Nat.lt_or_ge (n / 10) (m / 10) with hlt | hge
    · refine append_lt_append ?_ (ih hlt (by omega))
      rw [length_fixedDigits, length_fixedDigits]
    · have hsame : n / 10 = m / 10 := by omega
      rw [hsame]
      refine List.append_left_lt (List.cons_lt_cons_iff.mpr (.inl ?_))
      exact digitChar_lt (by omega) (Nat.mod_lt _ (by decide))

theorem fixedDigits_zero (width : Nat) : fixedDigits width 0 = List.replicate width '0' := by
  induction width with
  | zero => rfl
  | succ width ih =>
    rw [fixedDigits, ih, List.replicate_succ']
    rfl

/-- The digits of a number that fits, with zeros before them. -/
theorem replicate_append_toDigits {width n : Nat} (h : n < fieldLimit width) (hpos : 0 < width) :
    List.replicate (width - (Nat.toDigits 10 n).length) '0' ++ Nat.toDigits 10 n =
      fixedDigits width n := by
  induction width generalizing n with
  | zero => exact absurd hpos (Nat.lt_irrefl 0)
  | succ width ih =>
    rw [fieldLimit] at h
    rw [fixedDigits]
    by_cases hsmall : n < 10
    · have hfront : n / 10 = 0 := by omega
      have hlast : n % 10 = n := by omega
      rw [Nat.toDigits_of_lt_base hsmall, hfront, hlast, fixedDigits_zero]
      rfl
    · have hlarge : 0 < width := by
        rcases Nat.eq_zero_or_pos width with rfl | hwidth
        · rw [fieldLimit] at h
          omega
        · exact hwidth
      rw [Nat.toDigits_of_base_le (by omega) (by omega), List.length_append, List.length_singleton,
        Nat.add_sub_add_right, ← List.append_assoc, ih (by omega) hlarge]

theorem mem_fixedDigits {width n : Nat} {c : Char} (h : c ∈ fixedDigits width n) :
    c.isDigit = true := by
  induction width generalizing n with
  | zero => cases h
  | succ width ih =>
    rw [fixedDigits, List.mem_append, List.mem_singleton] at h
    rcases h with h | rfl
    · exact ih h
    · have hlt : n % 10 < 10 := Nat.mod_lt _ (by decide)
      interval_cases n % 10 <;> decide

/-! ### Some fields -/

/-- Fields of the given widths, with the mark behind each. -/
def renderFields : List (Nat × Char) → List Nat → List Char
  | (width, mark) :: layout, value :: values =>
      fixedDigits width value ++ mark :: renderFields layout values
  | _, _ => []

/-- Each value fits in its field. -/
def FieldsFit (layout : List (Nat × Char)) (values : List Nat) : Prop :=
  List.Forall₂ (fun field value => value < fieldLimit field.1) layout values

/-- **The order of the texts** is the order of the values. -/
theorem renderFields_lt {layout : List (Nat × Char)} {values values' : List Nat}
    (hfit : FieldsFit layout values) (hfit' : FieldsFit layout values') (h : values < values') :
    renderFields layout values < renderFields layout values' := by
  induction hfit generalizing values' with
  | nil =>
    cases hfit'
    exact absurd h (lt_irrefl _)
  | @cons field value layout values hvalue hvalues ih =>
    cases hfit' with
    | cons hvalue' hvalues' =>
      rw [renderFields, renderFields]
      rcases List.cons_lt_cons_iff.mp h with hlt | ⟨rfl, hlt⟩
      · refine append_lt_append ?_ (fixedDigits_lt hlt hvalue')
        rw [length_fixedDigits, length_fixedDigits]
      · exact List.append_left_lt (List.cons_lt_cons_iff.mpr (.inr ⟨rfl, ih hvalues' hlt⟩))

/-- Different values have different texts. -/
theorem renderFields_inj {layout : List (Nat × Char)} {values values' : List Nat}
    (hfit : FieldsFit layout values) (hfit' : FieldsFit layout values')
    (h : renderFields layout values = renderFields layout values') : values = values' := by
  rcases lt_trichotomy values values' with hlt | heq | hgt
  · exact absurd h (ne_of_lt (renderFields_lt hfit hfit' hlt))
  · exact heq
  · exact absurd h.symm (ne_of_lt (renderFields_lt hfit' hfit hgt))

theorem length_renderFields {layout : List (Nat × Char)} {values values' : List Nat}
    (hfit : FieldsFit layout values) (hfit' : FieldsFit layout values') :
    (renderFields layout values).length = (renderFields layout values').length := by
  induction hfit generalizing values' with
  | nil =>
    cases hfit'
    rfl
  | cons _ _ ih =>
    cases hfit' with
    | cons _ hvalues' =>
      rw [renderFields, renderFields, List.length_append, List.length_append, List.length_cons,
        List.length_cons, length_fixedDigits, length_fixedDigits, ih hvalues']

theorem mem_renderFields {layout : List (Nat × Char)} {values : List Nat} {c : Char}
    (h : c ∈ renderFields layout values) :
    c.isDigit = true ∨ ∃ field ∈ layout, field.2 = c := by
  induction layout generalizing values with
  | nil => cases h
  | cons field layout ih =>
    cases values with
    | nil => cases h
    | cons value values =>
      rw [renderFields, List.mem_append, List.mem_cons] at h
      rcases h with h | rfl | h
      · exact .inl (mem_fixedDigits h)
      · exact .inr ⟨field, List.mem_cons_self, rfl⟩
      · rcases ih h with hdigit | ⟨other, hother, rfl⟩
        · exact .inl hdigit
        · exact .inr ⟨other, List.mem_cons_of_mem _ hother, rfl⟩

/-- Other marks for the same fields. -/
theorem map_renderFields {f : Char → Char} (hf : ∀ c, c.isDigit = true → f c = c)
    (layout : List (Nat × Char)) (values : List Nat) :
    (renderFields layout values).map f =
      renderFields (layout.map fun field => (field.1, f field.2)) values := by
  induction layout generalizing values with
  | nil => rfl
  | cons field layout ih =>
    cases values with
    | nil => rfl
    | cons value values =>
      have hdigits : (fixedDigits field.1 value).map f = fixedDigits field.1 value := by
        rw [List.map_congr_left fun c hc => hf c (mem_fixedDigits hc), List.map_id'']
        intro c
        rfl
      rw [List.map_cons, renderFields, renderFields, List.map_append, List.map_cons, hdigits, ih]

end Tea.Encoding
