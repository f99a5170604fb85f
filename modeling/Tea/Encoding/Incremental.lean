/-
  Tea/Encoding/Incremental.lean
  =============================
  **Decoding a stream that arrives in pieces**, over any alphabet.  A decoder is given
  by the first item of its input and the length of that item (`front`).  When the
  answer, once given, does not change with the input that follows (`Incremental`), the
  items and the undecoded rest of a whole stream are those of its pieces decoded one
  after another, each put behind the rest of the ones before (`delivered_append`,
  `rest_append`).  A table of codes none of which begins another is such a decoder
  (`PrefixFree`).
-/

import Mathlib.Data.List.Infix
import Mathlib.Data.List.Find

namespace Tea.Encoding

variable {α β : Type}

/-! ### Decoding from the front -/

/-- The first item of the input with its length, when the input determines it. -/
abbrev Front (α β : Type) := List α → Option (β × Nat)

/-- Items have symbols, and an item that was recognised stays recognised. -/
structure Incremental (front : Front α β) : Prop where
  consumes : ∀ {input item n}, front input = some (item, n) → 0 < n ∧ n ≤ input.length
  stable : ∀ {input item n}, front input = some (item, n) →
    ∀ more, front (input ++ more) = some (item, n)

/-- Decode until no item is determined; `fuel` bounds the number of items. -/
def decode (front : Front α β) : Nat → List α → List β × List α
  | 0, input => ([], input)
  | fuel + 1, input =>
      match front input with
      | none => ([], input)
      | some (item, n) =>
          ((item :: (decode front fuel (input.drop n)).1), (decode front fuel (input.drop n)).2)

section

-- The equations are generated here, once for the proofs below.
attribute [local simp] decode

end

/-- The items of an input. -/
def delivered (front : Front α β) (input : List α) : List β :=
  (decode front input.length input).1

/-- What is left of an input when its items are taken. -/
def rest (front : Front α β) (input : List α) : List α :=
  (decode front input.length input).2

section

variable {front : Front α β}

/-- More fuel than the input is long changes nothing. -/
theorem decode_fuel (hf : Incremental front) {fuel : Nat} {input : List α}
    (h : input.length ≤ fuel) :
    decode front fuel input = decode front input.length input := by
  induction fuel using Nat.strongRecOn generalizing input with
  | _ fuel ih =>
    cases hfront : front input with
    | none =>
      have hstop : ∀ k, decode front k input = ([], input) := by
        intro k
        cases k with
        | zero => rfl
        | succ k => simp [decode, hfront]
      rw [hstop, hstop]
    | some item =>
      obtain ⟨item, n⟩ := item
      obtain ⟨hpos, hle⟩ := hf.consumes hfront
      obtain ⟨k, rfl⟩ : ∃ k, fuel = k + 1 := ⟨fuel - 1, by omega⟩
      obtain ⟨l, hl⟩ : ∃ l, input.length = l + 1 := ⟨input.length - 1, by omega⟩
      have hdrop : (input.drop n).length ≤ l := by
        rw [List.length_drop]
        omega
      have hk : decode front k (input.drop n) = decode front (input.drop n).length (input.drop n) :=
        ih k (by omega) (by omega)
      have hl' : decode front l (input.drop n) = decode front (input.drop n).length (input.drop n) :=
        ih l (by omega) hdrop
      rw [hl]
      simp only [decode, hfront, hk, hl']

theorem delivered_of_none {input : List α} (h : front input = none) :
    delivered front input = [] := by
  unfold delivered
  cases input.length <;> simp [decode, h]

theorem rest_of_none {input : List α} (h : front input = none) : rest front input = input := by
  unfold rest
  cases input.length <;> simp [decode, h]

variable (hf : Incremental front)

include hf

theorem decode_of_some {input : List α} {item : β} {n : Nat}
    (h : front input = some (item, n)) :
    decode front input.length input =
      (item :: delivered front (input.drop n), rest front (input.drop n)) := by
  obtain ⟨hpos, hle⟩ := hf.consumes h
  obtain ⟨l, hl⟩ : ∃ l, input.length = l + 1 := ⟨input.length - 1, by omega⟩
  have hdrop : (input.drop n).length ≤ l := by
    rw [List.length_drop]
    omega
  rw [hl]
  simp only [decode, h, decode_fuel hf hdrop, delivered, rest]

theorem delivered_of_some {input : List α} {item : β} {n : Nat}
    (h : front input = some (item, n)) :
    delivered front input = item :: delivered front (input.drop n) := by
  rw [delivered, decode_of_some hf h]

theorem rest_of_some {input : List α} {item : β} {n : Nat}
    (h : front input = some (item, n)) : rest front input = rest front (input.drop n) := by
  rw [rest, decode_of_some hf h]

/-- Induction along the items of an input. -/
theorem items_induction {motive : List α → Prop}
    (stop : ∀ input, front input = none → motive input)
    (item : ∀ input item n, front input = some (item, n) → motive (input.drop n) → motive input)
    (input : List α) : motive input := by
  induction hlen : input.length using Nat.strongRecOn generalizing input with
  | _ length ih =>
    cases hfront : front input with
    | none => exact stop input hfront
    | some found =>
      obtain ⟨found, n⟩ := found
      obtain ⟨hpos, hle⟩ := hf.consumes hfront
      apply item input found n hfront
      apply ih (input.drop n).length ?_ _ rfl
      rw [List.length_drop]
      omega

/-- Nothing more is determined by the rest. -/
theorem front_rest (input : List α) : front (rest front input) = none := by
  induction input using items_induction hf with
  | stop input h => rw [rest_of_none h, h]
  | item input item n h ih => rw [rest_of_some hf h, ih]

/-- The rest is an end of the input. -/
theorem rest_suffix (input : List α) : rest front input <:+ input := by
  induction input using items_induction hf with
  | stop input h => rw [rest_of_none h]
  | item input item n h ih =>
    rw [rest_of_some hf h]
    exact ih.trans (List.drop_suffix n input)

private theorem drop_item {input more : List α} {item : β} {n : Nat}
    (h : front input = some (item, n)) :
    (input ++ more).drop n = input.drop n ++ more := by
  rw [List.drop_append_of_le_length (hf.consumes h).2]

/-- **Items of a stream in two pieces.** -/
theorem delivered_append (input more : List α) :
    delivered front (input ++ more) =
      delivered front input ++ delivered front (rest front input ++ more) := by
  induction input using items_induction hf with
  | stop input h => rw [rest_of_none h, delivered_of_none h, List.nil_append]
  | item input item n h ih =>
    rw [delivered_of_some hf (hf.stable h more), drop_item hf h, ih, delivered_of_some hf h,
      rest_of_some hf h, List.cons_append]

/-- **The rest of a stream in two pieces.** -/
theorem rest_append (input more : List α) :
    rest front (input ++ more) = rest front (rest front input ++ more) := by
  induction input using items_induction hf with
  | stop input h => rw [rest_of_none h]
  | item input item n h ih =>
    rw [rest_of_some hf (hf.stable h more), drop_item hf h, ih, rest_of_some hf h]

end

/-! ### Tables of codes -/

/-- No code of the table begins another. -/
def PrefixFree (codes : List (List α × β)) : Prop :=
  ∀ p ∈ codes, ∀ q ∈ codes, p.1 <+: q.1 → p.1 = q.1

instance [DecidableEq α] (codes : List (List α × β)) : Decidable (PrefixFree codes) :=
  inferInstanceAs (Decidable (∀ p ∈ codes, ∀ q ∈ codes, p.1 <+: q.1 → p.1 = q.1))

variable [DecidableEq α]

/-- The first code of the table with which the input begins. -/
def lookup (codes : List (List α × β)) (input : List α) : Option (List α × β) :=
  codes.find? fun code => code.1.isPrefixOf input

/-- The input is a proper beginning of a code. -/
def Begun (codes : List (List α × β)) (input : List α) : Prop :=
  ∃ code ∈ codes, input <+: code.1 ∧ input.length < code.1.length

instance (codes : List (List α × β)) (input : List α) : Decidable (Begun codes input) :=
  inferInstanceAs (Decidable (∃ code ∈ codes, input <+: code.1 ∧ input.length < code.1.length))

theorem lookup_some {codes : List (List α × β)} {input : List α} {code : List α × β}
    (h : lookup codes input = some code) : code ∈ codes ∧ code.1 <+: input :=
  ⟨List.mem_of_find?_eq_some h, by simpa using List.find?_some h⟩

theorem lookup_none {codes : List (List α × β)} {input : List α} :
    lookup codes input = none ↔ ∀ code ∈ codes, ¬ code.1 <+: input := by
  simp [lookup, List.find?_eq_none]

/-- An input that neither begins with a code nor begins one is no better with more. -/
theorem lookup_none_append {codes : List (List α × β)} {input : List α}
    (hnone : lookup codes input = none) (hbegun : ¬ Begun codes input) (more : List α) :
    lookup codes (input ++ more) = none := by
  rw [lookup_none] at hnone ⊢
  intro code hmem hstarting
  rcases Nat.lt_or_ge input.length code.1.length with hlt | hge
  · apply hbegun
    have hbegins := List.prefix_of_prefix_length_le (List.prefix_append input more) hstarting hlt.le
    exact ⟨code, hmem, hbegins, hlt⟩
  · apply hnone code hmem
    exact List.prefix_of_prefix_length_le hstarting (List.prefix_append input more) hge

/-- A code that was recognised stays recognised. -/
theorem lookup_some_append {codes : List (List α × β)} (hfree : PrefixFree codes)
    {input : List α} {code : List α × β} (h : lookup codes input = some code) (more : List α) :
    lookup codes (input ++ more) = some code := by
  obtain ⟨hmem, hstarting⟩ := lookup_some h
  unfold lookup at h ⊢
  rw [← h]
  apply List.find?_congr
  intro other hother
  rw [Bool.eq_iff_iff, List.isPrefixOf_iff_prefix, List.isPrefixOf_iff_prefix]
  constructor
  · intro hlong
    have hwhole : code.1 <+: input ++ more := hstarting.trans (List.prefix_append input more)
    rcases Nat.le_total other.1.length code.1.length with hle | hge
    · exact (List.prefix_of_prefix_length_le hlong hwhole hle).trans hstarting
    · have heq := hfree code hmem other hother
        (List.prefix_of_prefix_length_le hwhole hlong hge)
      rw [← heq]
      exact hstarting
  · intro hshort
    exact hshort.trans (List.prefix_append input more)

/-- An input that begins a code begins with none. -/
theorem lookup_of_begun {codes : List (List α × β)} (hfree : PrefixFree codes)
    {input : List α} (h : Begun codes input) : lookup codes input = none := by
  obtain ⟨code, hmem, hstarting, hlt⟩ := h
  rw [lookup_none]
  intro other hother hbegins
  have heq := hfree other hother code hmem (hbegins.trans hstarting)
  have hle := hbegins.length_le
  rw [heq] at hle
  omega

end Tea.Encoding
