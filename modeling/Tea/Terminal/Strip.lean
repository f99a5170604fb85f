/-
  Tea/Terminal/Strip.lean
  =======================
  **Rows with wide items.**  A wide item covers its place and the next one, and what is put
  on one half of it erases the other half.  Painting the places of a row in order, and only
  those that differ from the row shown before, shows the new row (`paint_picture`), if
  behind each of its wide items there is a blank, now and before.
-/

import Mathlib.Logic.Function.Basic
import Mathlib.Data.List.Basic

namespace Tea.Terminal

/-- What a place shows: an item, or half of a wide one. -/
inductive Shown (α : Type) where
  | whole (item : α)
  | left (item : α)
  | right (item : α)
deriving DecidableEq, Repr

section

variable {α : Type} (wide : α → Bool) (blank : α)

/-- What is at a place goes away: the other half of a wide item is erased. -/
def breakAt (row : Nat → Shown α) (x : Nat) : Nat → Shown α :=
  match row x with
  | .whole _ => row
  | .left _ => Function.update row (x + 1) (.whole blank)
  | .right _ => Function.update row (x - 1) (.whole blank)

/-- An item is put at a place; in the last place there is no room for a wide one. -/
def put (width : Nat) (row : Nat → Shown α) (x : Nat) (item : α) : Nat → Shown α :=
  if wide item then
    if x + 1 < width then
      let cleared := breakAt blank (breakAt blank row x) (x + 1)
      Function.update (Function.update cleared x (.left item)) (x + 1) (.right item)
    else row
  else Function.update (breakAt blank row x) x (.whole item)

/-- An item that no wide one covers. -/
def solo (item : α) : Shown α := if wide item then .left item else .whole item

/-- What a row of items should show. -/
def picture (cells : Nat → α) : Nat → Shown α
  | 0 => solo wide (cells 0)
  | x + 1 => if wide (cells x) then .right (cells x) else solo wide (cells (x + 1))

/-- Behind each wide item there is a place, with a blank. -/
def Fits (width : Nat) (cells : Nat → α) : Prop :=
  ∀ x < width, wide (cells x) = true → x + 1 < width ∧ cells (x + 1) = blank

variable [DecidableEq α]

/-- A place is painted if it differs from what was there before. -/
def paintAt (width : Nat) (base cells : Nat → α) (row : Nat → Shown α) (x : Nat) :
    Nat → Shown α :=
  if cells x = base x then row else put wide blank width row x (cells x)

def paint (width : Nat) (base cells : Nat → α) (row : Nat → Shown α) : Nat → Shown α :=
  (List.range width).foldl (paintAt wide blank width base cells) row

/-! ### The loop -/

/-- What the loop finds at the place it comes to. -/
def ahead (base cells : Nat → α) : Nat → Shown α
  | 0 => solo wide (base 0)
  | x + 1 => if wide (cells x) then .right (cells x) else solo wide (base (x + 1))

/-- The places in front of `k` are painted, those behind it are as before. -/
structure PaintedTo (width : Nat) (base cells : Nat → α) (k : Nat) (row : Nat → Shown α) :
    Prop where
  done : ∀ x < k, row x = picture wide cells x
  here : k < width → row k = ahead wide base cells k
  behind : ∀ x < width, k < x → row x = picture wide base x

end

section

variable {α : Type} {wide : α → Bool} {blank : α} {width k : Nat} {base cells : Nat → α}
  {row : Nat → Shown α}

theorem picture_solo (hnot : ∀ j, k = j + 1 → wide (cells j) = false) :
    picture wide cells k = solo wide (cells k) := by
  cases k with
  | zero => rfl
  | succ j =>
    rw [picture, hnot j rfl]
    rfl

theorem ahead_solo (hnot : ∀ j, k = j + 1 → wide (cells j) = false) :
    ahead wide base cells k = solo wide (base k) := by
  cases k with
  | zero => rfl
  | succ j =>
    rw [ahead, hnot j rfl]
    rfl

theorem solo_blank (hblank : wide blank = false) : solo wide blank = .whole blank := by
  rw [solo, hblank]
  rfl

/-- Nothing is broken in front of an item that no other one covers. -/
theorem breakAt_solo {item : α} (hrow : row k = solo wide item) {x : Nat} :
    breakAt blank row k x =
      if wide item = true ∧ x = k + 1 then .whole blank else row x := by
  unfold breakAt
  rw [hrow, solo]
  cases wide item with
  | false => simp
  | true =>
    simp only [if_true, true_and]
    by_cases hx : x = k + 1
    · subst hx
      simp
    · rw [Function.update_of_ne hx, if_neg hx]

variable [DecidableEq α]

/-- What is in front of a wide item goes through unchanged: a blank is there already. -/
theorem paintAt_covered (hblank : wide blank = false) (hcells : Fits wide blank width cells)
    (hbehind : ∀ x < width, wide (cells x) = true → base (x + 1) = blank)
    {j : Nat} (hwide : wide (cells j) = true) (hk : j + 1 < width)
    (h : PaintedTo wide width base cells (j + 1) row) :
    PaintedTo wide width base cells (j + 2)
      (paintAt wide blank width base cells row (j + 1)) := by
  have hj : j < width := by omega
  have hcell : cells (j + 1) = blank := (hcells j hj hwide).2
  have hbase : base (j + 1) = blank := hbehind j hj hwide
  have hsame : paintAt wide blank width base cells row (j + 1) = row := by
    rw [paintAt, hcell, hbase, if_pos rfl]
  rw [hsame]
  constructor
  · intro x hx
    rcases Nat.lt_succ_iff_lt_or_eq.mp hx with hlt | rfl
    · exact h.done x hlt
    · rw [h.here hk, ahead, picture, if_pos hwide, if_pos hwide]
  · intro hnext
    rw [h.behind (j + 2) hnext (by omega), picture, ahead, hbase, hcell, hblank]
  · intro x hx hlt
    exact h.behind x hx (by omega)

/-- A place that no wide item covers is painted, or is as it should be. -/
theorem paintAt_free (hblank : wide blank = false) (hcells : Fits wide blank width cells)
    (hbase : Fits wide blank width base)
    (hbehind : ∀ x < width, wide (cells x) = true → base (x + 1) = blank)
    (hnot : ∀ j, k = j + 1 → wide (cells j) = false) (hk : k < width)
    (h : PaintedTo wide width base cells k row) :
    PaintedTo wide width base cells (k + 1) (paintAt wide blank width base cells row k) := by
  have hrow : row k = solo wide (base k) := by rw [h.here hk, ahead_solo hnot]
  have hpicture : picture wide cells k = solo wide (cells k) := picture_solo hnot
  -- what the next place shows, once the item at `k` is gone
  have hnext : k + 1 < width → (if wide (base k) = true then Shown.whole blank
      else row (k + 1)) = solo wide (base (k + 1)) := by
    intro hlt
    by_cases hwide : wide (base k) = true
    · rw [if_pos hwide, (hbase k hk hwide).2, solo_blank hblank]
    · rw [if_neg hwide, h.behind (k + 1) hlt (by omega), picture, if_neg hwide]
  unfold paintAt
  split_ifs with hsame
  · constructor
    · intro x hx
      rcases Nat.lt_succ_iff_lt_or_eq.mp hx with hlt | rfl
      · exact h.done x hlt
      · rw [hrow, hpicture, hsame]
    · intro hlt
      rw [h.behind (k + 1) hlt (by omega), picture, ahead, hsame]
    · intro x hx hlt
      exact h.behind x hx (by omega)
  · unfold put
    split_ifs with hwide hroom
    · have hcleared : ∀ x, x ≠ k + 1 →
          breakAt blank (breakAt blank row k) (k + 1) x = row x := by
        intro x hx
        have hsecond : breakAt blank row k (k + 1) = solo wide blank := by
          rw [breakAt_solo hrow, solo_blank hblank]
          simp only [and_true]
          rw [hnext hroom, hbehind k hk hwide, solo_blank hblank]
        rw [breakAt_solo hsecond, hblank]
        simp only [Bool.false_eq_true, false_and, if_false]
        rw [breakAt_solo hrow, if_neg fun hboth => hx hboth.2]
      constructor
      · intro x hx
        rw [Function.update_of_ne (by omega)]
        rcases Nat.lt_succ_iff_lt_or_eq.mp hx with hlt | rfl
        · rw [Function.update_of_ne (by omega), hcleared x (by omega)]
          exact h.done x hlt
        · rw [Function.update_self, hpicture, solo, if_pos hwide]
      · intro hlt
        rw [Function.update_self, ahead, if_pos hwide]
      · intro x hx hlt
        rw [Function.update_of_ne (by omega), Function.update_of_ne (by omega),
          hcleared x (by omega)]
        exact h.behind x hx (by omega)
    · exact absurd (hcells k hk hwide).1 hroom
    · constructor
      · intro x hx
        rcases Nat.lt_succ_iff_lt_or_eq.mp hx with hlt | rfl
        · rw [Function.update_of_ne (by omega), breakAt_solo hrow, if_neg (by omega)]
          exact h.done x hlt
        · rw [Function.update_self, hpicture, solo, if_neg hwide]
      · intro hlt
        rw [Function.update_of_ne (by omega), breakAt_solo hrow, ahead, if_neg hwide]
        simp only [and_true]
        exact hnext hlt
      · intro x hx hlt
        rw [Function.update_of_ne (by omega), breakAt_solo hrow, if_neg (by omega)]
        exact h.behind x hx (by omega)

/-- **Painting a row** shows it. -/
theorem paint_picture (hblank : wide blank = false) (hcells : Fits wide blank width cells)
    (hbase : Fits wide blank width base)
    (hbehind : ∀ x < width, wide (cells x) = true → base (x + 1) = blank)
    (hrow : ∀ x < width, row x = picture wide base x) :
    ∀ x < width, paint wide blank width base cells row x = picture wide cells x := by
  have hloop : ∀ k ≤ width, PaintedTo wide width base cells k
      ((List.range k).foldl (paintAt wide blank width base cells) row) := by
    intro k
    induction k with
    | zero =>
      intro _
      constructor
      · intro x hx
        exact absurd hx (Nat.not_lt_zero x)
      · intro hlt
        exact hrow 0 hlt
      · intro x hx _
        exact hrow x hx
    | succ k ih =>
      intro hk
      have hpainted := ih (by omega)
      rw [List.range_succ, List.foldl_append, List.foldl_cons, List.foldl_nil]
      by_cases hcovered : ∃ j, k = j + 1 ∧ wide (cells j) = true
      · obtain ⟨j, rfl, hwide⟩ := hcovered
        exact paintAt_covered hblank hcells hbehind hwide hk hpainted
      · have hnot : ∀ j, k = j + 1 → wide (cells j) = false := by
          intro j hj
          rw [← Bool.not_eq_true]
          intro hwide
          exact hcovered ⟨j, hj, hwide⟩
        exact paintAt_free hblank hcells hbase hbehind hnot hk hpainted
  intro x hx
  exact (hloop width (Nat.le_refl _)).done x hx

end

end Tea.Terminal
