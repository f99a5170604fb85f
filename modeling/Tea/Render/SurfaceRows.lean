/-
  Tea/Render/SurfaceRows.lean
  ===========================
  **The rows of a temporary surface**: the loop places the rows that there is room for, one below
  the other, and the frame shows each of them where it was placed.
-/
import Tea.Render.Surface

namespace Tea.Render

open Tea.Tui
open Tea.Provider.Registry (ProviderRegistry)

/-! ### Placements -/

section

variable {width limit : Nat} {style : Style}

/-- The rows of lines that are numbered from `line` on. -/
def numberedRows (width : Nat) (style : Style) : Nat → List String → List (Nat × RenderLine)
  | _, [] => []
  | line, text :: rest =>
    ((wrapLines text width style).map fun row => (line, row)) ++
      numberedRows width style (line + 1) rest

def Placement.numbered (placement : Placement) : Nat × RenderLine := (placement.line, placement.row)

theorem saturatingAdd_one {y : Nat} (h : y < limit) (hlimit : limit < 65536) :
    saturatingAdd y 1 = y + 1 := by
  have hpow : 2 ^ 16 = 65536 := by decide
  rw [saturatingAdd, hpow]
  omega

theorem placeRows_eq (line : Nat) (hlimit : limit < 65536) (rows : List RenderLine) {y : Nat}
    (hy : y ≤ limit) :
    (placeRows line limit rows y).1.map Placement.numbered =
        (rows.take (limit - y)).map (fun row => (line, row)) ∧
      (placeRows line limit rows y).2 = min (y + rows.length) limit := by
  induction rows generalizing y with
  | nil => simp [placeRows, hy]
  | cons row rows ih =>
    rw [placeRows]
    by_cases hfull : limit ≤ y
    · rw [if_pos hfull]
      have heq : limit - y = 0 := by omega
      rw [heq]
      refine ⟨rfl, ?_⟩
      rw [List.length_cons]
      omega
    · rw [if_neg hfull, saturatingAdd_one (by omega) hlimit]
      obtain ⟨hrows, hnext⟩ := ih (y := y + 1) (by omega)
      have heq : limit - y = limit - (y + 1) + 1 := by omega
      rw [heq, List.take_succ_cons]
      refine ⟨?_, ?_⟩
      · simp [Placement.numbered, hrows]
      · simp only [hnext, List.length_cons]
        omega

/-- The loop places the rows that the limit leaves room for. -/
theorem placeLines_eq (hlimit : limit < 65536) (line : Nat) (lines : List String) {y : Nat}
    (hy : y ≤ limit) :
    (placeLines width limit style line lines y).map Placement.numbered =
      (numberedRows width style line lines).take (limit - y) := by
  induction lines generalizing line y with
  | nil => simp [placeLines, numberedRows]
  | cons text lines ih =>
    obtain ⟨hrows, hnext⟩ := placeRows_eq line hlimit (wrapLines text width style) hy
    rw [placeLines, numberedRows, List.take_append, List.length_map]
    dsimp only
    rw [hnext]
    split_ifs with hfull
    · have hzero : limit - y - (wrapLines text width style).length = 0 := by omega
      rw [hzero, List.take_zero, List.append_nil, hrows, List.map_take]
    · have hroom : min (y + (wrapLines text width style).length) limit =
          y + (wrapLines text width style).length := by omega
      rw [List.map_append, hrows, hroom, ih (line + 1) (by omega), Nat.sub_sub, List.map_take]

theorem line_le_of_mem {line : Nat} {lines : List String} {row : Nat × RenderLine}
    (h : row ∈ numberedRows width style line lines) : line ≤ row.1 := by
  induction lines generalizing line with
  | nil => cases h
  | cons text lines ih =>
    rw [numberedRows, List.mem_append] at h
    rcases h with h | h
    · obtain ⟨found, -, rfl⟩ := List.mem_map.mp h
      exact Nat.le_refl _
    · exact Nat.le_of_succ_le (ih h)

theorem numberedRows_append (line : Nat) (before after : List String) :
    numberedRows width style line (before ++ after) =
      numberedRows width style line before ++
        numberedRows width style (line + before.length) after := by
  induction before generalizing line with
  | nil => rfl
  | cons text before ih =>
    rw [List.cons_append, numberedRows, numberedRows, ih, List.append_assoc, List.length_cons,
      Nat.add_assoc, Nat.add_comm 1]

theorem length_numberedRows (line : Nat) (lines : List String) :
    (numberedRows width style line lines).length =
      (lines.flatMap fun text => wrapLines text width style).length := by
  induction lines generalizing line with
  | nil => rfl
  | cons text lines ih => simp [numberedRows, ih]

theorem line_lt_of_mem {line : Nat} {lines : List String} {row : Nat × RenderLine}
    (h : row ∈ numberedRows width style line lines) : row.1 < line + lines.length := by
  induction lines generalizing line with
  | nil => cases h
  | cons text lines ih =>
    rw [numberedRows, List.mem_append] at h
    rw [List.length_cons]
    rcases h with h | h
    · obtain ⟨found, -, rfl⟩ := List.mem_map.mp h
      dsimp only
      omega
    · have hlt := ih h
      omega

/-- The rows of a line that are left of the first rows of all. -/
theorem filter_numberedRows (before : List String) (text : String) (after : List String)
    (room : Nat) :
    ((numberedRows width style 0 (before ++ text :: after)).take room).filter
        (fun row => row.1 = before.length) =
      ((wrapLines text width style).take
        (room - (before.flatMap fun text => wrapLines text width style).length)).map
          fun row => (before.length, row) := by
  have hbefore : ∀ row ∈ numberedRows width style 0 before, row.1 ≠ before.length := by
    intro row hrow
    have hlt := line_lt_of_mem hrow
    omega
  have hafter : ∀ row ∈ numberedRows width style (before.length + 1) after,
      row.1 ≠ before.length := by
    intro row hrow
    have hle := line_le_of_mem hrow
    omega
  have hnone : ∀ rows count, (∀ row ∈ rows, row.1 ≠ before.length) →
      (List.take count rows).filter (fun row : Nat × RenderLine => row.1 = before.length) = [] := by
    intro rows count hrows
    apply List.filter_eq_nil_iff.mpr
    intro row hrow
    simpa using hrows row (List.mem_of_mem_take hrow)
  have hall : ∀ rows : List RenderLine,
      (rows.map fun row => (before.length, row)).filter
        (fun row : Nat × RenderLine => row.1 = before.length) =
          rows.map fun row => (before.length, row) := by
    intro rows
    apply List.filter_eq_self.mpr
    intro row hrow
    obtain ⟨found, -, rfl⟩ := List.mem_map.mp hrow
    simp
  rw [numberedRows_append, Nat.zero_add, List.take_append, List.filter_append,
    hnone _ _ hbefore, List.nil_append, length_numberedRows, numberedRows, List.take_append,
    List.filter_append, hnone _ _ hafter, List.append_nil, ← List.map_take, hall]

end

/-! ### Rows of frames -/

theorem get_set_eq (g : Grid) (x y x' y' : Nat) (cell : Cell) :
    (g.set x y cell).get x' y' =
      if x = x' ∧ y = y' ∧ x < g.width ∧ y < g.height then some cell else g.get x' y' := by
  by_cases hin : x < g.width ∧ y < g.height
  · have hindex : g.index x y = some (y * g.width + x) := if_pos hin
    have hset : g.set x y cell = { g with
        cells := g.cells.set (y * g.width + x) cell
        size := by rw [List.length_set, g.size] } := by
      unfold Grid.set
      rw [hindex]
    rw [hset]
    by_cases hin' : x' < g.width ∧ y' < g.height
    · have hlength : y * g.width + x < g.cells.length := by
        obtain ⟨found, hfound⟩ := Grid.get_isSome hin.1 hin.2
        rw [Grid.get, hindex, Option.bind_some] at hfound
        exact (List.getElem?_eq_some_iff.mp hfound).1
      simp only [Grid.get, Grid.index, if_pos hin', Option.bind_some, List.getElem?_set]
      by_cases hsame : x = x' ∧ y = y'
      · obtain ⟨rfl, rfl⟩ := hsame
        rw [if_pos rfl, if_pos hlength, if_pos ⟨rfl, rfl, hin⟩]
      · have hne : y * g.width + x ≠ y' * g.width + x' := by
          intro heq
          have hpos : 0 < g.width := by omega
          have hdiv : ∀ a b, b < g.width → (a * g.width + b) / g.width = a := by
            intro a b hb
            rw [Nat.mul_comm, Nat.mul_add_div hpos, Nat.div_eq_of_lt hb, Nat.add_zero]
          have hrow : y = y' := by rw [← hdiv y x hin.1, heq, hdiv y' x' hin'.1]
          subst hrow
          exact hsame ⟨by omega, rfl⟩
        rw [if_neg hne, if_neg (fun h => hsame ⟨h.1, h.2.1⟩)]
    · simp only [Grid.get, Grid.index, if_neg hin', Option.bind_none]
      rw [if_neg]
      rintro ⟨rfl, rfl, h⟩
      exact hin' h
  · have hset : g.set x y cell = g := by
      unfold Grid.set Grid.index
      rw [if_neg hin]
    rw [hset, if_neg (fun h => hin h.2.2)]

/-- Frames of one size that have the row in common. -/
structure SameRow (y : Nat) (g g' : Grid) : Prop where
  width : g.width = g'.width
  height : g.height = g'.height
  row : ∀ x, g.get x y = g'.get x y

theorem width_set (g : Grid) (x y : Nat) (cell : Cell) :
    (g.set x y cell).width = g.width ∧ (g.set x y cell).height = g.height := by
  unfold Grid.set
  cases g.index x y with
  | none => exact ⟨rfl, rfl⟩
  | some i => exact ⟨rfl, rfl⟩

theorem SameRow.set {y : Nat} {g g' : Grid} (h : SameRow y g g') (x y' : Nat) (cell : Cell) :
    SameRow y (g.set x y' cell) (g'.set x y' cell) := by
  obtain ⟨hwidth, hheight⟩ := width_set g x y' cell
  obtain ⟨hwidth', hheight'⟩ := width_set g' x y' cell
  refine ⟨by rw [hwidth, hwidth', h.width], by rw [hheight, hheight', h.height], ?_⟩
  intro x'
  rw [get_set_eq, get_set_eq, h.width, h.height, h.row]

theorem SameRow.set_other {y y' : Nat} (hne : y' ≠ y) (g : Grid) (x : Nat) (cell : Cell) :
    SameRow y (g.set x y' cell) g := by
  obtain ⟨hwidth, hheight⟩ := width_set g x y' cell
  refine ⟨hwidth, hheight, ?_⟩
  intro x'
  rw [get_set_eq, if_neg (fun h => hne h.2.1)]

theorem SameRow.refl (y : Nat) (g : Grid) : SameRow y g g := ⟨rfl, rfl, fun _ => rfl⟩

theorem SameRow.trans {y : Nat} {g g' g'' : Grid} (h : SameRow y g g') (h' : SameRow y g' g'') :
    SameRow y g g'' :=
  ⟨h.width.trans h'.width, h.height.trans h'.height, fun x => (h.row x).trans (h'.row x)⟩

theorem SameRow.putSymbols {y : Nat} {g g' : Grid} (h : SameRow y g g') (x y' width : Nat)
    (symbols : List (Char × Style)) (column : Nat) :
    SameRow y (putSymbols x y' width symbols column g)
      (putSymbols x y' width symbols column g') := by
  induction symbols generalizing column g g' with
  | nil => exact h
  | cons symbol rest ih =>
    obtain ⟨symbol, style⟩ := symbol
    simp only [Tui.putSymbols]
    split_ifs
    · exact ih h column
    · exact h
    · exact ih h column
    · exact h
    · exact ih ((h.set _ _ _).set _ _ _) _
    · exact ih (h.set _ _ _) _

theorem SameRow.putSymbols_other {y y' : Nat} (hne : y' ≠ y) (x width : Nat)
    (symbols : List (Char × Style)) (column : Nat) (g : Grid) :
    SameRow y (Tui.putSymbols x y' width symbols column g) g := by
  induction symbols generalizing column g with
  | nil => exact .refl y g
  | cons symbol rest ih =>
    obtain ⟨symbol, style⟩ := symbol
    simp only [Tui.putSymbols]
    split_ifs
    · exact ih column g
    · exact .refl y g
    · exact ih column g
    · exact .refl y g
    · exact (ih _ _).trans ((SameRow.set_other hne _ _ _).trans (SameRow.set_other hne _ _ _))
    · exact (ih _ _).trans (SameRow.set_other hne _ _ _)

/-- Where the placed rows are: one below the other. -/
theorem placeRows_y (line limit : Nat) (hlimit : limit < 65536) (rows : List RenderLine) (y : Nat) :
    (placeRows line limit rows y).1.map Placement.y =
        List.range' y (placeRows line limit rows y).1.length ∧
      (placeRows line limit rows y).2 = y + (placeRows line limit rows y).1.length ∧
      (0 < (placeRows line limit rows y).1.length →
        y + (placeRows line limit rows y).1.length ≤ limit) := by
  induction rows generalizing y with
  | nil => simp [placeRows]
  | cons row rows ih =>
    rw [placeRows]
    by_cases hfull : limit ≤ y
    · simp [if_pos hfull]
    · obtain ⟨hys, hnext, hle⟩ := ih (y + 1)
      have hlt : y < limit := by omega
      rw [if_neg hfull, saturatingAdd_one hlt hlimit]
      refine ⟨?_, ?_, ?_⟩
      · simp only [List.map_cons, List.length_cons, List.range'_succ, hys]
      · simp only [hnext, List.length_cons]
        omega
      · intro _
        simp only [List.length_cons]
        by_cases hpos : 0 < (placeRows line limit rows (y + 1)).1.length
        · have := hle hpos
          omega
        · omega

theorem placeLines_y (width limit : Nat) (hlimit : limit < 65536) (style : Style) (line : Nat)
    (lines : List String) (y : Nat) :
    (placeLines width limit style line lines y).map Placement.y =
        List.range' y (placeLines width limit style line lines y).length ∧
      (0 < (placeLines width limit style line lines y).length →
        y + (placeLines width limit style line lines y).length ≤ limit) := by
  induction lines generalizing line y with
  | nil => simp [placeLines]
  | cons text lines ih =>
    obtain ⟨hys, hnext, hle⟩ :=
      placeRows_y line limit hlimit (wrapLines text width style) y
    obtain ⟨hys', hle'⟩ := ih (line + 1) (placeRows line limit (wrapLines text width style) y).2
    rw [placeLines]
    dsimp only
    split_ifs with hfull
    · exact ⟨hys, hle⟩
    · refine ⟨?_, ?_⟩
      · rw [List.map_append, hys, hys', hnext, List.length_append, List.range'_append_1]
      · rw [List.length_append]
        intro hpos
        by_cases hrest : 0 < (placeLines width limit style (line + 1) lines
            (placeRows line limit (wrapLines text width style) y).2).length
        · have := hle' hrest
          omega
        · have := hle (by omega)
          omega

/-- Of the rows that are put into a frame, each one is there. -/
theorem foldl_putPlacement {width : Nat} {placements : List Placement}
    (hnodup : (placements.map Placement.y).Nodup) (g : Grid) {placement : Placement}
    (hmem : placement ∈ placements) :
    SameRow placement.y (placements.foldl (putPlacement width) g)
      (putPlacement width g placement) := by
  have hothers : ∀ (placements : List Placement) (y : Nat) (g : Grid),
      y ∉ placements.map Placement.y →
      SameRow y (placements.foldl (putPlacement width) g) g := by
    intro placements
    induction placements with
    | nil => exact fun y g _ => .refl y g
    | cons first rest ih =>
      intro y g hy
      rw [List.map_cons, List.mem_cons, not_or] at hy
      exact (ih y _ hy.2).trans (SameRow.putSymbols_other (Ne.symm hy.1) _ _ _ _ _)
  induction placements generalizing g with
  | nil => cases hmem
  | cons first rest ih =>
    obtain ⟨hfirst, hrest⟩ := List.nodup_cons.mp hnodup
    rcases List.mem_cons.mp hmem with rfl | hmem
    · exact hothers rest _ _ hfirst
    · refine (ih hrest (putPlacement width g first) hmem).trans ?_
      apply SameRow.putSymbols
      apply SameRow.putSymbols_other
      rintro heq
      exact hfirst (by rw [heq]; exact List.mem_map_of_mem hmem)

/-- **A placed row is in the frame**, in the line where it was put. -/
theorem surface_row (footer : String × String) (state : AppState) (registry : ProviderRegistry)
    {width height : Nat} (fits : width < 2 ^ 16 ∧ height < 2 ^ 16) {placement : Placement}
    (hmem : placement ∈ surfacePlacements footer state registry width height) :
    SameRow placement.y (renderSurface footer state registry width height fits)
      (putPlacement width (Grid.new width height fits) placement) := by
  have hpow : 2 ^ 16 = 65536 := by decide
  obtain ⟨hys, hle⟩ := placeLines_y width (height - 2) (by omega) (({} : Theme).style .text)
    (min state.surfaceOffset (surfaceText footer state registry).length)
    ((surfaceText footer state registry).drop
      (min state.surfaceOffset (surfaceText footer state registry).length)) 2
  have hbounds : 2 ≤ placement.y ∧ placement.y < height - 2 := by
    have hy : placement.y ∈
        (surfacePlacements footer state registry width height).map Placement.y :=
      List.mem_map_of_mem hmem
    rw [surfacePlacements, hys, List.mem_range'_1] at hy
    have := hle (List.length_pos_of_mem hmem)
    omega
  have hnodup : ((surfacePlacements footer state registry width height).map Placement.y).Nodup := by
    rw [surfacePlacements, hys]
    exact List.nodup_range'
  have hother : ∀ (g : Grid) (y' : Nat) (text : String) (style : Style), y' ≠ placement.y →
      SameRow placement.y (putText g 0 y' width text style) g :=
    fun g y' text style hne => SameRow.putSymbols_other hne _ _ _ _ _
  unfold renderSurface
  dsimp only
  rw [if_neg (by omega), if_pos (by omega), if_pos (by omega)]
  refine (hother _ _ _ _ (by omega)).trans ((hother _ _ _ _ (by omega)).trans ?_)
  refine (foldl_putPlacement hnodup _ hmem).trans ?_
  apply SameRow.putSymbols
  exact (hother _ _ _ _ (by omega)).trans (hother _ _ _ _ (by omega))

end Tea.Render
