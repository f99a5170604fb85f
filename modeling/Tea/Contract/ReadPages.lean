/-
  Tea/Contract/ReadPages.lean
  ===========================
  **Reading a file page by page.**  A reader continues behind the lines of the last page as
  long as a page bears the mark of a cut.  The pages are the file exactly if no line is
  longer than the byte limit (`pages_complete`); a longer line is cut to nothing.
-/
import Tea.Coding.Read
import Mathlib.Data.List.Infix

namespace Tea.Contract

open Tea.Encoding Tea.Coding

/-! ### Pages -/

/-- The number of lines of a page: a page is lines joined by line breaks. -/
def pageLines (page : List Char) : Nat := (page.splitOn '\n').length

/-- The pages that are read from an offset on, each without its mark. -/
inductive Pages (bytes : List UInt8) : Nat → List (List Char) → Prop
  | last {start : Nat} {page : List Char} (hread : readLines bytes (some start) none = .ok page)
      (hmark : ¬ truncatedMark <:+ page) : Pages bytes start [page]
  | more {start : Nat} {page : List Char} {pages : List (List Char)}
      (hread : readLines bytes (some start) none = .ok (page ++ truncatedMark))
      (hmore : Pages bytes (start + pageLines page) pages) : Pages bytes start (page :: pages)

/-- Every page makes progress and keeps to the limits. -/
def WithinLimits (page : List Char) : Prop :=
  0 < pageLines page ∧ (outputLines page).length ≤ maxOutputLines ∧
    byteLength page ≤ maxOutputBytes

/-- The pages from the first line on come to an end, and their lines are the file. -/
def PagesComplete (text : List Char) : Prop :=
  ∃ pages, Pages (encodeUtf8 text) 1 pages ∧ (∀ page ∈ pages, WithinLimits page) ∧
    joinLines pages = text

/-! ### Lines -/

theorem joinLines_append {lines more : List (List Char)} (hlines : lines ≠ [])
    (hmore : more ≠ []) :
    joinLines (lines ++ more) = joinLines lines ++ '\n' :: joinLines more := by
  induction lines with
  | nil => exact absurd rfl hlines
  | cons line lines ih =>
    obtain ⟨first, more, rfl⟩ := List.exists_cons_of_ne_nil hmore
    cases lines with
    | nil => simp [joinLines, List.intercalate_cons_cons]
    | cons second lines =>
      have htail := ih (List.cons_ne_nil _ _)
      unfold joinLines at htail ⊢
      rw [List.cons_append, List.cons_append, List.intercalate_cons_cons, ← List.cons_append,
        htail, List.intercalate_cons_cons]
      simp

theorem joinLines_singleton (line : List Char) : joinLines [line] = line :=
  List.intercalate_singleton

theorem joinLines_splitOn (text : List Char) : joinLines (text.splitOn '\n') = text :=
  List.intercalate_splitOn '\n'

theorem splitOn_joinLines {lines : List (List Char)} (hne : lines ≠ [])
    (hlines : ∀ line ∈ lines, '\n' ∉ line) : (joinLines lines).splitOn '\n' = lines :=
  List.splitOn_intercalate '\n' hlines hne

/-- A line has no line break. -/
theorem splitOn_line {text line : List Char} (h : line ∈ text.splitOn '\n') : '\n' ∉ line := by
  induction text generalizing line with
  | nil =>
    rw [List.splitOn_nil, List.mem_singleton] at h
    rw [h]
    exact List.not_mem_nil
  | cons c text ih =>
    rw [List.splitOn_cons_eq_if_modifyHead] at h
    split_ifs at h with hbreak
    · rcases List.mem_cons.mp h with rfl | h
      · exact List.not_mem_nil
      · exact ih h
    · cases hrest : text.splitOn '\n' with
      | nil => exact absurd hrest (List.splitOn_ne_nil '\n' text)
      | cons first rest =>
        rw [hrest] at h ih
        rw [List.modifyHead_cons] at h
        rcases List.mem_cons.mp h with rfl | h
        · rw [List.mem_cons, not_or]
          refine ⟨fun heq => hbreak ?_, ih List.mem_cons_self⟩
          rw [heq]
          exact beq_self_eq_true c
        · exact ih (List.mem_cons_of_mem _ h)

theorem byteLength_append (xs ys : List Char) :
    byteLength (xs ++ ys) = byteLength xs + byteLength ys := by
  unfold byteLength
  rw [encodeUtf8_append, List.length_append]

theorem byteLength_cons_break (text : List Char) :
    byteLength ('\n' :: text) = 1 + byteLength text := by
  unfold byteLength
  rw [encodeUtf8_cons, List.length_append]
  rfl

/-! ### Pages are short -/

/-- The lines of complete pages are lines of the pages. -/
theorem line_of_page {pages : List (List Char)} (hne : pages ≠ []) {line : List Char}
    (h : line ∈ (joinLines pages).splitOn '\n') :
    ∃ page ∈ pages, line ∈ page.splitOn '\n' := by
  induction pages with
  | nil => exact absurd rfl hne
  | cons page pages ih =>
    cases pages with
    | nil =>
      rw [joinLines_singleton] at h
      exact ⟨page, List.mem_cons_self, h⟩
    | cons second pages =>
      have hsplit := joinLines_append (List.cons_ne_nil page []) (List.cons_ne_nil second pages)
      rw [List.singleton_append, joinLines_singleton] at hsplit
      rw [hsplit, List.splitOn_append_cons_self, List.mem_append] at h
      rcases h with h | h
      · exact ⟨page, List.mem_cons_self, h⟩
      · obtain ⟨found, hfound, hline⟩ := ih (by simp) h
        exact ⟨found, List.mem_cons_of_mem _ hfound, hline⟩

theorem line_le_joinLines {lines : List (List Char)} {line : List Char} (h : line ∈ lines) :
    byteLength line ≤ byteLength (joinLines lines) := by
  obtain ⟨before, after, rfl⟩ := List.append_of_mem h
  have htail : byteLength line ≤ byteLength (joinLines (line :: after)) := by
    cases after with
    | nil => rw [joinLines_singleton]
    | cons second after =>
      have hsplit := joinLines_append (List.cons_ne_nil line []) (List.cons_ne_nil second after)
      rw [List.singleton_append, joinLines_singleton] at hsplit
      rw [hsplit, byteLength_append]
      omega
  cases before with
  | nil => exact htail
  | cons first before =>
    rw [joinLines_append (by simp) (by simp), byteLength_append, byteLength_cons_break]
    omega

/-- If the pages are the file, then every line fits on a page. -/
theorem lines_short {text : List Char} (h : PagesComplete text) {line : List Char}
    (hline : line ∈ text.splitOn '\n') : byteLength line ≤ maxOutputBytes := by
  obtain ⟨pages, hpages, hlimits, rfl⟩ := h
  have hne : pages ≠ [] := by
    cases hpages with
    | last => exact List.cons_ne_nil _ _
    | more => exact List.cons_ne_nil _ _
  obtain ⟨page, hpage, hmem⟩ := line_of_page hne hline
  have hle := line_le_joinLines hmem
  rw [joinLines_splitOn] at hle
  exact le_trans hle (hlimits page hpage).2.2

/-! ### Every page is a run of the lines -/

/-- The loop pushes a first part of the lines: what it holds stays within the bytes. -/
theorem pushLines_spec {done : List (List Char)} (lines : List (List Char)) (hdone : done ≠ [])
    (hbytes : byteLength (joinLines done) ≤ maxOutputBytes) :
    ∃ k ≤ lines.length, pushLines (joinLines done) done.length lines =
        joinLines (done ++ lines.take k) ∧
      byteLength (joinLines (done ++ lines.take k)) ≤ maxOutputBytes := by
  induction lines generalizing done with
  | nil => exact ⟨0, le_rfl, by simp [pushLines], by simpa using hbytes⟩
  | cons line lines ih =>
    have hcount : done.length ≠ 0 := by simpa using hdone
    have hjoin : joinLines (done ++ [line]) = joinLines done ++ '\n' :: line := by
      rw [joinLines_append hdone (List.cons_ne_nil _ _), joinLines_singleton]
    simp only [pushLines, hcount, if_false, one_ne_zero]
    split_ifs with hfull
    · exact ⟨0, Nat.zero_le _, by simp, by simpa using hbytes⟩
    · have hmore : byteLength (joinLines (done ++ [line])) ≤ maxOutputBytes := by
        rw [hjoin, byteLength_append, byteLength_cons_break]
        omega
      obtain ⟨k, hk, hpush, hle⟩ :=
        ih (List.append_ne_nil_of_right_ne_nil done (List.cons_ne_nil line [])) hmore
      refine ⟨k + 1, by simpa using hk, ?_, ?_⟩
      · rw [hjoin, List.length_append, List.length_singleton] at hpush
        rw [hpush, List.take_succ_cons, List.append_assoc, List.singleton_append]
      · simpa using hle

/-- If the first line is short, then the loop pushes at least that line. -/
theorem pushLines_first {line : List Char} (lines : List (List Char))
    (hline : byteLength line ≤ maxOutputBytes) :
    ∃ k, 0 < k ∧ k ≤ (line :: lines).length ∧
      pushLines [] 0 (line :: lines) = joinLines ((line :: lines).take k) ∧
      byteLength (joinLines ((line :: lines).take k)) ≤ maxOutputBytes := by
  have hempty : byteLength [] = 0 := rfl
  have hroom : ¬ maxOutputBytes < byteLength [] + 0 + byteLength line := by omega
  have hpush : pushLines [] 0 (line :: lines) = pushLines (joinLines [line]) 1 lines := by
    simp only [pushLines, if_true, hroom, if_false, joinLines_singleton, List.nil_append]
  have hone : byteLength (joinLines [line]) ≤ maxOutputBytes := by
    rw [joinLines_singleton]
    exact hline
  obtain ⟨k, hk, hspec, hle⟩ := pushLines_spec lines (List.cons_ne_nil line []) hone
  refine ⟨k + 1, Nat.succ_pos k, by simpa using hk, ?_, by simpa using hle⟩
  rw [hpush, List.take_succ_cons]
  exact hspec

/-- Lines that make a page. -/
theorem withinLimits_of_lines {lines : List (List Char)} (hne : lines ≠ [])
    (hlines : ∀ line ∈ lines, '\n' ∉ line)
    (hcount : (outputLines (joinLines lines)).length ≤ maxOutputLines)
    (hbytes : byteLength (joinLines lines) ≤ maxOutputBytes) : WithinLimits (joinLines lines) := by
  refine ⟨?_, hcount, hbytes⟩
  rw [pageLines, splitOn_joinLines hne hlines]
  exact List.length_pos_of_ne_nil hne

/-- The lines of a text that are counted are a first part of all of them. -/
theorem outputLines_begins (text : List Char) : outputLines text <+: text.splitOn '\n' := by
  unfold outputLines
  split_ifs
  · exact List.dropLast_prefix _
  · exact List.prefix_rfl

theorem outputLines_le (text : List Char) :
    (outputLines text).length ≤ (text.splitOn '\n').length :=
  (outputLines_begins text).length_le

/-- At most one line is not counted. -/
theorem lines_le_outputLines (text : List Char) :
    (text.splitOn '\n').length ≤ (outputLines text).length + 1 := by
  unfold outputLines
  split_ifs
  · rw [List.length_dropLast]
    omega
  · omega

/-- A text has a line that is counted. -/
theorem outputLines_ne_nil (text : List Char) : outputLines text ≠ [] := by
  unfold outputLines
  split_ifs with hbreak
  · intro hnil
    have htext := joinLines_splitOn text
    have hlast := List.mem_of_getLast? hbreak
    have hone : (text.splitOn '\n').length ≤ 1 := by
      have hlength := congrArg List.length hnil
      rw [List.length_dropLast, List.length_nil] at hlength
      omega
    obtain ⟨line, hline⟩ : ∃ line, text.splitOn '\n' = [line] := by
      refine List.length_eq_one_iff.mp (le_antisymm hone ?_)
      exact List.length_pos_of_ne_nil (List.splitOn_ne_nil _ _)
    rw [hline, joinLines_singleton] at htext
    subst htext
    exact splitOn_line (by rw [hline]; exact List.mem_cons_self) hlast
  · exact List.splitOn_ne_nil _ _

/-- **What is cut off.**  The helper answers the lines, or a shorter first part of them. -/
theorem truncate_lines {lines : List (List Char)} (hne : lines ≠ [])
    (hlines : ∀ line ∈ lines, '\n' ∉ line)
    (hshort : ∀ line ∈ lines, byteLength line ≤ maxOutputBytes) :
    truncateReadOutput (encodeUtf8 (joinLines lines)) = (joinLines lines, false) ∧
        WithinLimits (joinLines lines) ∨
      ∃ k, 0 < k ∧ k < lines.length ∧
        truncateReadOutput (encodeUtf8 (joinLines lines)) = (joinLines (lines.take k), true) ∧
        WithinLimits (joinLines (lines.take k)) := by
  have hsplit := splitOn_joinLines hne hlines
  unfold truncateReadOutput
  simp only [fromUtf8Lossy_encode]
  split_ifs with hfits
  · exact Or.inl ⟨rfl, withinLimits_of_lines hne hlines hfits.1 hfits.2⟩
  · right
    obtain ⟨line, counted, hcounted⟩ := List.exists_cons_of_ne_nil
      (outputLines_ne_nil (joinLines lines))
    have hfirst : (line :: counted) <+: lines := by
      rw [← hcounted, ← hsplit, joinLines_splitOn]
      exact outputLines_begins _
    have hline : byteLength line ≤ maxOutputBytes :=
      hshort line (hfirst.subset List.mem_cons_self)
    obtain ⟨k, hpos, hk, hpush, hbytes⟩ := pushLines_first
      (counted.take (maxOutputLines - 1)) hline
    have htake : (line :: counted).take maxOutputLines =
        line :: counted.take (maxOutputLines - 1) := rfl
    rw [← htake, List.length_take] at hk
    have hprefix : ((line :: counted).take maxOutputLines).take k = lines.take k := by
      rw [List.take_take, min_eq_left (le_trans hk (min_le_left _ _))]
      obtain ⟨more, rfl⟩ := hfirst
      rw [List.take_append_of_le_length (le_trans hk (min_le_right _ _))]
    rw [← htake, hprefix] at hpush hbytes
    -- what is cut is longer than one of the two limits, what is pushed is not
    have hless : k < lines.length := by
      by_contra hall
      rw [List.take_of_length_le (not_lt.mp hall)] at hbytes
      refine hfits ⟨?_, hbytes⟩
      have hle := outputLines_le (joinLines lines)
      rw [hsplit] at hle
      omega
    have hpage : ∀ line ∈ lines.take k, '\n' ∉ line := by
      intro line h
      exact hlines line (List.mem_of_mem_take h)
    have hsome : lines.take k ≠ [] := by
      intro h
      rcases List.take_eq_nil_iff.mp h with h | h
      · omega
      · exact hne h
    refine ⟨k, hpos, hless, by rw [hcounted, hpush], withinLimits_of_lines hsome hpage ?_ hbytes⟩
    have hle := outputLines_le (joinLines (lines.take k))
    rw [splitOn_joinLines hsome hpage, List.length_take] at hle
    omega

/-! ### The reader comes to the end -/

theorem readLines_at {text : List Char} {n : Nat} (h : n < (text.splitOn '\n').length)
    {page : List Char} {cut : Bool}
    (hcut : truncateReadOutput (encodeUtf8 (joinLines ((text.splitOn '\n').drop n))) =
      (page, cut)) :
    readLines (encodeUtf8 text) (some (n + 1)) none =
      .ok (page ++ if cut then truncatedMark else []) := by
  have hstart : ¬ ((text.splitOn '\n').length < n + 1 ∧ text.splitOn '\n' ≠ []) := by
    intro hbeyond
    omega
  unfold readLines
  simp only [fromUtf8Lossy_encode, Option.getD_some, hstart, if_false, Nat.add_sub_cancel,
    min_eq_left h.le, hcut]

theorem joinLines_take_drop {lines : List (List Char)} {k : Nat} (hpos : 0 < k)
    (hless : k < lines.length) :
    joinLines (lines.take k) ++ '\n' :: joinLines (lines.drop k) = joinLines lines := by
  have htake : lines.take k ≠ [] := by
    intro h
    rcases List.take_eq_nil_iff.mp h with h | h
    · omega
    · rw [h, List.length_nil] at hless
      omega
  have hdrop : lines.drop k ≠ [] := by
    intro h
    have := List.drop_eq_nil_iff.mp h
    omega
  rw [← joinLines_append htake hdrop, List.take_append_drop]

/-- A page that the file itself marks: its last line is the text of the mark. -/
theorem marked_lines {lines : List (List Char)} {page : List Char} (hne : lines ≠ [])
    (hlines : ∀ line ∈ lines, '\n' ∉ line) (h : page ++ truncatedMark = joinLines lines) :
    ∃ k, 0 < k ∧ k < lines.length ∧ page = joinLines (lines.take k) := by
  have hmark : truncatedMark = '\n' :: "[truncated]".toList := rfl
  have hsplit : lines = page.splitOn '\n' ++ ["[truncated]".toList] := by
    have hmarkLine : "[truncated]".toList.splitOn '\n' = ["[truncated]".toList] := by decide
    rw [← splitOn_joinLines hne hlines, ← h, hmark, List.splitOn_append_cons_self, hmarkLine]
  have hpos := List.length_pos_of_ne_nil (List.splitOn_ne_nil '\n' page)
  refine ⟨(page.splitOn '\n').length, hpos, ?_, ?_⟩
  · rw [hsplit]
    simp
  · rw [hsplit, List.take_left, joinLines_splitOn]

/-- A first part of a page is a page. -/
theorem withinLimits_take {lines : List (List Char)} {k : Nat} (hpos : 0 < k)
    (hless : k < lines.length) (hlines : ∀ line ∈ lines, '\n' ∉ line)
    (h : WithinLimits (joinLines lines)) : WithinLimits (joinLines (lines.take k)) := by
  have hjoin := joinLines_take_drop hpos hless
  have hne : lines ≠ [] := List.length_pos_iff.mp (by omega)
  have hsome : lines.take k ≠ [] := by
    simp only [ne_eq, List.take_eq_nil_iff, not_or]
    exact ⟨by omega, hne⟩
  have hpage : ∀ line ∈ lines.take k, '\n' ∉ line := by
    intro line hline
    exact hlines line (List.mem_of_mem_take hline)
  refine withinLimits_of_lines hsome hpage ?_ ?_
  · have hle := outputLines_le (joinLines (lines.take k))
    have hmost := lines_le_outputLines (joinLines lines)
    rw [splitOn_joinLines hsome hpage, List.length_take] at hle
    rw [splitOn_joinLines hne hlines] at hmost
    have hlimit := h.2.1
    omega
  · have hlimit := h.2.2
    rw [← hjoin, byteLength_append] at hlimit
    omega

/-- Reading on from behind `n` lines: the pages are the lines that are left. -/
theorem pages_from {text : List Char}
    (hshort : ∀ line ∈ text.splitOn '\n', byteLength line ≤ maxOutputBytes) :
    ∀ left n, (text.splitOn '\n').length = n + left → 0 < left →
      ∃ pages, pages ≠ [] ∧ Pages (encodeUtf8 text) (n + 1) pages ∧
        (∀ page ∈ pages, WithinLimits page) ∧
        joinLines pages = joinLines ((text.splitOn '\n').drop n) := by
  intro left
  induction left using Nat.strong_induction_on with
  | _ left ih =>
    intro n hlength hleft
    generalize hlines : (text.splitOn '\n').drop n = lines
    have hcount : lines.length = left := by
      rw [← hlines, List.length_drop]
      omega
    have hne : lines ≠ [] := List.length_pos_iff.mp (by omega)
    have hbehind : n < (text.splitOn '\n').length := by omega
    have hmem : ∀ line ∈ lines, line ∈ text.splitOn '\n' := by
      intro line hline
      rw [← hlines] at hline
      exact List.mem_of_mem_drop hline
    have hbreak : ∀ line ∈ lines, '\n' ∉ line := fun line hline => splitOn_line (hmem line hline)
    -- what is read behind `k` of the lines
    have hmore : ∀ k, 0 < k → k < lines.length →
        readLines (encodeUtf8 text) (some (n + 1)) none =
          .ok (joinLines (lines.take k) ++ truncatedMark) →
        WithinLimits (joinLines (lines.take k)) →
        ∃ pages, pages ≠ [] ∧ Pages (encodeUtf8 text) (n + 1) pages ∧
          (∀ page ∈ pages, WithinLimits page) ∧ joinLines pages = joinLines lines := by
      intro k hpos hless hread hpage
      obtain ⟨pages, hsome, hpages, hlimits, hjoin⟩ := ih (left - k) (by omega) (n + k)
        (by omega) (by omega)
      have hcounted : pageLines (joinLines (lines.take k)) = k := by
        have htake : lines.take k ≠ [] := by
          simp only [ne_eq, List.take_eq_nil_iff, not_or]
          exact ⟨by omega, hne⟩
        rw [pageLines, splitOn_joinLines htake fun line hline =>
          hbreak line (List.mem_of_mem_take hline), List.length_take]
        omega
      refine ⟨joinLines (lines.take k) :: pages, List.cons_ne_nil _ _, .more hread ?_, ?_, ?_⟩
      · rw [hcounted, Nat.add_right_comm]
        exact hpages
      · intro page hin
        rcases List.mem_cons.mp hin with rfl | hin
        · exact hpage
        · exact hlimits page hin
      · have hhead := joinLines_append (List.cons_ne_nil (joinLines (lines.take k)) []) hsome
        rw [List.singleton_append, joinLines_singleton] at hhead
        rw [hhead, hjoin, ← List.drop_drop, hlines, joinLines_take_drop hpos hless]
    have hread : ∀ page cut, truncateReadOutput (encodeUtf8 (joinLines lines)) = (page, cut) →
        readLines (encodeUtf8 text) (some (n + 1)) none =
          .ok (page ++ if cut then truncatedMark else []) := by
      intro page cut hcut
      rw [← hlines] at hcut
      exact readLines_at hbehind hcut
    rcases truncate_lines hne hbreak fun line hline => hshort line (hmem line hline) with
      ⟨hcut, hpage⟩ | ⟨k, hpos, hless, hcut, hpage⟩
    · by_cases hmark : truncatedMark <:+ joinLines lines
      · -- the file's own last line reads as the mark
        obtain ⟨page, hsplit⟩ := hmark
        obtain ⟨k, hpos, hless, rfl⟩ := marked_lines hne hbreak hsplit
        refine hmore k hpos hless ?_ (withinLimits_take hpos hless hbreak hpage)
        rw [hread _ _ hcut, hsplit]
        simp
      · refine ⟨[joinLines lines], List.cons_ne_nil _ _, .last ?_ hmark, ?_,
          joinLines_singleton _⟩
        · rw [hread _ _ hcut]
          simp
        · intro page hin
          rw [List.mem_singleton.mp hin]
          exact hpage
    · exact hmore k hpos hless (hread _ _ hcut) hpage

/-- **The pages are the file exactly if every line fits on a page.** -/
theorem pages_complete (text : List Char) :
    PagesComplete text ↔ ∀ line ∈ text.splitOn '\n', byteLength line ≤ maxOutputBytes := by
  constructor
  · intro h line hline
    exact lines_short h hline
  · intro hshort
    obtain ⟨pages, -, hpages, hlimits, hjoin⟩ := pages_from hshort _ 0 (Nat.zero_add _).symm
      (List.length_pos_of_ne_nil (List.splitOn_ne_nil _ _))
    exact ⟨pages, hpages, hlimits, by rw [hjoin, List.drop_zero, joinLines_splitOn]⟩

theorem byteLength_replicate (n : Nat) : byteLength (List.replicate n 'a') = n := by
  induction n with
  | zero => rfl
  | succ n ih =>
    have hletter : byteLength ['a'] = 1 := by decide
    rw [List.replicate_succ, ← List.singleton_append, byteLength_append, ih, hletter,
      Nat.add_comm]

/-- A file that is one line of 51201 letters is not read. -/
theorem long_line_lost : ¬ PagesComplete (List.replicate 51201 'a') := by
  intro h
  have hletters : '\n' ∉ List.replicate 51201 'a' := by
    intro hbreak
    exact absurd (List.eq_of_mem_replicate hbreak) (by decide)
  have hline : List.replicate 51201 'a' ∈ (List.replicate 51201 'a').splitOn '\n' := by
    rw [List.splitOn_eq_singleton hletters]
    exact List.mem_singleton.mpr rfl
  have hle := lines_short h hline
  rw [byteLength_replicate] at hle
  exact absurd hle (by decide)

end Tea.Contract
