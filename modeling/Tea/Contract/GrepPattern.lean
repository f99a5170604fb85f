/-
  Tea/Contract/GrepPattern.lean
  =============================
  **The patterns of grep mean what they say**, but for the anchor of the end: behind an anchor of
  the start it has no effect, and without one it is exact for the patterns without stars.
-/
import Tea.Coding.Glob

namespace Tea.Contract

open Tea.Coding Tea.Encoding

/-- A byte that is no star, at the head of a pattern. -/
theorem tinyMatch_byte {byte : UInt8} (h : byte ≠ 42) (rest : List UInt8) (text : List UInt8) :
    tinyMatch (byte :: rest) text = true ↔
      ∃ first more, text = first :: more ∧ (byte = 46 ∨ byte = first) ∧
        tinyMatch rest more = true := by
  cases text with
  | nil =>
    rw [tinyMatch]
    · simp
    · exact h
  | cons first more =>
    rw [tinyMatch]
    · simp
    · exact h

/-- **The matcher** finds the pattern at the start of a text. -/
theorem tinyMatch_iff (pattern text : List UInt8) :
    tinyMatch pattern text = true ↔ ∃ run rest, text = run ++ rest ∧ Spells pattern run := by
  induction pattern generalizing text with
  | nil =>
    rw [tinyMatch]
    constructor
    · intro _
      exact ⟨[], text, rfl, .nil⟩
    · intro _
      rfl
  | cons byte pattern ih =>
    by_cases hstar : byte = 42
    · subst hstar
      rw [tinyMatch, tryRests_iff]
      constructor
      · rintro ⟨run, rest, rfl, -, hrest⟩
        obtain ⟨spelled, after, rfl, hspelled⟩ := (ih rest).mp hrest
        exact ⟨run ++ spelled, after, by rw [List.append_assoc], .star run hspelled⟩
      · rintro ⟨run, rest, rfl, hspelled⟩
        cases hspelled with
        | @star skipped _ spelled hbehind =>
          refine ⟨skipped, spelled ++ rest, by rw [List.append_assoc], fun _ _ => rfl, ?_⟩
          exact (ih _).mpr ⟨spelled, rest, rfl, hbehind⟩
        | letter _ hne _ _ => exact absurd rfl hne
    · rw [tinyMatch_byte hstar]
      constructor
      · rintro ⟨first, more, rfl, hfirst, hmore⟩
        obtain ⟨spelled, rest, rfl, hspelled⟩ := (ih more).mp hmore
        refine ⟨first :: spelled, rest, rfl, ?_⟩
        by_cases hdot : byte = 46
        · subst hdot
          exact .dot first hspelled
        · obtain rfl := hfirst.resolve_left hdot
          exact .letter byte hstar hdot hspelled
      · rintro ⟨run, rest, rfl, hspelled⟩
        cases hspelled with
        | star run hbehind => exact absurd rfl hstar
        | @dot first _ spelled hbehind =>
          exact ⟨first, spelled ++ rest, rfl, .inl rfl, (ih _).mpr ⟨spelled, rest, rfl, hbehind⟩⟩
        | @letter _ _ spelled _ _ hbehind =>
          exact ⟨byte, spelled ++ rest, rfl, .inr rfl, (ih _).mpr ⟨spelled, rest, rfl, hbehind⟩⟩

theorem anyStart_iff (test : Nat → List UInt8 → Bool) (text : List UInt8) :
    anyStart test text = true ↔
      ∃ before rest, text = before ++ rest ∧ test before.length rest = true := by
  rw [anyStart, List.any_eq_true]
  constructor
  · rintro ⟨start, hstart, htest⟩
    have hle : start ≤ text.length := Nat.le_of_lt_succ (List.mem_range.mp hstart)
    refine ⟨text.take start, text.drop start, (List.take_append_drop start text).symm, ?_⟩
    rwa [List.length_take, Nat.min_eq_left hle]
  · rintro ⟨before, rest, rfl, htest⟩
    refine ⟨before.length, List.mem_range.mpr ?_, ?_⟩
    · rw [List.length_append]
      omega
    · rwa [List.drop_left]

/-- A pattern without a star spells as many bytes as it has. -/
theorem spells_length {pattern text : List UInt8} (h : Spells pattern text)
    (hstar : 42 ∉ pattern) : text.length = pattern.length := by
  induction h with
  | nil => rfl
  | star run hbehind ih => exact absurd List.mem_cons_self hstar
  | dot byte hbehind ih =>
    rw [List.length_cons, List.length_cons, ih fun hmem => hstar (List.mem_cons_of_mem _ hmem)]
  | letter byte hne hdot hbehind ih =>
    rw [List.length_cons, List.length_cons, ih fun hmem => hstar (List.mem_cons_of_mem _ hmem)]

theorem patternLiteralLen_plain {pattern : List UInt8} (hstar : 42 ∉ pattern)
    (hslash : 92 ∉ pattern) : patternLiteralLen pattern = pattern.length := by
  rw [patternLiteralLen, List.filter_eq_self.mpr]
  intro byte hbyte
  have hne : byte ≠ 42 := fun h => hstar (h ▸ hbyte)
  have hne' : byte ≠ 92 := fun h => hslash (h ▸ hbyte)
  simp [hne, hne']

/-- What the verdict on a pattern and a text means, with the anchors that the pattern has. -/
structure Meaning (pattern text : List UInt8) (verdict : Bool) : Prop where
  start : anchoredStart pattern = true →
    (verdict = true ↔ ∃ run rest, text = run ++ rest ∧ Spells (patternBody pattern) run)
  anywhere : anchoredStart pattern = false → anchoredEnd pattern = false →
    (verdict = true ↔
      ∃ before run rest, text = before ++ (run ++ rest) ∧ Spells (patternBody pattern) run)
  ending : anchoredStart pattern = false → anchoredEnd pattern = true →
    42 ∉ patternBody pattern → 92 ∉ patternBody pattern →
    (verdict = true ↔ ∃ before run, text = before ++ run ∧ Spells (patternBody pattern) run)

theorem matchBytes_meaning (pattern text : List UInt8) :
    Meaning pattern text (matchBytes pattern text) := by
  refine ⟨?_, ?_, ?_⟩
  · intro hstart
    rw [matchBytes, if_pos hstart]
    exact tinyMatch_iff _ _
  · intro hstart hend
    rw [matchBytes, if_neg (by simp [hstart]), if_neg (by simp [hend]), anyStart_iff]
    constructor
    · rintro ⟨before, rest, rfl, hmatch⟩
      obtain ⟨run, after, rfl, hspelled⟩ := (tinyMatch_iff _ _).mp hmatch
      exact ⟨before, run, after, rfl, hspelled⟩
    · rintro ⟨before, run, after, rfl, hspelled⟩
      exact ⟨before, run ++ after, rfl, (tinyMatch_iff _ _).mpr ⟨run, after, rfl, hspelled⟩⟩
  · intro hstart hend hstar hslash
    rw [matchBytes, if_neg (by simp [hstart]), if_pos hend, anyStart_iff]
    have hlength := patternLiteralLen_plain hstar hslash
    constructor
    · rintro ⟨before, rest, rfl, hmatch⟩
      rw [Bool.and_eq_true, decide_eq_true_eq, List.length_append, hlength] at hmatch
      obtain ⟨run, after, rfl, hspelled⟩ := (tinyMatch_iff _ _).mp hmatch.1
      have hrun := spells_length hspelled hstar
      rw [List.length_append] at hmatch
      have hafter : after = [] := List.eq_nil_of_length_eq_zero (by omega)
      exact ⟨before, run, by rw [hafter, List.append_nil], hspelled⟩
    · rintro ⟨before, run, rfl, hspelled⟩
      refine ⟨before, run, rfl, ?_⟩
      rw [Bool.and_eq_true, decide_eq_true_eq, List.length_append, hlength,
        spells_length hspelled hstar]
      exact ⟨(tinyMatch_iff _ _).mpr ⟨run, [], (List.append_nil run).symm, hspelled⟩, rfl⟩

/-- **What a pattern matches.**  With an anchor of the start: a text that starts with what the rest
    spells, whatever anchor the pattern ends with.  Without anchors: a text with a part that the
    pattern spells.  With an anchor of the end, and neither star nor backslash: a text that ends
    with what the rest spells. -/
theorem pattern_meaning (toLowercase : String → String) (matcher : TinyPattern) (line : String) :
    Meaning (matcher.bytesOf toLowercase matcher.pattern) (matcher.bytesOf toLowercase line)
      (matcher.matches toLowercase line) :=
  matchBytes_meaning _ _

-- `^a$` matches `ab`: the anchor of the end has no effect behind the one of the start.
example : matchBytes [94, 97, 36] [97, 98] = true := by decide

-- `a*b$` misses `acb`: the length of the pattern is not the one of what a star spells.
example : matchBytes [97, 42, 98, 36] [97, 99, 98] = false := by decide

end Tea.Contract
