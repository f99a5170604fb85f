/-
  Tea/Contract/ExactNumber.lean
  =============================
  **The scanner of exact costs and the parser.**  On every text that the parser accepts the
  scanner passes over whole values as the parser does (`scans`), and it finds the number
  that the *first* fields lead to whose keys are *spelled* like the names of the path
  (`valueAtPath_first`).  The parser follows the *last* fields with these *names*.
-/
import Tea.Encoding.JsonSpelling
import Tea.Provider.OpenRouterSse

namespace Tea.Contract

open Tea.Encoding Tea.Provider Tea.Provider.OpenRouterSse

/-! ### Letters -/

theorem skipSpace_visible {input rest : List Char} {c : Char}
    (hskip : Encoding.skipSpace input = c :: rest) (hc : isAsciiWhitespace c = false) :
    OpenRouterSse.skipSpace input = c :: rest := by
  unfold Encoding.skipSpace at hskip
  unfold OpenRouterSse.skipSpace
  induction input with
  | nil => cases hskip
  | cons d input ih =>
    by_cases hd : isJsonSpace d = true
    · rw [List.dropWhile_cons_of_pos hd] at hskip
      have hspace : isAsciiWhitespace d = true := by
        simp only [isJsonSpace, Bool.or_eq_true, decide_eq_true_eq] at hd
        rcases hd with ((rfl | rfl) | rfl) | rfl <;> decide
      rw [List.dropWhile_cons_of_pos hspace]
      exact ih hskip
    · rw [List.dropWhile_cons_of_neg hd] at hskip
      obtain ⟨rfl, rfl⟩ := List.cons.inj hskip
      rw [List.dropWhile_cons_of_neg (by rw [hc]; decide)]

theorem skipSpace_length {input rest : List Char} {c : Char}
    (hskip : Encoding.skipSpace input = c :: rest) : rest.length < input.length := by
  have hle : (Encoding.skipSpace input).length ≤ input.length :=
    (List.dropWhile_suffix _).length_le
  rw [hskip, List.length_cons] at hle
  exact hle

theorem skipSpace_twice (input : List Char) :
    Encoding.skipSpace (Encoding.skipSpace input) = Encoding.skipSpace input := by
  cases hskip : Encoding.skipSpace input with
  | nil => rfl
  | cons c rest =>
    apply skipSpace_cons
    have hfirst := List.head?_dropWhile_not isJsonSpace input
    unfold Encoding.skipSpace at hskip
    rw [hskip] at hfirst
    simpa using hfirst

theorem rawLetters_cons {c : Char} (hquote : c ≠ '"') (hslash : c ≠ '\\') (input : List Char) :
    rawLetters (c :: input) =
      (rawLetters input).map fun (letters, rest) => (c :: letters, rest) := by
  rw [rawLetters]
  · exact hquote
  · rintro _ _ rfl
    exact absurd rfl hslash

theorem hexValue_plain {c : Char} {n : Nat} (h : hexValue c = some n) : c ≠ '"' ∧ c ≠ '\\' := by
  have hquote : hexValue '"' = none := by decide
  have hslash : hexValue '\\' = none := by decide
  constructor
  · rintro rfl
    rw [hquote] at h
    cases h
  · rintro rfl
    rw [hslash] at h
    cases h

theorem rawLetters_hex {c : Char} {n : Nat} (h : hexValue c = some n) (input : List Char) :
    rawLetters (c :: input) =
      (rawLetters input).map fun (letters, rest) => (c :: letters, rest) :=
  rawLetters_cons (hexValue_plain h).1 (hexValue_plain h).2 input

/-- The scanner passes over a string that the parser reads. -/
theorem pieces_raw {input rest : List Char} {found : List Piece}
    (h : pieces input = some (found, rest)) :
    ∃ letters, input = letters ++ '"' :: rest ∧ rawLetters input = some (letters, rest) := by
  induction input using pieces.induct generalizing found with
  | case1 => cases h
  | case2 rest' =>
    rw [pieces] at h
    obtain ⟨-, rfl⟩ := Prod.mk.inj (Option.some.inj h)
    exact ⟨[], rfl, rfl⟩
  | case3 a b c d input ih =>
    rw [pieces] at h
    obtain ⟨n, hunit, h⟩ := Option.bind_eq_some_iff.mp h
    obtain ⟨more, hmore, heq⟩ := Option.map_eq_some_iff.mp h
    obtain ⟨rfl, rfl⟩ := Prod.mk.inj heq
    obtain ⟨letters, rfl, hraw⟩ := ih hmore
    unfold codeUnit at hunit
    split at hunit
    · rename_i ha hb hc hd
      refine ⟨'\\' :: 'u' :: a :: b :: c :: d :: letters, rfl, ?_⟩
      rw [rawLetters, rawLetters_hex ha, rawLetters_hex hb, rawLetters_hex hc, rawLetters_hex hd,
        hraw]
      rfl
    · cases hunit
  | case4 c input hunit ih =>
    rw [pieces.eq_4 _ _ hunit] at h
    obtain ⟨letter, -, h⟩ := Option.bind_eq_some_iff.mp h
    obtain ⟨more, hmore, heq⟩ := Option.map_eq_some_iff.mp h
    obtain ⟨rfl, rfl⟩ := Prod.mk.inj heq
    obtain ⟨letters, rfl, hraw⟩ := ih hmore
    refine ⟨'\\' :: c :: letters, rfl, ?_⟩
    rw [rawLetters, hraw]
    rfl
  | case5 c input hquote hunit hescape hspace =>
    rw [pieces.eq_5 _ _ hquote hunit hescape, if_pos hspace] at h
    cases h
  | case6 c input hquote hunit hescape hspace ih =>
    rw [pieces.eq_5 _ _ hquote hunit hescape, if_neg hspace] at h
    obtain ⟨more, hmore, heq⟩ := Option.map_eq_some_iff.mp h
    obtain ⟨rfl, rfl⟩ := Prod.mk.inj heq
    have hslash : c ≠ '\\' := by
      intro hslash
      cases input with
      | nil => cases hmore
      | cons d input => exact hescape d input hslash rfl
    obtain ⟨letters, rfl, hraw⟩ := ih hmore
    refine ⟨c :: letters, rfl, ?_⟩
    rw [rawLetters_cons hquote hslash, hraw]
    rfl

theorem parseString_raw {input rest : List Char} {s : String}
    (h : parseString input = some (s, rest)) :
    ∃ letters, input = letters ++ '"' :: rest ∧ rawLetters input = some (letters, rest) := by
  obtain ⟨⟨found, behind⟩, hpieces, h⟩ := Option.bind_eq_some_iff.mp h
  obtain ⟨letters, -, heq⟩ := Option.map_eq_some_iff.mp h
  obtain ⟨-, rfl⟩ := Prod.mk.inj heq
  exact pieces_raw hpieces

theorem parseString_length {input rest : List Char} {s : String}
    (h : parseString input = some (s, rest)) : rest.length < input.length := by
  obtain ⟨letters, rfl, -⟩ := parseString_raw h
  rw [List.length_append, List.length_cons]
  omega

/-- The scanner takes a key as it is spelled. -/
theorem readKey_raw {input rest : List Char} {key : SpelledKey}
    (h : readKey input = some (key, rest)) :
    rawLetters input = some (key.letters, rest) ∧ rest.length < input.length := by
  obtain ⟨⟨s, behind⟩, hstring, heq⟩ := Option.map_eq_some_iff.mp h
  obtain ⟨rfl, rfl⟩ := Prod.mk.inj heq
  refine ⟨?_, parseString_length hstring⟩
  obtain ⟨letters, hinput, hraw⟩ := parseString_raw hstring
  rw [hraw]
  have hlength : input.length - behind.length - 1 = letters.length := by
    rw [hinput, List.length_append, List.length_cons]
    omega
  dsimp only
  rw [hlength, hinput, List.take_left]

/-! ### Numbers -/

theorem isNumberLetter_eq (c : Char) : isNumberLetter c = isNumeric c := rfl

theorem readNumeral_raw {input rest : List Char} {numeral : Numeral}
    (h : readNumeral input = some (numeral, rest)) :
    rawNumber input = some (numeral.letters, rest) := by
  unfold readNumeral at h
  split_ifs at h with hvalid
  obtain ⟨rfl, rfl⟩ := Prod.mk.inj (Option.some.inj h)
  have hne : input.takeWhile isNumberLetter ≠ [] := by
    intro hnil
    have hnumber : isNumber (input.takeWhile isNumberLetter) = true := hvalid
    rw [hnil] at hnumber
    exact absurd hnumber (by decide)
  exact if_neg hne

/-- A number starts with a sign or with a digit. -/
theorem isNumber_head {token : List Char} (h : isNumber token = true) :
    ∃ c rest, token = c :: rest ∧ (c = '-' ∨ c.isDigit = true) := by
  cases token with
  | nil => exact absurd h (by decide)
  | cons c rest =>
    refine ⟨c, rest, rfl, ?_⟩
    by_cases hsign : c = '-'
    · exact .inl hsign
    · by_cases hdigit : c.isDigit = true
      · exact .inr hdigit
      · have hnone : natOf [] = none := by decide
        rw [isNumber, if_neg (by simpa using hsign), List.takeWhile_cons_of_neg hdigit,
          hnone] at h
        cases h

theorem dropDigits_eq_nil (digits : List Char) :
    decide (dropDigits digits = some []) = (digits ≠ [] && digits.all Char.isDigit) := by
  cases digits with
  | nil => decide
  | cons c rest =>
    unfold dropDigits
    by_cases hdigit : c.isDigit = true
    · have hne : (c :: rest).takeWhile Char.isDigit ≠ [] := by simp [hdigit]
      rw [if_neg hne]
      have hall : (c :: rest).dropWhile Char.isDigit = [] ↔ rest.all Char.isDigit = true := by
        rw [List.dropWhile_cons_of_pos hdigit, List.dropWhile_eq_nil_iff, List.all_eq_true]
      rw [Bool.eq_iff_iff, decide_eq_true_iff, Option.some.injEq, hall]
      simp [hdigit]
    · simp [hdigit]

theorem validExponent_eq (input : List Char) : validExponent input = isExponent input := by
  unfold validExponent isExponent
  cases input with
  | nil => rfl
  | cons c rest =>
    dsimp only
    by_cases hmark : c = 'e' ∨ c = 'E'
    · rw [if_pos hmark]
      have hmark' : (decide (c = 'e') || decide (c = 'E')) = true := by simpa using hmark
      rw [hmark', Bool.true_and]
      split
      · exact (dropDigits_eq_nil _).symm
      · exact (dropDigits_eq_nil _).symm
      · rename_i hplus hminus
        -- the two sides look at the sign by one matcher or by two
        first
        | exact (dropDigits_eq_nil _).symm
        | split
          · exact absurd rfl (hplus _)
          · exact absurd rfl (hminus _)
          · exact (dropDigits_eq_nil _).symm
    · rw [if_neg hmark]
      have hmark' : (decide (c = 'e') || decide (c = 'E')) = false := by simpa using hmark
      rw [hmark', Bool.false_and]

theorem dropDigits_any (fraction : List Char) :
    (dropDigits fraction).any isExponent = (fraction.takeWhile Char.isDigit ≠ [] &&
      validExponent (fraction.dropWhile Char.isDigit)) := by
  unfold dropDigits
  by_cases hnone : fraction.takeWhile Char.isDigit = []
  · rw [if_pos hnone]
    simp [hnone]
  · rw [if_neg hnone]
    simp [hnone, validExponent_eq]

/-- The whole digits are a zero or do not start with one. -/
theorem natOf_zero {digits : List Char} (h : (natOf ('0' :: digits)).isSome = true) :
    digits = [] := by
  unfold natOf at h
  split_ifs at h with hdigits
  · rcases hdigits.2.2 with hzero | hzero
    · exact (List.cons.inj hzero).2
    · exact absurd rfl hzero
  · cases h

/-- Of the numbers the scanner takes those without a sign. -/
theorem valid_numeral (numeral : Numeral) :
    validNonnegativeJsonNumber numeral.letters = true ↔ numeral.letters.head? ≠ some '-' := by
  obtain ⟨c, rest, hletters, hfirst⟩ := isNumber_head numeral.valid
  have hnumber := numeral.valid
  rw [hletters] at hnumber ⊢
  by_cases hsign : c = '-'
  · subst hsign
    simp [validNonnegativeJsonNumber]
  · have hdigit : c.isDigit = true := hfirst.resolve_left hsign
    have hhead : (c :: rest).head? ≠ some '-' := fun heq => hsign (Option.some.inj heq)
    refine iff_of_true ?_ hhead
    rw [isNumber, if_neg hhead] at hnumber
    obtain ⟨hwhole, htail⟩ := Bool.and_eq_true_iff.mp hnumber
    have hbehind : (if c = '0' then some rest
        else if c.isDigit = true then some (rest.dropWhile Char.isDigit) else none) =
          some ((c :: rest).dropWhile Char.isDigit) := by
      rw [List.dropWhile_cons_of_pos hdigit, if_pos hdigit]
      split_ifs with hzero
      · subst hzero
        rw [List.takeWhile_cons_of_pos hdigit] at hwhole
        have hsame := List.takeWhile_append_dropWhile (p := Char.isDigit) (l := rest)
        rw [natOf_zero hwhole, List.nil_append] at hsame
        rw [hsame]
      · rfl
    unfold validNonnegativeJsonNumber
    dsimp only
    rw [hbehind]
    generalize (c :: rest).dropWhile Char.isDigit = behind at htail
    split at htail
    · rename_i fraction
      rw [dropDigits_any] at htail
      exact htail
    · rename_i hpoint
      split
      · rename_i heq
        cases heq
      · rename_i fraction heq
        exact absurd (Option.some.inj heq) (hpoint fraction)
      · rename_i heq
        obtain rfl := Option.some.inj heq
        rw [validExponent_eq]
        exact htail

theorem readNumeral_head {c : Char} {text rest : List Char} {numeral : Numeral}
    (h : readNumeral (c :: text) = some (numeral, rest)) :
    (c = '-' ∨ c.isDigit = true) ∧ rest.length ≤ text.length := by
  unfold readNumeral at h
  split_ifs at h with hvalid
  obtain ⟨-, rfl⟩ := Prod.mk.inj (Option.some.inj h)
  obtain ⟨d, token, htoken, hfirst⟩ := isNumber_head hvalid
  by_cases hc : isNumeric c = true
  · rw [List.takeWhile_cons_of_pos hc] at htoken
    obtain ⟨rfl, -⟩ := List.cons.inj htoken
    refine ⟨hfirst, ?_⟩
    rw [List.dropWhile_cons_of_pos hc]
    exact (List.dropWhile_suffix _).length_le
  · rw [List.takeWhile_cons_of_neg hc] at htoken
    cases htoken

/-! ### Values that are passed over -/

theorem front_visible {fuel : Nat} {text behind : List Char} {s : Spelled}
    (h : TreeFront fuel text s behind) :
    ∃ c rest, text = c :: rest ∧ isAsciiWhitespace c = false := by
  cases h with
  | number hnumeral =>
    unfold readNumeral at hnumeral
    split_ifs at hnumeral with hvalid
    obtain ⟨c, rest, htoken, hfirst⟩ := isNumber_head hvalid
    cases text with
    | nil => cases htoken
    | cons d text =>
      refine ⟨d, text, rfl, ?_⟩
      have hd : isNumeric d = true := by
        by_contra hd
        rw [List.takeWhile_cons_of_neg hd] at htoken
        cases htoken
      have hne : ∀ x : Char, isNumeric x = false → d ≠ x := by
        rintro x hx rfl
        rw [hx] at hd
        cases hd
      simp only [isAsciiWhitespace, Bool.or_eq_false_iff, decide_eq_false_iff_not]
      exact ⟨⟨⟨⟨hne _ (by decide), hne _ (by decide)⟩, hne _ (by decide)⟩, hne _ (by decide)⟩,
        hne _ (by decide)⟩
  | string => exact ⟨_, _, rfl, by decide⟩
  | empty => exact ⟨_, _, rfl, by decide⟩
  | array => exact ⟨_, _, rfl, by decide⟩
  | blank => exact ⟨_, _, rfl, by decide⟩
  | mapping => exact ⟨_, _, rfl, by decide⟩
  | null => exact ⟨_, _, rfl, by decide⟩
  | true => exact ⟨_, _, rfl, by decide⟩
  | false => exact ⟨_, _, rfl, by decide⟩

/-- Before a tree the scanner skips the same spaces as the parser. -/
theorem skipSpace_tree {fuel : Nat} {input rest : List Char} {s : Spelled}
    (h : readTree fuel input = some (s, rest)) :
    OpenRouterSse.skipSpace input = Encoding.skipSpace input := by
  cases fuel with
  | zero => cases h
  | succ fuel =>
    obtain ⟨c, text, htext, hc⟩ := front_visible (readTree_front h)
    rw [htext]
    exact skipSpace_visible htext hc

theorem readTree_skipped {fuel : Nat} {input rest : List Char} {s : Spelled} :
    readTree fuel (Encoding.skipSpace input) = some (s, rest) ↔
      readTree fuel input = some (s, rest) := by
  cases fuel with
  | zero => exact Iff.rfl
  | succ fuel => rw [readTree, readTree, skipSpace_twice]

/-- The scanner passes over what the reader has read. -/
def Passes (skip : Nat → List Char → Option (List Char)) (input rest : List Char) : Prop :=
  rest.length < input.length ∧ ∀ n, input.length ≤ rest.length + n → skip n input = some rest

/-- The scanner passes over trees that are read with so much fuel. -/
structure Scans (fuel : Nat) : Prop where
  tree : ∀ {input s rest}, readTree fuel input = some (s, rest) → Passes skipValue input rest
  items : ∀ {input values rest}, readItems fuel input = some (values, rest) →
    Passes skipItems input rest
  fields : ∀ {input pairs rest}, readFields fuel input = some (pairs, rest) →
    Passes skipFields input rest

theorem skipSpace_items {fuel : Nat} {input rest : List Char} {values : List Spelled}
    (h : readItems fuel (Encoding.skipSpace input) = some (values, rest)) :
    OpenRouterSse.skipSpace input = Encoding.skipSpace input := by
  cases fuel with
  | zero => cases h
  | succ fuel =>
    rw [readItems] at h
    obtain ⟨⟨s, behind⟩, htree, -⟩ := Option.bind_eq_some_iff.mp h
    exact skipSpace_tree (readTree_skipped.mp htree)

theorem skipSpace_fields {fuel : Nat} {input rest : List Char}
    {pairs : List (SpelledKey × Spelled)}
    (h : readFields fuel (Encoding.skipSpace input) = some (pairs, rest)) :
    OpenRouterSse.skipSpace input = Encoding.skipSpace input := by
  cases fuel with
  | zero => cases h
  | succ fuel =>
    rw [readFields, skipSpace_twice] at h
    split at h
    · rename_i hquote
      rw [hquote]
      exact skipSpace_visible hquote (by decide)
    · cases h

variable {fuel : Nat} {input rest : List Char}

theorem front_passes (hs : Scans fuel) {s : Spelled}
    (h : TreeFront fuel (Encoding.skipSpace input) s rest) : Passes skipValue input rest := by
  obtain ⟨c, text, htext, hc⟩ := front_visible h
  have hskip := skipSpace_visible htext hc
  have hshort := skipSpace_length htext
  rw [htext] at h
  have hfuel : ∀ n, rest.length < input.length → input.length ≤ rest.length + n →
      ∃ k, n = k + 1 ∧ input.length ≤ rest.length + k + 1 := fun n _ _ => ⟨n - 1, by omega⟩
  cases h with
  | string hstring =>
    obtain ⟨letters, -, hraw⟩ := parseString_raw hstring
    have hlength := parseString_length hstring
    refine ⟨by omega, fun n hn => ?_⟩
    obtain ⟨k, rfl, -⟩ := hfuel n (by omega) hn
    simp only [skipValue, hskip, hraw, Option.map_some]
  | empty hbracket =>
    have hlength := skipSpace_length hbracket
    refine ⟨by omega, fun n hn => ?_⟩
    obtain ⟨k, rfl, -⟩ := hfuel n (by omega) hn
    simp only [skipValue, hskip, skipSpace_visible hbracket (by decide)]
  | array hbracket hitems =>
    obtain ⟨hlength, hitemsPass⟩ := hs.items hitems
    have hle : (Encoding.skipSpace text).length ≤ text.length :=
      (List.dropWhile_suffix _).length_le
    refine ⟨by omega, fun n hn => ?_⟩
    obtain ⟨k, rfl, hk⟩ := hfuel n (by omega) hn
    simp only [skipValue, hskip, skipSpace_items hitems]
    exact hitemsPass k (by omega)
  | blank hbrace =>
    have hlength := skipSpace_length hbrace
    refine ⟨by omega, fun n hn => ?_⟩
    obtain ⟨k, rfl, -⟩ := hfuel n (by omega) hn
    simp only [skipValue, hskip, skipSpace_visible hbrace (by decide)]
  | mapping hbrace hfields =>
    obtain ⟨hlength, hfieldsPass⟩ := hs.fields hfields
    have hle : (Encoding.skipSpace text).length ≤ text.length :=
      (List.dropWhile_suffix _).length_le
    refine ⟨by omega, fun n hn => ?_⟩
    obtain ⟨k, rfl, hk⟩ := hfuel n (by omega) hn
    simp only [skipValue, hskip, skipSpace_fields hfields]
    exact hfieldsPass k (by omega)
  | null =>
    simp only [List.length_cons] at hshort
    refine ⟨by omega, fun n hn => ?_⟩
    obtain ⟨k, rfl, -⟩ := hfuel n (by omega) hn
    simp only [skipValue, hskip]
  | true =>
    simp only [List.length_cons] at hshort
    refine ⟨by omega, fun n hn => ?_⟩
    obtain ⟨k, rfl, -⟩ := hfuel n (by omega) hn
    simp only [skipValue, hskip]
  | false =>
    simp only [List.length_cons] at hshort
    refine ⟨by omega, fun n hn => ?_⟩
    obtain ⟨k, rfl, -⟩ := hfuel n (by omega) hn
    simp only [skipValue, hskip]
  | number hnumeral =>
    obtain ⟨hfirst, hlength⟩ := readNumeral_head hnumeral
    refine ⟨by omega, fun n hn => ?_⟩
    obtain ⟨k, rfl, -⟩ := hfuel n (by omega) hn
    have hne : ∀ x : Char, x ≠ '-' → x.isDigit = Bool.false → c ≠ x := by
      rintro x hx hdigit rfl
      rcases hfirst with rfl | hfirst
      · exact hx rfl
      · rw [hfirst] at hdigit
        cases hdigit
    simp only [skipValue, hskip]
    split
    · rename_i heq
      exact absurd (List.cons.inj heq).1 (hne _ (by decide) (by decide))
    · rename_i heq
      exact absurd (List.cons.inj heq).1 (hne _ (by decide) (by decide))
    · rename_i heq
      exact absurd (List.cons.inj heq).1 (hne _ (by decide) (by decide))
    · rename_i heq
      exact absurd (List.cons.inj heq).1 (hne _ (by decide) (by decide))
    · rename_i heq
      exact absurd (List.cons.inj heq).1 (hne _ (by decide) (by decide))
    · rename_i heq
      exact absurd (List.cons.inj heq).1 (hne _ (by decide) (by decide))
    · rename_i heq
      obtain ⟨rfl, rfl⟩ := List.cons.inj heq
      rw [if_pos hfirst, readNumeral_raw hnumeral]
      rfl
    · rename_i heq
      cases heq

theorem scans_items (hs : Scans fuel) {values : List Spelled}
    (h : readItems (fuel + 1) input = some (values, rest)) : Passes skipItems input rest := by
  rw [readItems] at h
  obtain ⟨⟨s, behind⟩, htree, h⟩ := Option.bind_eq_some_iff.mp h
  obtain ⟨hshort, hpass⟩ := hs.tree htree
  dsimp only at h
  split at h
  · rename_i hcomma
    obtain ⟨⟨more, rest'⟩, hmore, heq⟩ := Option.map_eq_some_iff.mp h
    obtain rfl : rest' = rest := (Prod.mk.inj heq).2
    obtain ⟨hmoreShort, hmorePass⟩ := hs.items hmore
    have hlength := skipSpace_length hcomma
    refine ⟨by omega, fun n hn => ?_⟩
    obtain ⟨k, rfl⟩ : ∃ k, n = k + 1 := ⟨n - 1, by omega⟩
    simp only [skipItems, hpass k (by omega), skipSpace_visible hcomma (by decide)]
    exact hmorePass k (by omega)
  · rename_i hbracket
    obtain ⟨-, rfl⟩ := Prod.mk.inj (Option.some.inj h)
    have hlength := skipSpace_length hbracket
    refine ⟨by omega, fun n hn => ?_⟩
    obtain ⟨k, rfl⟩ : ∃ k, n = k + 1 := ⟨n - 1, by omega⟩
    simp only [skipItems, hpass k (by omega), skipSpace_visible hbracket (by decide)]
  · cases h

/-- A field at the front of a text: its key, its value, and what is behind it. -/
structure FieldFront (fuel : Nat) (input : List Char) (key : SpelledKey) (s : Spelled)
    (value behind : List Char) : Prop where
  spelled : ∃ text, OpenRouterSse.skipSpace input = '"' :: text ∧
    ∃ colon, rawLetters text = some (key.letters, colon) ∧
      OpenRouterSse.skipSpace colon = ':' :: value
  read : readTree fuel value = some (s, behind)
  short : value.length < input.length

theorem readFields_front {pairs : List (SpelledKey × Spelled)}
    (h : readFields (fuel + 1) input = some (pairs, rest)) :
    ∃ key s value behind, FieldFront fuel input key s value behind ∧
      ((∃ more text, pairs = (key, s) :: more ∧
          Encoding.skipSpace behind = ',' :: text ∧ readFields fuel text = some (more, rest)) ∨
        (pairs = [(key, s)] ∧ Encoding.skipSpace behind = '\x7d' :: rest)) := by
  rw [readFields] at h
  split at h
  · rename_i hquote
    obtain ⟨⟨key, colon⟩, hkey, h⟩ := Option.bind_eq_some_iff.mp h
    obtain ⟨hraw, hkeyShort⟩ := readKey_raw hkey
    dsimp only at h
    split at h
    · rename_i hcolon
      obtain ⟨⟨s, behind⟩, htree, h⟩ := Option.bind_eq_some_iff.mp h
      have hquoteShort := skipSpace_length hquote
      have hcolonShort := skipSpace_length hcolon
      have hfront : FieldFront fuel input key s _ behind :=
        ⟨⟨_, skipSpace_visible hquote (by decide), _, hraw, skipSpace_visible hcolon (by decide)⟩,
          htree, by omega⟩
      refine ⟨key, s, _, behind, hfront, ?_⟩
      dsimp only at h
      split at h
      · rename_i hcomma
        obtain ⟨⟨more, rest'⟩, hmore, heq⟩ := Option.map_eq_some_iff.mp h
        obtain ⟨rfl, rfl⟩ := Prod.mk.inj heq
        exact .inl ⟨more, _, rfl, hcomma, hmore⟩
      · rename_i hbrace
        obtain ⟨rfl, rfl⟩ := Prod.mk.inj (Option.some.inj h)
        exact .inr ⟨rfl, hbrace⟩
      · cases h
    · cases h
  · cases h

theorem scans_fields (hs : Scans fuel) {pairs : List (SpelledKey × Spelled)}
    (h : readFields (fuel + 1) input = some (pairs, rest)) : Passes skipFields input rest := by
  obtain ⟨key, s, value, behind, ⟨⟨text, hquote, colon, hraw, hcolon⟩, htree, hvalue⟩, hmore⟩ :=
    readFields_front h
  obtain ⟨hshort, hpass⟩ := hs.tree htree
  rcases hmore with ⟨more, text', -, hcomma, hfields⟩ | ⟨-, hbrace⟩
  · obtain ⟨hmoreShort, hmorePass⟩ := hs.fields hfields
    have hlength := skipSpace_length hcomma
    refine ⟨by omega, fun n hn => ?_⟩
    obtain ⟨k, rfl⟩ : ∃ k, n = k + 1 := ⟨n - 1, by omega⟩
    simp only [skipFields, hquote, rawString, hraw, hcolon, hpass k (by omega),
      skipSpace_visible hcomma (by decide)]
    exact hmorePass k (by omega)
  · have hlength := skipSpace_length hbrace
    refine ⟨by omega, fun n hn => ?_⟩
    obtain ⟨k, rfl⟩ : ∃ k, n = k + 1 := ⟨n - 1, by omega⟩
    simp only [skipFields, hquote, rawString, hraw, hcolon, hpass k (by omega),
      skipSpace_visible hbrace (by decide)]

/-- **The scanner passes over whole values** as the parser does. -/
theorem scans (fuel : Nat) : Scans fuel := by
  induction fuel with
  | zero =>
    constructor
    · intro input s rest h
      cases h
    · intro input values rest h
      cases h
    · intro input pairs rest h
      cases h
  | succ fuel hs =>
    constructor
    · intro input s rest h
      exact front_passes hs (readTree_front h)
    · exact scans_items hs
    · exact scans_fields hs

/-! ### Paths -/

/-- The scanner has found the tree, or nothing. -/
def FoundTree : Option Spelled → Option (List Char) → Prop
  | none, found => found = none
  | some s, found => ∃ text fuel behind, found = some text ∧ readTree fuel text = some (s, behind)

/-- The scanner finds the first field whose key is spelled like the name. -/
theorem rawField_found (name : String) {pairs : List (SpelledKey × Spelled)}
    (h : readFields fuel input = some (pairs, rest)) {n : Nat}
    (hn : input.length ≤ rest.length + n) :
    FoundTree (Spelled.firstField name pairs) (rawField name.toList n input) := by
  induction fuel generalizing input pairs n with
  | zero => cases h
  | succ fuel ih =>
    have hshort := (scans _).fields h
    obtain ⟨key, s, value, behind, ⟨⟨text, hquote, colon, hraw, hcolon⟩, htree, hvalue⟩, hmore⟩ :=
      readFields_front h
    obtain ⟨hvalueShort, hpass⟩ := (scans _).tree htree
    obtain ⟨k, rfl⟩ : ∃ k, n = k + 1 := ⟨n - 1, by have := hshort.1; omega⟩
    by_cases hname : key.letters = name.toList
    · have hfound : FoundTree (some s) (rawField name.toList (k + 1) input) := by
        refine ⟨OpenRouterSse.skipSpace value, fuel, behind, ?_, ?_⟩
        · simp only [rawField, hquote, rawString, hraw, hcolon, hname, if_true]
        · rw [skipSpace_tree htree]
          exact readTree_skipped.mpr htree
      rcases hmore with ⟨more, text', rfl, -, -⟩ | ⟨rfl, -⟩
      · rw [Spelled.firstField, if_pos hname]
        exact hfound
      · rw [Spelled.firstField, if_pos hname]
        exact hfound
    · rcases hmore with ⟨more, text', rfl, hcomma, hfields⟩ | ⟨rfl, hbrace⟩
      · have hlength := skipSpace_length hcomma
        have hmoreShort := ((scans _).fields hfields).1
        have hnext := ih hfields (n := k) (by omega)
        rw [Spelled.firstField, if_neg hname]
        simp only [rawField, hquote, rawString, hraw, hcolon, if_neg hname, hpass k (by omega),
          skipSpace_visible hcomma (by decide)]
        exact hnext
      · have hlength := skipSpace_length hbrace
        rw [Spelled.firstField, if_neg hname]
        simp only [rawField, hquote, rawString, hraw, hcolon, if_neg hname, hpass k (by omega),
          skipSpace_visible hbrace (by decide)]
        rfl

theorem rawNumber_none {c : Char} {text : List Char} (h : isNumberLetter c = false) :
    rawNumber (c :: text) = none := by
  have hstop : ¬ isNumberLetter c = true := by rw [h]; exact Bool.false_ne_true
  unfold rawNumber
  rw [List.takeWhile_cons_of_neg hstop]
  exact if_pos rfl

theorem rawNumber_front {text behind : List Char} {s : Spelled}
    (h : TreeFront fuel text s behind) :
    (rawNumber text).map (·.1) = s.numeral.map (·.letters) := by
  cases h with
  | number hnumeral => rw [readNumeral_raw hnumeral]; rfl
  | string => rw [rawNumber_none (by decide)]; rfl
  | empty => rw [rawNumber_none (by decide)]; rfl
  | array => rw [rawNumber_none (by decide)]; rfl
  | blank => rw [rawNumber_none (by decide)]; rfl
  | mapping => rw [rawNumber_none (by decide)]; rfl
  | null => rw [rawNumber_none (by decide)]; rfl
  | true => rw [rawNumber_none (by decide)]; rfl
  | false => rw [rawNumber_none (by decide)]; rfl

/-- **The scanner follows the first fields** that are spelled like the names. -/
theorem valueAtPath_first (path : List String) {s : Spelled}
    (h : readTree fuel input = some (s, rest)) :
    valueAtPath path input = ((s.firstAt path).bind Spelled.numeral).map (·.letters) := by
  induction path generalizing fuel input rest s with
  | nil =>
    rw [valueAtPath, skipSpace_tree h]
    cases fuel with
    | zero => cases h
    | succ fuel => exact rawNumber_front (readTree_front h)
  | cons name path ih =>
    cases fuel with
    | zero => cases h
    | succ fuel =>
      have hskip := skipSpace_tree h
      have hfront := readTree_front h
      generalize Encoding.skipSpace input = text at hskip hfront
      cases hfront with
      | @mapping inside _ fields hbrace hfields =>
        have hfound := rawField_found (n := 2 * (Encoding.skipSpace inside).length + 2) name
          hfields (by omega)
        simp only [valueAtPath, hskip, skipSpace_fields hfields]
        rw [Spelled.firstAt, Spelled.fields]
        cases hfirst : Spelled.firstField name fields with
        | none =>
          rw [hfirst] at hfound
          rw [hfound]
          rfl
        | some s =>
          rw [hfirst] at hfound
          obtain ⟨text, fuel', behind, hraw, htree⟩ := hfound
          rw [hraw]
          exact ih htree
      | blank hbrace => simp only [valueAtPath, hskip, skipSpace_visible hbrace (by decide)]; rfl
      | number hnumeral =>
        have hother : ∀ rest, text ≠ '\x7b' :: rest := by
          rintro rest rfl
          exact absurd (readNumeral_head hnumeral).1 (by decide)
        rw [valueAtPath, hskip]
        split
        · exact absurd rfl (hother _)
        · rfl
      | string => simp only [valueAtPath, hskip]; rfl
      | empty => simp only [valueAtPath, hskip]; rfl
      | array => simp only [valueAtPath, hskip]; rfl
      | null => simp only [valueAtPath, hskip]; rfl
      | true => simp only [valueAtPath, hskip]; rfl
      | false => simp only [valueAtPath, hskip]; rfl

/-! ### Exact numbers -/

/-- A number that is written without a sign. -/
def unsignedAt (s : Option Spelled) : Option Numeral :=
  (s.bind Spelled.numeral).filter fun numeral => numeral.letters.head? ≠ some '-'

/-- **An exact number** is the number without a sign that the first fields lead to. -/
theorem exactNumberAtPath_first {text : String} {s : Spelled} (h : spelling text = some s)
    (path : List String) :
    exactNumberAtPath text path =
      (unsignedAt (s.firstAt path)).map fun numeral => String.ofList numeral.letters := by
  obtain ⟨⟨found, behind⟩, htree, h⟩ := Option.bind_eq_some_iff.mp h
  dsimp only at h
  split_ifs at h
  obtain rfl := Option.some.inj h
  rw [exactNumberAtPath, valueAtPath_first path htree, unsignedAt]
  cases (found.firstAt path).bind Spelled.numeral with
  | none => rfl
  | some numeral =>
    have hvalid := valid_numeral numeral
    by_cases hsign : numeral.letters.head? = some '-'
    · have hinvalid : ¬ validNonnegativeJsonNumber numeral.letters = true :=
        fun hv => hvalid.mp hv hsign
      simp [Option.filter, hsign, hinvalid]
    · simp [Option.filter, hsign, hvalid.mpr hsign]

section

variable {F : Type} {parse : String → Option (JsonValue F)} {read : Numeral → JsonNumber F}
  {nonnegative : JsonNumber F → Bool}

/-- The path leads to a number of the parsed value that is not negative, and this is how
    it is spelled in the text. -/
def SpelledNumber (nonnegative : JsonNumber F → Bool) (text : String) (v : JsonValue F)
    (path : List String) (letters : String) : Prop :=
  ∃ number, v.follow path = some (.number number) ∧ nonnegative number = true ∧
    ∃ s numeral, spelling text = some s ∧ (s.lastAt path).bind Spelled.numeral = some numeral ∧
      letters = String.ofList numeral.letters

/-- The exact number is the number that the path leads to in the parsed value. -/
def LooksUp (nonnegative : JsonNumber F → Bool) (text : String) (v : JsonValue F)
    (path : List String) : Prop :=
  ∀ letters, exactNumberAtPath text path = some letters ↔
    SpelledNumber nonnegative text v path letters

/-- The first fields that are spelled like the names of the path lead to the same number
    without a sign as the last fields with these names, if to any, and the number there is
    not one that is written with a minus and yet not negative. -/
def SamePlace (nonnegative : JsonNumber F → Bool) (read : Numeral → JsonNumber F) (s : Spelled)
    (path : List String) : Prop :=
  unsignedAt (s.firstAt path) = unsignedAt (s.lastAt path) ∧
    ∀ numeral ∈ (s.lastAt path).bind Spelled.numeral, numeral.letters.head? = some '-' →
      nonnegative (read numeral) = false

theorem follow_number {s : Spelled} {path : List String} {number : JsonNumber F} :
    (s.value read).follow path = some (.number number) ↔
      ∃ numeral, (s.lastAt path).bind Spelled.numeral = some numeral ∧ number = read numeral := by
  rw [Spelled.value_follow]
  cases s.lastAt path with
  | none => simp
  | some s =>
    cases s with
    | number numeral => simp [Spelled.value, Spelled.numeral, eq_comm]
    | mapping fields => simp [Spelled.value, Spelled.numeral, JsonValue.object]
    | _ => simp [Spelled.value, Spelled.numeral]

theorem spelledNumber_iff {text : String} {s : Spelled} (hs : spelling text = some s)
    {path : List String} {letters : String} :
    SpelledNumber nonnegative text (s.value read) path letters ↔
      ∃ numeral, (s.lastAt path).bind Spelled.numeral = some numeral ∧
        nonnegative (read numeral) = true ∧ letters = String.ofList numeral.letters := by
  constructor
  · rintro ⟨number, hfollow, hpositive, s', numeral, hs', hlast, rfl⟩
    obtain rfl := Option.some.inj (hs.symm.trans hs')
    obtain ⟨numeral', hlast', rfl⟩ := follow_number.mp hfollow
    obtain rfl := Option.some.inj (hlast.symm.trans hlast')
    exact ⟨numeral, hlast, hpositive, rfl⟩
  · rintro ⟨numeral, hlast, hpositive, rfl⟩
    exact ⟨_, follow_number.mpr ⟨numeral, hlast, rfl⟩, hpositive, s, numeral, hs, hlast, rfl⟩

theorem unsignedAt_eq_some {s : Option Spelled} {numeral : Numeral} :
    unsignedAt s = some numeral ↔
      s.bind Spelled.numeral = some numeral ∧ numeral.letters.head? ≠ some '-' := by
  rw [unsignedAt, Option.filter_eq_some_iff, decide_eq_true_iff]

theorem numeral_ext {numeral numeral' : Numeral}
    (h : String.ofList numeral.letters = String.ofList numeral'.letters) : numeral = numeral' := by
  obtain ⟨letters, _, _⟩ := numeral
  obtain ⟨letters', _, _⟩ := numeral'
  obtain rfl : letters = letters' := by simpa using congrArg String.toList h
  rfl

/-- **Exact numbers and parsed numbers.**  On every text that the parser accepts the exact
    number is the parsed one exactly if the first fields that are spelled like the path and
    the last fields that are named so lead to the same number. -/
theorem exact_number_agrees (hparse : ReadsSpelled parse read)
    (hpositive : ∀ numeral, numeral.letters.head? ≠ some '-' → nonnegative (read numeral) = true)
    {text : String} {v : JsonValue F} (hv : parse text = some v) (path : List String) :
    LooksUp nonnegative text v path ↔
      ∃ s, spelling text = some s ∧ SamePlace nonnegative read s path := by
  obtain ⟨s, hs, rfl⟩ := hparse hv
  have hexact : ∀ letters, exactNumberAtPath text path = some letters ↔
      ∃ numeral, unsignedAt (s.firstAt path) = some numeral ∧
        String.ofList numeral.letters = letters := by
    intro letters
    rw [exactNumberAtPath_first hs, Option.map_eq_some_iff]
  constructor
  · intro hlooks
    refine ⟨s, hs, ?_, ?_⟩
    · apply Option.ext
      intro numeral
      constructor
      · intro hfirst
        obtain ⟨numeral', hlast, -, hletters⟩ := (spelledNumber_iff hs).mp
          ((hlooks _).mp ((hexact _).mpr ⟨numeral, hfirst, rfl⟩))
        obtain rfl := numeral_ext hletters
        exact unsignedAt_eq_some.mpr ⟨hlast, (unsignedAt_eq_some.mp hfirst).2⟩
      · intro hlast
        obtain ⟨hlast, hsign⟩ := unsignedAt_eq_some.mp hlast
        obtain ⟨numeral', hfirst, hletters⟩ := (hexact _).mp ((hlooks _).mpr
          ((spelledNumber_iff hs).mpr ⟨numeral, hlast, hpositive numeral hsign, rfl⟩))
        obtain rfl := numeral_ext hletters
        exact hfirst
    · intro numeral hlast hsign
      by_contra hnegative
      obtain ⟨numeral', hfirst, hletters⟩ := (hexact _).mp ((hlooks _).mpr
        ((spelledNumber_iff hs).mpr ⟨numeral, hlast, by simpa using hnegative, rfl⟩))
      obtain rfl := numeral_ext hletters
      exact (unsignedAt_eq_some.mp hfirst).2 hsign
  · rintro ⟨s', hs', hsame, hnegative⟩
    obtain rfl := Option.some.inj (hs.symm.trans hs')
    intro letters
    rw [hexact, hsame, spelledNumber_iff hs]
    constructor
    · rintro ⟨numeral, hlast, rfl⟩
      obtain ⟨hlast, hsign⟩ := unsignedAt_eq_some.mp hlast
      exact ⟨numeral, hlast, hpositive numeral hsign, rfl⟩
    · rintro ⟨numeral, hlast, hnumber, rfl⟩
      refine ⟨numeral, unsignedAt_eq_some.mpr ⟨hlast, fun hsign => ?_⟩, rfl⟩
      rw [hnegative numeral hlast hsign] at hnumber
      cases hnumber

end

/-- Whether a number of this development's parser is not negative: a zero may have a sign. -/
def isNonnegative : JsonNumber Decimal → Bool
  | .signed n => decide (0 ≤ n.toInt)
  | .unsigned _ => true
  | .float d => d.literal.head? ≠ some '-' ||
      (d.literal.takeWhile fun c => c ≠ 'e' && c ≠ 'E').all fun c => !('1' ≤ c && c ≤ '9')

theorem isNonnegative_number (numeral : Numeral) (hsign : numeral.letters.head? ≠ some '-') :
    isNonnegative numeral.number = true := by
  have hnumber : numberOf numeral.letters = some numeral.number := (Option.some_get _).symm
  generalize numeral.number = number at hnumber
  unfold numberOf at hnumber
  split at hnumber
  · rename_i n hinteger
    unfold integerOf at hinteger
    split at hinteger
    · rename_i hletters
      exact absurd (by rw [hletters]; rfl) hsign
    · split at hinteger
      · split_ifs at hinteger
        cases hinteger
      · cases hinteger
  · obtain rfl := Option.some.inj hnumber
    rfl
  · rename_i f _
    exact f.elim
  · split_ifs at hnumber
    obtain rfl := Option.some.inj hnumber
    simp [isNonnegative, hsign]

/-- A cost that is there once. -/
def costOnce : String := "\x7b\"usage\": \x7b\"cost\": 0.25\x7d\x7d"

theorem exact_number_once : ∃ v, textCodec.parse costOnce = some v ∧
    LooksUp isNonnegative costOnce v ["usage", "cost"] := by
  have hparsed : (textCodec.parse costOnce).isSome = true := by decide +kernel
  obtain ⟨v, hv⟩ := Option.isSome_iff_exists.mp hparsed
  refine ⟨v, hv, (exact_number_agrees textCodec_reads isNonnegative_number hv _).mpr ?_⟩
  obtain ⟨s, hs, -⟩ := textCodec_reads hv
  have hsame : (spelling costOnce).map (fun s => unsignedAt (s.firstAt ["usage", "cost"])) =
      (spelling costOnce).map (fun s => unsignedAt (s.lastAt ["usage", "cost"])) := by
    decide +kernel
  have hsign : (spelling costOnce).bind (fun s => ((s.lastAt ["usage", "cost"]).bind
      Spelled.numeral).bind (·.letters.head?)) = some '0' := by decide +kernel
  rw [hs] at hsame hsign
  refine ⟨s, hs, Option.some.inj hsame, fun numeral hnumeral hminus => ?_⟩
  rw [Option.bind_some, hnumeral, Option.bind_some, hminus] at hsign
  exact absurd hsign (by decide)

/-- Two costs of one name. -/
def costTwice : String := "\x7b\"usage\": \x7b\"cost\": 1, \"cost\": 2\x7d\x7d"

/-- Of two costs the parser reads the second and the scanner takes the first. -/
theorem exact_number_of_another_field : ∃ v, textCodec.parse costTwice = some v ∧
    ¬ LooksUp isNonnegative costTwice v ["usage", "cost"] := by
  have hparsed : (textCodec.parse costTwice).isSome = true := by decide +kernel
  obtain ⟨v, hv⟩ := Option.isSome_iff_exists.mp hparsed
  refine ⟨v, hv, fun hlooks => ?_⟩
  have hfirst : exactNumberAtPath costTwice ["usage", "cost"] = some "1" := by decide +kernel
  obtain ⟨_, -, -, s, numeral, hs, hlast, hletters⟩ := (hlooks "1").mp hfirst
  have hsecond : (spelling costTwice).bind (fun s => ((s.lastAt ["usage", "cost"]).bind
      Spelled.numeral).map fun numeral => String.ofList numeral.letters) = some "2" := by
    decide +kernel
  rw [hs, Option.bind_some, hlast, Option.map_some, ← hletters] at hsecond
  exact absurd hsecond (by decide)

end Tea.Contract
