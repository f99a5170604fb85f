/-
  Tea/Coding/Glob.lean
  ====================
  **The matchers of the search tools** (`tools/search.rs`): the one of names (`GlobMatcher`), on
  the bytes of the pattern and of the path, with the meaning of a pattern on their characters
  (`Means`); and the one of lines (`TinyPattern`), with what its patterns spell (`Spells`).
-/
import Tea.Coding.Arguments
import Tea.Encoding.Utf8Runs

namespace Tea.Coding

open Tea.Encoding

/-! ### The matcher -/

structure GlobMatcher where
  pattern : List Char
deriving DecidableEq, Repr

/-- Both separators are written as a slash. -/
def slashes (text : String) : List Char := text.toList.map fun c => if c = '\\' then '/' else c

/-- `GlobMatcher::new` -/
def GlobMatcher.new (pattern : String) : Except String GlobMatcher :=
  if pattern = "" ∨ '\x00' ∈ pattern.toList then
    .error "glob pattern cannot be empty or contain NUL"
  else .ok { pattern := slashes pattern }

/-- `glob_match` behind a star: the rests of the text, in one component or in all. -/
def afterStar (double : Bool) (next : List UInt8 → Bool) : List UInt8 → Bool :=
  tryRests (fun byte => !double && byte = 47) next

/-- `glob_match` from a place of the pattern and of the text on. -/
def globMatch : List UInt8 → List UInt8 → Bool
  | [], text => text.isEmpty
  | 42 :: 42 :: 47 :: rest, text =>
      globMatch rest text || afterStar true (globMatch (47 :: rest)) text
  | 42 :: 42 :: rest, text => afterStar true (globMatch rest) text
  | 42 :: rest, text => afterStar false (globMatch rest) text
  | byte :: rest, text =>
      match text with
      | [] => false
      | first :: text => (byte = 63 || byte = first) && globMatch rest text

section

-- The equations are generated here, once for the proofs below.
attribute [local simp] globMatch

end

/-- `GlobMatcher::matches` -/
def GlobMatcher.matches (matcher : GlobMatcher) (candidate : String) : Bool :=
  globMatch (encodeUtf8 matcher.pattern) (encodeUtf8 (slashes candidate))

/-! ### The meaning of a pattern -/

/-- What a pattern means: two stars stand for any run of characters, and with a slash
    behind them also for nothing; one star for a run in one component; a question mark
    for one character that is no separator; every other character for itself. -/
inductive Means : List Char → List Char → Prop
  | done : Means [] []
  | nowhere {pattern text : List Char} (h : Means pattern text) :
      Means ('*' :: '*' :: '/' :: pattern) text
  | across {pattern text : List Char} (run : List Char) (h : Means pattern text) :
      Means ('*' :: '*' :: pattern) (run ++ text)
  | within {pattern text : List Char} (run : List Char) (hstar : pattern.head? ≠ some '*')
      (hrun : '/' ∉ run) (h : Means pattern text) : Means ('*' :: pattern) (run ++ text)
  | one {pattern text : List Char} (c : Char) (hc : c ≠ '/') (h : Means pattern text) :
      Means ('?' :: pattern) (c :: text)
  | same {pattern text : List Char} (c : Char) (hc : c ≠ '*' ∧ c ≠ '?') (h : Means pattern text) :
      Means (c :: pattern) (c :: text)

/-- The shortest path that the matcher takes: a separator for every question mark. -/
def shortest : List Char → List Char
  | [] => []
  | '*' :: '*' :: '/' :: pattern => shortest pattern
  | '*' :: '*' :: pattern => shortest pattern
  | '*' :: pattern => shortest pattern
  | '?' :: pattern => '/' :: shortest pattern
  | c :: pattern => c :: shortest pattern

section

-- The equations are generated here, once for the proofs below.
attribute [local simp] shortest

end

/-! ### Literals -/

theorem globMatch_cons {byte first : UInt8} (hstar : byte ≠ 42) (rest text : List UInt8) :
    globMatch (byte :: rest) (first :: text) =
      ((byte = 63 || byte = first) && globMatch rest text) := by
  rw [globMatch]
  · exact fun _ h => absurd h hstar
  · exact fun _ h => absurd h hstar
  · exact hstar

theorem globMatch_nil {byte : UInt8} (hstar : byte ≠ 42) (rest : List UInt8) :
    globMatch (byte :: rest) [] = false := by
  rw [globMatch]
  · exact fun _ h => absurd h hstar
  · exact fun _ h => absurd h hstar
  · exact hstar

/-- Bytes that are no wildcards stand for themselves. -/
theorem globMatch_bytes {bytes : List UInt8} (hplain : ∀ byte ∈ bytes, byte ≠ 42 ∧ byte ≠ 63)
    (rest text : List UInt8) : globMatch (bytes ++ rest) text = true ↔
      ∃ more, text = bytes ++ more ∧ globMatch rest more = true := by
  induction bytes generalizing text with
  | nil => simp
  | cons byte bytes ih =>
    obtain ⟨⟨hstar, hmark⟩, hplain⟩ := List.forall_mem_cons.mp hplain
    rw [List.cons_append]
    cases text with
    | nil =>
      rw [globMatch_nil hstar]
      constructor
      · intro h
        cases h
      · rintro ⟨more, htext, -⟩
        cases htext
    | cons first text =>
      rw [globMatch_cons hstar, Bool.and_eq_true, ih hplain]
      constructor
      · rintro ⟨hfirst, more, rfl, hmore⟩
        have hbyte : byte = first := by simpa [hmark] using hfirst
        exact ⟨more, by rw [hbyte]; rfl, hmore⟩
      · rintro ⟨more, htext, hmore⟩
        obtain ⟨rfl, rfl⟩ := List.cons.inj htext
        exact ⟨by simp, more, rfl, hmore⟩

/-- A character that is no wildcard. -/
theorem plain_bytes {c : Char} (hc : c ≠ '*' ∧ c ≠ '?') :
    ∀ byte ∈ String.utf8EncodeChar c, byte ≠ 42 ∧ byte ≠ 63 := by
  intro byte hbyte
  constructor
  · rintro rfl
    exact hc.1 (utf8EncodeChar_byte (d := '*') (by decide) hbyte)
  · rintro rfl
    exact hc.2 (utf8EncodeChar_byte (d := '?') (by decide) hbyte)

theorem globMatch_char {c : Char} (hc : c ≠ '*' ∧ c ≠ '?') (pattern : List Char)
    {left : List UInt8} (hleft : Continues left) (text : List Char) :
    globMatch (encodeUtf8 (c :: pattern)) (left ++ encodeUtf8 text) = true ↔
      left = [] ∧ ∃ rest, text = c :: rest ∧
        globMatch (encodeUtf8 pattern) (encodeUtf8 rest) = true := by
  rw [encodeUtf8_cons, globMatch_bytes (plain_bytes hc)]
  constructor
  · rintro ⟨more, htext, hmore⟩
    obtain ⟨rfl, rest, rfl, rfl⟩ := encodeUtf8_behind hleft htext
    exact ⟨rfl, rest, rfl, hmore⟩
  · rintro ⟨rfl, rest, rfl, hmore⟩
    exact ⟨encodeUtf8 rest, rfl, hmore⟩

/-! ### The patterns of grep -/

structure TinyPattern where
  pattern : String
  ignoreCase : Bool
deriving DecidableEq, Repr

/-- The loop of `TinyPattern::new` over the bytes. -/
def checkPattern (escaped class_ : Bool) : List UInt8 → Except OperationError (Bool × Bool)
  | [] => .ok (escaped, class_)
  | byte :: rest =>
    if escaped then checkPattern false class_ rest
    else if byte = 92 then checkPattern true class_ rest
    else if byte = 91 then checkPattern escaped true rest
    else if byte = 93 then
      if class_ then checkPattern escaped false rest
      else .error ⟨"unmatched ] in pattern"⟩
    else checkPattern escaped class_ rest

/-- `TinyPattern::new` -/
def TinyPattern.new (pattern : String) (ignoreCase : Bool) : Except OperationError TinyPattern :=
  if pattern = "" then .error ⟨"pattern cannot be empty"⟩
  else
    match checkPattern false false (encodeUtf8 pattern.toList) with
    | .error error => .error error
    | .ok (escaped, class_) =>
      if escaped || class_ then .error ⟨"unterminated regex escape or character class"⟩
      else .ok { pattern, ignoreCase }

/-- `tiny_match` from a place of the pattern and of the text on; behind the pattern it asks for a
    place inside of the text, where it is. -/
def tinyMatch : List UInt8 → List UInt8 → Bool
  | [], _ => true
  | 42 :: rest, text => tryRests (fun _ => false) (tinyMatch rest) text
  | byte :: rest, text =>
    match text with
    | [] => false
    | first :: text => (byte = 46 || byte = first) && tinyMatch rest text

section

-- The equations are generated here, once for the proofs below.
attribute [local simp] tinyMatch

end

/-- `pattern_literal_len` -/
def patternLiteralLen (pattern : List UInt8) : Nat :=
  (pattern.filter fun byte => byte ≠ 42 && byte ≠ 92).length

def anchoredStart (pattern : List UInt8) : Bool := pattern.head? = some 94

def anchoredEnd (pattern : List UInt8) : Bool :=
  pattern.getLast? = some 36 && !(List.isSuffixOf [92, 36] pattern)

/-- The pattern without its anchors. -/
def patternBody (pattern : List UInt8) : List UInt8 :=
  let stripped := if anchoredStart pattern then pattern.drop 1 else pattern
  if anchoredEnd pattern then stripped.dropLast else stripped

/-- `(0..=text.len()).any(..)` of what is before a place and of the text from it on. -/
def anyStart (test : Nat → List UInt8 → Bool) (text : List UInt8) : Bool :=
  (List.range (text.length + 1)).any fun start => test start (text.drop start)

/-- What `matches` does with the bytes of the pattern and of the text. -/
def matchBytes (pattern text : List UInt8) : Bool :=
  let body := patternBody pattern
  if anchoredStart pattern then tinyMatch body text
  else if anchoredEnd pattern then
    anyStart (fun start rest => tinyMatch body rest && start + patternLiteralLen body = text.length)
      text
  else anyStart (fun _ rest => tinyMatch body rest) text

/-- The bytes of a text as they are compared, with `str::to_lowercase`. -/
def TinyPattern.bytesOf (toLowercase : String → String) (matcher : TinyPattern) (text : String) :
    List UInt8 :=
  encodeUtf8 (if matcher.ignoreCase then toLowercase text else text).toList

/-- `TinyPattern::matches` -/
def TinyPattern.matches (toLowercase : String → String) (matcher : TinyPattern) (text : String) :
    Bool :=
  matchBytes (matcher.bytesOf toLowercase matcher.pattern) (matcher.bytesOf toLowercase text)

/-! ### What a pattern of grep spells -/

/-- What a pattern without anchors spells: a star stands for any run, a dot for any byte, every
    other byte for itself. -/
inductive Spells : List UInt8 → List UInt8 → Prop where
  | nil : Spells [] []
  | star (run : List UInt8) {pattern text : List UInt8} :
    Spells pattern text → Spells (42 :: pattern) (run ++ text)
  | dot (byte : UInt8) {pattern text : List UInt8} :
    Spells pattern text → Spells (46 :: pattern) (byte :: text)
  | letter (byte : UInt8) {pattern text : List UInt8} : byte ≠ 42 → byte ≠ 46 →
    Spells pattern text → Spells (byte :: pattern) (byte :: text)

end Tea.Coding
