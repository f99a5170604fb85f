/-
  Tea/Encoding/JsonText.lean
  ==========================
  **JSON texts.**  A parser for the whole grammar, which keeps the fields of an object in
  the order in which they are written, and a printer.  What is printed is read back
  (`parseValue_print`); with its objects ordered, the pair is a codec (`textCodec`).
-/

import Tea.Encoding.Json
import Mathlib.Tactic.IntervalCases
import Mathlib.Data.List.Basic

namespace Tea.Encoding

/-! ### Numbers -/

/-- The letters of a number. -/
def isNumeric (c : Char) : Bool :=
  c.isDigit || c = '-' || c = '+' || c = '.' || c = 'e' || c = 'E'

/-- Decimal digits without a leading zero. -/
def natOf (digits : List Char) : Option Nat :=
  if digits ≠ [] ∧ digits.all Char.isDigit ∧ (digits = ['0'] ∨ digits.head? ≠ some '0') then
    some (Nat.ofDigitChars 10 digits 0)
  else none

/-- An integer in one of the two common forms. -/
def integerOf (token : List Char) : Option (JsonNumber Empty) :=
  match token with
  | '-' :: digits =>
      match natOf digits with
      | some n =>
          if 0 < n ∧ n ≤ 9223372036854775808 then some (.signed (Int64.ofInt (-n))) else none
      | none => none
  | digits =>
      match natOf digits with
      | some n => if n < 18446744073709551616 then some (.unsigned (UInt64.ofNat n)) else none
      | none => none

/-- One or more digits are dropped. -/
def dropDigits (token : List Char) : Option (List Char) :=
  if token.takeWhile Char.isDigit = [] then none else some (token.dropWhile Char.isDigit)

/-- The exponent of a number, if any. -/
def isExponent : List Char → Bool
  | [] => true
  | mark :: token =>
      (mark = 'e' || mark = 'E') &&
        match token with
        | '+' :: digits => dropDigits digits = some []
        | '-' :: digits => dropDigits digits = some []
        | digits => dropDigits digits = some []

/-- A number: an integer part, a fraction and an exponent. -/
def isNumber (token : List Char) : Bool :=
  let token := if token.head? = some '-' then token.drop 1 else token
  (natOf (token.takeWhile Char.isDigit)).isSome &&
    match token.dropWhile Char.isDigit with
    | '.' :: fraction => (dropDigits fraction).any isExponent
    | rest => isExponent rest

/-- The literal of a number that is not an integer in one of the two common forms. -/
structure Decimal where
  literal : List Char
  numeric : literal ≠ [] ∧ ∀ c ∈ literal, isNumeric c = true
  valid : isNumber literal = true
  fractional : integerOf literal = none
deriving DecidableEq

def numberOf (token : List Char) : Option (JsonNumber Decimal) :=
  match h : integerOf token with
  | some (.signed n) => some (.signed n)
  | some (.unsigned n) => some (.unsigned n)
  | some (.float f) => f.elim
  | none =>
      if hnumber : (token ≠ [] ∧ token.all isNumeric = true) ∧ isNumber token = true then
        some (.float ⟨token, ⟨hnumber.1.1, List.all_eq_true.mp hnumber.1.2⟩, hnumber.2, h⟩)
      else none

def printNumber : JsonNumber Decimal → List Char
  | .signed n =>
      if n.toInt < 0 then '-' :: Nat.toDigits 10 n.toInt.natAbs else Nat.toDigits 10 n.toInt.natAbs
  | .unsigned n => Nat.toDigits 10 n.toNat
  | .float f => f.literal

/-- A signed integer that is not negative comes back in the other form. -/
def rereadNumber : JsonNumber Decimal → JsonNumber Decimal
  | .signed n => if n.toInt < 0 then .signed n else .unsigned (UInt64.ofNat n.toInt.natAbs)
  | number => number

theorem toDigits_head (n : Nat) :
    Nat.toDigits 10 n = ['0'] ∨ (Nat.toDigits 10 n).head? ≠ some '0' := by
  induction n using Nat.strongRecOn with
  | _ n ih =>
    by_cases hsmall : n < 10
    · interval_cases n <;> decide
    · rw [Nat.toDigits_of_base_le (by omega) (by omega)]
      right
      rw [List.head?_append_of_ne_nil _ Nat.toDigits_ne_nil]
      rcases ih (n / 10) (by omega) with hzero | hhead
      · have hvalue := congrArg (Nat.ofDigitChars 10 · 0) hzero
        simp only [Nat.ofDigitChars_ten_toDigits] at hvalue
        have hnone : n / 10 = 0 := hvalue.trans (by decide)
        omega
      · exact hhead

theorem isDigit_toDigits {n : Nat} {c : Char} (h : c ∈ Nat.toDigits 10 n) : c.isDigit = true :=
  Nat.isDigit_of_mem_toDigits (by omega) (by omega) h

theorem natOf_toDigits (n : Nat) : natOf (Nat.toDigits 10 n) = some n := by
  have hdigits : (Nat.toDigits 10 n).all Char.isDigit = true := by
    rw [List.all_eq_true]
    intro c hc
    exact isDigit_toDigits hc
  unfold natOf
  rw [if_pos ⟨Nat.toDigits_ne_nil, hdigits, toDigits_head n⟩, Nat.ofDigitChars_ten_toDigits]

/-- Digits do not start with a sign. -/
theorem integerOf_toDigits {n : Nat} (h : n < 18446744073709551616) :
    integerOf (Nat.toDigits 10 n) = some (.unsigned (UInt64.ofNat n)) := by
  unfold integerOf
  split
  · rename_i digits heq
    have hminus : '-' ∈ Nat.toDigits 10 n := by
      rw [heq]
      exact List.mem_cons_self
    have hdigit := isDigit_toDigits hminus
    exact absurd hdigit (by decide)
  · rw [natOf_toDigits]
    exact if_pos h

theorem numberOf_integer {token : List Char} {number : JsonNumber Empty}
    (h : integerOf token = some number) :
    numberOf token = match number with
      | .signed n => some (.signed n)
      | .unsigned n => some (.unsigned n)
      | .float f => f.elim := by
  unfold numberOf
  split
  · rename_i hinteger
    rw [h] at hinteger
    cases hinteger
    rfl
  · rename_i hinteger
    rw [h] at hinteger
    cases hinteger
    rfl
  · rename_i f _
    exact f.elim
  · rename_i hinteger
    rw [h] at hinteger
    cases hinteger

/-- **A printed number** is read back. -/
theorem numberOf_print (number : JsonNumber Decimal) :
    numberOf (printNumber number) = some (rereadNumber number) := by
  cases number with
  | unsigned n =>
    have hinteger := integerOf_toDigits n.toNat_lt
    rw [UInt64.ofNat_toNat] at hinteger
    exact numberOf_integer hinteger
  | signed n =>
    have hbound := n.toInt_lt
    have hle := n.le_toInt
    by_cases hneg : n.toInt < 0
    · have hinteger : integerOf ('-' :: Nat.toDigits 10 n.toInt.natAbs) = some (.signed n) := by
        simp only [integerOf, natOf_toDigits]
        rw [if_pos (by omega)]
        congr 2
        rw [show -((n.toInt.natAbs : Nat) : Int) = n.toInt by omega]
        exact Int64.ofInt_toInt n
      simp only [printNumber, rereadNumber, if_pos hneg]
      exact numberOf_integer hinteger
    · have hinteger := integerOf_toDigits (n := n.toInt.natAbs) (by omega)
      simp only [printNumber, rereadNumber, if_neg hneg]
      exact numberOf_integer hinteger
  | float f =>
    unfold numberOf printNumber rereadNumber
    split
    · rename_i hinteger
      rw [f.fractional] at hinteger
      cases hinteger
    · rename_i hinteger
      rw [f.fractional] at hinteger
      cases hinteger
    · rename_i g _
      exact g.elim
    · rw [dif_pos ⟨⟨f.numeric.1, List.all_eq_true.mpr f.numeric.2⟩, f.valid⟩]

/-- A printed number is not empty and has the letters of a number. -/
theorem printNumber_numeric (number : JsonNumber Decimal) :
    printNumber number ≠ [] ∧ ∀ c ∈ printNumber number, isNumeric c = true := by
  have hdigits : ∀ n, ∀ c ∈ Nat.toDigits 10 n, isNumeric c = true := by
    intro n c hc
    simp [isNumeric, isDigit_toDigits hc]
  cases number with
  | unsigned n => exact ⟨Nat.toDigits_ne_nil, hdigits _⟩
  | signed n =>
    simp only [printNumber]
    split_ifs
    · refine ⟨by simp, ?_⟩
      intro c hc
      rcases List.mem_cons.mp hc with rfl | hc
      · decide
      · exact hdigits _ c hc
    · exact ⟨Nat.toDigits_ne_nil, hdigits _⟩
  | float f => exact f.numeric

/-! ### Strings -/

def hexDigit (n : Nat) : Char := if n < 10 then Char.ofNat (48 + n) else Char.ofNat (87 + n)

def hexValue (c : Char) : Option Nat :=
  if c.isDigit then some (c.toNat - 48)
  else if 'a' ≤ c ∧ c ≤ 'f' then some (c.toNat - 87)
  else if 'A' ≤ c ∧ c ≤ 'F' then some (c.toNat - 55)
  else none

def escape (c : Char) : List Char :=
  match c with
  | '"' => ['\\', '"']
  | '\\' => ['\\', '\\']
  | '\x08' => ['\\', 'b']
  | '\x0c' => ['\\', 'f']
  | '\n' => ['\\', 'n']
  | '\r' => ['\\', 'r']
  | '\t' => ['\\', 't']
  | c =>
      if c ≤ '\x1f' then
        ['\\', 'u', '0', '0', hexDigit (c.toNat / 16), hexDigit (c.toNat % 16)]
      else [c]

def printString (s : String) : List Char := '"' :: (s.toList.flatMap escape ++ ['"'])

/-- A letter of a string, or a code unit that was written in hexadecimal. -/
inductive Piece where
  | letter (c : Char)
  | unit (n : Nat)
deriving DecidableEq

def simpleEscape : Char → Option Char
  | '"' => some '"'
  | '\\' => some '\\'
  | '/' => some '/'
  | 'b' => some '\x08'
  | 'f' => some '\x0c'
  | 'n' => some '\n'
  | 'r' => some '\r'
  | 't' => some '\t'
  | _ => none

def codeUnit (a b c d : Char) : Option Nat :=
  match hexValue a, hexValue b, hexValue c, hexValue d with
  | some a, some b, some c, some d => some (((a * 16 + b) * 16 + c) * 16 + d)
  | _, _, _, _ => none

/-- The pieces of a string up to its closing quote, and what follows. -/
def pieces : List Char → Option (List Piece × List Char)
  | [] => none
  | '"' :: rest => some ([], rest)
  | '\\' :: 'u' :: a :: b :: c :: d :: rest =>
      (codeUnit a b c d).bind fun n =>
        (pieces rest).map fun found => (.unit n :: found.1, found.2)
  | '\\' :: c :: rest =>
      (simpleEscape c).bind fun c =>
        (pieces rest).map fun found => (.letter c :: found.1, found.2)
  | c :: rest =>
      if c < ' ' then none
      else (pieces rest).map fun found => (.letter c :: found.1, found.2)

/-- The pieces put together: a high surrogate takes the low surrogate behind it. -/
def join : List Piece → Option (List Char)
  | [] => some []
  | .letter c :: rest => (join rest).map (c :: ·)
  | .unit n :: rest =>
      if 0xd800 ≤ n ∧ n < 0xdc00 then
        match rest with
        | .unit low :: rest =>
            if 0xdc00 ≤ low ∧ low < 0xe000 then
              (join rest).map (Char.ofNat (0x10000 + (n - 0xd800) * 0x400 + (low - 0xdc00)) :: ·)
            else none
        | _ => none
      else if 0xdc00 ≤ n ∧ n < 0xe000 then none
      else (join rest).map (Char.ofNat n :: ·)

/-- A string behind its opening quote. -/
def parseString (input : List Char) : Option (String × List Char) :=
  (pieces input).bind fun found =>
    (join found.1).map fun letters => (String.ofList letters, found.2)

/-- The piece that a letter is written as. -/
def pieceOf (c : Char) : Piece :=
  if escape c = ['\\', 'u', '0', '0', hexDigit (c.toNat / 16), hexDigit (c.toNat % 16)] then
    .unit c.toNat
  else .letter c

theorem hexValue_hexDigit : ∀ n < 16, hexValue (hexDigit n) = some n := by decide

theorem toNat_of_control {c : Char} (h : c ≤ '\x1f') : c.toNat < 32 := by
  have hle : c.toNat ≤ ('\x1f').toNat := h
  have hvalue : ('\x1f').toNat = 31 := by decide
  omega

theorem pieces_escape (c : Char) (rest : List Char) :
    pieces (escape c ++ rest) =
      (pieces rest).map fun found => (pieceOf c :: found.1, found.2) := by
  have hsimple : ∀ mark : Char, escape c = ['\\', mark] → simpleEscape mark = some c →
      mark ≠ 'u' → pieces (escape c ++ rest) =
        (pieces rest).map fun found => (pieceOf c :: found.1, found.2) := by
    intro mark hescape hmark hunit
    have hpiece : pieceOf c = .letter c := by simp [pieceOf, hescape]
    rw [hescape, hpiece]
    simp only [List.cons_append, List.nil_append]
    rw [pieces.eq_def]
    simp [hmark, hunit]
  by_cases hspecial : ∃ mark, escape c = ['\\', mark] ∧ simpleEscape mark = some c ∧ mark ≠ 'u'
  · obtain ⟨mark, hescape, hmark, hunit⟩ := hspecial
    exact hsimple mark hescape hmark hunit
  · have hquote : c ≠ '"' := by
      rintro rfl
      exact hspecial ⟨'"', by decide⟩
    have hslash : c ≠ '\\' := by
      rintro rfl
      exact hspecial ⟨'\\', by decide⟩
    have hcases : escape c = if c ≤ '\x1f' then
        ['\\', 'u', '0', '0', hexDigit (c.toNat / 16), hexDigit (c.toNat % 16)] else [c] := by
      unfold escape
      split
      · exact absurd rfl hquote
      · exact absurd rfl hslash
      · exact absurd ⟨'b', by decide⟩ hspecial
      · exact absurd ⟨'f', by decide⟩ hspecial
      · exact absurd ⟨'n', by decide⟩ hspecial
      · exact absurd ⟨'r', by decide⟩ hspecial
      · exact absurd ⟨'t', by decide⟩ hspecial
      · rfl
    by_cases hcontrol : c ≤ '\x1f'
    · have hbound := toNat_of_control hcontrol
      rw [if_pos hcontrol] at hcases
      have hpiece : pieceOf c = .unit c.toNat := by simp [pieceOf, hcases]
      have hunit : codeUnit '0' '0' (hexDigit (c.toNat / 16)) (hexDigit (c.toNat % 16)) =
          some c.toNat := by
        have hzero : hexValue '0' = some 0 := by decide
        unfold codeUnit
        rw [hzero, hexValue_hexDigit _ (by omega), hexValue_hexDigit _ (by omega)]
        simp only [Option.some.injEq]
        omega
      rw [hcases, hpiece]
      simp only [List.cons_append, List.nil_append, pieces, hunit, Option.bind_some]
    · rw [if_neg hcontrol] at hcases
      have hpiece : pieceOf c = .letter c := by simp [pieceOf, hcases]
      have hspace : ¬ c < ' ' := by
        intro hlt
        apply hcontrol
        have hle : c.toNat < (' ').toNat := hlt
        have hvalue : (' ').toNat = 32 := by decide
        have hvalue' : ('\x1f').toNat = 31 := by decide
        show c.toNat ≤ ('\x1f').toNat
        omega
      rw [hcases, hpiece]
      simp only [List.cons_append, List.nil_append]
      rw [pieces.eq_def]
      split
      · rename_i heq
        cases heq
      · rename_i heq
        cases heq
        exact absurd rfl hquote
      · rename_i heq
        cases heq
        exact absurd rfl hslash
      · rename_i heq
        cases heq
        exact absurd rfl hslash
      · rename_i heq
        cases heq
        rw [if_neg hspace]

theorem join_piece (c : Char) (rest : List Piece) :
    join (pieceOf c :: rest) = (join rest).map (c :: ·) := by
  unfold pieceOf
  split_ifs with hescape
  · have hbound : c.toNat < 32 := by
      by_cases hcontrol : c ≤ '\x1f'
      · exact toNat_of_control hcontrol
      · unfold escape at hescape
        split at hescape
        all_goals simp_all
    rw [join.eq_def]
    simp only
    rw [if_neg (by omega), if_neg (by omega), Char.ofNat_toNat]
  · rfl

theorem pieces_flatMap (letters rest : List Char) :
    pieces (letters.flatMap escape ++ '"' :: rest) = some (letters.map pieceOf, rest) := by
  induction letters with
  | nil => rfl
  | cons c letters ih =>
    rw [List.flatMap_cons, List.append_assoc, pieces_escape, ih]
    rfl

theorem join_pieces (letters : List Char) : join (letters.map pieceOf) = some letters := by
  induction letters with
  | nil => rfl
  | cons c letters ih =>
    rw [List.map_cons, join_piece, ih]
    rfl

/-- **A printed string** is read back. -/
theorem parseString_print (s : String) (rest : List Char) :
    ∃ inside, printString s = '"' :: inside ∧ parseString (inside ++ rest) = some (s, rest) := by
  refine ⟨s.toList.flatMap escape ++ ['"'], rfl, ?_⟩
  unfold parseString
  rw [List.append_assoc, List.singleton_append, pieces_flatMap, Option.bind_some, join_pieces]
  simp

/-! ### Values -/

def isJsonSpace (c : Char) : Bool := c = ' ' || c = '\n' || c = '\r' || c = '\t'

def skipSpace (input : List Char) : List Char := input.dropWhile isJsonSpace

mutual

/-- A value and what follows it. -/
def parseValue : Nat → List Char → Option (JsonValue Decimal × List Char)
  | 0, _ => none
  | fuel + 1, input =>
      match skipSpace input with
      | '"' :: rest => (parseString rest).map fun found => (.string found.1, found.2)
      | '[' :: rest =>
          match skipSpace rest with
          | ']' :: rest => some (.array [], rest)
          | rest => (parseItems fuel rest).map fun found => (.array found.1, found.2)
      | '\x7b' :: rest =>
          match skipSpace rest with
          | '\x7d' :: rest => some (.mapping [], rest)
          | rest => (parseFields fuel rest).map fun found => (.mapping found.1, found.2)
      | 'n' :: 'u' :: 'l' :: 'l' :: rest => some (.null, rest)
      | 't' :: 'r' :: 'u' :: 'e' :: rest => some (.bool true, rest)
      | 'f' :: 'a' :: 'l' :: 's' :: 'e' :: rest => some (.bool false, rest)
      | rest =>
          (numberOf (rest.takeWhile isNumeric)).map fun n =>
            (.number n, rest.dropWhile isNumeric)

/-- The values of an array up to its closing bracket, and what follows. -/
def parseItems : Nat → List Char → Option (List (JsonValue Decimal) × List Char)
  | 0, _ => none
  | fuel + 1, input =>
      (parseValue fuel input).bind fun first =>
        match skipSpace first.2 with
        | ',' :: rest =>
            (parseItems fuel rest).map fun found => (first.1 :: found.1, found.2)
        | ']' :: rest => some ([first.1], rest)
        | _ => none

/-- The fields of an object up to its closing brace, and what follows. -/
def parseFields : Nat → List Char → Option (List (String × JsonValue Decimal) × List Char)
  | 0, _ => none
  | fuel + 1, input =>
      match skipSpace input with
      | '"' :: rest =>
          (parseString rest).bind fun key =>
            match skipSpace key.2 with
            | ':' :: rest =>
                (parseValue fuel rest).bind fun first =>
                  match skipSpace first.2 with
                  | ',' :: rest =>
                      (parseFields fuel rest).map fun found =>
                        ((key.1, first.1) :: found.1, found.2)
                  | '\x7d' :: rest => some ([(key.1, first.1)], rest)
                  | _ => none
            | _ => none
      | _ => none

end

/-- One complete value. -/
def parseJson (text : String) : Option (JsonValue Decimal) :=
  (parseValue (text.toList.length + 1) text.toList).bind fun found =>
    if skipSpace found.2 = [] then some found.1 else none

mutual

def printValue : JsonValue Decimal → List Char
  | .null => ['n', 'u', 'l', 'l']
  | .bool true => ['t', 'r', 'u', 'e']
  | .bool false => ['f', 'a', 'l', 's', 'e']
  | .number n => printNumber n
  | .string s => printString s
  | .array [] => ['[', ']']
  | .array (first :: rest) => '[' :: (printValue first ++ printItems rest)
  | .mapping [] => ['\x7b', '\x7d']
  | .mapping ((key, first) :: rest) =>
      '\x7b' :: (printString key ++ ':' :: (printValue first ++ printFields rest))

/-- The values behind the first one, and the closing bracket. -/
def printItems : List (JsonValue Decimal) → List Char
  | [] => [']']
  | first :: rest => ',' :: (printValue first ++ printItems rest)

/-- The fields behind the first one, and the closing brace. -/
def printFields : List (String × JsonValue Decimal) → List Char
  | [] => ['\x7d']
  | (key, first) :: rest =>
      ',' :: (printString key ++ ':' :: (printValue first ++ printFields rest))

end

mutual

/-- Every signed integer that is not negative takes the other form. -/
def rereadValue : JsonValue Decimal → JsonValue Decimal
  | .number n => .number (rereadNumber n)
  | .array values => .array (rereadItems values)
  | .mapping fields => .mapping (rereadFields fields)
  | v => v

def rereadItems : List (JsonValue Decimal) → List (JsonValue Decimal)
  | [] => []
  | first :: rest => rereadValue first :: rereadItems rest

def rereadFields : List (String × JsonValue Decimal) → List (String × JsonValue Decimal)
  | [] => []
  | (key, first) :: rest => (key, rereadValue first) :: rereadFields rest

end

/-! ### What is printed is read back -/

/-- A text that a number cannot run into. -/
def Stops (rest : List Char) : Prop := ∀ c, rest.head? = some c → isNumeric c = false

theorem stops_cons {c : Char} {rest : List Char} (h : isNumeric c = false) : Stops (c :: rest) := by
  intro d hd
  cases hd
  exact h

theorem skipSpace_cons {c : Char} {rest : List Char} (h : isJsonSpace c = false) :
    skipSpace (c :: rest) = c :: rest := by
  simp [skipSpace, h]

theorem takeWhile_stops {token rest : List Char} (htoken : ∀ c ∈ token, isNumeric c = true)
    (hrest : Stops rest) :
    (token ++ rest).takeWhile isNumeric = token ∧ (token ++ rest).dropWhile isNumeric = rest := by
  induction token with
  | nil =>
    cases rest with
    | nil => exact ⟨rfl, rfl⟩
    | cons c rest => simp [hrest c rfl]
  | cons c token ih =>
    obtain ⟨htake, hdrop⟩ := ih fun d hd => htoken d (List.mem_cons_of_mem _ hd)
    simp [htoken c List.mem_cons_self, htake, hdrop]

theorem numeric_visible {c : Char} (h : isNumeric c = true) :
    isJsonSpace c = false ∧ c ≠ '"' ∧ c ≠ '[' ∧ c ≠ ']' ∧ c ≠ '\x7b' ∧ c ≠ '\x7d' ∧ c ≠ 'n' ∧
      c ≠ 't' ∧ c ≠ 'f' := by
  have hne : ∀ d : Char, isNumeric d = false → c ≠ d := by
    rintro d hd rfl
    rw [h] at hd
    cases hd
  refine ⟨?_, hne _ (by decide), hne _ (by decide), hne _ (by decide), hne _ (by decide),
    hne _ (by decide), hne _ (by decide), hne _ (by decide), hne _ (by decide)⟩
  simp only [isJsonSpace, Bool.or_eq_false_iff, decide_eq_false_iff_not]
  exact ⟨⟨⟨hne _ (by decide), hne _ (by decide)⟩, hne _ (by decide)⟩, hne _ (by decide)⟩

theorem parseValue_number (number : JsonNumber Decimal) {fuel : Nat} {rest : List Char}
    (hrest : Stops rest) :
    parseValue (fuel + 1) (printNumber number ++ rest) =
      some (.number (rereadNumber number), rest) := by
  obtain ⟨hne, hnumeric⟩ := printNumber_numeric number
  obtain ⟨htake, hdrop⟩ := takeWhile_stops hnumeric hrest
  obtain ⟨c, token, htoken⟩ := List.exists_cons_of_ne_nil hne
  have hc : isNumeric c = true := by
    apply hnumeric
    rw [htoken]
    exact List.mem_cons_self
  obtain ⟨hspace, hquote, hbracket, -, hbrace, -, hn, ht, hf⟩ := numeric_visible hc
  have hskip : skipSpace (printNumber number ++ rest) = printNumber number ++ rest := by
    rw [htoken, List.cons_append]
    exact skipSpace_cons hspace
  have hother : parseValue (fuel + 1) (printNumber number ++ rest) =
      (numberOf ((printNumber number ++ rest).takeWhile isNumeric)).map fun n =>
        (.number n, (printNumber number ++ rest).dropWhile isNumeric) := by
    simp only [parseValue, hskip]
    rw [htoken, List.cons_append]
    split
    · rename_i heq
      exact absurd (List.cons.inj heq).1 hquote
    · rename_i heq
      exact absurd (List.cons.inj heq).1 hbracket
    · rename_i heq
      exact absurd (List.cons.inj heq).1 hbrace
    · rename_i heq
      exact absurd (List.cons.inj heq).1 hn
    · rename_i heq
      exact absurd (List.cons.inj heq).1 ht
    · rename_i heq
      exact absurd (List.cons.inj heq).1 hf
    · rfl
  rw [hother, htake, hdrop, numberOf_print]
  rfl

/-- Every printed value starts with a visible letter that closes nothing. -/
theorem printValue_head (v : JsonValue Decimal) : ∃ c text, printValue v = c :: text ∧
    isJsonSpace c = false ∧ c ≠ ']' ∧ c ≠ '\x7d' := by
  cases v with
  | null => exact ⟨_, _, rfl, by decide, by decide, by decide⟩
  | bool b => cases b <;> exact ⟨_, _, rfl, by decide, by decide, by decide⟩
  | string s => exact ⟨_, _, rfl, by decide, by decide, by decide⟩
  | array values => cases values <;> exact ⟨_, _, rfl, by decide, by decide, by decide⟩
  | mapping fields => cases fields <;> exact ⟨_, _, rfl, by decide, by decide, by decide⟩
  | number n =>
    obtain ⟨hne, hnumeric⟩ := printNumber_numeric n
    obtain ⟨c, token, htoken⟩ := List.exists_cons_of_ne_nil hne
    have hc : isNumeric c = true := by
      apply hnumeric
      rw [htoken]
      exact List.mem_cons_self
    obtain ⟨hspace, -, -, hbracket, -, hbrace, -⟩ := numeric_visible hc
    exact ⟨c, token, htoken, hspace, hbracket, hbrace⟩

/-- A value is read back, whatever follows it. -/
def ReadsBack (v : JsonValue Decimal) : Prop :=
  ∀ fuel rest, (printValue v).length < fuel → Stops rest →
    parseValue fuel (printValue v ++ rest) = some (rereadValue v, rest)

theorem parseItems_print {first : JsonValue Decimal} {values : List (JsonValue Decimal)}
    (hfirst : ReadsBack first) (hvalues : ∀ v ∈ values, ReadsBack v) (fuel : Nat)
    (rest : List Char) (hfuel : (printValue first).length + (printItems values).length < fuel) :
    parseItems fuel (printValue first ++ printItems values ++ rest) =
      some (rereadItems (first :: values), rest) := by
  induction values generalizing first fuel with
  | nil =>
    obtain ⟨fuel, rfl⟩ : ∃ k, fuel = k + 1 := ⟨fuel - 1, by omega⟩
    simp only [printItems, List.length_singleton] at hfuel
    have hread := hfirst fuel (']' :: rest) (by omega) (stops_cons (by decide))
    simp only [printItems, parseItems, List.append_assoc, List.singleton_append, hread,
      Option.bind_some, rereadItems]
    rw [skipSpace_cons (by decide)]
    rfl
  | cons second values ih =>
    obtain ⟨fuel, rfl⟩ : ∃ k, fuel = k + 1 := ⟨fuel - 1, by omega⟩
    simp only [printItems, List.length_cons, List.length_append] at hfuel
    have hread := hfirst fuel (',' :: (printValue second ++ printItems values ++ rest)) (by omega)
      (stops_cons (by decide))
    have hmore := ih (hvalues second List.mem_cons_self)
      (fun v hv => hvalues v (List.mem_cons_of_mem _ hv)) fuel (by omega)
    simp only [printItems, parseItems, List.append_assoc, List.cons_append] at hread hmore ⊢
    rw [hread, Option.bind_some]
    simp only
    rw [skipSpace_cons (by decide)]
    simp only [hmore, Option.map_some, rereadItems]

theorem parseFields_print (key : String) {first : JsonValue Decimal}
    {fields : List (String × JsonValue Decimal)} (hfirst : ReadsBack first)
    (hfields : ∀ field ∈ fields, ReadsBack field.2) (fuel : Nat) (rest : List Char)
    (hfuel : (printString key).length + 1 + (printValue first).length +
      (printFields fields).length < fuel) :
    parseFields fuel (printString key ++ ':' :: (printValue first ++ printFields fields) ++ rest) =
      some (rereadFields ((key, first) :: fields), rest) := by
  induction fields generalizing key first fuel with
  | nil =>
    obtain ⟨fuel, rfl⟩ : ∃ k, fuel = k + 1 := ⟨fuel - 1, by omega⟩
    obtain ⟨inside, hkey, hstring⟩ := parseString_print key
      (':' :: (printValue first ++ printFields [] ++ rest))
    simp only [printFields, List.length_singleton] at hfuel
    have hread := hfirst fuel ('\x7d' :: rest) (by omega) (stops_cons (by decide))
    simp only [printFields, parseFields, List.append_assoc, hkey, List.cons_append,
      List.nil_append] at hstring ⊢
    rw [skipSpace_cons (by decide)]
    simp only [hstring, Option.bind_some]
    rw [skipSpace_cons (by decide)]
    simp only [hread, Option.bind_some, rereadFields]
    rw [skipSpace_cons (by decide)]
    rfl
  | cons field fields ih =>
    obtain ⟨fuel, rfl⟩ : ∃ k, fuel = k + 1 := ⟨fuel - 1, by omega⟩
    obtain ⟨name, second⟩ := field
    obtain ⟨inside, hkey, hstring⟩ := parseString_print key
      (':' :: (printValue first ++ printFields ((name, second) :: fields) ++ rest))
    simp only [printFields, List.length_cons, List.length_append] at hfuel
    have hread := hfirst fuel
      (',' :: (printString name ++ ':' :: (printValue second ++ printFields fields) ++ rest))
      (by omega) (stops_cons (by decide))
    have hsecond : ReadsBack second := hfields (name, second) List.mem_cons_self
    have hmore := ih name hsecond
      (fun field hfield => hfields field (List.mem_cons_of_mem _ hfield)) fuel (by omega)
    simp only [printFields, parseFields, List.append_assoc, hkey, List.cons_append]
      at hstring hread hmore ⊢
    rw [skipSpace_cons (by decide)]
    simp only [hstring, Option.bind_some]
    rw [skipSpace_cons (by decide)]
    simp only [hread, Option.bind_some]
    rw [skipSpace_cons (by decide)]
    simp only [hmore, Option.map_some, rereadFields]

/-- **A printed value** is read back, whatever follows it. -/
theorem parseValue_print (v : JsonValue Decimal) : ReadsBack v := by
  induction v using JsonValue.induction with
  | null =>
    intro fuel rest hfuel _
    obtain ⟨fuel, rfl⟩ : ∃ k, fuel = k + 1 := ⟨fuel - 1, by omega⟩
    rfl
  | bool b =>
    intro fuel rest hfuel _
    obtain ⟨fuel, rfl⟩ : ∃ k, fuel = k + 1 := ⟨fuel - 1, by omega⟩
    cases b <;> rfl
  | number n =>
    intro fuel rest hfuel hrest
    obtain ⟨fuel, rfl⟩ : ∃ k, fuel = k + 1 := ⟨fuel - 1, by omega⟩
    exact parseValue_number n hrest
  | string s =>
    intro fuel rest hfuel _
    obtain ⟨fuel, rfl⟩ : ∃ k, fuel = k + 1 := ⟨fuel - 1, by omega⟩
    obtain ⟨inside, hprint, hstring⟩ := parseString_print s rest
    simp only [printValue, hprint, List.cons_append, parseValue]
    rw [skipSpace_cons (by decide)]
    simp only [hstring, Option.map_some, rereadValue]
  | array values ih =>
    intro fuel rest hfuel _
    obtain ⟨fuel, rfl⟩ : ∃ k, fuel = k + 1 := ⟨fuel - 1, by omega⟩
    cases values with
    | nil => rfl
    | cons first values =>
      simp only [printValue, List.length_cons, List.length_append] at hfuel
      have hitems := parseItems_print (ih first List.mem_cons_self)
        (fun v hv => ih v (List.mem_cons_of_mem _ hv)) fuel rest (by omega)
      obtain ⟨c, text, hhead, hspace, hclose, -⟩ := printValue_head first
      simp only [printValue, List.cons_append, parseValue]
      rw [skipSpace_cons (by decide)]
      simp only [hhead, List.cons_append] at hitems ⊢
      rw [skipSpace_cons hspace]
      split
      · rename_i heq
        cases heq
        exact absurd rfl hclose
      · rw [hitems]
        rfl
  | mapping fields ih =>
    intro fuel rest hfuel _
    obtain ⟨fuel, rfl⟩ : ∃ k, fuel = k + 1 := ⟨fuel - 1, by omega⟩
    cases fields with
    | nil => rfl
    | cons field fields =>
      obtain ⟨key, first⟩ := field
      simp only [printValue, List.length_cons, List.length_append] at hfuel
      have hfirst : ReadsBack first := ih (key, first) List.mem_cons_self
      have hfields := parseFields_print key hfirst
        (fun field hfield => ih field (List.mem_cons_of_mem _ hfield)) fuel rest (by omega)
      have hhead : printString key = '"' :: (key.toList.flatMap escape ++ ['"']) := rfl
      simp only [printValue, List.cons_append, parseValue]
      rw [skipSpace_cons (by decide)]
      simp only [hhead, List.cons_append] at hfields ⊢
      rw [skipSpace_cons (by decide)]
      split
      · rename_i heq
        cases heq
      · rw [hfields]
        rfl

/-- **A printed text** is read back. -/
theorem parseJson_print (v : JsonValue Decimal) :
    parseJson (String.ofList (printValue v)) = some (rereadValue v) := by
  unfold parseJson
  have hread := parseValue_print v ((printValue v).length + 1) [] (by omega)
    (fun c hc => by cases hc)
  rw [List.append_nil] at hread
  rw [String.toList_ofList, hread]
  rfl

/-! ### The codec -/

mutual

/-- Every object becomes a map; of two fields with one key the later one stays. -/
def canonicalValue : JsonValue Decimal → JsonValue Decimal
  | .array values => .array (canonicalItems values)
  | .mapping fields => .object (canonicalFields fields)
  | v => v

def canonicalItems : List (JsonValue Decimal) → List (JsonValue Decimal)
  | [] => []
  | first :: rest => canonicalValue first :: canonicalItems rest

def canonicalFields : List (String × JsonValue Decimal) → List (String × JsonValue Decimal)
  | [] => []
  | (key, first) :: rest => (key, canonicalValue first) :: canonicalFields rest

end

theorem canonicalItems_eq (values : List (JsonValue Decimal)) :
    canonicalItems values = values.map canonicalValue := by
  induction values with
  | nil => rfl
  | cons first values ih => rw [canonicalItems, ih, List.map_cons]

theorem canonicalFields_eq (fields : List (String × JsonValue Decimal)) :
    canonicalFields fields = fields.map fun field => (field.1, canonicalValue field.2) := by
  induction fields with
  | nil => rfl
  | cons field fields ih =>
    obtain ⟨key, first⟩ := field
    rw [canonicalFields, ih, List.map_cons]

theorem rereadItems_eq (values : List (JsonValue Decimal)) :
    rereadItems values = values.map rereadValue := by
  induction values with
  | nil => rfl
  | cons first values ih => rw [rereadItems, ih, List.map_cons]

theorem rereadFields_eq (fields : List (String × JsonValue Decimal)) :
    rereadFields fields = fields.map fun field => (field.1, rereadValue field.2) := by
  induction fields with
  | nil => rfl
  | cons field fields ih =>
    obtain ⟨key, first⟩ := field
    rw [rereadFields, ih, List.map_cons]

theorem canonical_canonicalValue (v : JsonValue Decimal) : (canonicalValue v).Canonical := by
  induction v using JsonValue.induction with
  | null => exact .null
  | bool b => exact .bool b
  | number n => exact .number n
  | string s => exact .string s
  | array values ih =>
    rw [canonicalValue, canonicalItems_eq]
    apply JsonValue.Canonical.array
    intro v hv
    obtain ⟨w, hw, rfl⟩ := List.mem_map.mp hv
    exact ih w hw
  | mapping fields ih =>
    rw [canonicalValue, canonicalFields_eq]
    apply JsonValue.canonical_object
    intro field hfield
    obtain ⟨other, hother, rfl⟩ := List.mem_map.mp hfield
    exact ih other hother

/-- A canonical value is read back as a canonical value. -/
theorem canonicalValue_reread {v : JsonValue Decimal} (h : v.Canonical) :
    canonicalValue (rereadValue v) = rereadValue v := by
  induction h with
  | null => rfl
  | bool b => rfl
  | number n => rfl
  | string s => rfl
  | @array values parts ih =>
    rw [rereadValue, rereadItems_eq, canonicalValue, canonicalItems_eq, List.map_map]
    congr 1
    apply List.map_congr_left
    intro v hv
    exact ih v hv
  | @mapping fields ordered parts ih =>
    have hsame : (fields.map fun field => (field.1, rereadValue field.2)).map
        (fun field => (field.1, canonicalValue field.2)) =
          fields.map fun field => (field.1, rereadValue field.2) := by
      rw [List.map_map]
      apply List.map_congr_left
      intro field hfield
      simp only [Function.comp_apply, ih field hfield]
    rw [rereadValue, rereadFields_eq, canonicalValue, canonicalFields_eq, hsame]
    apply JsonValue.object_of_increasing
    exact List.pairwise_map.mpr ordered

/-- Letters that are checked one by one stay on one line. -/
theorem line_of_all {letters : List Char}
    (h : letters.all (fun c => c ≠ '\n' && c ≠ '\r') = true) :
    ∀ c ∈ letters, c ≠ '\n' ∧ c ≠ '\r' := by
  intro c hc
  have hc := List.all_eq_true.mp h c hc
  simpa using hc

theorem escape_line (c : Char) : ∀ d ∈ escape c, d ≠ '\n' ∧ d ≠ '\r' := by
  have hhex : ∀ n < 16, hexDigit n ≠ '\n' ∧ hexDigit n ≠ '\r' := by decide
  unfold escape
  split
  case h_8 hquote hslash hback hform hnew hreturn htab =>
    split_ifs with hcontrol
    · have hbound := toNat_of_control hcontrol
      intro d hd
      simp only [List.mem_cons, List.not_mem_nil, or_false] at hd
      rcases hd with rfl | rfl | rfl | rfl | rfl | rfl
      · decide
      · decide
      · decide
      · decide
      · exact hhex _ (by omega)
      · exact hhex _ (by omega)
    · intro d hd
      rw [List.mem_singleton] at hd
      subst hd
      exact ⟨hnew, hreturn⟩
  all_goals exact line_of_all (by decide)

theorem printString_line (s : String) : ∀ c ∈ printString s, c ≠ '\n' ∧ c ≠ '\r' := by
  intro c hc
  simp only [printString, List.mem_cons, List.mem_append, List.mem_flatMap, List.not_mem_nil,
    or_false] at hc
  rcases hc with rfl | ⟨d, -, hd⟩ | rfl
  · decide
  · exact escape_line d c hd
  · decide

theorem printItems_line {values : List (JsonValue Decimal)}
    (h : ∀ v ∈ values, ∀ c ∈ printValue v, c ≠ '\n' ∧ c ≠ '\r') :
    ∀ c ∈ printItems values, c ≠ '\n' ∧ c ≠ '\r' := by
  induction values with
  | nil =>
    intro c hc
    rw [printItems, List.mem_singleton] at hc
    subst hc
    decide
  | cons first values ih =>
    intro c hc
    simp only [printItems, List.mem_cons, List.mem_append] at hc
    rcases hc with rfl | hc | hc
    · decide
    · exact h first List.mem_cons_self c hc
    · exact ih (fun v hv => h v (List.mem_cons_of_mem _ hv)) c hc

theorem printFields_line {fields : List (String × JsonValue Decimal)}
    (h : ∀ field ∈ fields, ∀ c ∈ printValue field.2, c ≠ '\n' ∧ c ≠ '\r') :
    ∀ c ∈ printFields fields, c ≠ '\n' ∧ c ≠ '\r' := by
  induction fields with
  | nil =>
    intro c hc
    rw [printFields, List.mem_singleton] at hc
    subst hc
    decide
  | cons field fields ih =>
    obtain ⟨key, first⟩ := field
    intro c hc
    simp only [printFields, List.mem_cons, List.mem_append] at hc
    rcases hc with rfl | hc | rfl | hc | hc
    · decide
    · exact printString_line key c hc
    · decide
    · exact h (key, first) List.mem_cons_self c hc
    · exact ih (fun field hfield => h field (List.mem_cons_of_mem _ hfield)) c hc

/-- A printed value stays on one line. -/
theorem printValue_line (v : JsonValue Decimal) : ∀ c ∈ printValue v, c ≠ '\n' ∧ c ≠ '\r' := by
  induction v using JsonValue.induction with
  | null => exact line_of_all (by decide)
  | bool b => cases b <;> exact line_of_all (by decide)
  | number n =>
    intro c hc
    have hnumeric := (printNumber_numeric n).2 c hc
    constructor
    · rintro rfl
      exact absurd hnumeric (by decide)
    · rintro rfl
      exact absurd hnumeric (by decide)
  | string s => exact printString_line s
  | array values ih =>
    cases values with
    | nil => exact line_of_all (by decide)
    | cons first values =>
      intro c hc
      simp only [printValue, List.mem_cons, List.mem_append] at hc
      rcases hc with rfl | hc | hc
      · decide
      · exact ih first List.mem_cons_self c hc
      · exact printItems_line (fun v hv => ih v (List.mem_cons_of_mem _ hv)) c hc
  | mapping fields ih =>
    cases fields with
    | nil => exact line_of_all (by decide)
    | cons field fields =>
      obtain ⟨key, first⟩ := field
      intro c hc
      simp only [printValue, List.mem_cons, List.mem_append] at hc
      rcases hc with rfl | hc | rfl | hc | hc
      · decide
      · exact printString_line key c hc
      · decide
      · exact ih (key, first) List.mem_cons_self c hc
      · exact printFields_line
          (fun field hfield => ih field (List.mem_cons_of_mem _ hfield)) c hc

/-- A text that is read has a visible letter. -/
theorem parseJson_visible {text : String} {v : JsonValue Decimal} (h : parseJson text = some v) :
    ∃ c ∈ text.toList, '!' ≤ c ∧ c ≤ '~' := by
  obtain ⟨found, hparse, -⟩ := Option.bind_eq_some_iff.mp h
  have hmem : ∀ c rest, skipSpace text.toList = c :: rest → c ∈ text.toList := by
    intro c rest hskip
    have hsuffix : skipSpace text.toList <:+ text.toList := List.dropWhile_suffix _
    apply hsuffix.subset
    rw [hskip]
    exact List.mem_cons_self
  simp only [parseValue] at hparse
  split at hparse
  · rename_i hskip
    exact ⟨_, hmem _ _ hskip, by decide, by decide⟩
  · rename_i hskip
    exact ⟨_, hmem _ _ hskip, by decide, by decide⟩
  · rename_i hskip
    exact ⟨_, hmem _ _ hskip, by decide, by decide⟩
  · rename_i hskip
    exact ⟨_, hmem _ _ hskip, by decide, by decide⟩
  · rename_i hskip
    exact ⟨_, hmem _ _ hskip, by decide, by decide⟩
  · rename_i hskip
    exact ⟨_, hmem _ _ hskip, by decide, by decide⟩
  · have hnone : numberOf [] = none := by decide
    cases hskip : skipSpace text.toList with
    | nil =>
      rw [hskip, List.takeWhile_nil, hnone] at hparse
      cases hparse
    | cons c rest =>
      rw [hskip] at hparse
      by_cases hc : isNumeric c = true
      · refine ⟨c, hmem _ _ hskip, ?_⟩
        simp only [isNumeric, Bool.or_eq_true, decide_eq_true_eq] at hc
        rcases hc with ((((hc | rfl) | rfl) | rfl) | rfl) | rfl
        · simp only [Char.isDigit, Bool.and_eq_true, decide_eq_true_eq] at hc
          exact ⟨le_trans (by decide) hc.1, le_trans hc.2 (by decide)⟩
        · decide
        · decide
        · decide
        · decide
        · decide
      · rw [List.takeWhile_cons_of_neg hc] at hparse
        rw [hnone] at hparse
        cases hparse

/-- **The texts of this module** are a codec. -/
def textCodec : JsonCodec Decimal where
  parse text := (parseJson text).map canonicalValue
  print v := String.ofList (printValue v)
  reread := rereadValue
  parse_print := by
    intro v h
    rw [parseJson_print, Option.map_some, canonicalValue_reread h]
  parse_canonical := by
    intro text v h
    obtain ⟨w, -, rfl⟩ := Option.map_eq_some_iff.mp h
    exact canonical_canonicalValue w
  print_line := by
    intro v c hc
    rw [String.toList_ofList] at hc
    exact printValue_line v c hc
  parse_visible := by
    intro text v h
    obtain ⟨w, hw, -⟩ := Option.map_eq_some_iff.mp h
    exact parseJson_visible hw
  reread_null := rfl
  reread_bool _ := rfl
  reread_unsigned _ := rfl
  reread_string _ := rfl
  reread_array values := by rw [rereadValue, rereadItems_eq]
  reread_mapping fields := by rw [rereadValue, rereadFields_eq]

end Tea.Encoding
