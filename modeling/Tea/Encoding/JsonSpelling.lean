/-
  Tea/Encoding/JsonSpelling.lean
  ==============================
  **JSON texts as they are spelled**: the tree of a text keeps the letters of its numbers
  and of its keys.  A parser of such texts reads the values of their trees (`ReadsSpelled`); the
  parser of this development does (`textCodec_reads`).

  A path of keys leads to one place of a value, since a map has each key once
  (`value_follow`): the place that the last fields with these names lead to in the text.
-/
import Tea.Encoding.JsonText
import Mathlib.Data.List.TakeWhile

namespace Tea.Encoding

/-! ### Trees -/

/-- A number as it is spelled. -/
structure Numeral where
  letters : List Char
  numeric : ∀ c ∈ letters, isNumeric c = true
  valid : isNumber letters = true

@[ext] theorem Numeral.ext {a b : Numeral} (h : a.letters = b.letters) : a = b := by
  cases a
  cases b
  cases h
  rfl

instance : DecidableEq Numeral := fun a b =>
  decidable_of_iff (a.letters = b.letters) ⟨Numeral.ext, congrArg Numeral.letters⟩

/-- A key: its letters between the quotes, and the name that they stand for. -/
structure SpelledKey where
  letters : List Char
  name : String
deriving DecidableEq

inductive Spelled where
  | null
  | bool (value : Bool)
  | number (numeral : Numeral)
  | string (value : String)
  | array (values : List Spelled)
  | mapping (fields : List (SpelledKey × Spelled))

namespace Spelled

section

variable {F : Type} (read : Numeral → JsonNumber F)

mutual

/-- The value of a tree: of two fields with one name the later one stays. -/
def value : Spelled → JsonValue F
  | .null => .null
  | .bool b => .bool b
  | .number numeral => .number (read numeral)
  | .string s => .string s
  | .array values => .array (itemValues values)
  | .mapping fields => .object (fieldValues fields)

def itemValues : List Spelled → List (JsonValue F)
  | [] => []
  | first :: rest => value first :: itemValues rest

def fieldValues : List (SpelledKey × Spelled) → List (String × JsonValue F)
  | [] => []
  | (key, first) :: rest => (key.name, value first) :: fieldValues rest

end

end

end Spelled

/-! ### Texts -/

/-- A number at the front of a text. -/
def readNumeral (input : List Char) : Option (Numeral × List Char) :=
  if h : isNumber (input.takeWhile isNumeric) = true then
    some (⟨input.takeWhile isNumeric, List.all_eq_true.mp List.all_takeWhile, h⟩,
      input.dropWhile isNumeric)
  else none

/-- A key behind its opening quote. -/
def readKey (input : List Char) : Option (SpelledKey × List Char) :=
  (parseString input).map fun found =>
    (⟨input.take (input.length - found.2.length - 1), found.1⟩, found.2)

mutual

/-- A tree and what follows it. -/
def readTree : Nat → List Char → Option (Spelled × List Char)
  | 0, _ => none
  | fuel + 1, input =>
      match skipSpace input with
      | '"' :: rest => (parseString rest).map fun found => (.string found.1, found.2)
      | '[' :: rest =>
          match skipSpace rest with
          | ']' :: rest => some (.array [], rest)
          | rest => (readItems fuel rest).map fun found => (.array found.1, found.2)
      | '\x7b' :: rest =>
          match skipSpace rest with
          | '\x7d' :: rest => some (.mapping [], rest)
          | rest => (readFields fuel rest).map fun found => (.mapping found.1, found.2)
      | 'n' :: 'u' :: 'l' :: 'l' :: rest => some (.null, rest)
      | 't' :: 'r' :: 'u' :: 'e' :: rest => some (.bool true, rest)
      | 'f' :: 'a' :: 'l' :: 's' :: 'e' :: rest => some (.bool false, rest)
      | rest => (readNumeral rest).map fun found => (.number found.1, found.2)

/-- The trees of an array up to its closing bracket, and what follows. -/
def readItems : Nat → List Char → Option (List Spelled × List Char)
  | 0, _ => none
  | fuel + 1, input =>
      (readTree fuel input).bind fun first =>
        match skipSpace first.2 with
        | ',' :: rest => (readItems fuel rest).map fun found => (first.1 :: found.1, found.2)
        | ']' :: rest => some ([first.1], rest)
        | _ => none

/-- The fields of an object up to its closing brace, and what follows. -/
def readFields : Nat → List Char → Option (List (SpelledKey × Spelled) × List Char)
  | 0, _ => none
  | fuel + 1, input =>
      match skipSpace input with
      | '"' :: rest =>
          (readKey rest).bind fun key =>
            match skipSpace key.2 with
            | ':' :: rest =>
                (readTree fuel rest).bind fun first =>
                  match skipSpace first.2 with
                  | ',' :: rest =>
                      (readFields fuel rest).map fun found =>
                        ((key.1, first.1) :: found.1, found.2)
                  | '\x7d' :: rest => some ([(key.1, first.1)], rest)
                  | _ => none
            | _ => none
      | _ => none

end

section

-- The equations are generated here, once for the proofs below.
attribute [local simp] readTree readItems readFields

end

/-- The tree of one complete text. -/
def spelling (text : String) : Option Spelled :=
  (readTree (text.toList.length + 1) text.toList).bind fun found =>
    if skipSpace found.2 = [] then some found.1 else none

/-- The parser reads the texts that it accepts as they are spelled. -/
def ReadsSpelled {F : Type} (parse : String → Option (JsonValue F))
    (read : Numeral → JsonNumber F) : Prop :=
  ∀ {text v}, parse text = some v → ∃ s, spelling text = some s ∧ v = s.value read

/-! ### Paths -/

namespace Spelled

def fields : Spelled → List (SpelledKey × Spelled)
  | .mapping fields => fields
  | _ => []

/-- The last field with the name. -/
def lastField (name : String) : List (SpelledKey × Spelled) → Option Spelled
  | [] => none
  | (key, s) :: fields => (lastField name fields).or (if key.name = name then some s else none)

/-- The first field whose key is spelled like the name. -/
def firstField (name : String) : List (SpelledKey × Spelled) → Option Spelled
  | [] => none
  | (key, s) :: fields =>
      if key.letters = name.toList then some s else firstField name fields

/-- Where the last fields with the names of the path lead to. -/
def lastAt : List String → Spelled → Option Spelled
  | [], s => some s
  | name :: path, s => (lastField name s.fields).bind (lastAt path)

/-- Where the first fields that are spelled like the names of the path lead to. -/
def firstAt : List String → Spelled → Option Spelled
  | [], s => some s
  | name :: path, s => (firstField name s.fields).bind (firstAt path)

def numeral : Spelled → Option Numeral
  | .number numeral => some numeral
  | _ => none

end Spelled

/-- Where a path of keys leads to in a value. -/
def JsonValue.follow {F : Type} : List String → JsonValue F → Option (JsonValue F)
  | [], v => some v
  | name :: path, v => (v.get name).bind (follow path)

namespace Spelled

theorem lookupField_last {F : Type} (read : Numeral → JsonNumber F) (name : String)
    (fields : List (SpelledKey × Spelled)) :
    JsonValue.lookupField name (fieldValues read fields).reverse =
      (lastField name fields).map (value read) := by
  induction fields with
  | nil => rfl
  | cons field fields ih =>
    obtain ⟨key, s⟩ := field
    rw [fieldValues, List.reverse_cons, JsonValue.lookupField_append, ih, lastField,
      Option.map_or]
    congr 1
    rw [JsonValue.lookupField]
    split_ifs <;> rfl

/-- A value's field is the last one of its tree with the name. -/
theorem value_get {F : Type} (read : Numeral → JsonNumber F) (name : String) (s : Spelled) :
    (s.value read).get name = (lastField name s.fields).map (value read) := by
  cases s with
  | mapping fields =>
    rw [value, JsonValue.get_object]
    exact lookupField_last read name fields
  | _ => rfl

/-- **A path of keys** leads to what the last fields with these names lead to. -/
theorem value_follow {F : Type} (read : Numeral → JsonNumber F) (path : List String)
    (s : Spelled) : (s.value read).follow path = (s.lastAt path).map (value read) := by
  induction path generalizing s with
  | nil => rfl
  | cons name path ih =>
    rw [JsonValue.follow, value_get, lastAt]
    cases lastField name s.fields with
    | none => rfl
    | some s => exact ih s

end Spelled

/-! ### Fields and items -/

namespace Spelled

/-- The fields with the name. -/
def named (name : String) (s : Spelled) : List Spelled :=
  (s.fields.filter fun field => field.1.name = name).map (·.2)

/-- The items of an array. -/
def items : Spelled → List Spelled
  | .array values => values
  | _ => []

section

variable {F : Type} {read : Numeral → JsonNumber F}

theorem lastField_mem {name : String} {fields : List (SpelledKey × Spelled)} {s : Spelled}
    (h : lastField name fields = some s) :
    s ∈ (fields.filter fun field => field.1.name = name).map (·.2) := by
  induction fields with
  | nil => cases h
  | cons field fields ih =>
    obtain ⟨key, first⟩ := field
    rw [lastField, Option.or_eq_some_iff] at h
    rcases h with h | ⟨-, h⟩
    · by_cases hkey : key.name = name
      · rw [List.filter_cons_of_pos (by simpa using hkey), List.map_cons]
        exact List.mem_cons_of_mem _ (ih h)
      · rw [List.filter_cons_of_neg (by simpa using hkey)]
        exact ih h
    · split_ifs at h with hkey
      cases h
      rw [List.filter_cons_of_pos (by simpa using hkey), List.map_cons]
      exact List.mem_cons_self

theorem lastField_eq_none_iff {name : String} {fields : List (SpelledKey × Spelled)} :
    lastField name fields = none ↔
      (fields.filter fun field => field.1.name = name).map (·.2) = [] := by
  induction fields with
  | nil => simp [lastField]
  | cons field fields ih =>
    obtain ⟨key, first⟩ := field
    by_cases hkey : key.name = name
    · simp [lastField, hkey]
    · simpa [lastField, hkey] using ih

/-- A field that is read is there, and one that is not is not. -/
theorem get_value {name : String} {s : Spelled} {v : JsonValue F}
    (h : (s.value read).get name = some v) : ∃ field ∈ s.named name, field.value read = v := by
  rw [value_get] at h
  obtain ⟨field, hfield, hvalue⟩ := Option.map_eq_some_iff.mp h
  exact ⟨field, lastField_mem hfield, hvalue⟩

theorem get_value_none {name : String} {s : Spelled} :
    (s.value read).get name = none ↔ s.named name = [] := by
  rw [value_get, Option.map_eq_none_iff, lastField_eq_none_iff]
  rfl

/-- With one field of the name it is the one that is read. -/
theorem get_value_of_once {name : String} {s field : Spelled} (honce : (s.named name).length ≤ 1)
    (hfield : field ∈ s.named name) : (s.value read).get name = some (field.value read) := by
  obtain ⟨v, hv⟩ : ∃ v, (s.value read).get name = some v := by
    refine Option.ne_none_iff_exists'.mp ?_
    intro hnone
    rw [get_value_none.mp hnone] at hfield
    cases hfield
  obtain ⟨other, hother, rfl⟩ := get_value hv
  obtain ⟨only, honly⟩ : ∃ only, s.named name = [only] := by
    refine List.length_eq_one_iff.mp (le_antisymm honce ?_)
    exact List.length_pos_of_mem hfield
  rw [honly, List.mem_singleton] at hfield hother
  rw [hv, hother, hfield]

theorem value_eq_string {s : Spelled} {text : String}
    (h : s.value read = .string text) : s = .string text := by
  cases s with
  | string other =>
    rw [value, JsonValue.string.injEq] at h
    rw [h]
  | _ => cases h

theorem itemValues_eq_map (values : List Spelled) :
    itemValues read values = values.map (value read) := by
  induction values with
  | nil => rfl
  | cons first values ih => rw [itemValues, List.map_cons, ih]

theorem value_eq_array {s : Spelled} {values : List (JsonValue F)}
    (h : s.value read = .array values) : values = (items s).map (value read) := by
  cases s with
  | array trees =>
    rw [value, JsonValue.array.injEq] at h
    rw [← h, itemValues_eq_map, items]
  | _ => cases h

end

end Spelled

/-! ### The parser of this development -/

theorem natOf_digits {digits : List Char} (h : (natOf digits).isSome = true) :
    digits.head? ≠ some '-' ∧ digits.takeWhile Char.isDigit = digits ∧
      digits.dropWhile Char.isDigit = [] := by
  unfold natOf at h
  split_ifs at h with hdigits
  · have hall := List.all_eq_true.mp hdigits.2.1
    refine ⟨fun hhead => ?_, List.takeWhile_eq_self_iff.mpr hall,
      List.dropWhile_eq_nil_iff.mpr hall⟩
    exact absurd (hall '-' (List.mem_of_mem_head? hhead)) (by decide)
  · cases h

/-- An integer is a number. -/
theorem integerOf_valid {token : List Char} {n : JsonNumber Empty}
    (h : integerOf token = some n) : isNumber token = true := by
  unfold integerOf at h
  split at h
  · rename_i digits
    split at h
    · rename_i n hnat
      have hsome : (natOf digits).isSome = true := by rw [hnat]; rfl
      obtain ⟨-, htake, hdrop⟩ := natOf_digits hsome
      unfold isNumber
      simp [htake, hdrop, hsome, isExponent]
    · cases h
  · split at h
    · rename_i n hnat
      have hsome : (natOf token).isSome = true := by rw [hnat]; rfl
      obtain ⟨hsign, htake, hdrop⟩ := natOf_digits hsome
      unfold isNumber
      simp [hsign, htake, hdrop, hsome, isExponent]
    · cases h

theorem numberOf_valid {token : List Char} {n : JsonNumber Decimal}
    (h : numberOf token = some n) : isNumber token = true := by
  unfold numberOf at h
  split at h
  · rename_i hinteger
    exact integerOf_valid hinteger
  · rename_i hinteger
    exact integerOf_valid hinteger
  · rename_i f _
    exact f.elim
  · split_ifs at h with hnumber
    exact hnumber.2

theorem numberOf_isSome (numeral : Numeral) : (numberOf numeral.letters).isSome = true := by
  have hne : numeral.letters ≠ [] := by
    intro hnil
    have hvalid := numeral.valid
    rw [hnil] at hvalid
    exact absurd hvalid (by decide)
  have hnumber := (⟨⟨hne, List.all_eq_true.mpr numeral.numeric⟩, numeral.valid⟩ :
    (numeral.letters ≠ [] ∧ numeral.letters.all isNumeric = true) ∧
      isNumber numeral.letters = true)
  unfold numberOf
  split
  · rfl
  · rfl
  · rename_i f _
    exact f.elim
  · rw [dif_pos hnumber]
    rfl

/-- How the parser of this development reads a number. -/
def Numeral.number (numeral : Numeral) : JsonNumber Decimal :=
  (numberOf numeral.letters).get (numberOf_isSome numeral)

theorem readNumeral_number {input : List Char} {n : JsonNumber Decimal}
    (h : numberOf (input.takeWhile isNumeric) = some n) :
    ∃ numeral, readNumeral input = some (numeral, input.dropWhile isNumeric) ∧
      n = numeral.number := by
  unfold readNumeral
  rw [dif_pos (numberOf_valid h)]
  refine ⟨_, rfl, ?_⟩
  unfold Numeral.number
  exact (Option.get_of_eq_some _ h).symm

section

variable {fuel : Nat} {input rest : List Char}

theorem readTree_string (hskip : skipSpace input = '"' :: rest) :
    readTree (fuel + 1) input =
      (parseString rest).map fun found => (.string found.1, found.2) := by
  rw [readTree, hskip]
  rfl

theorem readTree_empty {rest' : List Char} (hskip : skipSpace input = '[' :: rest)
    (hbracket : skipSpace rest = ']' :: rest') :
    readTree (fuel + 1) input = some (.array [], rest') := by
  rw [readTree, hskip]
  simp only [hbracket]

theorem readTree_array (hskip : skipSpace input = '[' :: rest)
    (hbracket : ∀ rest', skipSpace rest = ']' :: rest' → False) :
    readTree (fuel + 1) input =
      (readItems fuel (skipSpace rest)).map fun found => (.array found.1, found.2) := by
  rw [readTree, hskip]
  simp only

theorem readTree_blank {rest' : List Char} (hskip : skipSpace input = '\x7b' :: rest)
    (hbrace : skipSpace rest = '\x7d' :: rest') :
    readTree (fuel + 1) input = some (.mapping [], rest') := by
  rw [readTree, hskip]
  simp only [hbrace]

theorem readTree_mapping (hskip : skipSpace input = '\x7b' :: rest)
    (hbrace : ∀ rest', skipSpace rest = '\x7d' :: rest' → False) :
    readTree (fuel + 1) input =
      (readFields fuel (skipSpace rest)).map fun found => (.mapping found.1, found.2) := by
  rw [readTree, hskip]
  simp only

theorem readTree_numeral (hquote : ∀ rest, skipSpace input = '"' :: rest → False)
    (hbracket : ∀ rest, skipSpace input = '[' :: rest → False)
    (hbrace : ∀ rest, skipSpace input = '\x7b' :: rest → False)
    (hn : ∀ rest, skipSpace input = 'n' :: 'u' :: 'l' :: 'l' :: rest → False)
    (ht : ∀ rest, skipSpace input = 't' :: 'r' :: 'u' :: 'e' :: rest → False)
    (hf : ∀ rest, skipSpace input = 'f' :: 'a' :: 'l' :: 's' :: 'e' :: rest → False) :
    readTree (fuel + 1) input =
      (readNumeral (skipSpace input)).map fun found => (.number found.1, found.2) := by
  rw [readTree]
  split
  · rename_i heq
    exact absurd heq (hquote _)
  · rename_i heq
    exact absurd heq (hbracket _)
  · rename_i heq
    exact absurd heq (hbrace _)
  · rename_i heq
    exact absurd heq (hn _)
  · rename_i heq
    exact absurd heq (ht _)
  · rename_i heq
    exact absurd heq (hf _)
  · rfl

/-- How a tree starts behind the spaces, and what is left behind it. -/
inductive TreeFront (fuel : Nat) : List Char → Spelled → List Char → Prop
  | string {rest behind : List Char} {s : String} (hstring : parseString rest = some (s, behind)) :
      TreeFront fuel ('"' :: rest) (.string s) behind
  | empty {rest behind : List Char} (hbracket : skipSpace rest = ']' :: behind) :
      TreeFront fuel ('[' :: rest) (.array []) behind
  | array {rest behind : List Char} {values : List Spelled}
      (hbracket : ∀ rest', skipSpace rest = ']' :: rest' → False)
      (hitems : readItems fuel (skipSpace rest) = some (values, behind)) :
      TreeFront fuel ('[' :: rest) (.array values) behind
  | blank {rest behind : List Char} (hbrace : skipSpace rest = '\x7d' :: behind) :
      TreeFront fuel ('\x7b' :: rest) (.mapping []) behind
  | mapping {rest behind : List Char} {fields : List (SpelledKey × Spelled)}
      (hbrace : ∀ rest', skipSpace rest = '\x7d' :: rest' → False)
      (hfields : readFields fuel (skipSpace rest) = some (fields, behind)) :
      TreeFront fuel ('\x7b' :: rest) (.mapping fields) behind
  | null {rest : List Char} : TreeFront fuel ('n' :: 'u' :: 'l' :: 'l' :: rest) .null rest
  | true {rest : List Char} : TreeFront fuel ('t' :: 'r' :: 'u' :: 'e' :: rest) (.bool Bool.true) rest
  | false {rest : List Char} :
      TreeFront fuel ('f' :: 'a' :: 'l' :: 's' :: 'e' :: rest) (.bool Bool.false) rest
  | number {text behind : List Char} {numeral : Numeral}
      (hnumeral : readNumeral text = some (numeral, behind)) :
      TreeFront fuel text (.number numeral) behind

theorem readTree_front {s : Spelled} (h : readTree (fuel + 1) input = some (s, rest)) :
    TreeFront fuel (skipSpace input) s rest := by
  rw [readTree] at h
  split at h
  · rename_i hskip
    obtain ⟨⟨s, rest'⟩, hstring, heq⟩ := Option.map_eq_some_iff.mp h
    obtain ⟨rfl, rfl⟩ := Prod.mk.inj heq
    exact hskip ▸ .string hstring
  · rename_i hskip
    rw [hskip]
    split at h
    · rename_i hbracket
      obtain ⟨rfl, rfl⟩ := Prod.mk.inj (Option.some.inj h)
      exact .empty hbracket
    · rename_i hbracket
      obtain ⟨⟨values, rest'⟩, hitems, heq⟩ := Option.map_eq_some_iff.mp h
      obtain ⟨rfl, rfl⟩ := Prod.mk.inj heq
      exact .array hbracket hitems
  · rename_i hskip
    rw [hskip]
    split at h
    · rename_i hbrace
      obtain ⟨rfl, rfl⟩ := Prod.mk.inj (Option.some.inj h)
      exact .blank hbrace
    · rename_i hbrace
      obtain ⟨⟨pairs, rest'⟩, hfields, heq⟩ := Option.map_eq_some_iff.mp h
      obtain ⟨rfl, rfl⟩ := Prod.mk.inj heq
      exact .mapping hbrace hfields
  · rename_i hskip
    obtain ⟨rfl, rfl⟩ := Prod.mk.inj (Option.some.inj h)
    exact hskip ▸ .null
  · rename_i hskip
    obtain ⟨rfl, rfl⟩ := Prod.mk.inj (Option.some.inj h)
    exact hskip ▸ .true
  · rename_i hskip
    obtain ⟨rfl, rfl⟩ := Prod.mk.inj (Option.some.inj h)
    exact hskip ▸ .false
  · obtain ⟨⟨numeral, rest'⟩, hnumeral, heq⟩ := Option.map_eq_some_iff.mp h
    obtain ⟨rfl, rfl⟩ := Prod.mk.inj heq
    exact .number hnumeral

end

/-- The parser and the reader of trees agree with so much fuel. -/
structure Mirrors (fuel : Nat) : Prop where
  tree : ∀ {input v rest}, parseValue fuel input = some (v, rest) →
    ∃ s, readTree fuel input = some (s, rest) ∧ canonicalValue v = s.value Numeral.number
  items : ∀ {input values rest}, parseItems fuel input = some (values, rest) →
    ∃ trees, readItems fuel input = some (trees, rest) ∧
      canonicalItems values = Spelled.itemValues Numeral.number trees
  fields : ∀ {input pairs rest}, parseFields fuel input = some (pairs, rest) →
    ∃ trees, readFields fuel input = some (trees, rest) ∧
      canonicalFields pairs = Spelled.fieldValues Numeral.number trees

theorem readKey_name {input rest : List Char} {name : String}
    (h : parseString input = some (name, rest)) :
    ∃ letters, readKey input = some (⟨letters, name⟩, rest) := by
  unfold readKey
  rw [h]
  exact ⟨_, rfl⟩

theorem Mirrors.tree_step {fuel : Nat} (hm : Mirrors fuel) {input rest : List Char}
    {v : JsonValue Decimal} (h : parseValue (fuel + 1) input = some (v, rest)) :
    ∃ s, readTree (fuel + 1) input = some (s, rest) ∧
      canonicalValue v = s.value Numeral.number := by
  rw [parseValue] at h
  split at h
  · rename_i hskip
    obtain ⟨⟨s, rest'⟩, hstring, heq⟩ := Option.map_eq_some_iff.mp h
    obtain ⟨rfl, rfl⟩ := Prod.mk.inj heq
    exact ⟨.string s, by rw [readTree_string hskip, hstring]; rfl, rfl⟩
  · rename_i hskip
    split at h
    · rename_i hbracket
      obtain ⟨rfl, rfl⟩ := Prod.mk.inj (Option.some.inj h)
      exact ⟨.array [], readTree_empty hskip hbracket, rfl⟩
    · rename_i hbracket
      obtain ⟨⟨values, rest'⟩, hitems, heq⟩ := Option.map_eq_some_iff.mp h
      obtain ⟨rfl, rfl⟩ := Prod.mk.inj heq
      obtain ⟨trees, htrees, hvalues⟩ := hm.items hitems
      refine ⟨.array trees, ?_, by rw [canonicalValue, hvalues, Spelled.value]⟩
      rw [readTree_array hskip hbracket, htrees]
      rfl
  · rename_i hskip
    split at h
    · rename_i hbrace
      obtain ⟨rfl, rfl⟩ := Prod.mk.inj (Option.some.inj h)
      exact ⟨.mapping [], readTree_blank hskip hbrace, rfl⟩
    · rename_i hbrace
      obtain ⟨⟨pairs, rest'⟩, hfields, heq⟩ := Option.map_eq_some_iff.mp h
      obtain ⟨rfl, rfl⟩ := Prod.mk.inj heq
      obtain ⟨trees, htrees, hpairs⟩ := hm.fields hfields
      refine ⟨.mapping trees, ?_, by rw [canonicalValue, hpairs, Spelled.value]⟩
      rw [readTree_mapping hskip hbrace, htrees]
      rfl
  · rename_i hskip
    obtain ⟨rfl, rfl⟩ := Prod.mk.inj (Option.some.inj h)
    exact ⟨.null, by rw [readTree, hskip]; rfl, rfl⟩
  · rename_i hskip
    obtain ⟨rfl, rfl⟩ := Prod.mk.inj (Option.some.inj h)
    exact ⟨.bool true, by rw [readTree, hskip]; rfl, rfl⟩
  · rename_i hskip
    obtain ⟨rfl, rfl⟩ := Prod.mk.inj (Option.some.inj h)
    exact ⟨.bool false, by rw [readTree, hskip]; rfl, rfl⟩
  · rename_i hquote hbracket hbrace hn ht hf
    obtain ⟨n, hnumber, heq⟩ := Option.map_eq_some_iff.mp h
    obtain ⟨rfl, rfl⟩ := Prod.mk.inj heq
    obtain ⟨numeral, hnumeral, rfl⟩ := readNumeral_number hnumber
    refine ⟨.number numeral, ?_, rfl⟩
    rw [readTree_numeral hquote hbracket hbrace hn ht hf, hnumeral]
    rfl

theorem Mirrors.items_step {fuel : Nat} (hm : Mirrors fuel) {input rest : List Char}
    {values : List (JsonValue Decimal)}
    (h : parseItems (fuel + 1) input = some (values, rest)) :
    ∃ trees, readItems (fuel + 1) input = some (trees, rest) ∧
      canonicalItems values = Spelled.itemValues Numeral.number trees := by
  rw [parseItems] at h
  obtain ⟨⟨first, behind⟩, hfirst, h⟩ := Option.bind_eq_some_iff.mp h
  obtain ⟨s, hs, hvalue⟩ := hm.tree hfirst
  rw [readItems, hs, Option.bind_some]
  dsimp only at h ⊢
  split at h
  · rename_i hskip
    obtain ⟨⟨more, rest'⟩, hmore, heq⟩ := Option.map_eq_some_iff.mp h
    obtain ⟨rfl, rfl⟩ := Prod.mk.inj heq
    obtain ⟨trees, htrees, hvalues⟩ := hm.items hmore
    refine ⟨s :: trees, ?_, by rw [canonicalItems, Spelled.itemValues, hvalue, hvalues]⟩
    simp only [hskip, htrees, Option.map_some]
  · rename_i hskip
    obtain ⟨rfl, rfl⟩ := Prod.mk.inj (Option.some.inj h)
    refine ⟨[s], ?_, by rw [canonicalItems, Spelled.itemValues, hvalue]; rfl⟩
    simp only [hskip]
  · cases h

theorem Mirrors.fields_step {fuel : Nat} (hm : Mirrors fuel) {input rest : List Char}
    {pairs : List (String × JsonValue Decimal)}
    (h : parseFields (fuel + 1) input = some (pairs, rest)) :
    ∃ trees, readFields (fuel + 1) input = some (trees, rest) ∧
      canonicalFields pairs = Spelled.fieldValues Numeral.number trees := by
  rw [parseFields] at h
  rw [readFields]
  split at h
  · rename_i hquote
    obtain ⟨⟨name, behind⟩, hname, h⟩ := Option.bind_eq_some_iff.mp h
    obtain ⟨letters, hkey⟩ := readKey_name hname
    dsimp only at h
    split at h
    · rename_i hcolon
      obtain ⟨⟨first, behind⟩, hfirst, h⟩ := Option.bind_eq_some_iff.mp h
      obtain ⟨s, hs, hvalue⟩ := hm.tree hfirst
      dsimp only at h
      split at h
      · rename_i hskip
        obtain ⟨⟨more, rest'⟩, hmore, heq⟩ := Option.map_eq_some_iff.mp h
        obtain ⟨rfl, rfl⟩ := Prod.mk.inj heq
        obtain ⟨trees, htrees, hvalues⟩ := hm.fields hmore
        refine ⟨(⟨letters, name⟩, s) :: trees, ?_,
          by rw [canonicalFields, Spelled.fieldValues, hvalue, hvalues]⟩
        simp only [hquote, hkey, Option.bind_some, hcolon, hs, hskip, htrees, Option.map_some]
      · rename_i hskip
        obtain ⟨rfl, rfl⟩ := Prod.mk.inj (Option.some.inj h)
        refine ⟨[(⟨letters, name⟩, s)], ?_,
          by rw [canonicalFields, Spelled.fieldValues, hvalue]; rfl⟩
        simp only [hquote, hkey, Option.bind_some, hcolon, hs, hskip]
      · cases h
    · cases h
  · cases h

theorem mirrors (fuel : Nat) : Mirrors fuel := by
  induction fuel with
  | zero =>
    refine ⟨?_, ?_, ?_⟩
    · intro input v rest h
      cases h
    · intro input values rest h
      cases h
    · intro input pairs rest h
      cases h
  | succ fuel hm => exact ⟨hm.tree_step, hm.items_step, hm.fields_step⟩

/-- **The parser of this development** reads texts as they are spelled. -/
theorem textCodec_reads : ReadsSpelled textCodec.parse Numeral.number := by
  intro text v h
  obtain ⟨w, hparse, rfl⟩ := Option.map_eq_some_iff.mp h
  obtain ⟨⟨found, rest⟩, hvalue, h⟩ := Option.bind_eq_some_iff.mp hparse
  obtain ⟨s, hs, hcanonical⟩ := (mirrors _).tree hvalue
  dsimp only at h
  split_ifs at h with hrest
  obtain rfl := Option.some.inj h
  refine ⟨s, ?_, hcanonical⟩
  rw [spelling, hs, Option.bind_some, if_pos hrest]

end Tea.Encoding
