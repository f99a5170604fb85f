/-
  Tea/Encoding/Json.lean
  ======================
  **JSON values** with ordered objects, and the contract of a text codec for them.  An
  object is a list of fields; a map with ordered keys is an object whose keys increase
  (`Canonical`).  A codec prints canonical values and reads texts; fractional numbers are
  a parameter, and only they may come back changed (`JsonCodec.reread`).
-/

import Mathlib.Tactic.SplitIfs
import Mathlib.Order.Basic
import Mathlib.Data.String.Basic

namespace Tea.Encoding

/-! ### Values -/

/-- A JSON number: an integer in one of the two common forms, or a fraction in `F`. -/
inductive JsonNumber (F : Type) where
  | signed (value : Int64)
  | unsigned (value : UInt64)
  | float (value : F)
deriving DecidableEq

inductive JsonValue (F : Type) where
  | null
  | bool (value : Bool)
  | number (value : JsonNumber F)
  | string (value : String)
  | array (values : List (JsonValue F))
  | mapping (fields : List (String × JsonValue F))

namespace JsonValue

variable {F : Type}

/-- What holds of the scalars, and of an array or an object when it holds of its parts,
    holds of every value. -/
theorem induction {P : JsonValue F → Prop} (null : P .null) (bool : ∀ b, P (.bool b))
    (number : ∀ n, P (.number n)) (string : ∀ s, P (.string s))
    (array : ∀ values, (∀ v ∈ values, P v) → P (.array values))
    (mapping : ∀ fields, (∀ field ∈ fields, P field.2) → P (.mapping fields)) :
    ∀ v, P v
  | .null => null
  | .bool b => bool b
  | .number n => number n
  | .string s => string s
  | .array values => array values fun v _ =>
      induction null bool number string array mapping v
  | .mapping fields => mapping fields fun field _ =>
      induction null bool number string array mapping field.2
termination_by v => sizeOf v
decreasing_by
  · have h := List.sizeOf_lt_of_mem ‹_›
    simp only [JsonValue.array.sizeOf_spec]
    omega
  · have h := List.sizeOf_lt_of_mem ‹_›
    obtain ⟨key, value⟩ := field
    simp only [JsonValue.mapping.sizeOf_spec, Prod.mk.sizeOf_spec] at h ⊢
    omega

/-! ### Ordered maps -/

def lookupField (key : String) : List (String × JsonValue F) → Option (JsonValue F)
  | [] => none
  | (name, value) :: fields => if name = key then some value else lookupField key fields

/-- `BTreeMap::insert`: the fields stay in the order of their keys. -/
def insertField (key : String) (value : JsonValue F) :
    List (String × JsonValue F) → List (String × JsonValue F)
  | [] => [(key, value)]
  | (name, old) :: fields =>
      if key < name then (key, value) :: (name, old) :: fields
      else if key = name then (key, value) :: fields
      else (name, old) :: insertField key value fields

section

-- The equations are generated here, once for the proofs below.
attribute [local simp] lookupField insertField

end

@[simp] theorem lookupField_insertField (key name : String) (value : JsonValue F)
    (fields : List (String × JsonValue F)) :
    lookupField key (insertField name value fields) =
      if name = key then some value else lookupField key fields := by
  induction fields with
  | nil => rfl
  | cons field fields ih =>
    obtain ⟨other, old⟩ := field
    unfold insertField
    by_cases hlt : name < other
    · rw [if_pos hlt]
      rfl
    · rw [if_neg hlt]
      by_cases heq : name = other
      · subst heq
        rw [if_pos rfl]
        simp only [lookupField]
        split_ifs <;> rfl
      · rw [if_neg heq]
        simp only [lookupField, ih]
        by_cases hkey : other = key
        · rw [if_pos hkey, if_pos hkey, if_neg]
          rintro rfl
          exact heq hkey.symm
        · rw [if_neg hkey, if_neg hkey]

theorem insertField_keys {key : String} {value : JsonValue F}
    {fields : List (String × JsonValue F)} {field : String × JsonValue F}
    (h : field ∈ insertField key value fields) : field = (key, value) ∨ field ∈ fields := by
  induction fields with
  | nil =>
    left
    simpa [insertField] using h
  | cons first fields ih =>
    obtain ⟨name, old⟩ := first
    simp only [insertField] at h
    split_ifs at h
    · simpa using h
    · rcases List.mem_cons.mp h with hfield | hfield
      · exact .inl hfield
      · exact .inr (List.mem_cons_of_mem _ hfield)
    · rcases List.mem_cons.mp h with hfield | hfield
      · rw [hfield]
        exact .inr List.mem_cons_self
      · rcases ih hfield with hnew | hold
        · exact .inl hnew
        · exact .inr (List.mem_cons_of_mem _ hold)

/-- The keys of a map increase. -/
def Increasing (fields : List (String × JsonValue F)) : Prop :=
  fields.Pairwise fun a b => a.1 < b.1

theorem Increasing.insertField {key : String} {value : JsonValue F}
    {fields : List (String × JsonValue F)} (h : Increasing fields) :
    Increasing (insertField key value fields) := by
  induction fields with
  | nil => exact List.pairwise_singleton _ _
  | cons first fields ih =>
    obtain ⟨name, old⟩ := first
    obtain ⟨hfirst, hrest⟩ := List.pairwise_cons.mp h
    simp only [JsonValue.insertField]
    split_ifs with hlt heq
    · apply List.pairwise_cons.mpr
      refine ⟨?_, h⟩
      intro field hfield
      rcases List.mem_cons.mp hfield with rfl | hfield
      · exact hlt
      · exact lt_trans hlt (hfirst field hfield)
    · subst heq
      exact List.pairwise_cons.mpr ⟨hfirst, hrest⟩
    · apply List.pairwise_cons.mpr
      refine ⟨?_, ih hrest⟩
      intro field hfield
      rcases insertField_keys hfield with rfl | hfield
      · rcases lt_trichotomy key name with hlt' | heq' | hgt
        · exact absurd hlt' hlt
        · exact absurd heq' heq
        · exact hgt
      · exact hfirst field hfield

/-- `JsonValue::object`: a later field of the same key replaces an earlier one. -/
def object (pairs : List (String × JsonValue F)) : JsonValue F :=
  .mapping (pairs.foldl (fun fields pair => insertField pair.1 pair.2 fields) [])

/-- `as_object` -/
def asObject : JsonValue F → Option (List (String × JsonValue F))
  | .mapping fields => some fields
  | _ => none

/-- `get` -/
def get (key : String) (v : JsonValue F) : Option (JsonValue F) :=
  v.asObject.bind (lookupField key)

def asStr : JsonValue F → Option String
  | .string s => some s
  | _ => none

def asBool : JsonValue F → Option Bool
  | .bool b => some b
  | _ => none

def asU64 : JsonValue F → Option UInt64
  | .number (.unsigned n) => some n
  | _ => none

def asArray : JsonValue F → Option (List (JsonValue F))
  | .array values => some values
  | _ => none

theorem lookupField_append (key : String) (fields more : List (String × JsonValue F)) :
    lookupField key (fields ++ more) = (lookupField key fields).or (lookupField key more) := by
  induction fields with
  | nil => rfl
  | cons field fields ih =>
    obtain ⟨name, value⟩ := field
    rw [List.cons_append, lookupField, lookupField]
    split_ifs
    · rfl
    · exact ih

/-- The last of the pairs with a key is the field of an object. -/
theorem get_object (key : String) (pairs : List (String × JsonValue F)) :
    (object pairs).get key = lookupField key pairs.reverse := by
  have hfold : ∀ fields : List (String × JsonValue F),
      lookupField key (pairs.foldl (fun fields pair => insertField pair.1 pair.2 fields) fields) =
        (lookupField key pairs.reverse).or (lookupField key fields) := by
    induction pairs with
    | nil => exact fun _ => rfl
    | cons pair pairs ih =>
      obtain ⟨name, value⟩ := pair
      intro fields
      rw [List.foldl_cons, ih, List.reverse_cons, lookupField_append, lookupField_insertField,
        lookupField, Option.or_assoc]
      split_ifs <;> rfl
  have hnone := hfold []
  rw [lookupField, Option.or_none] at hnone
  exact hnone

/-- Every map in the value is ordered. -/
inductive Canonical : JsonValue F → Prop
  | null : Canonical .null
  | bool (b : Bool) : Canonical (.bool b)
  | number (n : JsonNumber F) : Canonical (.number n)
  | string (s : String) : Canonical (.string s)
  | array {values : List (JsonValue F)} (parts : ∀ v ∈ values, Canonical v) :
      Canonical (.array values)
  | mapping {fields : List (String × JsonValue F)} (ordered : Increasing fields)
      (parts : ∀ field ∈ fields, Canonical field.2) : Canonical (.mapping fields)

/-- An object of canonical values is canonical, in whatever order its fields come. -/
theorem canonical_object {pairs : List (String × JsonValue F)}
    (h : ∀ pair ∈ pairs, Canonical pair.2) : Canonical (object pairs) := by
  have hfold : ∀ fields : List (String × JsonValue F), Increasing fields →
      (∀ field ∈ fields, Canonical field.2) →
      let result := pairs.foldl (fun fields pair => insertField pair.1 pair.2 fields) fields
      Increasing result ∧ ∀ field ∈ result, Canonical field.2 := by
    induction pairs with
    | nil => exact fun fields hordered hparts => ⟨hordered, hparts⟩
    | cons pair pairs ih =>
      intro fields hordered hparts
      apply ih
      · intro other hother
        exact h other (List.mem_cons_of_mem _ hother)
      · exact hordered.insertField
      · intro field hfield
        rcases insertField_keys hfield with rfl | hfield
        · exact h pair List.mem_cons_self
        · exact hparts field hfield
  obtain ⟨hordered, hparts⟩ := hfold [] List.Pairwise.nil (by simp)
  exact .mapping hordered hparts

theorem insertField_last {key : String} {value : JsonValue F}
    {fields : List (String × JsonValue F)} (h : ∀ field ∈ fields, field.1 < key) :
    insertField key value fields = fields ++ [(key, value)] := by
  induction fields with
  | nil => rfl
  | cons first fields ih =>
    obtain ⟨name, old⟩ := first
    have hlt : name < key := h (name, old) List.mem_cons_self
    simp only [insertField]
    rw [if_neg (lt_asymm hlt), if_neg (ne_of_gt hlt), ih]
    · rfl
    · intro field hfield
      exact h field (List.mem_cons_of_mem _ hfield)

/-- Fields in the order of their keys are a map as they stand. -/
theorem object_of_increasing {fields : List (String × JsonValue F)} (h : Increasing fields) :
    object fields = .mapping fields := by
  have hfold : ∀ rest done : List (String × JsonValue F), Increasing (done ++ rest) →
      rest.foldl (fun fields pair => insertField pair.1 pair.2 fields) done = done ++ rest := by
    intro rest
    induction rest with
    | nil => simp
    | cons field rest ih =>
      intro done hdone
      have hlast : ∀ other ∈ done, other.1 < field.1 := by
        intro other hother
        exact (List.pairwise_append.mp hdone).2.2 other hother field List.mem_cons_self
      rw [List.foldl_cons, insertField_last hlast, ih]
      · simp
      · simpa using hdone
  unfold object
  rw [hfold fields [] h, List.nil_append]

end JsonValue

/-! ### Codecs -/

/-- A text codec.  A canonical value is printed on one line, and is read back as itself
    up to its fractional numbers (`reread`). -/
structure JsonCodec (F : Type) where
  parse : String → Option (JsonValue F)
  print : JsonValue F → String
  reread : JsonValue F → JsonValue F
  parse_print : ∀ {v}, v.Canonical → parse (print v) = some (reread v)
  parse_canonical : ∀ {text v}, parse text = some v → v.Canonical
  print_line : ∀ v, ∀ c ∈ (print v).toList, c ≠ '\n' ∧ c ≠ '\r'
  parse_visible : ∀ {text v}, parse text = some v → ∃ c ∈ text.toList, '!' ≤ c ∧ c ≤ '~'
  reread_null : reread .null = .null
  reread_bool : ∀ b, reread (.bool b) = .bool b
  reread_unsigned : ∀ n, reread (.number (.unsigned n)) = .number (.unsigned n)
  reread_string : ∀ s, reread (.string s) = .string s
  reread_array : ∀ values, reread (.array values) = .array (values.map reread)
  reread_mapping : ∀ fields,
    reread (.mapping fields) = .mapping (fields.map fun field => (field.1, reread field.2))

namespace JsonCodec

variable {F : Type} (codec : JsonCodec F)

theorem lookupField_reread (key : String) (fields : List (String × JsonValue F)) :
    JsonValue.lookupField key (fields.map fun field => (field.1, codec.reread field.2)) =
      (JsonValue.lookupField key fields).map codec.reread := by
  induction fields with
  | nil => rfl
  | cons field fields ih =>
    obtain ⟨name, value⟩ := field
    simp only [List.map_cons, JsonValue.lookupField]
    split_ifs
    · rfl
    · exact ih

/-- The fields of an object as they are read back. -/
theorem reread_object (pairs : List (String × JsonValue F)) :
    ∃ fields, codec.reread (.object pairs) = .mapping fields ∧
      ∀ key, JsonValue.lookupField key fields =
        (JsonValue.lookupField key pairs.reverse).map codec.reread := by
  refine ⟨_, codec.reread_mapping _, ?_⟩
  intro key
  rw [codec.lookupField_reread, ← JsonValue.get_object]
  rfl

theorem get_reread (key : String) (pairs : List (String × JsonValue F)) :
    (codec.reread (.object pairs)).get key =
      (JsonValue.lookupField key pairs.reverse).map codec.reread := by
  obtain ⟨fields, hfields, hlookup⟩ := codec.reread_object pairs
  rw [JsonValue.get, hfields, JsonValue.asObject, Option.bind_some, hlookup]

end JsonCodec
end Tea.Encoding
