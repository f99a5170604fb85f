/-
  Tea/Luau/Mlua.lean
  ==================
  **Luau values**, as far as the host looks at them: what the code uses of `mlua` and of
  the JSON parser is a parameter.
-/

namespace Tea.Luau

inductive ThreadStatus where
  | resumable
  | finished
  /-- Any other status, as `{:?}` writes it. -/
  | other (text : String)
deriving DecidableEq

/-- What the code uses of Luau values and of the JSON parser. -/
structure Mlua (Value Json : Type) where
  /-- `Value::Table` -/
  isTable : Value → Bool
  /-- `Value::String`, as its text or as the reason why it is not one -/
  string : Value → Option (Except String String)
  typeName : Value → String
  /-- `table.get::<String>` -/
  getString : Value → String → Except String String
  /-- `table.get::<Option<String>>` -/
  getStringOption : Value → String → Except String (Option String)
  /-- `table.get::<Option<bool>>` -/
  getBoolOption : Value → String → Except String (Option Bool)
  /-- `JsonValue::parse` -/
  parseJson : String → Except String Json

end Tea.Luau
