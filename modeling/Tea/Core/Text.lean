/-
  Tea/Core/Text.lean
  ==================
  **Machine arithmetic and bounded text**, the scalar layer under the run loop:
  Rust's saturating arithmetic on `u64`, the byte length of a string, the `{:?}`
  rendering of a string, and `truncate_middle` of `tool.rs`, which bounds every
  diagnostic the core records.
-/

namespace Tea.Core

/-! ### Saturating arithmetic -/

def u64Max : Nat := 18446744073709551615

/-- `saturating_add` on `u64` (and on `usize`, which has the same width). -/
def satAdd (a b : Nat) : Nat := min (a + b) u64Max

/-- `saturating_add(1)` on a `u64` counter. -/
def satSucc (x : UInt64) : UInt64 := if x = 18446744073709551615 then x else x + 1

theorem toNat_le_u64Max (x : UInt64) : x.toNat ≤ u64Max := by
  have h := x.toNat_lt
  simp only [u64Max]
  omega

theorem satSucc_toNat (x : UInt64) : (satSucc x).toNat = min (x.toNat + 1) u64Max := by
  have hlt := x.toNat_lt
  unfold satSucc u64Max
  by_cases h : x = 18446744073709551615
  · subst h
    decide
  · have hne : x.toNat ≠ 18446744073709551615 := fun heq =>
      h (UInt64.toNat_inj.mp (by rw [heq]; rfl))
    rw [if_neg h, UInt64.toNat_add]
    have h1 : (1 : UInt64).toNat = 1 := rfl
    omega

/-- A counter that saturates never decreases. -/
theorem le_satSucc (x : UInt64) : x.toNat ≤ (satSucc x).toNat := by
  have h := toNat_le_u64Max x
  rw [satSucc_toNat]
  omega

theorem satSucc_eq_succ {x : UInt64} (h : x.toNat < u64Max) :
    (satSucc x).toNat = x.toNat + 1 := by
  rw [satSucc_toNat]
  omega

/-! ### Rendering -/

/-- `char::escape_debug` on printable text: quotes, backslashes and the usual
    control characters are escaped. -/
def escapeDebug : Char → String
  | '"' => "\\\""
  | '\\' => "\\\\"
  | '\n' => "\\n"
  | '\r' => "\\r"
  | '\t' => "\\t"
  | '\x00' => "\\0"
  | c => c.toString

/-- `{:?}` of a string. -/
def debugStr (s : String) : String := "\"" ++ String.join (s.toList.map escapeDebug) ++ "\""

/-! ### Truncation -/

/-- The marker inserted by deterministic oversized-result truncation. -/
def truncationMarker : String := "… [truncated] …"

/-- `&value[..utf8_prefix_end(value, limit)]`: the longest prefix of whole scalars
    that fits in `limit` bytes. -/
def utf8Prefix : Nat → List Char → List Char
  | _, [] => []
  | limit, c :: rest =>
      if c.utf8Size ≤ limit then c :: utf8Prefix (limit - c.utf8Size) rest else []

/-- `&value[utf8_suffix_start(value, limit)..]`: the longest suffix that fits. -/
def utf8Suffix (limit : Nat) (cs : List Char) : List Char := (utf8Prefix limit cs.reverse).reverse

/-- Preserve a prefix and a suffix within a byte budget. -/
def truncateMiddle (value : String) (limit : Nat) : String :=
  if value.utf8ByteSize ≤ limit then value
  else if limit ≤ truncationMarker.utf8ByteSize then
    String.ofList (utf8Prefix limit truncationMarker.toList)
  else
    let remaining := limit - truncationMarker.utf8ByteSize
    let prefixLimit := remaining / 2
    let suffixLimit := remaining - prefixLimit
    String.ofList (utf8Prefix prefixLimit value.toList) ++ truncationMarker ++
      String.ofList (utf8Suffix suffixLimit value.toList)

example : truncateMiddle "0123456789abcdefghijklmnop" 24 = "01… [truncated] …nop" := by decide

end Tea.Core
