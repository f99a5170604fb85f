/-
  Tea/Encoding/Utf8Runs.lean
  ==========================
  **Runs of bytes in an encoded text.**  A search that tries every rest of a text behind a
  run of its bytes (`tryRests`) may stop inside a character; what is left then are bytes
  that continue one, and an encoded text (`encodeUtf8_split`).
-/
import Tea.Encoding.Utf8

namespace Tea.Encoding

/-- Try every rest of a text behind a run of bytes, of which none is barred. -/
def tryRests (barred : UInt8 → Bool) (next : List UInt8 → Bool) : List UInt8 → Bool
  | [] => next []
  | byte :: text => next (byte :: text) || (!barred byte && tryRests barred next text)

section

-- The equations are generated here, once for the proofs below.
attribute [local simp] tryRests

end

theorem tryRests_iff {barred : UInt8 → Bool} {next : List UInt8 → Bool} {text : List UInt8} :
    tryRests barred next text = true ↔
      ∃ run rest, text = run ++ rest ∧ (∀ byte ∈ run, barred byte = false) ∧ next rest = true := by
  induction text with
  | nil =>
    rw [tryRests]
    constructor
    · intro h
      exact ⟨[], [], rfl, by simp, h⟩
    · rintro ⟨run, rest, hsplit, -, h⟩
      rw [(List.append_eq_nil_iff.mp hsplit.symm).2] at h
      exact h
  | cons byte text ih =>
    rw [tryRests, Bool.or_eq_true, Bool.and_eq_true, Bool.not_eq_true', ih]
    constructor
    · rintro (h | ⟨hbarred, run, rest, rfl, hrun, h⟩)
      · exact ⟨[], byte :: text, rfl, by simp, h⟩
      · exact ⟨byte :: run, rest, rfl, List.forall_mem_cons.mpr ⟨hbarred, hrun⟩, h⟩
    · rintro ⟨run, rest, hsplit, hrun, h⟩
      cases run with
      | nil =>
        rw [List.nil_append] at hsplit
        exact .inl (hsplit ▸ h)
      | cons first run =>
        obtain ⟨rfl, rfl⟩ := List.cons.inj hsplit
        obtain ⟨hbarred, hrun⟩ := List.forall_mem_cons.mp hrun
        exact .inr ⟨hbarred, run, rest, rfl, hrun, h⟩

/-- Bytes that continue a character. -/
def Continues (bytes : List UInt8) : Prop := ∀ byte ∈ bytes, isContinuation byte = true

theorem continues_nil : Continues [] := fun _ h => nomatch h

/-- A character of one byte. -/
theorem utf8EncodeChar_ascii {c : Char} (h : c.toNat < 128) :
    String.utf8EncodeChar c = [UInt8.ofNat c.toNat] := by
  have hval : c.val.toNat < 128 := h
  have hle : c.val.toNat ≤ 127 := by omega
  simp only [String.utf8EncodeChar, if_pos hle]
  rfl

/-- **An encoded text cut at a byte**: behind whole characters and the rest of one there
    is an encoded text.  A character of one byte is cut off with its byte. -/
theorem encodeUtf8_split {left : List UInt8} {text : List Char} {run rest : List UInt8}
    (hleft : Continues left) (h : left ++ encodeUtf8 text = run ++ rest) :
    ∃ first last left', text = first ++ last ∧ Continues left' ∧
      rest = left' ++ encodeUtf8 last ∧
      ∀ c ∈ first, ∀ byte, String.utf8EncodeChar c = [byte] → byte ∈ run := by
  induction text generalizing left run with
  | nil =>
    rw [encodeUtf8, List.flatMap_nil, List.append_nil] at h
    refine ⟨[], [], rest, rfl, fun byte hbyte => hleft byte ?_, by simp [encodeUtf8], by simp⟩
    rw [h]
    exact List.mem_append_right _ hbyte
  | cons c text ih =>
    rw [encodeUtf8_cons, ← List.append_assoc] at h
    rcases List.append_eq_append_iff.mp h with ⟨more, hrun, htext⟩ | ⟨more, hhead, hrest⟩
    · -- the whole character is in the run
      obtain ⟨first, last, left', rfl, hleft', rfl, hsingle⟩ := ih continues_nil
        (show [] ++ encodeUtf8 text = more ++ rest from htext)
      refine ⟨c :: first, last, left', rfl, hleft', rfl, ?_⟩
      rw [List.forall_mem_cons]
      constructor
      · intro byte hbyte
        rw [hrun, hbyte]
        simp
      · intro d hd byte hbyte
        rw [hrun]
        exact List.mem_append_right _ (hsingle d hd byte hbyte)
    · rcases List.append_eq_append_iff.mp hhead with ⟨taken, hrun, hc⟩ | ⟨kept, rfl, rfl⟩
      · cases taken with
        | nil =>
          refine ⟨[], c :: text, [], rfl, continues_nil, ?_, by simp⟩
          rw [hrest, encodeUtf8_cons, hc]
          rfl
        | cons byte taken =>
          -- the run ends inside the character
          obtain ⟨lead, tail, hlead, -, htail⟩ := utf8EncodeChar_bytes c
          rw [hlead, List.cons_append, List.cons.injEq] at hc
          obtain ⟨rfl, rfl⟩ := hc
          refine ⟨[c], text, more, rfl, fun d hd => htail d (List.mem_append_right _ hd),
            hrest, ?_⟩
          rw [List.forall_mem_singleton]
          intro d hd
          rw [hlead, List.cons.injEq] at hd
          rw [hrun, ← hd.1]
          simp
      · refine ⟨[], c :: text, kept, rfl, fun d hd => hleft d (List.mem_append_right _ hd), ?_,
          by simp⟩
        rw [hrest, encodeUtf8_cons, List.append_assoc]

/-- No byte of another character is an ASCII byte. -/
theorem utf8EncodeChar_large {c : Char} (h : 128 ≤ c.toNat) :
    ∀ byte ∈ String.utf8EncodeChar c, 128 ≤ byte.toNat := by
  have hvalid := c.valid
  simp only [UInt32.isValidChar, Nat.isValidChar] at hvalid
  have hval : ¬ c.val.toNat ≤ 127 := by
    have hlarge : 128 ≤ c.val.toNat := h
    omega
  simp only [String.utf8EncodeChar, if_neg hval]
  generalize c.val.toNat = v at hvalid
  have hbyte : ∀ n : Nat, 128 ≤ n → n < 256 → 128 ≤ (UInt8.ofNat n).toNat := by
    intro n hn hlt
    rw [UInt8.toNat_ofNat', Nat.mod_eq_of_lt hlt]
    exact hn
  split_ifs with htwo hthree
  · simp only [List.forall_mem_cons]
    refine ⟨hbyte _ (by omega) (by omega), hbyte _ (by omega) (by omega), by simp⟩
  · simp only [List.forall_mem_cons]
    refine ⟨hbyte _ (by omega) (by omega), hbyte _ (by omega) (by omega),
      hbyte _ (by omega) (by omega), by simp⟩
  · simp only [List.forall_mem_cons]
    refine ⟨hbyte _ (by omega) (by omega), hbyte _ (by omega) (by omega),
      hbyte _ (by omega) (by omega), hbyte _ (by omega) (by omega), by simp⟩

/-- An ASCII byte is a character of its own. -/
theorem utf8EncodeChar_byte {c d : Char} (hd : d.toNat < 128)
    (h : UInt8.ofNat d.toNat ∈ String.utf8EncodeChar c) : c = d := by
  by_cases hc : c.toNat < 128
  · rw [utf8EncodeChar_ascii hc, List.mem_singleton] at h
    have hvalue := congrArg UInt8.toNat h
    rw [UInt8.toNat_ofNat', UInt8.toNat_ofNat', Nat.mod_eq_of_lt (by omega),
      Nat.mod_eq_of_lt (by omega)] at hvalue
    rw [← Char.ofNat_toNat c, ← Char.ofNat_toNat d, hvalue]
  · have hlarge := utf8EncodeChar_large (Nat.le_of_not_lt hc) _ h
    rw [UInt8.toNat_ofNat', Nat.mod_eq_of_lt (by omega)] at hlarge
    omega

/-- Behind bytes that continue a character no character begins before its own bytes. -/
theorem encodeUtf8_behind {left more : List UInt8} {text : List Char} {c : Char}
    (hleft : Continues left) (h : left ++ encodeUtf8 text = String.utf8EncodeChar c ++ more) :
    left = [] ∧ ∃ rest, text = c :: rest ∧ more = encodeUtf8 rest := by
  obtain ⟨first, tail, hfirst, hnot, -⟩ := utf8EncodeChar_bytes c
  cases left with
  | cons byte left =>
    rw [hfirst, List.cons_append, List.cons_append, List.cons.injEq] at h
    have hcontinues := hleft byte List.mem_cons_self
    rw [h.1, hnot] at hcontinues
    cases hcontinues
  | nil =>
    refine ⟨rfl, ?_⟩
    rw [List.nil_append] at h
    cases text with
    | nil =>
      rw [hfirst] at h
      cases h
    | cons d text =>
      rw [encodeUtf8_cons] at h
      obtain ⟨rfl, rfl⟩ := encodeUtf8_cons_inj h
      exact ⟨text, rfl, rfl⟩

end Tea.Encoding
