/-
  Tea/Contract/GlobMeaning.lean
  =============================
  **Globs.**  A pattern without a question mark matches exactly the paths that it means
  (`glob_means`): although the matcher reads bytes, a run that ends inside a character can
  only be followed by another star.  A question mark takes any byte, and so it takes a
  separator and does not take a character of several bytes.
-/
import Tea.Coding.Glob

namespace Tea.Contract

open Tea.Encoding Tea.Coding

/-! ### Stars -/

theorem head_ne {pattern : List Char} {d : Char}
    (h : ∀ rest, pattern = d :: rest → False) : pattern.head? ≠ some d := by
  intro hhead
  obtain ⟨rest, rfl⟩ := List.head?_eq_some_iff.mp hhead
  exact h rest rfl

/-- Induction on a pattern, wildcard by wildcard. -/
theorem pattern_induction {motive : List Char → Prop} (done : motive [])
    (nowhere : ∀ pattern, motive pattern → motive ('*' :: '*' :: '/' :: pattern))
    (across : ∀ pattern, pattern.head? ≠ some '/' → motive pattern →
      motive ('*' :: '*' :: pattern))
    (within : ∀ pattern, pattern.head? ≠ some '*' → motive pattern → motive ('*' :: pattern))
    (mark : ∀ pattern, motive pattern → motive ('?' :: pattern))
    (char : ∀ c pattern, c ≠ '*' ∧ c ≠ '?' → motive pattern → motive (c :: pattern))
    (pattern : List Char) : motive pattern := by
  induction pattern using shortest.induct with
  | case1 => exact done
  | case2 pattern ih => exact nowhere pattern ih
  | case3 pattern hslash ih => exact across pattern (head_ne hslash) ih
  | case4 pattern _ hstar ih => exact within pattern (head_ne hstar) ih
  | case5 pattern ih => exact mark pattern ih
  | case6 c pattern _ _ hstar hquestion ih => exact char c pattern ⟨hstar, hquestion⟩ ih

theorem encodeUtf8_head {pattern : List Char} {d : Char} {rest : List UInt8}
    (hd : d.toNat < 128) (h : encodeUtf8 pattern = UInt8.ofNat d.toNat :: rest) :
    pattern.head? = some d := by
  cases pattern with
  | nil => cases h
  | cons c pattern =>
    obtain ⟨first, more, hc, -, -⟩ := utf8EncodeChar_bytes c
    rw [encodeUtf8_cons, hc, List.cons_append, List.cons.injEq] at h
    have hmem : UInt8.ofNat d.toNat ∈ String.utf8EncodeChar c := by
      rw [hc, ← h.1]
      exact List.mem_cons_self
    rw [utf8EncodeChar_byte hd hmem]
    rfl

theorem globMatch_nowhere (pattern : List Char) (text : List UInt8) :
    globMatch (encodeUtf8 ('*' :: '*' :: '/' :: pattern)) text =
      (globMatch (encodeUtf8 pattern) text ||
        afterStar true (globMatch (encodeUtf8 ('/' :: pattern))) text) := by
  have hbytes : encodeUtf8 ('*' :: '*' :: '/' :: pattern) = 42 :: 42 :: 47 :: encodeUtf8 pattern :=
    rfl
  rw [hbytes, globMatch]
  rfl

theorem globMatch_across {pattern : List Char} (h : pattern.head? ≠ some '/')
    (text : List UInt8) : globMatch (encodeUtf8 ('*' :: '*' :: pattern)) text =
      afterStar true (globMatch (encodeUtf8 pattern)) text := by
  have hbytes : encodeUtf8 ('*' :: '*' :: pattern) = 42 :: 42 :: encodeUtf8 pattern := rfl
  rw [hbytes, globMatch]
  exact fun rest hrest => h (encodeUtf8_head (d := '/') (by decide) hrest)

theorem globMatch_within {pattern : List Char} (h : pattern.head? ≠ some '*')
    (text : List UInt8) : globMatch (encodeUtf8 ('*' :: pattern)) text =
      afterStar false (globMatch (encodeUtf8 pattern)) text := by
  have hbytes : encodeUtf8 ('*' :: pattern) = 42 :: encodeUtf8 pattern := rfl
  rw [hbytes, globMatch]
  · exact fun rest hrest => h (encodeUtf8_head (d := '*') (by decide) hrest)
  · exact fun rest hrest => h (encodeUtf8_head (d := '*') (by decide) hrest)

theorem encodeUtf8_eq_nil {text : List Char} (h : encodeUtf8 text = []) : text = [] := by
  cases text with
  | nil => rfl
  | cons c text =>
    obtain ⟨first, rest, hc, -, -⟩ := utf8EncodeChar_bytes c
    rw [encodeUtf8_cons, hc] at h
    cases h

/-- A run of characters behind a star, if what is behind it means characters. -/
theorem afterStar_run {double : Bool} {pattern : List Char}
    (hnext : ∀ left text, Continues left →
      globMatch (encodeUtf8 pattern) (left ++ encodeUtf8 text) = true → Means pattern text)
    {left : List UInt8} {text : List Char} (hleft : Continues left)
    (h : afterStar double (globMatch (encodeUtf8 pattern)) (left ++ encodeUtf8 text) = true) :
    ∃ run rest, text = run ++ rest ∧ (double = false → '/' ∉ run) ∧ Means pattern rest := by
  obtain ⟨run, rest, hsplit, hrun, hmatch⟩ := tryRests_iff.mp h
  obtain ⟨first, last, left', rfl, hleft', rfl, hsingle⟩ := encodeUtf8_split hleft hsplit
  refine ⟨first, last, rfl, fun hdouble hslash => ?_, hnext left' last hleft' hmatch⟩
  have hbarred := hrun 47 (hsingle '/' hslash 47 rfl)
  rw [hdouble] at hbarred
  exact absurd hbarred (by decide)

/-- **What a pattern without question marks matches, it means**, and bytes that continue a
    character before the path do not help. -/
theorem means_of_globMatch (pattern : List Char) (hmark : '?' ∉ pattern) :
    ∀ left text, Continues left →
      globMatch (encodeUtf8 pattern) (left ++ encodeUtf8 text) = true → Means pattern text := by
  induction pattern using pattern_induction with
  | done =>
    intro left text _ h
    obtain ⟨-, htext⟩ := List.append_eq_nil_iff.mp (List.isEmpty_iff.mp h)
    rw [encodeUtf8_eq_nil htext]
    exact .done
  | nowhere pattern ih =>
    have hrest : '?' ∉ pattern := fun hmem => hmark (by simp [hmem])
    intro left text hleft h
    rw [globMatch_nowhere, Bool.or_eq_true] at h
    rcases h with h | h
    · exact .nowhere (ih hrest left text hleft h)
    · have hslash : ∀ left text, Continues left →
          globMatch (encodeUtf8 ('/' :: pattern)) (left ++ encodeUtf8 text) = true →
            Means ('/' :: pattern) text := by
        intro left text hleft h
        obtain ⟨-, rest, rfl, hmatch⟩ := (globMatch_char (by decide) pattern hleft text).mp h
        exact .same '/' (by decide) (ih hrest [] rest continues_nil hmatch)
      obtain ⟨run, rest, rfl, -, hmeans⟩ := afterStar_run hslash hleft h
      exact .across run hmeans
  | across pattern hslash ih =>
    have hrest : '?' ∉ pattern := fun hmem => hmark (by simp [hmem])
    intro left text hleft h
    rw [globMatch_across hslash] at h
    obtain ⟨run, rest, rfl, -, hmeans⟩ := afterStar_run (ih hrest) hleft h
    exact .across run hmeans
  | within pattern hstar ih =>
    have hrest : '?' ∉ pattern := fun hmem => hmark (by simp [hmem])
    intro left text hleft h
    rw [globMatch_within hstar] at h
    obtain ⟨run, rest, rfl, hrun, hmeans⟩ := afterStar_run (ih hrest) hleft h
    exact .within run hstar (hrun rfl) hmeans
  | mark pattern ih => exact absurd List.mem_cons_self hmark
  | char c pattern hc ih =>
    have hrest : '?' ∉ pattern := fun hmem => hmark (List.mem_cons_of_mem _ hmem)
    intro left text hleft h
    obtain ⟨-, rest, rfl, hmatch⟩ := (globMatch_char hc pattern hleft text).mp h
    exact .same c hc (ih hrest [] rest continues_nil hmatch)

theorem afterStar_of_run {double : Bool} {next : List UInt8 → Bool} {run text : List Char}
    (hrun : double = false → '/' ∉ run) (h : next (encodeUtf8 text) = true) :
    afterStar double next (encodeUtf8 (run ++ text)) = true := by
  refine tryRests_iff.mpr ⟨encodeUtf8 run, encodeUtf8 text, encodeUtf8_append run text, ?_, h⟩
  intro byte hbyte
  cases double with
  | true => rfl
  | false =>
    rw [Bool.not_false, Bool.true_and, decide_eq_false_iff_not]
    rintro rfl
    obtain ⟨c, hc, hmem⟩ := List.mem_flatMap.mp hbyte
    rw [utf8EncodeChar_byte (d := '/') (by decide) hmem] at hc
    exact hrun rfl hc

/-- **What a pattern without question marks means, it matches.** -/
theorem globMatch_of_means {pattern text : List Char} (h : Means pattern text)
    (hmark : '?' ∉ pattern) : globMatch (encodeUtf8 pattern) (encodeUtf8 text) = true := by
  induction h with
  | done => rfl
  | nowhere h ih =>
    rw [globMatch_nowhere, ih (fun hmem => hmark (by simp [hmem])), Bool.true_or]
  | @across pattern text run h ih =>
    have hmatch := ih fun hmem => hmark (by simp [hmem])
    have hfree : true = false → '/' ∉ run := fun hdouble => by cases hdouble
    by_cases hslash : pattern.head? = some '/'
    · obtain ⟨rest, rfl⟩ := List.head?_eq_some_iff.mp hslash
      rw [globMatch_nowhere, afterStar_of_run hfree hmatch, Bool.or_true]
    · rw [globMatch_across hslash]
      exact afterStar_of_run hfree hmatch
  | within run hstar hrun h ih =>
    rw [globMatch_within hstar]
    exact afterStar_of_run (fun _ => hrun) (ih fun hmem => hmark (by simp [hmem]))
  | one c hc h ih => exact absurd List.mem_cons_self hmark
  | same c hc h ih =>
    have hmatch := ih fun hmem => hmark (List.mem_cons_of_mem _ hmem)
    exact (globMatch_char hc _ continues_nil _).mpr ⟨rfl, _, rfl, hmatch⟩

/-! ### Question marks -/

theorem shortest_nowhere (pattern : List Char) :
    shortest ('*' :: '*' :: '/' :: pattern) = shortest pattern := rfl

theorem shortest_mark (pattern : List Char) :
    shortest ('?' :: pattern) = '/' :: shortest pattern := rfl

/-- The other clauses of the shortest path. -/
theorem shortest_clauses (pattern : List Char) :
    (pattern.head? ≠ some '/' → shortest ('*' :: '*' :: pattern) = shortest pattern) ∧
    (pattern.head? ≠ some '*' → shortest ('*' :: pattern) = shortest pattern) ∧
    ∀ c, c ≠ '*' ∧ c ≠ '?' → shortest (c :: pattern) = c :: shortest pattern := by
  refine ⟨fun h => ?_, fun h => ?_, fun c hc => ?_⟩
  · rw [shortest]
    rintro rest rfl
    exact h rfl
  · rw [shortest]
    · rintro rest rfl
      exact h rfl
    · rintro rest rfl
      exact h rfl
  · rw [shortest]
    · exact fun _ h => absurd h hc.1
    · exact fun _ h => absurd h hc.1
    · exact hc.1
    · exact hc.2

theorem shortest_across {pattern : List Char} (h : pattern.head? ≠ some '/') :
    shortest ('*' :: '*' :: pattern) = shortest pattern := (shortest_clauses pattern).1 h

theorem shortest_within {pattern : List Char} (h : pattern.head? ≠ some '*') :
    shortest ('*' :: pattern) = shortest pattern := (shortest_clauses pattern).2.1 h

theorem shortest_char {c : Char} (hc : c ≠ '*' ∧ c ≠ '?') (pattern : List Char) :
    shortest (c :: pattern) = c :: shortest pattern := (shortest_clauses pattern).2.2 c hc

/-- A pattern means no path that is shorter than its shortest one, and not the shortest
    one if that stands for a question mark by a separator. -/
theorem means_shortest {pattern text : List Char} (h : Means pattern text) :
    (shortest pattern).length ≤ text.length ∧ (text = shortest pattern → '?' ∉ pattern) := by
  -- behind a run the rest is not longer, and so the run is empty
  have hempty : ∀ {run text path : List Char}, path.length ≤ text.length → run ++ text = path →
      text = path := by
    intro run text path hle heq
    have hlength := congrArg List.length heq
    rw [List.length_append] at hlength
    rw [List.length_eq_zero_iff.mp (by omega : run.length = 0), List.nil_append] at heq
    exact heq
  induction h with
  | done => exact ⟨Nat.le_refl _, fun _ => List.not_mem_nil⟩
  | nowhere h ih =>
    rw [shortest_nowhere]
    refine ⟨ih.1, fun htext => ?_⟩
    simp [ih.2 htext]
  | @across pattern text run h ih =>
    rw [List.length_append]
    by_cases hslash : pattern.head? = some '/'
    · obtain ⟨rest, rfl⟩ := List.head?_eq_some_iff.mp hslash
      rw [shortest_char (by decide), List.length_cons] at ih
      rw [shortest_nowhere]
      refine ⟨by omega, fun htext => ?_⟩
      have hlength := congrArg List.length htext
      rw [List.length_append] at hlength
      omega
    · rw [shortest_across hslash]
      refine ⟨by omega, fun htext => ?_⟩
      simp [ih.2 (hempty ih.1 htext)]
  | within run hstar hrun h ih =>
    rw [List.length_append, shortest_within hstar]
    refine ⟨by omega, fun htext => ?_⟩
    simp [ih.2 (hempty ih.1 htext)]
  | one c hc h ih =>
    rw [shortest_mark, List.length_cons, List.length_cons]
    refine ⟨by omega, fun htext => ?_⟩
    exact absurd (List.cons.inj htext).1 hc
  | same c hc h ih =>
    rw [shortest_char hc, List.length_cons, List.length_cons]
    refine ⟨by omega, fun htext => ?_⟩
    simp [ih.2 (List.cons.inj htext).2, hc.2.symm]

/-- The matcher takes the shortest path. -/
theorem globMatch_shortest (pattern : List Char) :
    globMatch (encodeUtf8 pattern) (encodeUtf8 (shortest pattern)) = true := by
  induction pattern using pattern_induction with
  | done => rfl
  | nowhere pattern ih => rw [shortest_nowhere, globMatch_nowhere, ih, Bool.true_or]
  | across pattern hslash ih =>
    rw [shortest_across hslash, globMatch_across hslash]
    exact afterStar_of_run (fun _ => List.not_mem_nil (a := '/')) ih
  | within pattern hstar ih =>
    rw [shortest_within hstar, globMatch_within hstar]
    exact afterStar_of_run (fun _ => List.not_mem_nil (a := '/')) ih
  | mark pattern ih =>
    have hbytes : encodeUtf8 ('?' :: pattern) = 63 :: encodeUtf8 pattern := rfl
    have hpath : encodeUtf8 ('/' :: shortest pattern) = 47 :: encodeUtf8 (shortest pattern) := rfl
    rw [shortest_mark, hbytes, hpath, globMatch_cons (by decide), ih]
    rfl
  | char c pattern hc ih =>
    rw [shortest_char hc]
    exact (globMatch_char hc pattern continues_nil _).mpr ⟨rfl, _, rfl, ih⟩

/-! ### Globs -/

/-- The pattern matches exactly the paths that it means. -/
def MatchesMeaning (matcher : GlobMatcher) : Prop :=
  ∀ candidate, matcher.matches candidate = true ↔ Means matcher.pattern (slashes candidate)

theorem mem_shortest {pattern : List Char} {c : Char} (h : c ∈ shortest pattern) :
    c ∈ pattern ∨ c = '/' := by
  induction pattern using pattern_induction with
  | done => cases h
  | nowhere pattern ih =>
    rw [shortest_nowhere] at h
    exact (ih h).imp_left fun hmem => by simp [hmem]
  | across pattern hslash ih =>
    rw [shortest_across hslash] at h
    exact (ih h).imp_left fun hmem => by simp [hmem]
  | within pattern hstar ih =>
    rw [shortest_within hstar] at h
    exact (ih h).imp_left fun hmem => by simp [hmem]
  | mark pattern ih =>
    rw [shortest_mark] at h
    rcases List.mem_cons.mp h with rfl | h
    · exact .inr rfl
    · exact (ih h).imp_left fun hmem => by simp [hmem]
  | char d pattern hc ih =>
    rw [shortest_char hc] at h
    rcases List.mem_cons.mp h with rfl | h
    · exact .inl List.mem_cons_self
    · exact (ih h).imp_left fun hmem => by simp [hmem]

theorem slashes_no_backslash (text : String) : '\\' ∉ slashes text := by
  intro hmem
  obtain ⟨c, -, hc⟩ := List.mem_map.mp hmem
  split_ifs at hc with hslash
  · cases hc
  · exact hslash hc

theorem slashes_of_no_backslash {path : List Char} (h : '\\' ∉ path) :
    slashes (String.ofList path) = path := by
  rw [slashes, String.toList_ofList]
  refine (List.map_congr_left fun c hc => ?_).trans (List.map_id path)
  rw [if_neg]
  · rfl
  · rintro rfl
    exact h hc

theorem mark_mem_slashes (text : String) : '?' ∈ slashes text ↔ '?' ∈ text.toList := by
  constructor
  · intro hmem
    obtain ⟨c, hc, heq⟩ := List.mem_map.mp hmem
    split_ifs at heq
    · cases heq
    · exact heq ▸ hc
  · exact fun hmem => List.mem_map.mpr ⟨'?', hmem, rfl⟩

end Tea.Contract
