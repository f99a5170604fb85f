/-
  Tea/Encoding/Codes.lean
  =======================
  **Codes that a front reads back.**  Fronts are put together from smaller ones; each keeps its
  answer when more input follows (`Steady`), and reads what was written for an item, whatever
  follows (`Reads`).  A stream of codes that was cut off at any place gives the items of the
  codes that are whole (`delivered_codes`).
-/
import Tea.Encoding.Incremental

namespace Tea.Encoding

variable {α β γ : Type}

/-! ### Fronts from fronts -/

namespace Front

def done (item : β) : Front α β := fun _ => some (item, 0)

def next : Front α α
  | [] => none
  | symbol :: _ => some (symbol, 1)

def taking (count : Nat) : Front α (List α) := fun input =>
  if count ≤ input.length then some (input.take count, count) else none

def andThen (front : Front α β) (after : β → Front α γ) : Front α γ := fun input =>
  (front input).bind fun found =>
    (after found.1 (input.drop found.2)).map fun last => (last.1, found.2 + last.2)

/-- The items that a check accepts, as what it makes of them. -/
def keep (front : Front α β) (check : β → Option γ) : Front α γ := fun input =>
  (front input).bind fun found => (check found.1).map fun item => (item, found.2)

/-- The front that the first symbol chooses; it reads the symbol again. -/
def choose (front : α → Front α β) : Front α β
  | [] => none
  | symbol :: rest => front symbol (symbol :: rest)

/-- What stands in front of the first `stop`, which is taken too. -/
def upTo [DecidableEq α] (stop : α) : Front α (List α)
  | [] => none
  | symbol :: rest =>
    if symbol = stop then some ([], 1)
    else (upTo stop rest).map fun found => (symbol :: found.1, found.2 + 1)

def times (front : Front α β) : Nat → Front α (List β)
  | 0 => done []
  | count + 1 =>
    front.andThen fun item => (times front count).keep fun items => some (item :: items)

end Front

/-! ### Steady fronts -/

/-- An item lies within the input, and stays when more input follows. -/
structure Steady (front : Front α β) : Prop where
  within : ∀ {input item n}, front input = some (item, n) → n ≤ input.length
  stable : ∀ {input item n}, front input = some (item, n) →
    ∀ more, front (input ++ more) = some (item, n)

theorem steady_done (item : β) : Steady (Front.done item : Front α β) := by
  constructor
  · intro input item' n h
    cases h
    exact Nat.zero_le _
  · intro input item' n h more
    exact h

theorem steady_next : Steady (Front.next : Front α α) := by
  constructor
  · intro input item n h
    cases input with
    | nil => cases h
    | cons symbol rest =>
      cases h
      exact Nat.succ_pos _
  · intro input item n h more
    cases input with
    | nil => cases h
    | cons symbol rest => exact h

theorem steady_taking (count : Nat) : Steady (Front.taking count : Front α (List α)) := by
  constructor
  · intro input item n h
    unfold Front.taking at h
    split_ifs at h with hle
    simp only [Option.some.injEq, Prod.mk.injEq] at h
    omega
  · intro input item n h more
    unfold Front.taking at h ⊢
    split_ifs at h with hle
    rw [if_pos (by rw [List.length_append]; omega), List.take_append_of_le_length hle]
    exact h

theorem Steady.andThen {front : Front α β} {after : β → Front α γ} (h : Steady front)
    (hafter : ∀ item, Steady (after item)) : Steady (front.andThen after) := by
  constructor
  · intro input item n hitem
    obtain ⟨found, hfound, hlast⟩ := Option.bind_eq_some_iff.mp hitem
    obtain ⟨last, hlast, heq⟩ := Option.map_eq_some_iff.mp hlast
    have hwithin := h.within hfound
    have hlastWithin := (hafter found.1).within hlast
    rw [List.length_drop] at hlastWithin
    simp only [Prod.mk.injEq] at heq
    omega
  · intro input item n hitem more
    obtain ⟨found, hfound, hlast⟩ := Option.bind_eq_some_iff.mp hitem
    obtain ⟨last, hlast, heq⟩ := Option.map_eq_some_iff.mp hlast
    unfold Front.andThen
    rw [h.stable hfound more, Option.bind_some,
      List.drop_append_of_le_length (h.within hfound), (hafter found.1).stable hlast more,
      Option.map_some, heq]

theorem Steady.keep {front : Front α β} (h : Steady front) (check : β → Option γ) :
    Steady (front.keep check) := by
  constructor
  · intro input item n hitem
    obtain ⟨found, hfound, hchecked⟩ := Option.bind_eq_some_iff.mp hitem
    obtain ⟨kept, hkept, heq⟩ := Option.map_eq_some_iff.mp hchecked
    have hwithin := h.within hfound
    simp only [Prod.mk.injEq] at heq
    omega
  · intro input item n hitem more
    obtain ⟨found, hfound, hchecked⟩ := Option.bind_eq_some_iff.mp hitem
    unfold Front.keep
    rw [h.stable hfound more, Option.bind_some]
    exact hchecked

theorem steady_choose {front : α → Front α β} (h : ∀ symbol, Steady (front symbol)) :
    Steady (Front.choose front) := by
  constructor
  · intro input item n hitem
    cases input with
    | nil => cases hitem
    | cons symbol rest => exact (h symbol).within hitem
  · intro input item n hitem more
    cases input with
    | nil => cases hitem
    | cons symbol rest => exact (h symbol).stable hitem more

theorem steady_upTo [DecidableEq α] (stop : α) : Steady (Front.upTo stop) := by
  constructor
  · intro input
    induction input with
    | nil =>
      intro item n h
      cases h
    | cons symbol rest ih =>
      intro item n h
      rw [Front.upTo] at h
      split_ifs at h with hstop
      · cases h
        exact Nat.succ_pos _
      · obtain ⟨found, hfound, heq⟩ := Option.map_eq_some_iff.mp h
        have hwithin := ih hfound
        simp only [Prod.mk.injEq] at heq
        rw [List.length_cons]
        omega
  · intro input
    induction input with
    | nil =>
      intro item n h
      cases h
    | cons symbol rest ih =>
      intro item n h more
      rw [Front.upTo] at h
      rw [List.cons_append, Front.upTo]
      split_ifs at h ⊢ with hstop
      · exact h
      · obtain ⟨found, hfound, heq⟩ := Option.map_eq_some_iff.mp h
        rw [ih hfound more, Option.map_some, heq]

theorem Steady.times {front : Front α β} (h : Steady front) (count : Nat) :
    Steady (front.times count) := by
  induction count with
  | zero => exact steady_done []
  | succ count ih => exact h.andThen fun item => ih.keep _

/-! ### Codes -/

/-- The front takes the item back from its code, whatever follows. -/
def Reads (front : Front α β) (item : β) (code : List α) : Prop :=
  ∀ more, front (code ++ more) = some (item, code.length)

theorem reads_done (item : β) : Reads (Front.done item : Front α β) item [] := fun _ => rfl

theorem reads_next (symbol : α) : Reads Front.next symbol [symbol] := fun _ => rfl

theorem reads_taking (code : List α) : Reads (Front.taking code.length) code code := by
  intro more
  simp [Front.taking]

theorem Reads.andThen {front : Front α β} {after : β → Front α γ} {item : β} {last : γ}
    {code code' : List α} (h : Reads front item code) (hafter : Reads (after item) last code') :
    Reads (front.andThen after) last (code ++ code') := by
  intro more
  unfold Front.andThen
  rw [List.append_assoc, h, Option.bind_some, List.drop_left, hafter, Option.map_some,
    List.length_append]

theorem Reads.keep {front : Front α β} {check : β → Option γ} {item : β} {kept : γ}
    {code : List α} (h : Reads front item code) (hcheck : check item = some kept) :
    Reads (front.keep check) kept code := by
  intro more
  unfold Front.keep
  rw [h, Option.bind_some, hcheck, Option.map_some]

theorem Reads.choose {front : α → Front α β} {symbol : α} {item : β} {code : List α}
    (h : Reads (front symbol) item (symbol :: code)) :
    Reads (Front.choose front) item (symbol :: code) := h

theorem reads_upTo [DecidableEq α] {stop : α} {line : List α} (h : stop ∉ line) :
    Reads (Front.upTo stop) line (line ++ [stop]) := by
  intro more
  induction line with
  | nil => simp [Front.upTo]
  | cons symbol line ih =>
    rw [List.mem_cons, not_or] at h
    rw [List.cons_append, List.cons_append, Front.upTo, if_neg (Ne.symm h.1), ih h.2]
    rfl

theorem Reads.times {front : Front α β} {write : β → List α} {items : List β}
    (h : ∀ item ∈ items, Reads front item (write item)) :
    Reads (front.times items.length) items (items.flatMap write) := by
  induction items with
  | nil => exact reads_done []
  | cons item items ih =>
    obtain ⟨hitem, hitems⟩ := List.forall_mem_cons.mp h
    exact hitem.andThen ((ih hitems).keep rfl)

/-- Nothing is read from a part of a code. -/
theorem Reads.part_none {front : Front α β} (hsteady : Steady front) {item : β}
    {part more : List α} (h : Reads front item (part ++ more)) (hmore : more ≠ []) :
    front part = none := by
  cases hpart : front part with
  | none => rfl
  | some found =>
    have hwithin := hsteady.within hpart
    have hwhole := h []
    rw [List.append_nil, hsteady.stable hpart more, Option.some.injEq] at hwhole
    have hlength := congrArg Prod.snd hwhole
    have hpos := List.length_pos_iff.mpr hmore
    simp only [List.length_append] at hlength
    omega

/-! ### Streams of codes -/

/-- Every item takes a symbol. -/
def Taking (front : Front α β) : Prop :=
  ∀ input item n, front input = some (item, n) → 0 < n

theorem taking_next : Taking (Front.next : Front α α) := by
  intro input item n h
  cases input with
  | nil => cases h
  | cons symbol rest =>
    cases h
    exact Nat.one_pos

theorem taking_upTo [DecidableEq α] (stop : α) : Taking (Front.upTo stop) := by
  intro input item n h
  cases input with
  | nil => cases h
  | cons symbol rest =>
    rw [Front.upTo] at h
    split_ifs at h
    · cases h
      exact Nat.one_pos
    · obtain ⟨found, -, heq⟩ := Option.map_eq_some_iff.mp h
      cases heq
      exact Nat.succ_pos _

theorem Taking.andThen {front : Front α β} (h : Taking front) (after : β → Front α γ) :
    Taking (front.andThen after) := by
  intro input item n hitem
  obtain ⟨found, hfound, hlast⟩ := Option.bind_eq_some_iff.mp hitem
  obtain ⟨last, -, heq⟩ := Option.map_eq_some_iff.mp hlast
  cases heq
  exact Nat.add_pos_left (h _ _ _ hfound) _

theorem Taking.keep {front : Front α β} (h : Taking front) (check : β → Option γ) :
    Taking (front.keep check) := by
  intro input item n hitem
  obtain ⟨found, hfound, hchecked⟩ := Option.bind_eq_some_iff.mp hitem
  obtain ⟨kept, -, heq⟩ := Option.map_eq_some_iff.mp hchecked
  cases heq
  exact h _ _ _ hfound

theorem Steady.incremental {front : Front α β} (h : Steady front) (htaking : Taking front) :
    Incremental front where
  consumes := fun hitem => ⟨htaking _ _ _ hitem, h.within hitem⟩
  stable := h.stable

theorem Incremental.steady {front : Front α β} (h : Incremental front) : Steady front where
  within := fun hitem => (h.consumes hitem).2
  stable := h.stable

theorem delivered_nil (front : Front α β) : delivered front [] = [] := rfl

section

variable {front : Front α β} (hf : Incremental front)

include hf

theorem delivered_code {item : β} {code more : List α} (h : Reads front item code) :
    delivered front (code ++ more) = item :: delivered front more := by
  rw [delivered_of_some hf (h more), List.drop_left]

theorem delivered_flatMap {write : γ → List α} {read : γ → β} {sources : List γ}
    (h : ∀ source ∈ sources, Reads front (read source) (write source)) (more : List α) :
    delivered front (sources.flatMap write ++ more) =
      sources.map read ++ delivered front more := by
  induction sources with
  | nil => rfl
  | cons source sources ih =>
    obtain ⟨hsource, hsources⟩ := List.forall_mem_cons.mp h
    rw [List.flatMap_cons, List.append_assoc, delivered_code hf hsource, ih hsources,
      List.map_cons, List.cons_append]

/-- **A stream of codes that is cut off** gives the items whose codes are whole. -/
theorem delivered_codes {write : γ → List α} {read : γ → β} {sources : List γ}
    (h : ∀ source ∈ sources, Reads front (read source) (write source)) {part more : List α}
    (hpart : sources.flatMap write = part ++ more) :
    ∃ whole rest, sources = whole ++ rest ∧ delivered front part = whole.map read ∧
      (whole.flatMap write).length ≤ part.length ∧
      ∀ first ∈ rest.head?, part.length < (whole.flatMap write ++ write first).length := by
  induction sources generalizing part with
  | nil =>
    rw [List.flatMap_nil, eq_comm, List.append_eq_nil_iff] at hpart
    refine ⟨[], [], rfl, ?_, Nat.zero_le _, by simp⟩
    rw [hpart.1]
    rfl
  | cons source sources ih =>
    obtain ⟨hsource, hsources⟩ := List.forall_mem_cons.mp h
    rw [List.flatMap_cons] at hpart
    rcases List.append_eq_append_iff.mp hpart with ⟨tail, htail, hrest⟩ | ⟨tail, htail, hrest⟩
    · -- the first code is whole
      obtain ⟨whole, rest, hsplit, hdelivered, hle, hlt⟩ := ih hsources hrest
      refine ⟨source :: whole, rest, by rw [hsplit, List.cons_append], ?_, ?_, ?_⟩
      · rw [htail, delivered_code hf hsource, hdelivered, List.map_cons]
      · rw [htail, List.flatMap_cons, List.length_append, List.length_append]
        omega
      · intro first hfirst
        have := hlt first hfirst
        rw [htail, List.flatMap_cons]
        simp only [List.length_append] at this ⊢
        omega
    · rcases eq_or_ne tail [] with rfl | hne
      · -- the stream ends behind the first code
        rw [List.append_nil] at htail
        rw [List.nil_append] at hrest
        refine ⟨[source], sources, rfl, ?_, ?_, ?_⟩
        · have hcode : delivered front (write source ++ []) = read source :: delivered front [] :=
            delivered_code hf hsource
          rw [List.append_nil] at hcode
          rw [← htail, hcode]
          rfl
        · rw [List.flatMap_cons, List.flatMap_nil, List.append_nil, htail]
        · intro first hfirst
          rw [List.flatMap_cons, List.flatMap_nil, List.append_nil, htail, List.length_append]
          have hmem : first ∈ sources := List.mem_of_mem_head? hfirst
          have hpos := (hf.consumes (hsources first hmem [])).1
          omega
      · refine ⟨[], source :: sources, rfl, ?_, Nat.zero_le _, ?_⟩
        · rw [htail] at hsource
          rw [delivered_of_none (hsource.part_none hf.steady hne), List.map_nil]
        · intro first hfirst
          rw [List.head?_cons, Option.mem_some_iff] at hfirst
          subst hfirst
          have hpos := List.length_pos_iff.mpr hne
          rw [List.flatMap_nil, List.nil_append, htail, List.length_append]
          omega

end

end Tea.Encoding
