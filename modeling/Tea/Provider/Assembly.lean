/-
  Tea/Provider/Assembly.lean
  ==========================
  **What the decoders have collected behind a list of lines.**  A slot holds the call put
  together from the fragments that named it (`slot_assembled`), and the rest of the state
  is what the records gave last (`local_lines`, `openrouter_lines`).
-/

import Tea.Provider.Reading
import Mathlib.Data.List.Basic
import Mathlib.Data.List.ReduceOption

namespace Tea.Provider

open Tea.Core Tea.Encoding

/-! ### Lists -/

/-- The last value that is given, or else the one before. -/
theorem foldl_or {α β : Type} (f : β → Option α) (xs : List β) (first : Option α) :
    xs.foldl (fun found x => (f x).or found) first = ((xs.filterMap f).getLast?).or first := by
  induction xs generalizing first with
  | nil => rfl
  | cons x xs ih =>
    rw [List.foldl_cons, ih, List.filterMap_cons]
    cases f x with
    | none => rfl
    | some a =>
      rw [List.getLast?_cons]
      cases (xs.filterMap f).getLast? with
      | none => rfl
      | some b => rfl

theorem foldl_getD {α β : Type} (f : β → Option α) (xs : List β) (first : α) :
    xs.foldl (fun found x => (f x).getD found) first = ((xs.filterMap f).getLast?).getD first := by
  induction xs generalizing first with
  | nil => rfl
  | cons x xs ih =>
    rw [List.foldl_cons, ih, List.filterMap_cons]
    cases f x with
    | none => rfl
    | some a =>
      rw [List.getLast?_cons]
      rfl

/-- The entries that are present, in the order of their positions. -/
theorem reduceOption_eq_range {α : Type} (l : List (Option α)) :
    l.reduceOption = (List.range l.length).filterMap fun i => (l[i]?).join := by
  induction l using List.reverseRecOn with
  | nil => rfl
  | append_singleton l a ih =>
    have hsame : (List.range l.length).filterMap (fun i => ((l ++ [a])[i]?).join) =
        (List.range l.length).filterMap fun i => (l[i]?).join := by
      apply List.filterMap_congr
      intro i hi
      rw [List.getElem?_append_left (List.mem_range.mp hi)]
    rw [List.reduceOption_append, List.length_append, List.length_singleton, List.range_succ,
      List.filterMap_append, hsame, ih]
    cases a with
    | none => simp
    | some a => simp

section

variable {F : Type}

/-! ### Slots -/

/-- The fragments that name a slot, in order. -/
def fragmentsAt (fragments : List (JsonValue F × Nat)) (i : Nat) : List (JsonValue F) :=
  (fragments.filter fun fragment => callIndex fragment.2 fragment.1 = i).map (·.1)

/-- The call of some fragments: the last identifier and name that they give, and their
    arguments one after the other. -/
def assembled (calls : List (JsonValue F)) : StreamingToolCall where
  id := (calls.filterMap fragmentId).getLast?
  name := (calls.filterMap fragmentName).getLast?
  arguments := String.join (calls.filterMap fragmentArguments)

theorem assembled_add (calls : List (JsonValue F)) (call : JsonValue F) :
    (assembled calls).add call = assembled (calls ++ [call]) := by
  unfold assembled StreamingToolCall.add
  congr 1
  · rw [List.filterMap_append]
    cases hid : fragmentId call with
    | none => simp [hid]
    | some id => simp [hid]
  · rw [List.filterMap_append]
    cases hname : fragmentName call with
    | none => simp [hname]
    | some name => simp [hname]
  · rw [List.filterMap_append]
    cases hargs : fragmentArguments call with
    | none => simp [hargs]
    | some arguments => simp [hargs]

theorem growTo_get (toolCalls : List (Option StreamingToolCall)) (index i : Nat) :
    ((growTo toolCalls index)[i]?).join = (toolCalls[i]?).join := by
  unfold growTo
  by_cases hi : i < toolCalls.length
  · rw [List.getElem?_append_left hi]
  · have hnone : toolCalls[i]? = none := List.getElem?_eq_none (by omega)
    rw [List.getElem?_append_right (by omega), hnone, List.getElem?_replicate]
    split_ifs <;> rfl

theorem addFragment_get (toolCalls : List (Option StreamingToolCall))
    (fragment : JsonValue F × Nat) (i : Nat) :
    ((addFragment toolCalls fragment)[i]?).join =
      if callIndex fragment.2 fragment.1 = i then
        some ((((toolCalls[i]?).join).getD {}).add fragment.1)
      else (toolCalls[i]?).join := by
  have hlength : callIndex fragment.2 fragment.1 <
      (growTo toolCalls (callIndex fragment.2 fragment.1)).length := by
    simp only [growTo, List.length_append, List.length_replicate]
    omega
  unfold addFragment
  dsimp only
  split_ifs with hi
  · rw [hi] at hlength ⊢
    rw [List.getElem?_set_self hlength, growTo_get]
    rfl
  · rw [List.getElem?_set_ne hi, growTo_get]

/-- **A slot** holds the call of the fragments that named it, if there are any. -/
theorem slot_assembled (fragments : List (JsonValue F × Nat)) (i : Nat) :
    ((fragments.foldl addFragment [])[i]?).join =
      if fragmentsAt fragments i = [] then none
      else some (assembled (fragmentsAt fragments i)) := by
  induction fragments using List.reverseRecOn with
  | nil => rfl
  | append_singleton fragments fragment ih =>
    rw [List.foldl_append, List.foldl_cons, List.foldl_nil, addFragment_get, ih]
    have hat : fragmentsAt (fragments ++ [fragment]) i = fragmentsAt fragments i ++
        if callIndex fragment.2 fragment.1 = i then [fragment.1] else [] := by
      unfold fragmentsAt
      split_ifs with hi
      · simp [hi]
      · simp [hi]
    by_cases hi : callIndex fragment.2 fragment.1 = i
    · rw [if_pos hi] at hat ⊢
      have hsome : fragmentsAt fragments i ++ [fragment.1] ≠ [] := by simp
      rw [hat, ← assembled_add]
      simp only [hsome, if_false]
      by_cases hnone : fragmentsAt fragments i = []
      · rw [if_pos hnone, hnone]
        rfl
      · rw [if_neg hnone]
        rfl
    · rw [if_neg hi] at hat ⊢
      rw [hat, List.append_nil]

/-- The slots that fragments name, in ascending order. -/
def slotsOf (fragments : List (JsonValue F × Nat)) : List Nat :=
  (List.range (fragments.foldl addFragment []).length).filter fun i =>
    fragmentsAt fragments i ≠ []

theorem slotsOf_ascending (fragments : List (JsonValue F × Nat)) :
    (slotsOf fragments).Pairwise (· < ·) :=
  List.Pairwise.filter _ List.pairwise_lt_range

/-- A slot is among them if some fragment names it. -/
theorem mem_slotsOf {fragments : List (JsonValue F × Nat)} {i : Nat} :
    i ∈ slotsOf fragments ↔ ∃ fragment ∈ fragments, callIndex fragment.2 fragment.1 = i := by
  have hnamed : fragmentsAt fragments i ≠ [] ↔
      ∃ fragment ∈ fragments, callIndex fragment.2 fragment.1 = i := by
    simp [fragmentsAt, List.filter_eq_nil_iff]
  rw [← hnamed, slotsOf, List.mem_filter, List.mem_range, decide_eq_true_eq]
  constructor
  · rintro ⟨-, h⟩
    exact h
  · intro h
    refine ⟨?_, h⟩
    by_contra hout
    have hslot := slot_assembled fragments i
    rw [if_neg h, List.getElem?_eq_none (by omega)] at hslot
    cases hslot

/-- **The calls** are those of the named slots, in ascending order. -/
theorem reduceOption_fragments (fragments : List (JsonValue F × Nat)) :
    (fragments.foldl addFragment []).reduceOption =
      (slotsOf fragments).map fun i => assembled (fragmentsAt fragments i) := by
  rw [reduceOption_eq_range, slotsOf]
  induction List.range (fragments.foldl addFragment []).length with
  | nil => rfl
  | cons i indexes ih =>
    rw [List.filterMap_cons, List.filter_cons, slot_assembled, ih]
    by_cases h : fragmentsAt fragments i = []
    · simp [h]
    · simp [h]

theorem any_isSome {α : Type} (l : List (Option α)) :
    l.any (·.isSome) = true ↔ l.reduceOption ≠ [] := by
  induction l with
  | nil => simp
  | cons a l ih =>
    cases a with
    | none => simpa using ih
    | some a => simp

/-- There is a call exactly if there is a fragment. -/
theorem hasToolCalls_fragments (fragments : List (JsonValue F × Nat)) :
    (fragments.foldl addFragment []).any (·.isSome) = true ↔ fragments ≠ [] := by
  rw [any_isSome, reduceOption_fragments, ne_eq, ne_eq, List.map_eq_nil_iff, not_iff_not]
  constructor
  · intro hslots
    by_contra hne
    obtain ⟨fragment, hfragment⟩ := List.exists_mem_of_ne_nil _ hne
    have hmem := mem_slotsOf.mpr ⟨fragment, hfragment, rfl⟩
    rw [hslots] at hmem
    cases hmem
  · rintro rfl
    rfl

/-! ### Lines -/

variable (choiceDelta : JsonValue F → Option (List (String × JsonValue F)))
  (usageOf : JsonValue F → Option (JsonValue F))

/-- What a record adds, with its delta and its usage where an adapter finds them. -/
def collect (d : Assembly F) (chunk : JsonValue F) : Assembly F where
  toolCalls := (deltaCalls (recordDelta choiceDelta chunk)).foldl addFragment d.toolCalls
  finishReason := (recordReason chunk).or d.finishReason
  usage := (usageOf chunk).getD d.usage
  sawData := true
  sawDone := d.sawDone

/-- The fragments of some records. -/
def recordCalls (records : List (JsonValue F)) : List (JsonValue F × Nat) :=
  records.flatMap fun chunk => deltaCalls (recordDelta choiceDelta chunk)

theorem collect_foldl (records : List (JsonValue F)) (d : Assembly F) :
    records.foldl (collect choiceDelta usageOf) d =
      { toolCalls := (recordCalls choiceDelta records).foldl addFragment d.toolCalls
        finishReason := ((records.filterMap recordReason).getLast?).or d.finishReason
        usage := ((records.filterMap usageOf).getLast?).getD d.usage
        sawData := d.sawData || !records.isEmpty
        sawDone := d.sawDone } := by
  induction records generalizing d with
  | nil => simp [recordCalls]
  | cons chunk records ih =>
    rw [List.foldl_cons, ih]
    congr 1
    · rw [recordCalls, recordCalls, List.flatMap_cons, List.foldl_append]
      rfl
    · rw [← foldl_or, ← foldl_or]
      rfl
    · rw [← foldl_getD, ← foldl_getD]
      rfl
    · simp [collect]

variable (parse : String → Option (JsonValue F))

/-- The records among some lines. -/
def recordsOf (lines : List (List UInt8)) : List (JsonValue F) :=
  lines.filterMap fun line =>
    match readLine parse line with
    | .record _ chunk => some chunk
    | _ => none

def isDone (line : List UInt8) : Bool :=
  match readLine parse line with
  | .done => true
  | _ => false

/-- A decoder that collects the records, in the part of its state that `view` shows. -/
def Collects {σ : Type} (process : List UInt8 → σ → σ × Except String (List ModelStreamEvent))
    (view : σ → Assembly F) : Prop :=
  ∀ line state,
    match readLine parse line with
    | .skipped => view (process line state).1 = view state ∧ (process line state).2 = .ok []
    | .done =>
        view (process line state).1 = { view state with sawDone := true } ∧
          (process line state).2 = .ok []
    | .record _ chunk =>
        view (process line state).1 = collect choiceDelta usageOf (view state) chunk ∧
          (process line state).2 = .ok (deltaEvents (recordDelta choiceDelta chunk))
    | .rejected _ => ∃ error, (process line state).2 = .error error

theorem local_collects :
    Collects LocalSse.choiceDelta recordUsage parse (LocalSse.processLine parse) id := by
  intro line d
  have hline := local_processLine parse line d
  cases hread : readLine parse line with
  | skipped =>
    simp only [hread] at hline
    simp [hline]
  | done =>
    simp only [hread] at hline
    simp [hline]
  | record text chunk =>
    simp only [hread] at hline
    simp [hline, local_reduce, collect]
  | rejected sawData =>
    simp only [hread] at hline
    obtain ⟨error, hline⟩ := hline
    simp [hline]

theorem openrouter_collects :
    Collects OpenRouterSse.choiceDelta (·.get "usage") parse (OpenRouterSse.processLine parse)
      (·.toAssembly) := by
  intro line d
  have hline := openrouter_processLine parse line d
  cases hread : readLine parse line with
  | skipped =>
    simp only [hread] at hline
    simp [hline]
  | done =>
    simp only [hread] at hline
    simp [hline]
  | record text chunk =>
    simp only [hread] at hline
    simp [hline, (openrouter_reduce text chunk _).1, (openrouter_reduce text chunk _).2, collect]
  | rejected sawData =>
    simp only [hread] at hline
    obtain ⟨error, hline⟩ := hline
    simp [hline]

variable {choiceDelta usageOf parse}

/-- **Lines that are all accepted** give the content of their records, and the state
    collects the records. -/
theorem Collects.lines {σ : Type}
    {process : List UInt8 → σ → σ × Except String (List ModelStreamEvent)}
    {view : σ → Assembly F} (h : Collects choiceDelta usageOf parse process view)
    {lines : List (List UInt8)}
    (haccepted : ∀ line ∈ lines, (readLine parse line).isAccepted = true) (state : σ) :
    (processLines process state lines).2.2 = none ∧
      (processLines process state lines).2.1 = (recordsOf parse lines).flatMap (fun chunk =>
        deltaEvents (recordDelta choiceDelta chunk)) ∧
      view (processLines process state lines).1 =
        { (recordsOf parse lines).foldl (collect choiceDelta usageOf) (view state) with
          sawDone := (view state).sawDone || lines.any (isDone parse) } := by
  induction lines generalizing state with
  | nil => simp [processLines, recordsOf]
  | cons line lines ih =>
    rw [List.forall_mem_cons] at haccepted
    obtain ⟨hfirst, hrest⟩ := haccepted
    have hline := h line state
    rw [processLines]
    cases hprocess : process line state with
    | mk state' result =>
      rw [hprocess] at hline
      obtain ⟨herror, hevents, hview⟩ := ih hrest state'
      cases hread : readLine parse line with
      | skipped =>
        simp only [hread] at hline
        obtain ⟨hsame, rfl⟩ := hline
        have hrecords : recordsOf parse (line :: lines) = recordsOf parse lines := by
          simp [recordsOf, hread]
        refine ⟨herror, ?_, ?_⟩
        · rw [hrecords]
          exact hevents
        · rw [hrecords, ← hsame]
          simpa [isDone, hread] using hview
      | done =>
        simp only [hread] at hline
        obtain ⟨hsame, rfl⟩ := hline
        have hrecords : recordsOf parse (line :: lines) = recordsOf parse lines := by
          simp [recordsOf, hread]
        refine ⟨herror, ?_, ?_⟩
        · rw [hrecords]
          exact hevents
        · rw [hrecords]
          rw [hsame] at hview
          simp only [collect_foldl] at hview ⊢
          simpa [isDone, hread] using hview
      | record text chunk =>
        simp only [hread] at hline
        obtain ⟨hsame, rfl⟩ := hline
        have hrecords : recordsOf parse (line :: lines) = chunk :: recordsOf parse lines := by
          simp [recordsOf, hread]
        refine ⟨herror, ?_, ?_⟩
        · rw [hrecords, List.flatMap_cons]
          exact congrArg _ hevents
        · rw [hrecords, List.foldl_cons]
          rw [hsame] at hview
          simpa [isDone, hread, collect] using hview
      | rejected sawData =>
        rw [hread] at hfirst
        cases hfirst

/-- A rejected line is an error. -/
theorem Collects.rejects {σ : Type}
    {process : List UInt8 → σ → σ × Except String (List ModelStreamEvent)}
    {view : σ → Assembly F} (h : Collects choiceDelta usageOf parse process view)
    {lines : List (List UInt8)} {line : List UInt8} (hline : line ∈ lines)
    (hrejected : (readLine parse line).isAccepted = false) (state : σ) :
    (processLines process state lines).2.2 ≠ none := by
  induction lines generalizing state with
  | nil => cases hline
  | cons first lines ih =>
    have hfirst := h first state
    rw [processLines]
    cases hprocess : process first state with
    | mk state' result =>
      cases result with
      | error error => simp
      | ok events =>
        rcases List.mem_cons.mp hline with rfl | hrest
        · rw [hprocess] at hfirst
          cases hread : readLine parse line with
          | rejected sawData =>
            simp only [hread] at hfirst
            obtain ⟨error, herror⟩ := hfirst
            cases herror
          | skipped =>
            rw [hread] at hrejected
            cases hrejected
          | done =>
            rw [hread] at hrejected
            cases hrejected
          | record text chunk =>
            rw [hread] at hrejected
            cases hrejected
        · exact ih hrest state'

end

/-! ### Calls -/

/-- The call has a name that is not empty. -/
def isNamed (call : StreamingToolCall) : Bool := (call.name.filter (· ≠ "")).isSome

/-- The call as it is emitted, at a position among the calls. -/
def callOf (vendor : String) (entry : StreamingToolCall × Nat) : AgentToolCall where
  id := callId vendor entry.2 entry.1
  name := entry.1.name.getD ""
  arguments := ⟨entry.1.arguments⟩

theorem toolCallEvent_named {vendor nameless : String} {entry : StreamingToolCall × Nat}
    (h : isNamed entry.1 = true) :
    toolCallEvent vendor nameless entry = .ok (.toolCall (callOf vendor entry)) := by
  unfold isNamed at h
  obtain ⟨name, hname⟩ := Option.isSome_iff_exists.mp h
  have hgiven := (Option.filter_eq_some_iff.mp hname).1
  unfold toolCallEvent callOf
  rw [hname, hgiven]
  rfl

theorem mapM_named {vendor nameless : String} {entries : List (StreamingToolCall × Nat)}
    (h : ∀ entry ∈ entries, isNamed entry.1 = true) :
    entries.mapM (toolCallEvent vendor nameless) =
      .ok (entries.map fun entry => .toolCall (callOf vendor entry)) := by
  induction entries with
  | nil => rfl
  | cons entry entries ih =>
    rw [List.forall_mem_cons] at h
    rw [List.mapM_cons, toolCallEvent_named h.1, ih h.2]
    rfl

theorem mapM_nameless {vendor nameless : String} {entries : List (StreamingToolCall × Nat)}
    (h : ¬ ∀ entry ∈ entries, isNamed entry.1 = true) :
    entries.mapM (toolCallEvent vendor nameless) = .error nameless := by
  induction entries with
  | nil => exact absurd (by simp) h
  | cons entry entries ih =>
    rw [List.mapM_cons]
    by_cases hfirst : isNamed entry.1 = true
    · rw [toolCallEvent_named hfirst, ih]
      · rfl
      · intro hrest
        apply h
        rw [List.forall_mem_cons]
        exact ⟨hfirst, hrest⟩
    · have hnone : entry.1.name.filter (· ≠ "") = none := by
        rw [isNamed, Bool.not_eq_true, Option.isSome_eq_false_iff, Option.isNone_iff_eq_none]
          at hfirst
        exact hfirst
      simp only [toolCallEvent, hnone]
      rfl

theorem forall_zipIdx {calls : List StreamingToolCall} {n : Nat} :
    (∀ entry ∈ calls.zipIdx n, isNamed entry.1 = true) ↔ calls.all isNamed = true := by
  induction calls generalizing n with
  | nil => simp
  | cons call calls ih => rw [List.zipIdx_cons, List.forall_mem_cons, ih, List.all_cons,
      Bool.and_eq_true]

/-- **The events of the calls**: all of them, or an error where one has no name. -/
theorem toolCallEvents_eq (vendor nameless : String)
    (toolCalls : List (Option StreamingToolCall)) :
    toolCallEvents vendor nameless toolCalls =
      if toolCalls.reduceOption.all isNamed then
        .ok (toolCalls.reduceOption.zipIdx.map fun entry => .toolCall (callOf vendor entry))
      else .error nameless := by
  unfold toolCallEvents
  split_ifs with h
  · exact mapM_named (forall_zipIdx.mpr h)
  · exact mapM_nameless fun hall => h (forall_zipIdx.mp hall)

end Tea.Provider
