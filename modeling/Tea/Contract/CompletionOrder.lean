/-
  Tea/Contract/CompletionOrder.lean
  =================================
  **The first completion of each call**, whatever is recorded after it.

  A completion of a call that has one already is rejected, but it is stored before that is
  found out, and the first one is lost.  What is promised of a sequence of completions holds
  just when the completions of each call are all the same (`keepsFirst_iff`).
-/
import Tea.Tools.Completion

namespace Tea.Contract

open Tea.Core Tea.Tools

variable {batch : ToolBatch}

/-! ### Sequences of completions -/

/-- The set behind a sequence of completions. -/
def completedBy (batch : ToolBatch) (completions : List AgentToolResult) : CompletionSet :=
  completions.foldl (fun results result => (batch.recordCompletion results result).2) .empty

/-- The completions that are accepted, from a set on. -/
def completionsFrom (batch : ToolBatch) :
    CompletionSet → List AgentToolResult → List AgentToolResult
  | _, [] => []
  | results, result :: rest =>
      match batch.recordCompletion results result with
      | (.ok (), results) => result :: completionsFrom batch results rest
      | (.error _, results) => completionsFrom batch results rest

def acceptedCompletions (batch : ToolBatch) (completions : List AgentToolResult) :
    List AgentToolResult :=
  completionsFrom batch .empty completions

/-- What is promised of a sequence of completions. -/
structure KeepsFirst (batch : ToolBatch) (completions : List AgentToolResult) : Prop where
  yields : ∀ done, done <+: completions →
    (completedBy batch done).inSourceOrder batch = batch.calls.filterMap fun call =>
      (acceptedCompletions batch done).find? fun result => result.toolCallId = call.call.id
  unchanged : ∀ done result error results, done ++ [result] <+: completions →
    batch.recordCompletion (completedBy batch done) result = (.error error, results) →
      results = completedBy batch done
  reordered : ∀ others, others.Perm completions →
    (acceptedCompletions batch others).Perm (acceptedCompletions batch completions) →
      (completedBy batch others).inSourceOrder batch =
        (completedBy batch completions).inSourceOrder batch

/-- The completions of a call are all the same. -/
def SameAgain (batch : ToolBatch) (completions : List AgentToolResult) : Prop :=
  ∀ result ∈ completions, ∀ other ∈ completions, batch.knows result.toolCallId = true →
    result.toolCallId = other.toolCallId → result = other

/-! ### What is stored -/

theorem completedBy_snoc (done : List AgentToolResult) (result : AgentToolResult) :
    completedBy batch (done ++ [result]) =
      (batch.recordCompletion (completedBy batch done) result).2 :=
  List.foldl_concat _ _ _ _

theorem recordCompletion_snd (results : CompletionSet) (result : AgentToolResult) :
    (batch.recordCompletion results result).2 =
      if batch.knows result.toolCallId then results.put result else results := by
  rw [ToolBatch.recordCompletion]
  split_ifs with hknown
  · rw [CompletionSet.insert]
    split_ifs
    · rfl
    · rfl
  · rfl

/-- The last completion of a call is the one that is stored. -/
theorem get_completedBy (done : List AgentToolResult) {id : ToolCallId}
    (hknown : batch.knows id = true) :
    (completedBy batch done).get id = done.reverse.find? fun result => result.toolCallId = id := by
  induction done using List.reverseRecOn with
  | nil => rfl
  | append_singleton done result ih =>
    rw [completedBy_snoc, recordCompletion_snd, List.reverse_append, List.reverse_singleton,
      List.singleton_append, List.find?_cons]
    by_cases hid : result.toolCallId = id
    · rw [hid, if_pos hknown, CompletionSet.get_put, if_pos hid]
      simp
    · have hother : (if batch.knows result.toolCallId then (completedBy batch done).put result
          else completedBy batch done).get id = (completedBy batch done).get id := by
        split_ifs
        · rw [CompletionSet.get_put, if_neg hid]
        · rfl
      rw [hother, ih]
      simp [hid]

theorem get_completedBy_isSome (done : List AgentToolResult) {id : ToolCallId}
    (hknown : batch.knows id = true) :
    ((completedBy batch done).get id).isSome = true ↔ ∃ result ∈ done, result.toolCallId = id := by
  rw [get_completedBy done hknown, List.find?_isSome]
  simp

/-! ### What is accepted -/

/-- Whether a completion is accepted behind others. -/
def isAccepted (batch : ToolBatch) (done : List AgentToolResult) (result : AgentToolResult) :
    Bool :=
  batch.knows result.toolCallId && !(done.any fun other => other.toolCallId = result.toolCallId)

theorem isAccepted_iff {done : List AgentToolResult} {result : AgentToolResult} :
    isAccepted batch done result = true ↔ batch.knows result.toolCallId = true ∧
      ∀ other ∈ done, other.toolCallId ≠ result.toolCallId := by
  simp [isAccepted]

theorem recordCompletion_fst (done : List AgentToolResult) (result : AgentToolResult) :
    (batch.recordCompletion (completedBy batch done) result).1 = .ok () ↔
      isAccepted batch done result = true := by
  rw [isAccepted_iff, ToolBatch.recordCompletion]
  by_cases hknown : batch.knows result.toolCallId = true
  · have hstored := get_completedBy_isSome done hknown
    rw [if_pos hknown, CompletionSet.insert]
    by_cases hsome : ((completedBy batch done).get result.toolCallId).isSome = true
    · obtain ⟨other, hother, hid⟩ := hstored.mp hsome
      rw [if_pos hsome]
      constructor
      · intro h
        cases h
      · rintro ⟨-, hnone⟩
        exact absurd hid (hnone other hother)
    · rw [if_neg hsome]
      refine ⟨fun _ => ⟨hknown, ?_⟩, fun _ => rfl⟩
      intro other hother hid
      exact hsome (hstored.mpr ⟨other, hother, hid⟩)
  · rw [if_neg hknown]
    constructor
    · intro h
      cases h
    · rintro ⟨h, -⟩
      exact absurd h hknown

theorem completionsFrom_snoc (results : CompletionSet) (done : List AgentToolResult)
    (result : AgentToolResult) :
    completionsFrom batch results (done ++ [result]) = completionsFrom batch results done ++
      if (batch.recordCompletion (done.foldl (fun results result =>
        (batch.recordCompletion results result).2) results) result).1 = .ok () then [result]
      else [] := by
  induction done generalizing results with
  | nil =>
    rw [List.nil_append, completionsFrom, completionsFrom, List.nil_append, List.foldl_nil]
    cases batch.recordCompletion results result with
    | mk outcome after =>
      cases outcome with
      | ok => simp [completionsFrom]
      | error error => simp [completionsFrom]
  | cons first done ih =>
    rw [List.cons_append, completionsFrom, completionsFrom, List.foldl_cons]
    cases batch.recordCompletion results first with
    | mk outcome after =>
      cases outcome with
      | ok => simp only [ih after, List.cons_append]
      | error error => simp only [ih after]

theorem acceptedCompletions_snoc (done : List AgentToolResult) (result : AgentToolResult) :
    acceptedCompletions batch (done ++ [result]) =
      acceptedCompletions batch done ++ if isAccepted batch done result then [result] else [] := by
  rw [acceptedCompletions, completionsFrom_snoc, acceptedCompletions]
  congr 1
  exact if_congr (recordCompletion_fst done result) rfl rfl

/-- The first completion of a call is the one that is accepted. -/
theorem find_acceptedCompletions (done : List AgentToolResult) {id : ToolCallId}
    (hknown : batch.knows id = true) :
    ((acceptedCompletions batch done).find? fun result => result.toolCallId = id) =
      done.find? fun result => result.toolCallId = id := by
  induction done using List.reverseRecOn with
  | nil => rfl
  | append_singleton done result ih =>
    rw [acceptedCompletions_snoc, List.find?_append, List.find?_append, ih]
    by_cases hfound : ∃ other ∈ done, other.toolCallId = id
    · have hsome : (done.find? fun result => result.toolCallId = id).isSome = true := by
        rw [List.find?_isSome]
        simpa using hfound
      obtain ⟨first, hfirst⟩ := Option.isSome_iff_exists.mp hsome
      rw [hfirst, Option.some_or, Option.some_or]
    · congr 1
      by_cases hid : result.toolCallId = id
      · have haccepted : isAccepted batch done result = true := by
          rw [isAccepted_iff, hid]
          exact ⟨hknown, fun other hother heq => hfound ⟨other, hother, heq⟩⟩
        rw [if_pos haccepted]
      · split_ifs
        · rfl
        · simp [hid]

/-! ### Completions that are the same again -/

theorem SameAgain.sublist {completions done : List AgentToolResult}
    (h : SameAgain batch completions) (hdone : ∀ result ∈ done, result ∈ completions) :
    SameAgain batch done := by
  intro result hresult other hother
  exact h result (hdone result hresult) other (hdone other hother)

/-- The completion that is stored is the one that was accepted. -/
theorem SameAgain.get_eq {done : List AgentToolResult} (h : SameAgain batch done)
    {id : ToolCallId} (hknown : batch.knows id = true) :
    (completedBy batch done).get id =
      (acceptedCompletions batch done).find? fun result => result.toolCallId = id := by
  rw [get_completedBy done hknown, find_acceptedCompletions done hknown]
  cases hlast : done.reverse.find? fun result => result.toolCallId = id with
  | none =>
    rw [List.find?_eq_none] at hlast
    rw [eq_comm, List.find?_eq_none]
    intro result hresult
    exact hlast result (List.mem_reverse.mpr hresult)
  | some last =>
    have hmem := List.mem_reverse.mp (List.mem_of_find?_eq_some hlast)
    have hid : last.toolCallId = id := by simpa using List.find?_some hlast
    have hsome : (done.find? fun result => result.toolCallId = id).isSome = true := by
      rw [List.find?_isSome]
      exact ⟨last, hmem, by simpa using hid⟩
    obtain ⟨first, hfirst⟩ := Option.isSome_iff_exists.mp hsome
    have hfid : first.toolCallId = id := by simpa using List.find?_some hfirst
    rw [hfirst, h last hmem first (List.mem_of_find?_eq_some hfirst) (by rwa [hid])
      (hid.trans hfid.symm)]

theorem knows_call {call : PlannedToolCall} (h : call ∈ batch.calls) :
    batch.knows call.call.id = true := by
  rw [ToolBatch.knows, List.any_eq_true]
  exact ⟨call, h, by simp⟩

theorem SameAgain.yields {done : List AgentToolResult} (h : SameAgain batch done) :
    (completedBy batch done).inSourceOrder batch = batch.calls.filterMap fun call =>
      (acceptedCompletions batch done).find? fun result => result.toolCallId = call.call.id := by
  rw [CompletionSet.inSourceOrder]
  refine List.filterMap_congr ?_
  intro call hcall
  exact h.get_eq (knows_call hcall)

/-- A completion that is rejected is stored already. -/
theorem SameAgain.unchanged {done : List AgentToolResult} {result : AgentToolResult}
    (h : SameAgain batch (done ++ [result])) {error : SchedulerError} {results : CompletionSet}
    (hrejected : batch.recordCompletion (completedBy batch done) result = (.error error, results)) :
    results = completedBy batch done := by
  have hresults := congrArg Prod.snd hrejected
  rw [recordCompletion_snd] at hresults
  dsimp only at hresults
  by_cases hknown : batch.knows result.toolCallId = true
  · rw [if_pos hknown] at hresults
    have hstored : ((completedBy batch done).get result.toolCallId).isSome = true := by
      by_contra hnone
      rw [ToolBatch.recordCompletion, if_pos hknown, CompletionSet.insert, if_neg hnone]
        at hrejected
      cases hrejected
    obtain ⟨last, hlast⟩ := Option.isSome_iff_exists.mp hstored
    have hfind := hlast
    rw [get_completedBy done hknown] at hfind
    have hmem := List.mem_reverse.mp (List.mem_of_find?_eq_some hfind)
    have hid : last.toolCallId = result.toolCallId := by simpa using List.find?_some hfind
    have hsame := h last (List.mem_append_left _ hmem) result
      (List.mem_append_right _ List.mem_cons_self) (by rwa [hid]) hid
    rw [← hresults, CompletionSet.put_eq_self_iff, hlast, hsame]
  · rw [if_neg hknown] at hresults
    exact hresults.symm

/-- No call has two completions that are accepted. -/
theorem acceptedCompletions_distinct (done : List AgentToolResult) :
    ((acceptedCompletions batch done).map (·.toolCallId)).Nodup := by
  induction done using List.reverseRecOn with
  | nil => exact List.nodup_nil
  | append_singleton done result ih =>
    rw [acceptedCompletions_snoc]
    split_ifs with haccepted
    · obtain ⟨hknown, hnone⟩ := isAccepted_iff.mp haccepted
      rw [List.map_append, List.map_singleton, List.nodup_append']
      refine ⟨ih, List.nodup_singleton _, ?_⟩
      rw [List.disjoint_singleton]
      intro hmem
      obtain ⟨other, hother, hid⟩ := List.mem_map.mp hmem
      have hsome : ((acceptedCompletions batch done).find? fun other =>
          other.toolCallId = result.toolCallId).isSome = true := by
        rw [List.find?_isSome]
        exact ⟨other, hother, by simpa using hid⟩
      rw [find_acceptedCompletions done hknown, List.find?_isSome] at hsome
      obtain ⟨first, hfirst, hfid⟩ := hsome
      exact hnone first hfirst (by simpa using hfid)
    · rw [List.append_nil]
      exact ih

/-- A call is found among distinct ones wherever it is. -/
theorem find_perm {results others : List AgentToolResult} (hperm : others.Perm results)
    (hdistinct : (results.map (·.toolCallId)).Nodup) (id : ToolCallId) :
    (others.find? fun result => result.toolCallId = id) =
      results.find? fun result => result.toolCallId = id := by
  induction hperm with
  | nil => rfl
  | cons result _ ih =>
    rw [List.map_cons, List.nodup_cons] at hdistinct
    rw [List.find?_cons, List.find?_cons, ih hdistinct.2]
  | swap first second rest =>
    rw [List.map_cons, List.map_cons, List.nodup_cons, List.mem_cons, not_or] at hdistinct
    by_cases hfirst : first.toolCallId = id
    · have hsecond : second.toolCallId ≠ id := by
        rw [← hfirst]
        exact fun heq => hdistinct.1.1 heq.symm
      simp [hfirst, hsecond]
    · simp [List.find?_cons, hfirst]
  | trans _ hright ihleft ihright =>
    rw [ihleft ((hright.map _).nodup_iff.mpr hdistinct), ihright hdistinct]

theorem SameAgain.keepsFirst {completions : List AgentToolResult}
    (h : SameAgain batch completions) : KeepsFirst batch completions where
  yields := by
    intro done hdone
    exact (h.sublist fun _ hmem => hdone.subset hmem).yields
  unchanged := by
    intro done result error results hdone hrejected
    exact (h.sublist fun _ hmem => hdone.subset hmem).unchanged hrejected
  reordered := by
    intro others hothers haccepted
    rw [h.yields, (h.sublist fun _ hmem => hothers.subset hmem).yields]
    refine List.filterMap_congr ?_
    intro call _
    exact find_perm haccepted (acceptedCompletions_distinct completions) call.call.id

/-! ### Completions that are told apart -/

/-- When no rejected completion changes the set, each completion is the first of its call. -/
theorem KeepsFirst.first {completions : List AgentToolResult} (h : KeepsFirst batch completions)
    {done : List AgentToolResult} (hdone : done <+: completions) :
    ∀ result ∈ done, batch.knows result.toolCallId = true →
      (done.find? fun other => other.toolCallId = result.toolCallId) = some result := by
  induction done using List.reverseRecOn with
  | nil => simp
  | append_singleton done last ih =>
    have hearlier := ih ((List.prefix_append done [last]).trans hdone)
    intro result hresult hknown
    rw [List.find?_append]
    rcases List.mem_append.mp hresult with hmem | hmem
    · rw [hearlier result hmem hknown, Option.some_or]
    · rw [List.mem_singleton] at hmem
      subst hmem
      by_cases haccepted : isAccepted batch done result = true
      · have hnone : (done.find? fun other => other.toolCallId = result.toolCallId) = none := by
          rw [List.find?_eq_none]
          simpa using (isAccepted_iff.mp haccepted).2
        rw [hnone]
        simp
      · have hstored : (completedBy batch done).get result.toolCallId = some result := by
          cases houtcome : batch.recordCompletion (completedBy batch done) result with
          | mk outcome after =>
            cases outcome with
            | ok =>
              refine absurd ((recordCompletion_fst done result).mp ?_) haccepted
              rw [houtcome]
            | error error =>
              have hafter := congrArg Prod.snd houtcome
              rw [recordCompletion_snd, if_pos hknown] at hafter
              rw [← CompletionSet.put_eq_self_iff, hafter]
              exact h.unchanged done result error after hdone houtcome
        rw [get_completedBy done hknown] at hstored
        have hmem := List.mem_reverse.mp (List.mem_of_find?_eq_some hstored)
        rw [hearlier result hmem hknown, Option.some_or]

/-- **The first completion of each call.**  It is the one that is kept, and no rejected one
    changes the set, just when the completions of each call are all the same. -/
theorem keepsFirst_iff (batch : ToolBatch) (completions : List AgentToolResult) :
    KeepsFirst batch completions ↔ SameAgain batch completions := by
  constructor
  · intro h result hresult other hother hknown hid
    have hfirst := h.first (List.prefix_refl completions) result hresult hknown
    have hsecond := h.first (List.prefix_refl completions) other hother (by rwa [← hid])
    rw [← hid, hfirst] at hsecond
    exact Option.some.inj hsecond
  · exact SameAgain.keepsFirst

/-- A call, and two completions of it. -/
def onlyCall : ToolCallId := ⟨"only", by decide⟩

def firstCompletion : AgentToolResult := { toolCallId := onlyCall, content := "first" }

def secondCompletion : AgentToolResult := { toolCallId := onlyCall, content := "second" }

/-- The second completion is rejected, and takes the place of the first one. -/
theorem second_completion_kept :
    ¬ KeepsFirst (.prepare [(⟨onlyCall, "read", ⟨"\x7b\x7d"⟩⟩, .parallel)])
      [firstCompletion, secondCompletion] := by
  intro h
  have hyields := h.yields _ (List.prefix_refl _)
  exact absurd hyields (by decide)

end Tea.Contract
