/-
  Tea/Contract/ProjectionBound.lean
  =================================
  **The bound and the header of a projected tool result.**  The text in the place of a
  repeated error is longer than the smallest limit that `validate` accepts; only there the
  bound can fail (`projection_kept_iff`).
-/

import Tea.Run.Projection

namespace Tea.Contract

open Tea.Core Tea.Run

/-- What a projection owes: every text is truncated between characters, the result is
    within the total limit, and an error that is not suppressed begins with its whole status
    header. -/
structure ProjectionKept (policy : ToolResultProjectionPolicy) (content : String)
    (details : Option SerializedJson) (isError : Bool) (failure : Option ToolFailure)
    (seen : List UInt64) : Prop where
  sliced : ∀ value limit,
    truncateMiddleSliced (bytesOf value) limit = some (bytesOf (truncateMiddle value limit))
  bounded : (projectToolResultAsText policy content details isError failure seen).1.utf8ByteSize ≤
    policy.maxTotalBytes
  headed : isError = true → ¬ Suppressed policy content details isError failure seen →
    ∃ rest, (projectToolResultAsText policy content details isError failure seen).1 =
      statusHeader failure ++ rest

section

variable {policy : ToolResultProjectionPolicy} {content : String} {details : Option SerializedJson}
  {isError : Bool} {failure : Option ToolFailure} {seen : List UInt64}

/-- An accepted policy has room for a header and a marker. -/
theorem validateProjection_total (h : validateProjection policy = .ok ()) :
    58 ≤ policy.maxTotalBytes := by
  unfold validateProjection at h
  dsimp only at h
  split_ifs at h with hsmall
  have htotal : satAdd (satAdd "[tool error status: invalid_arguments]".utf8ByteSize 1)
      truncationMarker.utf8ByteSize = 58 := by decide
  rw [htotal] at hsmall
  omega

/-- Every status header has room. -/
theorem statusHeader_le (failure : Option ToolFailure) :
    (statusHeader failure).utf8ByteSize ≤ 38 := by
  have hstatus : ∀ disposition : ToolFailureDisposition,
      ("[tool error status: " ++ dispositionText disposition ++ "]").utf8ByteSize ≤ 38 := by
    intro disposition
    cases disposition <;> decide
  cases failure with
  | none => decide
  | some failure => exact hstatus failure.disposition

theorem projection_unsuppressed (h : validateProjection policy = .ok ())
    (hnot : ¬ Suppressed policy content details isError failure seen) :
    ProjectionKept policy content details isError failure seen := by
  have htotal := validateProjection_total h
  have hheader := statusHeader_le failure
  have hfirst : appendProjectedSection policy.maxTotalBytes "" (statusHeader failure) =
      statusHeader failure := appendProjectedSection_first (by omega)
  obtain ⟨header, heq, hrest, hbound⟩ := project_sections hnot
  rw [hfirst] at heq
  constructor
  · exact truncateMiddle_sliced
  · apply hbound
    rw [heq]
    split_ifs
    · omega
    · exact Nat.zero_le _
  · intro herror _
    rw [heq, if_pos herror] at hrest
    exact hrest

/-- **The bound and the header** hold of every result under an accepted policy, except
    that the notice of a repeated error needs 62 bytes. -/
theorem projection_kept_iff (h : validateProjection policy = .ok ()) :
    ProjectionKept policy content details isError failure seen ↔
      (Suppressed policy content details isError failure seen → 62 ≤ policy.maxTotalBytes) := by
  have hnotice : repeatedNotice.utf8ByteSize = 62 := by decide
  constructor
  · intro hkept hsuppressed
    have hbounded := hkept.bounded
    rw [project_suppressed hsuppressed] at hbounded
    exact hnotice ▸ hbounded
  · intro hroom
    by_cases hsuppressed : Suppressed policy content details isError failure seen
    · constructor
      · exact truncateMiddle_sliced
      · rw [project_suppressed hsuppressed]
        exact hnotice.symm ▸ hroom hsuppressed
      · intro _ hnot
        exact absurd hsuppressed hnot
    · exact projection_unsuppressed h hsuppressed

end

/-- The smallest accepted policy. -/
def smallestPolicy : ToolResultProjectionPolicy where
  maxContentBytes := 19
  maxDetailsBytes := 19
  maxTotalBytes := 58

/-- The second of two equal errors. -/
theorem projection_unbounded : ¬ ProjectionKept smallestPolicy "e" none true none
    [errorFingerprint "e" none none] := by
  intro hkept
  have hvalid : validateProjection smallestPolicy = .ok () := by decide
  have hsuppressed : Suppressed smallestPolicy "e" none true none
      [errorFingerprint "e" none none] := by decide +kernel
  have hbounded := hkept.bounded
  rw [project_suppressed hsuppressed] at hbounded
  exact absurd hbounded (by decide)

theorem projection_kept_first : ProjectionKept smallestPolicy "e" none true none [] := by
  have hvalid : validateProjection smallestPolicy = .ok () := by decide
  apply (projection_kept_iff hvalid).mpr
  intro hsuppressed
  exact absurd hsuppressed (by decide +kernel)

end Tea.Contract
