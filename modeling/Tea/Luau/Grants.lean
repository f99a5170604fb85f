/-
  Tea/Luau/Grants.lean
  ====================
  **What a manifest grants**: a grant holds the operations it is built from, a manifest the
  grants, and a check succeeds for the operations in them.
-/
import Tea.Luau.Capability

namespace Tea.Luau

open Tea.Encoding

/-! ### Grants -/

theorem CapabilityGrant.ext {grant other : CapabilityGrant} (howner : grant.owner = other.owner)
    (hmem : ∀ operation, operation ∈ grant.operations ↔ operation ∈ other.operations) :
    grant = other := by
  have hoperations := grant.ordered.ext other.ordered hmem
  cases grant
  cases other
  cases howner
  cases hoperations
  rfl

/-- A grant that has been built holds the operations that were listed, each listed once. -/
theorem CapabilityGrant.collect_ok {grant result : CapabilityGrant}
    {operations : List CapabilityOperation} (h : grant.collect operations = .ok result) :
    result.owner = grant.owner ∧
      (∀ operation, operation ∈ result.operations ↔
        operation ∈ grant.operations ∨ operation ∈ operations) ∧
      operations.Nodup ∧ ∀ operation ∈ operations, operation ∉ grant.operations := by
  induction operations generalizing grant with
  | nil =>
    cases h
    simp
  | cons operation operations ih =>
    rw [CapabilityGrant.collect] at h
    split at h
    next hown =>
      split at h
      next hnew =>
        obtain ⟨howner, hmem, hnodup, hfresh⟩ := ih h
        simp only [CapabilityGrant.insert, mem_insertByKey, not_or] at howner hmem hfresh
        refine ⟨howner, ?_, List.nodup_cons.mpr ⟨?_, hnodup⟩, List.forall_mem_cons.mpr ⟨hnew, ?_⟩⟩
        · intro other
          rw [hmem, List.mem_cons]
          tauto
        · intro hin
          exact (hfresh operation hin).1 rfl
        · intro other hother
          exact (hfresh other hother).2
      next => cases h
    next => cases h

/-- Operations of one module, each listed once, are a grant. -/
theorem CapabilityGrant.collect_of_nodup (grant : CapabilityGrant)
    {operations : List CapabilityOperation}
    (hown : ∀ operation ∈ operations, operation.moduleOf = grant.owner)
    (hnodup : operations.Nodup)
    (hnew : ∀ operation ∈ operations, operation ∉ grant.operations) :
    ∃ result, grant.collect operations = .ok result := by
  induction operations generalizing grant with
  | nil => exact ⟨grant, rfl⟩
  | cons operation operations ih =>
    obtain ⟨hown, howns⟩ := List.forall_mem_cons.mp hown
    obtain ⟨hnew, hnews⟩ := List.forall_mem_cons.mp hnew
    obtain ⟨hnot, hnodup⟩ := List.nodup_cons.mp hnodup
    rw [CapabilityGrant.collect, dif_pos hown, dif_pos hnew]
    refine ih (grant.insert operation hown hnew) howns hnodup ?_
    intro other hother hmem
    rcases mem_insertByKey.mp hmem with rfl | hmem
    · exact hnot hother
    · exact hnews other hother hmem

theorem CapabilityGrant.new_ok {owner : CapabilityModule} {operations : List CapabilityOperation}
    {grant : CapabilityGrant} (h : CapabilityGrant.new owner operations = .ok grant) :
    grant.owner = owner ∧ (∀ operation, operation ∈ grant.operations ↔ operation ∈ operations) ∧
      operations.Nodup := by
  obtain ⟨howner, hmem, hnodup, -⟩ := CapabilityGrant.collect_ok h
  refine ⟨howner, ?_, hnodup⟩
  intro operation
  rw [hmem]
  simp [CapabilityGrant.empty]

/-- A grant is built again from its operations. -/
theorem CapabilityGrant.new_operations (grant : CapabilityGrant) :
    CapabilityGrant.new grant.owner grant.operations = .ok grant := by
  have hnodup : grant.operations.Nodup := by
    refine List.Pairwise.imp ?_ grant.ordered
    rintro operation other hlt rfl
    exact lt_irrefl _ hlt
  obtain ⟨result, hresult⟩ := (CapabilityGrant.empty grant.owner).collect_of_nodup grant.own
    hnodup fun _ _ => List.not_mem_nil
  obtain ⟨howner, hmem, -⟩ := CapabilityGrant.new_ok hresult
  rw [CapabilityGrant.new, hresult, CapabilityGrant.ext howner hmem]

theorem McpPermission.allows_iff {granted requested : McpPermission} :
    granted.allows requested = true ↔ granted = requested := by
  simp only [McpPermission.allows, Bool.and_eq_true, decide_eq_true_eq]
  constructor
  · rintro ⟨⟨hserver, hoperation⟩, htarget⟩
    cases granted
    cases requested
    simp_all
  · rintro rfl
    simp

theorem CapabilityGrant.allows_iff {grant : CapabilityGrant} {operation : CapabilityOperation} :
    grant.allows operation = true ↔ operation ∈ grant.operations := by
  rw [CapabilityGrant.allows.eq_def]
  split
  next requested =>
    simp only [List.any_eq_true]
    constructor
    · rintro ⟨granted, hmem, hallows⟩
      rw [CapabilityOperation.allowsMcp.eq_def] at hallows
      split at hallows
      next permission => rwa [← McpPermission.allows_iff.mp hallows]
      next => cases hallows
    · intro hmem
      exact ⟨_, hmem, McpPermission.allows_iff.mpr rfl⟩
  next => exact decide_eq_true_iff

/-! ### Manifests -/

theorem CapabilityManifest.ext {manifest other : CapabilityManifest}
    (hmem : ∀ grant, grant ∈ manifest.grants ↔ grant ∈ other.grants) : manifest = other := by
  have hgrants := manifest.ordered.ext other.ordered hmem
  have habi := manifest.supported.trans other.supported.symm
  cases manifest
  cases other
  cases habi
  cases hgrants
  rfl

theorem ownerIndex_inj {owner other : CapabilityModule} (h : owner.ctorIdx = other.ctorIdx) :
    owner = other := by
  cases owner <;> cases other <;> first | rfl | cases h

theorem CapabilityManifest.grant_eq_some_iff {manifest : CapabilityManifest}
    {owner : CapabilityModule} {grant : CapabilityGrant} :
    manifest.grant owner = some grant ↔ grant ∈ manifest.grants ∧ grant.owner = owner := by
  rw [CapabilityManifest.grant, manifest.ordered.find_eq_some_iff, decide_eq_true_eq]
  intro grant other hgrant hother
  rw [of_decide_eq_true hgrant, of_decide_eq_true hother]

/-- A check succeeds for the operations that are granted. -/
theorem CapabilityManifest.check_iff {manifest : CapabilityManifest}
    {operation : CapabilityOperation} :
    manifest.check operation = .ok () ↔
      ∃ grant ∈ manifest.grants, operation ∈ grant.operations := by
  have hallowed : ((manifest.grant operation.moduleOf).map (·.allows operation)).getD false =
      true ↔ ∃ grant ∈ manifest.grants, operation ∈ grant.operations := by
    cases hgrant : manifest.grant operation.moduleOf with
    | none =>
      simp only [Option.map_none, Option.getD_none, Bool.false_eq_true, false_iff]
      rintro ⟨grant, hmem, hoperation⟩
      have hsome := CapabilityManifest.grant_eq_some_iff.mpr
        ⟨hmem, (grant.own operation hoperation).symm⟩
      rw [hgrant] at hsome
      cases hsome
    | some grant =>
      simp only [Option.map_some, Option.getD_some, CapabilityGrant.allows_iff]
      constructor
      · intro hoperation
        exact ⟨grant, (CapabilityManifest.grant_eq_some_iff.mp hgrant).1, hoperation⟩
      · rintro ⟨other, hmem, hoperation⟩
        have hsome := CapabilityManifest.grant_eq_some_iff.mpr
          ⟨hmem, (other.own operation hoperation).symm⟩
        rw [hgrant] at hsome
        rwa [Option.some.inj hsome]
  rw [CapabilityManifest.check, ← hallowed]
  split
  next h => simp [h]
  next h => simp [h]

theorem CapabilityManifest.collect_ok {manifest result : CapabilityManifest}
    {grants : List CapabilityGrant} (h : manifest.collect grants = .ok result) :
    (∀ grant, grant ∈ result.grants ↔ grant ∈ manifest.grants ∨ grant ∈ grants) ∧
      (grants.map (·.owner)).Nodup ∧
      ∀ grant ∈ grants, ∀ other ∈ manifest.grants, other.owner ≠ grant.owner := by
  induction grants generalizing manifest with
  | nil =>
    cases h
    simp
  | cons grant grants ih =>
    rw [CapabilityManifest.collect] at h
    split at h
    next hnew =>
      obtain ⟨hmem, hnodup, hfresh⟩ := ih h
      simp only [CapabilityManifest.insert, mem_insertByKey, forall_eq_or_imp] at hmem hfresh
      refine ⟨?_, List.nodup_cons.mpr ⟨?_, hnodup⟩, List.forall_mem_cons.mpr ⟨?_, ?_⟩⟩
      · intro other
        rw [hmem, List.mem_cons]
        tauto
      · intro hin
        obtain ⟨other, hother, howner⟩ := List.mem_map.mp hin
        exact (hfresh other hother).1 howner.symm
      · intro other hother howner
        exact hnew other hother (congrArg _ howner)
      · intro other hother
        exact (hfresh other hother).2
    next => cases h

/-- Grants of different modules are a manifest. -/
theorem CapabilityManifest.collect_of_nodup (manifest : CapabilityManifest)
    {grants : List CapabilityGrant} (hnodup : (grants.map (·.owner)).Nodup)
    (hnew : ∀ grant ∈ grants, ∀ other ∈ manifest.grants, other.owner ≠ grant.owner) :
    ∃ result, manifest.collect grants = .ok result := by
  induction grants generalizing manifest with
  | nil => exact ⟨manifest, rfl⟩
  | cons grant grants ih =>
    obtain ⟨hnew, hnews⟩ := List.forall_mem_cons.mp hnew
    obtain ⟨hnot, hnodup⟩ := List.nodup_cons.mp hnodup
    have hindex : ∀ other ∈ manifest.grants, other.owner.ctorIdx ≠ grant.owner.ctorIdx :=
      fun other hother heq => hnew other hother (ownerIndex_inj heq)
    rw [CapabilityManifest.collect, dif_pos hindex]
    refine ih (manifest.insert grant hindex) hnodup ?_
    intro later hlater other hother
    rcases mem_insertByKey.mp hother with rfl | hother
    · intro howner
      exact hnot (List.mem_map.mpr ⟨later, hlater, howner.symm⟩)
    · exact hnews later hlater other hother

theorem CapabilityManifest.new_ok {grants : List CapabilityGrant} {manifest : CapabilityManifest}
    (h : CapabilityManifest.new grants = .ok manifest) :
    (∀ grant, grant ∈ manifest.grants ↔ grant ∈ grants) ∧ (grants.map (·.owner)).Nodup := by
  obtain ⟨hmem, hnodup, -⟩ := CapabilityManifest.collect_ok h
  refine ⟨?_, hnodup⟩
  intro grant
  rw [hmem]
  simp [CapabilityManifest.empty]

/-- The grants of a manifest have different modules. -/
theorem CapabilityManifest.nodup_owners (manifest : CapabilityManifest) :
    (manifest.grants.map (·.owner)).Nodup := by
  refine List.pairwise_map.mpr (manifest.ordered.imp ?_)
  intro grant other hlt howner
  exact absurd (congrArg CapabilityModule.ctorIdx howner) (ne_of_lt hlt)

/-- A manifest is built again from its grants. -/
theorem CapabilityManifest.new_grants {manifest : CapabilityManifest}
    {grants : List CapabilityGrant} (hmem : ∀ grant, grant ∈ grants ↔ grant ∈ manifest.grants)
    (hnodup : (grants.map (·.owner)).Nodup) :
    CapabilityManifest.new grants = .ok manifest := by
  obtain ⟨result, hresult⟩ := CapabilityManifest.empty.collect_of_nodup hnodup
    fun _ _ _ h => absurd h List.not_mem_nil
  have hgrants := (CapabilityManifest.new_ok hresult).1
  rw [CapabilityManifest.new, hresult,
    CapabilityManifest.ext fun grant => (hgrants grant).trans (hmem grant)]

end Tea.Luau
