/-
  Tea/Contract/Confinement.lean
  =============================
  **No tool leaves its directory**: a path that the coding tools or the authoring tool accept leads
  below the root without a link on it, wherever the links of the file system lead.
-/
import Tea.App.ExtensionFiles
import Tea.Coding.Workspace

namespace Tea.Contract

open Tea.Coding Tea.Core Tea.Encoding Tea.Files

variable {fs : FileSystem}

/-! ### The workspace -/

theorem canonicalPath_ok {path : List (List UInt8)} {names : List FileName}
    (h : canonicalPath fs path = .ok names) :
    (∀ segment ∈ path, 0 ∉ segment) ∧ canonicalize fs (path.map stepOf) = .ok names := by
  unfold canonicalPath at h
  split_ifs at h with hnul
  · cases hwalk : canonicalize fs (path.map stepOf) with
    | error error =>
      rw [hwalk] at h
      cases h
    | ok found =>
      rw [hwalk] at h
      cases h
      refine ⟨?_, rfl⟩
      intro segment hsegment hzero
      exact hnul (List.any_eq_true.mpr ⟨segment, hsegment, by simpa using hzero⟩)

variable (root : WorkspaceRoot fs)

theorem ensureInside_ok {path : List FileName}
    (h : root.ensureInside (path.map Subtype.val) = .ok ()) : root.path <+: path := by
  unfold WorkspaceRoot.ensureInside at h
  split_ifs at h with hunder
  · exact (List.prefix_map_iff_of_injective Subtype.val_injective).mp hunder

/-- The part of a path that exists is as long as it can be. -/
theorem existingPart_spec (fs : FileSystem) (fuel : Nat) (path : List (List UInt8)) :
    path = (existingPart fs fuel path).1 ++ (existingPart fs fuel path).2 ∧
      ∀ segment rest, (existingPart fs fuel path).2 = segment :: rest →
        pathExists fs ((existingPart fs fuel path).1 ++ [segment]) = false := by
  induction fuel generalizing path with
  | zero => simp [existingPart]
  | succ fuel ih =>
    rw [existingPart]
    by_cases hexists : pathExists fs path = true
    · simp [if_pos hexists]
    · rw [if_neg hexists]
      obtain ⟨hsplit, hfirst⟩ := ih path.dropLast
      dsimp only
      refine ⟨?_, ?_⟩
      · rcases List.eq_nil_or_concat path with rfl | ⟨before, last, rfl⟩
        · simpa using hsplit
        · rw [List.concat_eq_append, List.dropLast_concat] at hsplit ⊢
          rw [← List.append_assoc, ← hsplit]
          simp
      · intro segment rest hsuffix
        cases hrest : (existingPart fs fuel path.dropLast).2 with
        | cons first others =>
          rw [hrest, List.cons_append] at hsuffix
          obtain ⟨rfl, -⟩ := List.cons.inj hsuffix
          exact hfirst first others hrest
        | nil =>
          rw [hrest, List.append_nil] at hsplit
          rw [hrest, List.nil_append] at hsuffix
          rcases List.eq_nil_or_concat path with rfl | ⟨before, last, rfl⟩
          · cases hsuffix
          · rw [List.concat_eq_append] at hsuffix hexists hsplit ⊢
            rw [List.getLast?_concat, Option.toList_some] at hsuffix
            obtain ⟨rfl, -⟩ := List.cons.inj hsuffix
            rw [← hsplit, List.dropLast_concat]
            exact Bool.not_eq_true _ ▸ hexists

/-- What the resolution of a path of the workspace promises. -/
structure InWorkspace (input : String) : Prop where
  existing : ∀ path, root.resolveExisting input = .ok path →
    root.path <+: path ∧ RealPath fs path
  written : ∀ path suffix, root.resolveForWrite input = .ok (path, suffix) →
    root.path <+: path ∧ RealPath fs path ∧
      ∀ name : FileName, suffix.head? = some name.val →
        ∀ node, fs.get (path ++ [name]) = some node → ¬ node.Real

theorem resolveExisting_ok (hfs : fs.Real) {input : String} {path : List FileName}
    (h : root.resolveExisting input = .ok path) : root.path <+: path ∧ RealPath fs path := by
  unfold WorkspaceRoot.resolveExisting at h
  cases hlexical : root.lexicallyResolve input with
  | error error =>
    rw [hlexical] at h
    cases h
  | ok candidate =>
    simp only [hlexical] at h
    cases hcanonical : canonicalPath fs candidate with
    | error message =>
      rw [hcanonical] at h
      cases h
    | ok resolved =>
      simp only [hcanonical] at h
      cases hinside : root.ensureInside (resolved.map Subtype.val) with
      | error error =>
        rw [hinside] at h
        cases h
      | ok _ =>
        rw [hinside] at h
        cases h
        exact ⟨ensureInside_ok root hinside, canonicalize_real hfs (canonicalPath_ok hcanonical).2⟩

/-- What a path that is to be written is made of. -/
theorem resolveForWrite_ok {input : String} {path : List FileName} {suffix : List (List UInt8)}
    (h : root.resolveForWrite input = .ok (path, suffix)) :
    ∃ candidate : List (List UInt8),
      canonicalPath fs (existingPart fs candidate.length candidate).1 = .ok path ∧
        (existingPart fs candidate.length candidate).2 = suffix ∧ root.path <+: path := by
  unfold WorkspaceRoot.resolveForWrite at h
  cases hlexical : root.lexicallyResolve input with
  | error error =>
    rw [hlexical] at h
    cases h
  | ok candidate =>
    simp only [hlexical] at h
    cases hcanonical : canonicalPath fs (existingPart fs candidate.length candidate).1 with
    | error message =>
      rw [hcanonical] at h
      cases h
    | ok resolved =>
      simp only [hcanonical] at h
      cases hinside : root.ensureInside (resolved.map Subtype.val) with
      | error error =>
        rw [hinside] at h
        cases h
      | ok _ =>
        simp only [hinside] at h
        cases hbehind : root.ensureInside (resolved.map Subtype.val ++
            (existingPart fs candidate.length candidate).2) with
        | error error =>
          rw [hbehind] at h
          cases h
        | ok _ =>
          rw [hbehind] at h
          cases h
          exact ⟨candidate, hcanonical, rfl, ensureInside_ok root hinside⟩

/-- A name that leads from a canonical path to a node without a link exists for the workspace. -/
theorem pathExists_name {existing : List (List UInt8)} {path : List FileName}
    (hcanonical : canonicalPath fs existing = .ok path) {name : FileName} {node : FileSystem}
    (hnode : fs.get (path ++ [name]) = some node) (hreal : node.Real) :
    pathExists fs (existing ++ [name.val]) = true := by
  obtain ⟨hnul, hwalk⟩ := canonicalPath_ok hcanonical
  rw [Node.get_append] at hnode
  obtain ⟨above, habove, hchild⟩ := Option.bind_eq_some_iff.mp hnode
  obtain ⟨links, hparts⟩ := walk_append fs maxLinks [Step.name name] hwalk
  have hfound : canonicalize fs ((existing ++ [name.val]).map stepOf) = .ok (path ++ [name]) := by
    rw [List.map_append, List.map_singleton, stepOf_name, canonicalize, hparts]
    exact walk_names links habove hchild hreal
  rw [pathExists, hfound, Bool.and_eq_true, List.all_eq_true]
  refine ⟨?_, rfl⟩
  intro segment hsegment
  rcases List.mem_append.mp hsegment with hsegment | hsegment
  · simpa using hnul segment hsegment
  · rw [List.mem_singleton.mp hsegment]
    simpa using name.property.2.2.2.2

theorem inWorkspace (hfs : fs.Real) (input : String) : InWorkspace root input := by
  constructor
  · intro path h
    exact resolveExisting_ok root hfs h
  · intro path suffix h
    obtain ⟨candidate, hcanonical, hsuffix, hunder⟩ := resolveForWrite_ok root h
    refine ⟨hunder, canonicalize_real hfs (canonicalPath_ok hcanonical).2, ?_⟩
    intro name hname node hnode hreal
    obtain ⟨rest, hrest⟩ := List.head?_eq_some_iff.mp hname
    have hmissing := (existingPart_spec fs candidate.length candidate).2 name.val rest
      (hsuffix.trans hrest)
    rw [pathExists_name hcanonical hnode hreal] at hmissing
    cases hmissing

/-! ### Paths that are accepted -/

theorem resolveSegments_names (done : List (List UInt8)) (names : List FileName) :
    resolveSegments done (names.map Subtype.val) = .ok (done ++ names.map Subtype.val) := by
  induction names generalizing done with
  | nil => simp [resolveSegments]
  | cons name names ih =>
    obtain ⟨hempty, hdot, hdots, -, -⟩ := name.property
    rw [List.map_cons, resolveSegments, if_neg (by simp [hempty, hdot]), if_neg hdots, ih]
    simp

/-- The path of a node that is no link is resolved to what it says. -/
theorem resolveExisting_inside {names : List FileName} (hne : names ≠ [])
    (hreal : RealPath fs (root.path ++ names)) {text : String}
    (htext : encodeUtf8 text.toList = pathText names) :
    root.resolveExisting text = .ok (root.path ++ names) := by
  obtain ⟨node, hnode, hnodeReal⟩ := hreal
  obtain ⟨hhead, hempty⟩ := head_pathText hne
  have hjoined : root.segments ++ names.map Subtype.val =
      (root.path ++ names).map Subtype.val := by
    rw [WorkspaceRoot.segments, List.map_append]
  have hlexical : root.lexicallyResolve text = .ok ((root.path ++ names).map Subtype.val) := by
    rw [WorkspaceRoot.lexicallyResolve, htext]
    dsimp only
    rw [if_neg hempty, if_neg hhead, segments_pathText hne, resolveSegments_names, hjoined]
    dsimp only
    rw [WorkspaceRoot.ensureInside, ← hjoined, if_pos (List.prefix_append _ _)]
    rfl
  have hcanonical : canonicalPath fs ((root.path ++ names).map Subtype.val) =
      .ok (root.path ++ names) := by
    have hnul : ¬ ((root.path ++ names).map Subtype.val).any
        (fun segment => 0 ∈ segment) = true := by
      intro hany
      obtain ⟨segment, hsegment, hzero⟩ := List.any_eq_true.mp hany
      obtain ⟨name, -, rfl⟩ := List.mem_map.mp hsegment
      exact name.property.2.2.2.2 (by simpa using hzero)
    rw [canonicalPath, if_neg hnul, map_stepOf_names, canonicalize_names hnode hnodeReal]
    rfl
  rw [WorkspaceRoot.resolveExisting, hlexical]
  dsimp only
  rw [hcanonical]
  dsimp only
  rw [WorkspaceRoot.ensureInside, ← hjoined, if_pos (List.prefix_append _ _)]
  rfl

/-! ### The authoring tool -/

theorem resolved_inside (hfs : fs.Real) {home : List (Step FileName)} {relative : String}
    {path : List FileName}
    (h : App.ExtensionFiles.resolveExisting fs home relative = .ok path) :
    ∃ canonicalRoot, canonicalize fs home = .ok canonicalRoot ∧ canonicalRoot <+: path ∧
      RealPath fs path := by
  unfold App.ExtensionFiles.resolveExisting at h
  cases hlexical : App.ExtensionFiles.containedPath home relative with
  | error message =>
    rw [hlexical] at h
    cases h
  | ok lexical =>
    simp only [hlexical] at h
    cases hpath : canonicalize fs lexical with
    | error error =>
      rw [hpath] at h
      cases h
    | ok found =>
      simp only [hpath] at h
      obtain ⟨node, hnode, hreal⟩ := canonicalize_real hfs hpath
      unfold App.ExtensionFiles.ensureContainedCanonical at h
      rw [canonicalize_names hnode hreal] at h
      cases hroot : canonicalize fs home with
      | error error =>
        rw [hroot] at h
        cases h
      | ok canonicalRoot =>
        simp only [hroot] at h
        split_ifs at h with hunder
        · cases h
          exact ⟨canonicalRoot, rfl, hunder, node, hnode, hreal⟩
        · cases h

/-- A text that is read is the one of a file below the root. -/
theorem read_inside (hfs : fs.Real) {home : List (Step FileName)} {relative text : String}
    (h : App.ExtensionFiles.read fs home relative = .ok text) :
    ∃ canonicalRoot path data, canonicalize fs home = .ok canonicalRoot ∧
      canonicalRoot <+: path ∧ fs.get path = some (.file data) ∧
      fromUtf8 data = .ok text.toList := by
  unfold App.ExtensionFiles.read at h
  cases hresolved : App.ExtensionFiles.resolveExisting fs home relative with
  | error error =>
    rw [hresolved] at h
    cases h
  | ok path =>
    obtain ⟨canonicalRoot, hroot, hunder, node, hnode, -⟩ := resolved_inside hfs hresolved
    simp only [hresolved, hnode] at h
    cases node with
    | file data =>
      dsimp only at h
      split_ifs at h with hlimit
      · cases hdata : fromUtf8 data with
        | error error =>
          rw [hdata] at h
          cases h
        | ok found =>
          rw [hdata] at h
          cases h
          refine ⟨canonicalRoot, path, data, hroot, hunder, hnode, ?_⟩
          rw [hdata, String.toList_ofList]
    | dir entries => cases h
    | symlink absolute target => cases h
    | other => cases h

/-! ### Both -/

/-- A name that a link has. -/
def linkName : FileName := ⟨[108], by decide⟩

/-- A workspace with a link to the top. -/
def linkedTree : FileSystem := .dir [(linkName, .symlink true [])]

end Tea.Contract
