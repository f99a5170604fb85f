/-
  Tea/Contract/BundleImports.lean
  ===============================
  **Imports stay inside the bundle.**  A request is resolved exactly if its lexical
  normalisation stays below the root and names a module; the module is found again under
  its own path.
-/
import Tea.Encoding.Segments
import Tea.Luau.Bundle

namespace Tea.Contract

open Tea.Encoding
open Tea.Luau

/-- The segments of a text. -/
abbrev segmentsOf (text : List Char) : List (List Char) := text.splitOn '/'

/-- The directory a request starts in: that of the requester, or the root. -/
def requestBase (relative : Bool) (requester : ModulePath) : List (List Char) :=
  if relative then (segmentsOf requester.text).dropLast else []

/-- The request leads to the module. -/
structure LeadsTo (relative : Bool) (bundle : Bundle) (requester : ModulePath)
    (requested : List Char) (resolved : ResolvedModule) : Prop where
  notAbsolute : ¬ (requested.head? = some '/' ∨ requested.head? = some '\\')
  noEmpty : [] ∉ segmentsOf requested
  noClimb : relative = false → ['.', '.'] ∉ segmentsOf requested
  stays : Stays (requestBase relative requester).length (segmentsOf requested)
  named : resolved.path.text =
    ['/'].intercalate (collapse (requestBase relative requester) (segmentsOf requested))
  listed : (resolved.path, resolved.source) ∈ bundle.modules.entries

/-- The first segment is a dot or two. -/
def dotted (requested : List Char) : Bool :=
  (segmentsOf requested).head? = some ['.'] || (segmentsOf requested).head? = some ['.', '.']

/-! ### Accepted paths -/

theorem segmentFault_eq_none_iff {path : List Char} {segments : List (List Char)} :
    segmentFault path segments = none ↔
      ∀ segment ∈ segments, segment ≠ [] ∧ isName segment = true := by
  induction segments with
  | nil => simp [segmentFault]
  | cons segment segments ih =>
    rw [segmentFault, List.forall_mem_cons]
    split
    next h => simp [h]
    next hne =>
      split
      next h => rcases h with rfl | rfl <;> simp [isName]
      next h =>
        rw [not_or] at h
        simp [isName, hne, h, ih]

theorem segments_accepted (path : ModulePath) :
    path.text.head? ≠ some '/' ∧ '\\' ∉ path.text ∧
      ∀ segment ∈ segmentsOf path.text, segment ≠ [] ∧ isName segment = true := by
  have h := path.accepted
  simp only [pathFault] at h
  split_ifs at h with hempty hends hbackslash hcontrol hdrive
  · simp at h
  · rw [Option.or_none] at h
    exact ⟨fun hhead => hends (Or.inl hhead), hbackslash, segmentFault_eq_none_iff.mp h⟩

theorem new_text (path : ModulePath) : ModulePath.new path.text = .ok path := by
  rw [ModulePath.new, dif_pos path.accepted]

/-! ### Requests -/

/-- A text starts with its first segment, alone or behind a separator. -/
theorem head_segmentsOf_iff {text segment : List Char} (h : '/' ∉ segment) :
    (segmentsOf text).head? = some segment ↔ text = segment ∨ segment ++ ['/'] <+: text := by
  constructor
  · intro hhead
    obtain ⟨rest, hsplit : text.splitOn '/' = _⟩ := List.head?_eq_some_iff.mp hhead
    have htext : ['/'].intercalate (text.splitOn '/') = text := List.intercalate_splitOn '/'
    rw [hsplit] at htext
    cases rest with
    | nil =>
      rw [List.intercalate_singleton] at htext
      exact Or.inl htext.symm
    | cons second rest =>
      rw [List.intercalate_cons_cons] at htext
      exact Or.inr ⟨_, htext⟩
  · rintro (rfl | ⟨rest, rfl⟩)
    · rw [segmentsOf, List.splitOn_eq_singleton h]
      rfl
    · rw [List.append_assoc, List.singleton_append, segmentsOf,
        List.splitOn_append_cons_self_of_not_mem h]
      rfl

theorem isRelative_eq_dotted (requested : List Char) :
    isRelative requested = dotted requested := by
  rw [Bool.eq_iff_iff]
  simp only [isRelative, dotted, Bool.or_eq_true, beq_iff_eq, decide_eq_true_eq,
    List.isPrefixOf_iff_prefix,
    head_segmentsOf_iff (by decide : '/' ∉ ['.']),
    head_segmentsOf_iff (by decide : '/' ∉ ['.', '.'])]
  constructor
  · rintro (((h | h) | h) | h)
    · exact Or.inl (Or.inl h)
    · exact Or.inr (Or.inl h)
    · exact Or.inl (Or.inr h)
    · exact Or.inr (Or.inr h)
  · rintro ((h | h) | (h | h))
    · exact Or.inl (Or.inl (Or.inl h))
    · exact Or.inl (Or.inr h)
    · exact Or.inl (Or.inl (Or.inr h))
    · exact Or.inr h

theorem baseSegments_eq (requester : ModulePath) (requested : List Char) :
    baseSegments requester requested = requestBase (isRelative requested) requester := by
  rw [baseSegments, requestBase]
  split
  · rw [ModulePath.parent]
    split
    next h => exact splitOn_intercalate_dropLast h
    next h =>
      rw [segmentsOf, List.splitOn_eq_singleton h]
      rfl
  · rfl

theorem walk_eq_ok_iff {requester : ModulePath} {requested : List Char}
    {segments rest out : List (List Char)} :
    walk requester requested segments rest = .ok out ↔
      [] ∉ rest ∧ (isRelative requested = false → ['.', '.'] ∉ rest) ∧
        Stays segments.length rest ∧ out = collapse segments rest := by
  induction rest generalizing segments with
  | nil =>
    rw [walk, collapse, Except.ok.injEq, eq_comm]
    simp
  | cons segment rest ih =>
    rw [walk]
    split
    next h => simp [h]
    next hne =>
      split
      next hdot =>
        subst hdot
        rw [ih, stays_dot, collapse, if_pos rfl]
        simp
      next hdot =>
        split
        next hdots =>
          subst hdots
          rw [stays_dotDot, collapse, if_neg hdot, if_pos rfl]
          split
          next hrelative => simp [hrelative]
          next hrelative =>
            split
            next hnil => simp [hnil]
            next hnil =>
              rw [ih, List.length_dropLast]
              simp [hrelative, List.length_pos_iff, hnil]
        next hdots =>
          have hname : isName segment = true := by simp [isName, hdot, hdots]
          rw [ih, stays_name hname, collapse, if_neg hdot, if_neg hdots, List.length_append]
          simp [Ne.symm hne, Ne.symm hdots]

theorem fromSegments_ok_iff {segments : List (List Char)} {path : ModulePath} :
    ModulePath.fromSegments segments = .ok path ↔ path.text = ['/'].intercalate segments := by
  rw [ModulePath.fromSegments]
  constructor
  · intro h
    rw [ModulePath.new] at h
    split at h
    · cases h
      rfl
    · cases h
  · intro h
    rw [← h, new_text]

theorem resolvePath_ok_iff {bundle : Bundle} {path : ModulePath} {resolved : ResolvedModule} :
    bundle.resolvePath path = .ok resolved ↔
      resolved.path = path ∧ (resolved.path, resolved.source) ∈ bundle.modules.entries := by
  rw [Bundle.resolvePath]
  constructor
  · intro h
    split at h
    next source hget =>
      cases h
      exact ⟨rfl, ModuleMap.get_eq_some_iff.mp hget⟩
    next => cases h
  · rintro ⟨rfl, hmem⟩
    rw [ModuleMap.get_eq_some_iff.mpr hmem]

/-- A request is resolved to the module it leads to. -/
theorem resolveRelative_ok_iff {bundle : Bundle} {requester : ModulePath} {requested : List Char}
    {resolved : ResolvedModule} (h : bundle.modules.containsKey requester = true) :
    bundle.resolveRelative requester requested = .ok resolved ↔
      LeadsTo (isRelative requested) bundle requester requested resolved := by
  rw [Bundle.resolveRelative, if_neg (by simp [h])]
  constructor
  · intro hok
    split at hok
    · cases hok
    next habsolute =>
      cases hwalk : walk requester requested (baseSegments requester requested)
          (requested.splitOn '/') with
      | error error =>
        rw [hwalk] at hok
        cases hok
      | ok segments =>
        rw [hwalk] at hok
        rw [baseSegments_eq, walk_eq_ok_iff] at hwalk
        obtain ⟨hempty, hclimb, hstays, rfl⟩ := hwalk
        cases hpath : ModulePath.fromSegments
            (collapse (requestBase (isRelative requested) requester) (requested.splitOn '/')) with
        | error error =>
          simp only [bind, Except.bind, hpath] at hok
          cases hok
        | ok path =>
          simp only [bind, Except.bind, hpath] at hok
          obtain ⟨rfl, hlisted⟩ := resolvePath_ok_iff.mp hok
          exact ⟨habsolute, hempty, hclimb, hstays, fromSegments_ok_iff.mp hpath, hlisted⟩
  · rintro ⟨habsolute, hempty, hclimb, hstays, hnamed, hlisted⟩
    rw [if_neg habsolute, baseSegments_eq, walk_eq_ok_iff.mpr ⟨hempty, hclimb, hstays, rfl⟩]
    simp only [bind, Except.bind, fromSegments_ok_iff.mpr hnamed]
    exact resolvePath_ok_iff.mpr ⟨rfl, hlisted⟩

/-! ### Modules -/

/-- A module is found from the root under its own path. -/
theorem resolve_text {bundle : Bundle} {resolved : ResolvedModule}
    (h : (resolved.path, resolved.source) ∈ bundle.modules.entries) :
    bundle.resolve resolved.path.text = .ok resolved := by
  rw [Bundle.resolve, new_text]
  exact resolvePath_ok_iff.mpr ⟨rfl, h⟩

/-- Every module leads to itself under its own path. -/
theorem leadsTo_text {bundle : Bundle} {resolved : ResolvedModule} (requester : ModulePath)
    (h : (resolved.path, resolved.source) ∈ bundle.modules.entries) :
    LeadsTo (isRelative resolved.path.text) bundle requester resolved.path.text resolved := by
  obtain ⟨hslash, hbackslash, hsegments⟩ := segments_accepted resolved.path
  have hnames : ∀ segment ∈ segmentsOf resolved.path.text, isName segment = true :=
    fun segment hsegment => (hsegments segment hsegment).2
  have hroot : isRelative resolved.path.text = false := by
    rw [isRelative_eq_dotted, Bool.eq_false_iff]
    intro hdotted
    simp only [dotted, Bool.or_eq_true, decide_eq_true_eq] at hdotted
    rcases hdotted with hhead | hhead
    · exact absurd (hnames _ (List.mem_of_head? hhead)) (by decide)
    · exact absurd (hnames _ (List.mem_of_head? hhead)) (by decide)
  rw [hroot]
  refine ⟨?_, ?_, ?_, stays_of_names hnames, ?_, h⟩
  · rintro (hhead | hhead)
    · exact hslash hhead
    · exact hbackslash (List.mem_of_head? hhead)
  · intro hempty
    exact (hsegments _ hempty).1 rfl
  · intro _ hdots
    exact absurd (hnames _ hdots) (by decide)
  · rw [collapse_of_names hnames]
    exact (List.intercalate_splitOn '/').symm

/-- **Imports stay inside the bundle.**  A request is resolved exactly to the module it leads
    to, whose path is canonical and is resolved to it again from the root. -/
theorem imports_stay_inside (bundle : Bundle) (requester : ModulePath)
    (h : bundle.modules.containsKey requester = true) (requested : List Char)
    (resolved : ResolvedModule) :
    (bundle.resolveRelative requester requested = .ok resolved ↔
        LeadsTo (dotted requested) bundle requester requested resolved) ∧
      (bundle.resolveRelative requester requested = .ok resolved →
        (resolved.path, resolved.source) ∈ bundle.modules.entries ∧
          ModulePath.new resolved.path.text = .ok resolved.path ∧
          bundle.resolve resolved.path.text = .ok resolved ∧
          bundle.resolveRelative requester resolved.path.text = .ok resolved) := by
  refine ⟨?_, ?_⟩
  · rw [← isRelative_eq_dotted]
    exact resolveRelative_ok_iff h
  · intro hok
    have hlisted := ((resolveRelative_ok_iff h).mp hok).listed
    exact ⟨hlisted, new_text _, resolve_text hlisted,
      (resolveRelative_ok_iff h).mpr (leadsTo_text requester hlisted)⟩

/-! ### A request without a separator -/

def directoryPath : ModulePath where
  text := ['d']
  accepted := by decide

def memberPath : ModulePath where
  text := ['d', '/', 'm']
  accepted := by decide

/-- A bundle with a module that is named like a directory. -/
def directoryBundle : Bundle where
  manifest := BundleManifest.bare directoryPath
  modules := { entries := [(directoryPath, ['x']), (memberPath, ['y'])], ordered := by decide }
  present := by decide
  addressable := by decide

/-- The request starts with a dot or two in front of a separator. -/
def dottedSeparator (requested : List Char) : Bool :=
  ['.', '/'].isPrefixOf requested || ['.', '.', '/'].isPrefixOf requested

theorem imports_stay_inside_member :
    (directoryBundle.resolveRelative memberPath ['.'] = .ok ⟨directoryPath, ['x']⟩ ↔
        LeadsTo (dotted ['.']) directoryBundle memberPath ['.'] ⟨directoryPath, ['x']⟩) ∧
      (directoryBundle.resolveRelative memberPath ['.'] = .ok ⟨directoryPath, ['x']⟩ →
        (directoryPath, ['x']) ∈ directoryBundle.modules.entries ∧
          ModulePath.new directoryPath.text = .ok directoryPath ∧
          directoryBundle.resolve directoryPath.text = .ok ⟨directoryPath, ['x']⟩ ∧
          directoryBundle.resolveRelative memberPath directoryPath.text =
            .ok ⟨directoryPath, ['x']⟩) :=
  imports_stay_inside directoryBundle memberPath (by decide) ['.'] ⟨directoryPath, ['x']⟩

/-- A lone dot is resolved against the directory of the requester. -/
theorem lone_dot_is_relative :
    ¬ ∀ (bundle : Bundle) (requester : ModulePath),
      bundle.modules.containsKey requester = true → ∀ requested resolved,
        (bundle.resolveRelative requester requested = .ok resolved ↔
          LeadsTo (dottedSeparator requested) bundle requester requested resolved) := by
  intro h
  have hiff := h directoryBundle memberPath (by decide) ['.'] ⟨directoryPath, ['x']⟩
  have hok : directoryBundle.resolveRelative memberPath ['.'] = .ok ⟨directoryPath, ['x']⟩ := by
    refine (resolveRelative_ok_iff (by decide)).mpr ⟨?_, ?_, ?_, ?_, ?_, ?_⟩
    · decide
    · decide
    · decide
    · exact stays_dot.mpr (stays_nil _)
    · decide
    · decide
  have hnamed := (hiff.mp hok).named
  exact absurd hnamed (by decide)

end Tea.Contract
