/-
  Tea/Luau/Bundle.lean
  ====================
  **Bundles of policy modules** (`tea-luau/bundle.rs`): canonical paths and capability names
  behind their checks, the manifest, the map of sources, its identity and the resolution of
  a request.  A text is its list of scalar values; the order of texts is that of their bytes.
-/
import Tea.Encoding.Framing
import Tea.Encoding.OrderedKeys
import Tea.Encoding.Utf8
import Mathlib.Data.Char
import Mathlib.Data.List.Lex

namespace Tea.Luau

open Tea.Encoding

/-! ### Module paths -/

inductive ModulePathError where
  | empty
  | absoluteOrTrailingSeparator (path : List Char)
  | backslash (path : List Char)
  | emptySegment (path : List Char)
  | controlCharacter (path : List Char)
  | traversal (path : List Char)
  | drivePrefix (path : List Char)
deriving DecidableEq

/-- `byte == 0 || byte.is_ascii_control()` -/
def isControlByte (byte : UInt8) : Bool := byte == 0 || (byte < 32 || byte == 127)

/-- The loop over the segments of a path. -/
def segmentFault (path : List Char) : List (List Char) → Option ModulePathError
  | [] => none
  | segment :: segments =>
    if segment = [] then some (.emptySegment path)
    else if segment = ['.'] ∨ segment = ['.', '.'] then some (.traversal path)
    else segmentFault path segments

/-- The first fault that `ModulePath::new` finds in a path. -/
def pathFault (path : List Char) : Option ModulePathError :=
  if path = [] then some .empty
  else if path.head? = some '/' ∨ path.getLast? = some '/' then
    some (.absoluteOrTrailingSeparator path)
  else if '\\' ∈ path then some (.backslash path)
  else if (encodeUtf8 path).any isControlByte then some (.controlCharacter path)
  else
    ((segmentFault path (path.splitOn '/')).or
      -- the second byte of a drive prefix is a colon
      (if (encodeUtf8 path)[1]? = some 58 then some (.drivePrefix path) else none))

/-- A canonical path inside a bundle. -/
structure ModulePath where
  text : List Char
  accepted : pathFault text = none

theorem ModulePath.ext {path other : ModulePath} (h : path.text = other.text) : path = other := by
  cases path
  cases other
  cases h
  rfl

instance : DecidableEq ModulePath := fun path other =>
  decidable_of_iff (path.text = other.text) ⟨ModulePath.ext, congrArg ModulePath.text⟩

/-- `ModulePath::new` -/
def ModulePath.new (path : List Char) : Except ModulePathError ModulePath :=
  if h : pathFault path = none then .ok ⟨path, h⟩
  else .error ((pathFault path).get (Option.isSome_iff_ne_none.mpr h))

/-- `ModulePath::parent`: what stands before the last separator -/
def ModulePath.parent (path : ModulePath) : Option (List Char) :=
  if '/' ∈ path.text then some (['/'].intercalate (path.text.splitOn '/').dropLast) else none

/-- `ModulePath::from_segments` -/
def ModulePath.fromSegments (segments : List (List Char)) : Except ModulePathError ModulePath :=
  ModulePath.new (['/'].intercalate segments)

/-! ### The manifest -/

inductive CapabilityNameError where
  | empty
  | nonAscii (name : List Char)
  | emptySegment (name : List Char)
  | invalidCharacter (name : List Char)
deriving DecidableEq

/-- `byte.is_ascii_alphanumeric() || byte == b'_' || byte == b'-' || byte == b'.'` -/
def isNameByte (byte : UInt8) : Bool :=
  (48 ≤ byte && byte ≤ 57) || (65 ≤ byte && byte ≤ 90) || (97 ≤ byte && byte ≤ 122) ||
    byte == 95 || byte == 45 || byte == 46

/-- The first fault that `CapabilityName::new` finds in a name. -/
def nameFault (name : List Char) : Option CapabilityNameError :=
  if name = [] then some .empty
  else if (encodeUtf8 name).any (128 ≤ ·) then some (.nonAscii name)
  else if name.head? = some '.' ∨ name.getLast? = some '.' ∨ ['.', '.'] <:+: name then
    some (.emptySegment name)
  else if (encodeUtf8 name).any (!isNameByte ·) then some (.invalidCharacter name)
  else none

/-- A name of a capability. -/
structure CapabilityName where
  text : List Char
  accepted : nameFault text = none

theorem CapabilityName.ext {name other : CapabilityName} (h : name.text = other.text) :
    name = other := by
  cases name
  cases other
  cases h
  rfl

/-- `CapabilityName::new` -/
def CapabilityName.new (name : List Char) : Except CapabilityNameError CapabilityName :=
  if h : nameFault name = none then .ok ⟨name, h⟩
  else .error ((nameFault name).get (Option.isSome_iff_ne_none.mpr h))

inductive ManifestError where
  | unsupportedAbiVersion (expected actual : UInt32)
  | invalidEntrypoint (error : ModulePathError)
  | invalidCapability (error : CapabilityNameError)
  | duplicateCapability (capability : CapabilityName)

def bundleAbiVersion : UInt32 := 1

/-- The loop over `parsed.windows(2)`. -/
def firstDuplicate : List CapabilityName → Option CapabilityName
  | first :: second :: names =>
    if first.text = second.text then some first else firstDuplicate (second :: names)
  | _ => none

theorem sorted_of_firstDuplicate {names : List CapabilityName} (h : firstDuplicate names = none)
    (hsorted : names.Pairwise (·.text ≤ ·.text)) : names.Pairwise (·.text < ·.text) := by
  induction names with
  | nil => exact List.Pairwise.nil
  | cons first names ih =>
    obtain ⟨hfirst, hnames⟩ := List.pairwise_cons.mp hsorted
    cases names with
    | nil => exact List.pairwise_singleton _ _
    | cons second names =>
      simp only [firstDuplicate] at h
      split at h
      · cases h
      next hne =>
        have hrest := ih h hnames
        have hlt := lt_of_le_of_ne (hfirst second List.mem_cons_self) hne
        refine List.pairwise_cons.mpr ⟨List.forall_mem_cons.mpr ⟨hlt, ?_⟩, hrest⟩
        intro name hname
        exact hlt.trans ((List.pairwise_cons.mp hrest).1 name hname)

structure BundleManifest where
  abiVersion : UInt32
  entrypoint : ModulePath
  capabilities : List CapabilityName
  supported : abiVersion = bundleAbiVersion
  sorted : capabilities.Pairwise (·.text < ·.text)

/-- A manifest without capabilities. -/
def BundleManifest.bare (entrypoint : ModulePath) : BundleManifest where
  abiVersion := bundleAbiVersion
  entrypoint := entrypoint
  capabilities := []
  supported := rfl
  sorted := List.Pairwise.nil

/-- `parsed.sort_unstable()` -/
def sortedNames (names : List CapabilityName) : List CapabilityName :=
  names.insertionSort (·.text ≤ ·.text)

theorem pairwise_sortedNames (names : List CapabilityName) :
    (sortedNames names).Pairwise (·.text ≤ ·.text) := by
  have : Std.Total fun name other : CapabilityName => name.text ≤ other.text :=
    ⟨fun name other => le_total name.text other.text⟩
  have : IsTrans CapabilityName fun name other => name.text ≤ other.text :=
    ⟨fun _ _ _ => le_trans⟩
  exact List.pairwise_insertionSort _ names

/-- The names of a manifest once they are parsed. -/
def BundleManifest.ofNames (abiVersion : UInt32) (supported : abiVersion = bundleAbiVersion)
    (entrypoint : ModulePath) (parsed : List CapabilityName) :
    Except ManifestError BundleManifest :=
  if h : firstDuplicate (sortedNames parsed) = none then
    .ok {
      abiVersion, entrypoint, capabilities := sortedNames parsed, supported
      sorted := sorted_of_firstDuplicate h (pairwise_sortedNames parsed) }
  else
    .error (.duplicateCapability
      ((firstDuplicate (sortedNames parsed)).get (Option.isSome_iff_ne_none.mpr h)))

/-- `BundleManifest::new` -/
def BundleManifest.new (abiVersion : UInt32) (entrypoint : List Char)
    (capabilities : List (List Char)) : Except ManifestError BundleManifest :=
  if supported : abiVersion = bundleAbiVersion then do
    let entrypoint ← (ModulePath.new entrypoint).mapError .invalidEntrypoint
    let parsed ← capabilities.mapM fun capability =>
      (CapabilityName.new capability).mapError .invalidCapability
    BundleManifest.ofNames abiVersion supported entrypoint parsed
  else .error (.unsupportedAbiVersion bundleAbiVersion abiVersion)

/-! ### Modules -/

/-- `BTreeMap<ModulePath, String>` -/
structure ModuleMap where
  entries : List (ModulePath × List Char)
  ordered : KeysIncrease (fun entry => entry.1.text) entries

/-- `modules.get` -/
def ModuleMap.get (modules : ModuleMap) (path : ModulePath) : Option (List Char) :=
  (modules.entries.find? (·.1 = path)).map (·.2)

/-- `modules.contains_key` -/
def ModuleMap.containsKey (modules : ModuleMap) (path : ModulePath) : Bool :=
  (modules.get path).isSome

theorem ModuleMap.get_eq_some_iff {modules : ModuleMap} {path : ModulePath}
    {source : List Char} : modules.get path = some source ↔ (path, source) ∈ modules.entries := by
  have hfind : ∀ entry, modules.entries.find? (·.1 = path) = some entry ↔
      entry ∈ modules.entries ∧ decide (entry.1 = path) = true := by
    intro entry
    refine modules.ordered.find_eq_some_iff ?_
    intro entry other hentry hother
    rw [of_decide_eq_true hentry, of_decide_eq_true hother]
  rw [ModuleMap.get, Option.map_eq_some_iff]
  simp only [hfind, decide_eq_true_eq]
  constructor
  · rintro ⟨entry, ⟨hentry, rfl⟩, rfl⟩
    exact hentry
  · intro hmem
    exact ⟨(path, source), ⟨hmem, rfl⟩, rfl⟩

theorem ModuleMap.not_mem_of_containsKey {modules : ModuleMap} {path : ModulePath}
    (h : modules.containsKey path = false) : ∀ entry ∈ modules.entries, entry.1 ≠ path := by
  rintro ⟨other, source⟩ hentry rfl
  rw [ModuleMap.containsKey, ModuleMap.get_eq_some_iff.mpr hentry] at h
  cases h

/-- `modules.insert` of a path that is not there -/
def ModuleMap.insert (modules : ModuleMap) (path : ModulePath) (source : List Char)
    (h : modules.containsKey path = false) : ModuleMap where
  entries := insertByKey (fun entry => entry.1.text) (path, source) modules.entries
  ordered := KeysIncrease.insert modules.ordered fun entry hentry htext =>
    ModuleMap.not_mem_of_containsKey h entry hentry (ModulePath.ext htext)

/-! ### The identity of a bundle -/

/-- The offset of the hash. -/
def hashOffset : UInt64 := 0xcbf29ce484222325

/-- What one byte does to the hash. -/
def hashByte (hash : UInt64) (byte : UInt8) : UInt64 :=
  (hash ^^^ byte.toUInt64) * 0x100000001b3

/-- `hash_field` -/
def hashField (hash : UInt64) (bytes : List UInt8) : UInt64 :=
  (leBytes 8 bytes.length ++ bytes).foldl hashByte hash

/-- `calculate_hash` -/
def calculateHash (manifest : BundleManifest) (modules : ModuleMap) : UInt64 :=
  let hash := hashField hashOffset (leBytes 4 manifest.abiVersion.toNat)
  let hash := hashField hash (encodeUtf8 manifest.entrypoint.text)
  let hash := manifest.capabilities.foldl
    (fun hash capability => hashField hash (encodeUtf8 capability.text)) hash
  modules.entries.foldl
    (fun hash entry => hashField (hashField hash (encodeUtf8 entry.1.text)) (encodeUtf8 entry.2))
    hash

/-- The texts of an entry. -/
def entryTexts (entry : ModulePath × List Char) : List (List Char) := [entry.1.text, entry.2]

/-- The texts that are hashed behind the ABI version and the entrypoint. -/
def hashedTexts (manifest : BundleManifest) (modules : ModuleMap) : List (List Char) :=
  manifest.capabilities.map (·.text) ++ modules.entries.flatMap entryTexts

/-- The fields that are hashed. -/
def hashedFields (manifest : BundleManifest) (modules : ModuleMap) : List (List UInt8) :=
  leBytes 4 manifest.abiVersion.toNat :: encodeUtf8 manifest.entrypoint.text ::
    (hashedTexts manifest modules).map encodeUtf8

/-- The bytes that `calculate_hash` feeds to its hash. -/
def hashInput (manifest : BundleManifest) (modules : ModuleMap) : List UInt8 :=
  frames (hashedFields manifest modules)

theorem foldl_hashField (fields : List (List UInt8)) (hash : UInt64) :
    fields.foldl hashField hash = (frames fields).foldl hashByte hash := by
  rw [frames, List.foldl_flatMap]
  rfl

/-- **The hash is a fold over its input.** -/
theorem calculateHash_eq (manifest : BundleManifest) (modules : ModuleMap) :
    calculateHash manifest modules = (hashInput manifest modules).foldl hashByte hashOffset := by
  rw [hashInput, ← foldl_hashField]
  simp [calculateHash, hashedFields, hashedTexts, entryTexts, List.foldl_flatMap, List.foldl_map,
    List.map_flatMap]

/-! ### Bundles -/

inductive BundleError where
  | invalidModulePath (error : ModulePathError)
  | duplicateModule (path : ModulePath)
  | missingEntrypoint (entrypoint : ModulePath)

/-- A text of the program has at most `isize::MAX` bytes. -/
def Addressable (texts : List (List Char)) : Prop :=
  ∀ text ∈ texts, (encodeUtf8 text).length < 9223372036854775808

instance (texts : List (List Char)) : Decidable (Addressable texts) :=
  inferInstanceAs (Decidable (∀ text ∈ texts, (encodeUtf8 text).length < 9223372036854775808))

/-- A closed bundle of a manifest and its sources. -/
structure Bundle where
  manifest : BundleManifest
  modules : ModuleMap
  present : modules.containsKey manifest.entrypoint = true
  addressable : Addressable (manifest.entrypoint.text :: hashedTexts manifest modules)

/-- `Bundle::new` -/
def Bundle.new (manifest : BundleManifest) (modules : ModuleMap)
    (addressable : Addressable (manifest.entrypoint.text :: hashedTexts manifest modules)) :
    Except BundleError Bundle :=
  if present : modules.containsKey manifest.entrypoint = true then
    if modules.entries.any (·.1.text = []) then .error (.invalidModulePath .empty)
    else .ok { manifest, modules, present, addressable }
  else .error (.missingEntrypoint manifest.entrypoint)

/-- The loop of `Bundle::from_sources`. -/
def collectSources (modules : ModuleMap) :
    List (List Char × List Char) → Except BundleError ModuleMap
  | [] => .ok modules
  | (path, source) :: sources => do
    let path ← (ModulePath.new path).mapError .invalidModulePath
    if h : modules.containsKey path = false then
      collectSources (modules.insert path source h) sources
    else .error (.duplicateModule path)

def ModuleMap.empty : ModuleMap where
  entries := []
  ordered := List.Pairwise.nil

/-- `source_hash` -/
def Bundle.sourceHash (bundle : Bundle) : UInt64 :=
  calculateHash bundle.manifest bundle.modules

/-! ### Requests -/

inductive ResolveError where
  | invalidPath (error : ModulePathError)
  | escapesBundle (fromPath : ModulePath) (requested : List Char)
  | requesterNotFound (path : ModulePath)
  | notFound (path : ModulePath)

structure ResolvedModule where
  path : ModulePath
  source : List Char

/-- `resolve_path` -/
def Bundle.resolvePath (bundle : Bundle) (path : ModulePath) :
    Except ResolveError ResolvedModule :=
  match bundle.modules.get path with
  | some source => .ok { path, source }
  | none => .error (.notFound path)

/-- `resolve` -/
def Bundle.resolve (bundle : Bundle) (requested : List Char) :
    Except ResolveError ResolvedModule := do
  let path ← (ModulePath.new requested).mapError .invalidPath
  bundle.resolvePath path

/-- Whether a request starts at the directory of the requester. -/
def isRelative (requested : List Char) : Bool :=
  requested == ['.'] || requested == ['.', '.'] || ['.', '/'].isPrefixOf requested ||
    ['.', '.', '/'].isPrefixOf requested

/-- The loop over the segments of a request. -/
def walk (fromPath : ModulePath) (requested : List Char) :
    List (List Char) → List (List Char) → Except ResolveError (List (List Char))
  | segments, [] => .ok segments
  | segments, segment :: rest =>
    if segment = [] then .error (.invalidPath (.emptySegment requested))
    else if segment = ['.'] then walk fromPath requested segments rest
    else if segment = ['.', '.'] then
      if isRelative requested = false then .error (.invalidPath (.traversal requested))
      else if segments = [] then .error (.escapesBundle fromPath requested)
      else walk fromPath requested segments.dropLast rest
    else walk fromPath requested (segments ++ [segment]) rest

/-- The segments that a request starts with. -/
def baseSegments (fromPath : ModulePath) (requested : List Char) : List (List Char) :=
  if isRelative requested then (fromPath.parent.map (·.splitOn '/')).getD [] else []

/-- `resolve_relative` -/
def Bundle.resolveRelative (bundle : Bundle) (fromPath : ModulePath) (requested : List Char) :
    Except ResolveError ResolvedModule :=
  if bundle.modules.containsKey fromPath = false then .error (.requesterNotFound fromPath)
  else if requested.head? = some '/' ∨ requested.head? = some '\\' then
    .error (.invalidPath (.absoluteOrTrailingSeparator requested))
  else do
    let segments ← walk fromPath requested (baseSegments fromPath requested)
      (requested.splitOn '/')
    let path ← (ModulePath.fromSegments segments).mapError .invalidPath
    bundle.resolvePath path

end Tea.Luau
