/-
  Tea/Contract/ExtensionListing.lean
  ==================================
  **The listing of extension files** is complete and its paths can be read, just when a path is
  given and the names on the way to the files are such as the check of paths lets pass.
-/
import Tea.App.ExtensionFiles
import Tea.Encoding.Segments
import Mathlib.Data.List.Perm.Basic

namespace Tea.Contract

open Tea.App.ExtensionFiles Tea.Core Tea.Encoding Tea.Files

/-! ### Paths of names -/

theorem checkComponents_normal (segments : List (List UInt8)) :
    checkComponents (segments.map .normal) = .ok () := by
  induction segments with
  | nil => rfl
  | cons segment segments ih => exact ih

theorem components_pathText {names : List FileName} (hne : names ≠ []) :
    components (pathText names) = (names.map Subtype.val).map .normal := by
  have hhead : (names.map Subtype.val).head? ≠ some [46] := by
    intro h
    cases names with
    | nil => exact hne rfl
    | cons name names => exact name.property.2.1 (Option.some.inj h)
  rw [components, segments_pathText hne, if_neg hhead, List.nil_append, List.filter_eq_self.mpr]
  · apply List.map_congr_left
    intro segment hsegment
    obtain ⟨name, -, rfl⟩ := List.mem_map.mp hsegment
    rw [if_neg name.property.2.2.1]
  · intro segment hsegment
    obtain ⟨name, -, rfl⟩ := List.mem_map.mp hsegment
    simp [name.property.1, name.property.2.1]

/-- No byte of the path is a control character. -/
def NoControl (names : List FileName) : Prop := (pathText names).any isControl = false

/-- A path of names is let pass just when it has no backslash and no control character. -/
theorem containedPath_names {names : List FileName} (hne : names ≠ [])
    (root : List (Step FileName)) {text : String}
    (htext : encodeUtf8 text.toList = pathText names) :
    (('\\' ∉ text.toList ∧ NoControl names) →
        containedPath root text = .ok (root ++ names.map .name)) ∧
      (∀ path, containedPath root text = .ok path → '\\' ∉ text.toList ∧ NoControl names) := by
  obtain ⟨hhead, hempty⟩ := head_pathText hne
  have htextNe : text ≠ "" := by
    rintro rfl
    exact hempty htext.symm
  unfold containedPath
  dsimp only
  rw [htext]
  constructor
  · rintro ⟨hslash, hcontrol⟩
    have hpass : ¬ (text = "" ∨ '\\' ∈ text.toList ∨ (pathText names).any isControl = true) := by
      rw [hcontrol]
      simp [htextNe, hslash]
    rw [if_neg hpass, if_neg hhead, components_pathText hne, checkComponents_normal,
      segments_pathText hne]
    rw [map_stepOf_names]
  · intro path h
    split_ifs at h with hfail
    rw [not_or, not_or, Bool.not_eq_true] at hfail
    exact hfail.2

/-! ### Resolution -/

section

variable {fs : FileSystem} {root : List (Step FileName)} {canonicalRoot : List FileName}

theorem get_root {names : List FileName} {node : FileSystem}
    (h : fs.get (canonicalRoot ++ names) = some node) :
    ∃ below, fs.get canonicalRoot = some below ∧ below.get names = some node := by
  rw [Node.get_append] at h
  exact Option.bind_eq_some_iff.mp h

theorem canonicalize_below (hroot : canonicalize fs root = .ok canonicalRoot)
    {names : List FileName} {node : FileSystem}
    (h : fs.get (canonicalRoot ++ names) = some node) (hreal : node.Real) :
    canonicalize fs (root ++ names.map .name) = .ok (canonicalRoot ++ names) := by
  obtain ⟨below, hbelow, hnames⟩ := get_root h
  obtain ⟨links, hwalk⟩ := walk_append fs maxLinks (names.map Step.name) hroot
  rw [canonicalize, hwalk]
  exact walk_names links hbelow hnames hreal

theorem ensureContained_below (hroot : canonicalize fs root = .ok canonicalRoot)
    {names : List FileName} {node : FileSystem}
    (h : fs.get (canonicalRoot ++ names) = some node) (hreal : node.Real) :
    ensureContainedCanonical fs root (canonicalRoot ++ names) = .ok () := by
  rw [ensureContainedCanonical, hroot, canonicalize_names h hreal]
  exact if_pos (List.prefix_append _ _)

/-- A path of names below the root is resolved to what it says. -/
theorem resolveExisting_names (hroot : canonicalize fs root = .ok canonicalRoot)
    {names : List FileName} (hne : names ≠ []) {node : FileSystem}
    (h : fs.get (canonicalRoot ++ names) = some node) (hreal : node.Real) {text : String}
    (htext : encodeUtf8 text.toList = pathText names) :
    (('\\' ∉ text.toList ∧ NoControl names) →
        resolveExisting fs root text = .ok (canonicalRoot ++ names)) ∧
      (∀ path, resolveExisting fs root text = .ok path → '\\' ∉ text.toList ∧ NoControl names) := by
  obtain ⟨hpass, hpassed⟩ := containedPath_names hne root htext
  constructor
  · intro hplain
    rw [resolveExisting, hpass hplain]
    dsimp only
    rw [canonicalize_below hroot h hreal]
    dsimp only
    rw [ensureContained_below hroot h hreal]
    rfl
  · intro path hresolved
    unfold resolveExisting at hresolved
    cases hlexical : containedPath root text with
    | error message =>
      rw [hlexical] at hresolved
      cases hresolved
    | ok lexical => exact hpassed lexical hlexical

/-! ### Collecting -/

theorem collectEntries_eq (path : List FileName) (entries : List (FileName × FileSystem)) :
    collectEntries fs canonicalRoot path entries =
      entries.map fun entry =>
        (entry.1, collectFiles fs canonicalRoot (path ++ [entry.1]) entry.2) := by
  induction entries with
  | nil => rfl
  | cons entry entries ih =>
    obtain ⟨name, node⟩ := entry
    rw [collectEntries, ih]
    rfl

theorem filesIn_eq (entries : List (FileName × FileSystem)) :
    Node.filesIn entries = entries.flatMap fun entry =>
      entry.2.files.map fun file => (entry.1 :: file.1, file.2) := by
  induction entries with
  | nil => rfl
  | cons entry entries ih =>
    obtain ⟨name, node⟩ := entry
    rw [Node.filesIn, ih]
    rfl

/-- What an output says when it is no error. -/
def outputOf (output : FileName × Except ToolError (List String)) : List String :=
  output.2.toOption.getD []

theorem joinOutputs_eq {outputs : List (FileName × Except ToolError (List String))}
    (h : ∀ output ∈ outputs, ∃ files, output.2 = .ok files) :
    joinOutputs outputs = .ok (outputs.flatMap outputOf) := by
  induction outputs with
  | nil => rfl
  | cons output outputs ih =>
    obtain ⟨files, hfiles⟩ := h output List.mem_cons_self
    have ih := ih fun output hmem => h output (List.mem_cons_of_mem _ hmem)
    obtain ⟨name, result⟩ := output
    dsimp only at hfiles
    rw [hfiles, joinOutputs, ih]
    rfl

/-- The files below a node as they are shown. -/
def shownFiles (canonicalRoot path : List FileName) (node : FileSystem) : List String :=
  node.files.map fun file => shownPath ((path ++ file.1).drop canonicalRoot.length)

/-- **The collection** finds the files below a node, in some order. -/
theorem collectFiles_perm {below : FileSystem} (hroot : fs.get canonicalRoot = some below)
    (hreal : below.Real) {node : FileSystem} (hunique : node.Unique) {names : List FileName}
    (hget : fs.get (canonicalRoot ++ names) = some node) :
    ∃ files, collectFiles fs canonicalRoot (canonicalRoot ++ names) node = .ok files ∧
      files.Perm (shownFiles canonicalRoot (canonicalRoot ++ names) node) := by
  induction hunique generalizing names with
  | file data =>
    refine ⟨_, ?_, List.Perm.refl _⟩
    have hcanonical := canonicalize_names hroot hreal
    rw [collectFiles, collectFile, canonicalize_names hget (Node.real_file data)]
    dsimp only
    rw [ensureContained_below hcanonical hget (Node.real_file data)]
    dsimp only
    rw [if_pos (List.prefix_append _ _), shownFiles, Node.files, List.map_singleton,
      List.append_nil]
  | symlink absolute target =>
    refine ⟨[], ?_, ?_⟩
    · rw [collectFiles]
    · rw [shownFiles, Node.files]
      exact List.Perm.refl _
  | other =>
    refine ⟨[], ?_, ?_⟩
    · rw [collectFiles]
    · rw [shownFiles, Node.files]
      exact List.Perm.refl _
  | @dir entries nodup hbelow ih =>
    have hentry : ∀ entry ∈ entries, ∃ files,
        collectFiles fs canonicalRoot (canonicalRoot ++ names ++ [entry.1]) entry.2 = .ok files ∧
          files.Perm (shownFiles canonicalRoot (canonicalRoot ++ names ++ [entry.1]) entry.2) := by
      intro entry hmem
      have hnext : fs.get (canonicalRoot ++ (names ++ [entry.1])) = some entry.2 := by
        rw [← List.append_assoc, Node.get_append, hget, Option.bind_some, Node.get,
          (Node.child_eq_some_iff nodup).mpr hmem]
        rfl
      have hfound := ih entry hmem hnext
      rwa [← List.append_assoc] at hfound
    rw [collectFiles, collectEntries_eq]
    have hsorted := List.mergeSort_perm
      (entries.map fun entry => (entry.1,
        collectFiles fs canonicalRoot (canonicalRoot ++ names ++ [entry.1]) entry.2))
      (fun entry other => nameLe entry.1 other.1)
    refine ⟨_, joinOutputs_eq ?_, (hsorted.flatMap_right outputOf).trans ?_⟩
    · intro output houtput
      obtain ⟨entry, hmem, rfl⟩ := List.mem_map.mp (hsorted.mem_iff.mp houtput)
      obtain ⟨files, hfiles, -⟩ := hentry entry hmem
      exact ⟨files, hfiles⟩
    · rw [shownFiles, Node.files, filesIn_eq, List.map_flatMap, List.flatMap_map]
      apply List.Perm.flatMap_left
      intro entry hmem
      obtain ⟨files, hfiles, hperm⟩ := hentry entry hmem
      have houtput : outputOf (entry.1, collectFiles fs canonicalRoot
          (canonicalRoot ++ names ++ [entry.1]) entry.2) = files := by
        rw [outputOf, hfiles]
        rfl
      rw [houtput, List.map_map]
      refine hperm.trans (List.Perm.of_eq ?_)
      apply List.map_congr_left
      intro file _
      simp

/-! ### The listing of a directory -/

theorem list_eq (hroot : canonicalize fs root = .ok canonicalRoot)
    {dir : List FileName} (hne : dir ≠ []) {entries : List (FileName × FileSystem)}
    (hdir : fs.get (canonicalRoot ++ dir) = some (.dir entries))
    (hbelow : (Node.dir entries).Unique) {text : String}
    (htext : encodeUtf8 text.toList = pathText dir)
    (hplain : '\\' ∉ text.toList ∧ NoControl dir) :
    ∃ files : List String, list fs root text = .ok (listingText (files.mergeSort stringLe)) ∧
      files.Perm ((Node.dir entries).files.map fun file => shownPath (dir ++ file.1)) := by
  obtain ⟨below, hrootNode, hget⟩ := get_root hdir
  have hreal : below.Real := by
    cases dir with
    | nil => exact absurd rfl hne
    | cons name names =>
      intro absolute target heq
      subst heq
      cases hget
  obtain ⟨files, hfiles, hperm⟩ := collectFiles_perm hrootNode hreal hbelow hdir
  refine ⟨files, ?_, hperm.trans (List.Perm.of_eq ?_)⟩
  · rw [list, (resolveExisting_names hroot hne hdir (Node.real_dir entries) htext).1 hplain]
    dsimp only
    rw [hdir]
    dsimp only
    rw [hroot]
    dsimp only
    rw [hfiles]
    rfl
  · apply List.map_congr_left
    intro file _
    rw [List.append_assoc, List.drop_left]

/-- A path that is shown as it is: it has no backslash and no end of a line. -/
def ShownAsIs (names : List FileName) : Prop :=
  ∃ text : List Char, encodeUtf8 text = pathText names ∧ '\\' ∉ text ∧ '\n' ∉ text

theorem shownPath_eq {names : List FileName} {text : List Char}
    (htext : encodeUtf8 text = pathText names) (hslash : '\\' ∉ text) :
    shownPath names = String.ofList text := by
  rw [shownPath, ← htext, fromUtf8Lossy_encode]
  congr 1
  calc text.map (fun c => if c = '\\' then '/' else c)
      = text.map id := List.map_congr_left fun c hc => if_neg fun h : c = '\\' => hslash (h ▸ hc)
    _ = text := List.map_id text

theorem encode_shownPath {names : List FileName} (h : ShownAsIs names) :
    encodeUtf8 (shownPath names).toList = pathText names ∧ '\n' ∉ (shownPath names).toList := by
  obtain ⟨text, htext, hslash, hline⟩ := h
  rw [shownPath_eq htext hslash, String.toList_ofList]
  exact ⟨htext, hline⟩

theorem shownPath_no_backslash (names : List FileName) : '\\' ∉ (shownPath names).toList := by
  rw [shownPath, String.toList_ofList]
  intro hmem
  obtain ⟨c, -, hc⟩ := List.mem_map.mp hmem
  split_ifs at hc with h
  · exact absurd hc (by decide)
  · exact h hc

/-- The lines that a text of the listing has. -/
def TellsLines (text : String) (lines : List String) : Prop :=
  if lines = [] then text = emptyListing
  else text.toList.splitOn '\n' = lines.map String.toList

theorem tellsLines_listingText {lines : List String} (h : ∀ line ∈ lines, '\n' ∉ line.toList) :
    TellsLines (listingText lines) lines := by
  unfold TellsLines listingText
  split_ifs with hnil
  · rfl
  · rw [String.toList_ofList]
    apply List.splitOn_intercalate
    · intro line hline
      obtain ⟨found, hfound, rfl⟩ := List.mem_map.mp hline
      exact h found hfound
    · rwa [ne_eq, List.map_eq_nil_iff]

theorem mem_intercalate_of_mem {α : Type} (separator : α) {item : α}
    {parts : List (List α)} {part : List α} (hpart : part ∈ parts) (hitem : item ∈ part) :
    item ∈ [separator].intercalate parts := by
  induction parts with
  | nil => cases hpart
  | cons first rest ih =>
    cases rest with
    | nil =>
      rw [List.mem_singleton.mp hpart] at hitem
      simpa using hitem
    | cons second rest =>
      rw [List.intercalate_cons_cons, List.mem_append, List.mem_append]
      rcases List.mem_cons.mp hpart with rfl | hrest
      · exact .inl (.inl hitem)
      · exact .inr (ih hrest)

theorem mem_of_mem_intercalate {α : Type} {separator item : α} {parts : List (List α)}
    (h : item ∈ [separator].intercalate parts) :
    item = separator ∨ ∃ part ∈ parts, item ∈ part := by
  induction parts with
  | nil => cases h
  | cons first rest ih =>
    cases rest with
    | nil => exact .inr ⟨first, List.mem_singleton_self _, by simpa using h⟩
    | cons second rest =>
      rw [List.intercalate_cons_cons, List.mem_append, List.mem_append] at h
      rcases h with (h | h) | h
      · exact .inr ⟨first, List.mem_cons_self, h⟩
      · exact .inl (List.mem_singleton.mp h)
      · rcases ih h with h | ⟨part, hpart, hitem⟩
        · exact .inl h
        · exact .inr ⟨part, List.mem_cons_of_mem _ hpart, hitem⟩

/-- The lines of a listing of shown paths have neither a backslash nor an end of a line. -/
theorem tellsLines_plain {files lines : List String} (hlists : TellsLines (listingText files) lines)
    (hfiles : ∀ file ∈ files, '\\' ∉ file.toList) {line : String} (hline : line ∈ lines) :
    '\\' ∉ line.toList ∧ '\n' ∉ line.toList := by
  have hne : lines ≠ [] := List.ne_nil_of_mem hline
  rw [TellsLines, if_neg hne] at hlists
  have hpart : line.toList ∈ (listingText files).toList.splitOn '\n' := by
    rw [hlists]
    exact List.mem_map_of_mem hline
  refine ⟨?_, ?_⟩
  · intro hslash
    have hmem := mem_intercalate_of_mem '\n' hpart hslash
    rw [List.intercalate_splitOn, listingText] at hmem
    split_ifs at hmem with hnil
    · exact absurd hmem (by decide)
    · rw [String.toList_ofList] at hmem
      rcases mem_of_mem_intercalate hmem with h | ⟨part, hpart, hin⟩
      · exact absurd h (by decide)
      · obtain ⟨file, hfile, rfl⟩ := List.mem_map.mp hpart
        exact hfiles file hfile hin
  · exact not_mem_of_mem_splitOn hpart

/-! ### Complete listings -/

theorem stringLe_trans (text other third : String) (h : stringLe text other = true)
    (h' : stringLe other third = true) : stringLe text third = true := by
  rw [stringLe, decide_eq_true_eq] at h h' ⊢
  exact List.le_trans h h'

theorem stringLe_total (text other : String) :
    (stringLe text other || stringLe other text) = true := by
  rw [stringLe, stringLe, Bool.or_eq_true, decide_eq_true_eq, decide_eq_true_eq]
  exact List.le_total _ _

variable {F : Type}

/-- The arguments of a call of the tool. -/
def callFields (operation : String) (path : Option String) : List (String × JsonValue F) :=
  ("operation", .string operation) :: (path.map fun path => ("path", JsonValue.string path)).toList

/-- How a directory is asked for: the root by no path. -/
def AsksFor (dir : List FileName) (path : Option String) : Prop :=
  (dir = [] ∧ path = none) ∨
    (dir ≠ [] ∧ ∃ text : String, path = some text ∧ encodeUtf8 text.toList = pathText dir)

/-- The lines are the paths of the files below the directory, each once and in order. -/
structure ListsFiles (dir : List FileName) (node : FileSystem) (lines : List String) : Prop where
  once : lines.Nodup
  sorted : lines.Pairwise fun line other => stringLe line other = true
  all : ∀ names data, node.get names = some (.file data) →
    ∃ line ∈ lines, encodeUtf8 line.toList = pathText (dir ++ names)
  only : ∀ line ∈ lines, ∃ names data, node.get names = some (.file data) ∧
    encodeUtf8 line.toList = pathText (dir ++ names)

variable (fs root) (author : String → String → Except ToolError String)

/-- A file of text within the limit is read by the path in its line. -/
def ReadsFiles (F : Type) (dir : List FileName) (node : FileSystem) (lines : List String) : Prop :=
  ∀ line ∈ lines, ∀ names data text, node.get names = some (.file data) →
    encodeUtf8 line.toList = pathText (dir ++ names) → data.length ≤ maxAuthoredFileBytes →
    fromUtf8 data = .ok text →
    execute (F := F) fs root author (callFields "read" (some line)) = .ok (String.ofList text)

/-- The listing of the directory is complete and can be read. -/
def CompleteListing (F : Type) (dir : List FileName) (node : FileSystem) : Prop :=
  ∃ path text lines, AsksFor dir path ∧
    execute (F := F) fs root author (callFields "list" path) = .ok text ∧ TellsLines text lines ∧
      ListsFiles dir node lines ∧ ReadsFiles fs root author F dir node lines

/-- Every file below the directory has a path that is shown as it is, and without control
    characters when it can be read. -/
def SpellableFiles (dir : List FileName) (node : FileSystem) : Prop :=
  ∀ names data, node.get names = some (.file data) → ShownAsIs (dir ++ names) ∧
    (data.length ≤ maxAuthoredFileBytes → (∃ text, fromUtf8 data = .ok text) →
      NoControl (dir ++ names))

/-- A path that the tool accepts. -/
def AcceptedPath (names : List FileName) : Prop :=
  (∃ text : List Char, encodeUtf8 text = pathText names ∧ '\\' ∉ text) ∧ NoControl names

theorem execute_list (path : Option String) :
    execute (F := F) fs root author (callFields "list" path) =
      list fs root (path.getD ".") := by
  cases path with
  | none => simp [execute, callFields, relativeOf, JsonValue.lookupField]
  | some path => rfl

theorem execute_read (path : String) :
    execute (F := F) fs root author (callFields "read" (some path)) =
      App.ExtensionFiles.read fs root path := rfl

/-- No path names the root. -/
theorem list_dot (text : String) : list fs root "." ≠ .ok text := by
  have hpath : containedPath root "." = .error "`.` path segments are not allowed" := by
    rw [containedPath, if_neg (by decide), if_neg (by decide)]
    rfl
  rw [list, resolveExisting, hpath]
  intro h
  cases h

/-- The text of a file below the directory is read only by an accepted path. -/
theorem noControl_of_read (hroot : canonicalize fs root = .ok canonicalRoot)
    {names : List FileName} (hne : names ≠ []) {data : List UInt8}
    (hfile : fs.get (canonicalRoot ++ names) = some (.file data)) {line text : String}
    (hline : encodeUtf8 line.toList = pathText names)
    (hread : App.ExtensionFiles.read fs root line = .ok text) : NoControl names := by
  unfold App.ExtensionFiles.read at hread
  cases hresolved : resolveExisting fs root line with
  | error error =>
    rw [hresolved] at hread
    cases hread
  | ok found =>
    exact ((resolveExisting_names hroot hne hfile (Node.real_file data) hline).2 _ hresolved).2

theorem read_file (hroot : canonicalize fs root = .ok canonicalRoot)
    {names : List FileName} (hne : names ≠ []) {data : List UInt8}
    (hfile : fs.get (canonicalRoot ++ names) = some (.file data)) {line : String}
    (hline : encodeUtf8 line.toList = pathText names)
    (hplain : '\\' ∉ line.toList ∧ NoControl names)
    (hlimit : data.length ≤ maxAuthoredFileBytes) {text : List Char}
    (htext : fromUtf8 data = .ok text) :
    App.ExtensionFiles.read fs root line = .ok (String.ofList text) := by
  rw [App.ExtensionFiles.read,
    (resolveExisting_names hroot hne hfile (Node.real_file data) hline).1 hplain]
  dsimp only
  rw [hfile]
  dsimp only
  rw [if_neg (by omega), htext]

/-- A text that lists a directory is the listing of its files. -/
theorem list_spelled (hroot : canonicalize fs root = .ok canonicalRoot) {dir : List FileName}
    (hne : dir ≠ []) {entries : List (FileName × FileSystem)}
    (hdir : fs.get (canonicalRoot ++ dir) = some (.dir entries))
    (hbelow : (Node.dir entries).Unique) {asked text : String}
    (hasked : encodeUtf8 asked.toList = pathText dir) (hlist : list fs root asked = .ok text) :
    ('\\' ∉ asked.toList ∧ NoControl dir) ∧
      ∃ files : List String, text = listingText files ∧ ∀ file ∈ files, '\\' ∉ file.toList := by
  have hplain : '\\' ∉ asked.toList ∧ NoControl dir := by
    unfold list at hlist
    cases hresolved : resolveExisting fs root asked with
    | error error =>
      rw [hresolved] at hlist
      cases hlist
    | ok directory =>
      exact (resolveExisting_names hroot hne hdir (Node.real_dir entries) hasked).2 _ hresolved
  refine ⟨hplain, ?_⟩
  obtain ⟨files, heq, hperm⟩ := list_eq hroot hne hdir hbelow hasked hplain
  rw [heq] at hlist
  cases hlist
  refine ⟨_, rfl, ?_⟩
  intro file hfile
  obtain ⟨found, -, rfl⟩ :=
    List.mem_map.mp (hperm.mem_iff.mp ((List.mergeSort_perm files stringLe).mem_iff.mp hfile))
  exact shownPath_no_backslash _

/-- Only what is accepted and can be spelled is listed completely. -/
theorem CompleteListing.spellable {F : Type} (hunique : fs.Unique)
    (hroot : canonicalize fs root = .ok canonicalRoot) {dir : List FileName}
    {entries : List (FileName × FileSystem)}
    (hdir : fs.get (canonicalRoot ++ dir) = some (.dir entries))
    (h : CompleteListing fs root author F dir (.dir entries)) :
    dir ≠ [] ∧ AcceptedPath dir ∧ SpellableFiles dir (.dir entries) := by
  obtain ⟨path, text, lines, hasks, hlist, hlines, hfiles, hread⟩ := h
  rw [execute_list] at hlist
  rcases hasks with ⟨-, rfl⟩ | ⟨hne, asked, rfl, hasked⟩
  · exact absurd hlist (list_dot fs root text)
  · obtain ⟨hplain, files, rfl, hslash⟩ :=
      list_spelled fs root hroot hne hdir (Node.unique_get hunique hdir) hasked hlist
    refine ⟨hne, ⟨⟨asked.toList, hasked, hplain.1⟩, hplain.2⟩, ?_⟩
    intro names data hget
    obtain ⟨line, hline, hencoded⟩ := hfiles.all names data hget
    refine ⟨⟨line.toList, hencoded, tellsLines_plain hlines hslash hline⟩, ?_⟩
    rintro hlimit ⟨content, hcontent⟩
    have hfile : fs.get (canonicalRoot ++ (dir ++ names)) = some (.file data) := by
      rw [← List.append_assoc, Node.get_append, hdir]
      exact hget
    exact noControl_of_read fs root hroot (List.append_ne_nil_of_left_ne_nil hne names) hfile
      hencoded (hread line hline names data content hget hencoded hlimit hcontent)

/-- The files below a directory in the order of a listing. -/
theorem listsFiles_sorted {dir : List FileName} (hne : dir ≠ [])
    {entries : List (FileName × FileSystem)} (hbelow : (Node.dir entries).Unique)
    (hspell : SpellableFiles dir (.dir entries)) {files : List String}
    (hperm : files.Perm ((Node.dir entries).files.map fun file => shownPath (dir ++ file.1))) :
    ListsFiles dir (.dir entries) (files.mergeSort stringLe) ∧
      ∀ line ∈ files.mergeSort stringLe, '\\' ∉ line.toList ∧ '\n' ∉ line.toList := by
  have hsorted := List.mergeSort_perm files stringLe
  have hmem : ∀ line, line ∈ files.mergeSort stringLe ↔
      ∃ names data, (Node.dir entries).get names = some (.file data) ∧
        line = shownPath (dir ++ names) := by
    intro line
    rw [hsorted.mem_iff, hperm.mem_iff, List.mem_map]
    constructor
    · rintro ⟨⟨names, data⟩, hfile, rfl⟩
      exact ⟨names, data, (Node.mem_files hbelow).mp hfile, rfl⟩
    · rintro ⟨names, data, hget, rfl⟩
      exact ⟨(names, data), (Node.mem_files hbelow).mpr hget, rfl⟩
  have hshown : ∀ names data, (Node.dir entries).get names = some (.file data) →
      encodeUtf8 (shownPath (dir ++ names)).toList = pathText (dir ++ names) ∧
        '\n' ∉ (shownPath (dir ++ names)).toList :=
    fun names data hget => encode_shownPath (hspell names data hget).1
  refine ⟨⟨?_, ?_, ?_, ?_⟩, ?_⟩
  · have hcomp : (fun file : List FileName × List UInt8 => shownPath (dir ++ file.1)) =
        (fun names => shownPath (dir ++ names)) ∘ Prod.fst := rfl
    rw [hsorted.nodup_iff, hperm.nodup_iff, hcomp, ← List.map_map]
    apply (Node.nodup_files hbelow).map_on
    intro names hnames names' hnames' hsame
    obtain ⟨⟨_, data⟩, hfile, rfl⟩ := List.mem_map.mp hnames
    obtain ⟨⟨_, data'⟩, hfile', rfl⟩ := List.mem_map.mp hnames'
    have htext := (hshown _ _ ((Node.mem_files hbelow).mp hfile)).1
    have htext' := (hshown _ _ ((Node.mem_files hbelow).mp hfile')).1
    rw [hsame, htext'] at htext
    exact (List.append_cancel_left (pathText_injective
      (List.append_ne_nil_of_left_ne_nil hne _) (List.append_ne_nil_of_left_ne_nil hne _)
      htext)).symm
  · exact List.pairwise_mergeSort stringLe_trans stringLe_total files
  · intro names data hget
    exact ⟨_, (hmem _).mpr ⟨names, data, hget, rfl⟩, (hshown names data hget).1⟩
  · intro line hline
    obtain ⟨names, data, hget, rfl⟩ := (hmem line).mp hline
    exact ⟨names, data, hget, (hshown names data hget).1⟩
  · intro line hline
    obtain ⟨names, data, hget, rfl⟩ := (hmem line).mp hline
    exact ⟨shownPath_no_backslash _, (hshown names data hget).2⟩

/-- **The listing of a directory is complete and its paths can be read** just when the directory
    is not the root, its path is accepted, and every file below it has a path that can be
    spelled. -/
theorem completeListing_iff (F : Type) {canonicalRoot : List FileName} (hunique : fs.Unique)
    (hroot : canonicalize fs root = .ok canonicalRoot) {dir : List FileName}
    {entries : List (FileName × FileSystem)}
    (hdir : fs.get (canonicalRoot ++ dir) = some (.dir entries)) :
    CompleteListing fs root author F dir (.dir entries) ↔
      dir ≠ [] ∧ AcceptedPath dir ∧ SpellableFiles dir (.dir entries) := by
  constructor
  · intro h
    exact h.spellable fs root author hunique hroot hdir
  · rintro ⟨hne, ⟨⟨asked, hasked, hslash⟩, hcontrol⟩, hspell⟩
    have hbelow := Node.unique_get hunique hdir
    have hasked' : encodeUtf8 (String.ofList asked).toList = pathText dir := by
      rwa [String.toList_ofList]
    have hslash' : '\\' ∉ (String.ofList asked).toList := by
      rwa [String.toList_ofList]
    obtain ⟨files, heq, hperm⟩ := list_eq hroot hne hdir hbelow hasked' ⟨hslash', hcontrol⟩
    obtain ⟨hlists, hplain⟩ := listsFiles_sorted hne hbelow hspell hperm
    refine ⟨some (String.ofList asked), _, files.mergeSort stringLe,
      .inr ⟨hne, _, rfl, hasked'⟩, by rw [execute_list, Option.getD_some, heq],
      tellsLines_listingText fun line hline => (hplain line hline).2, hlists, ?_⟩
    intro line hline names data content hget hencoded hlimit hcontent
    have hfile : fs.get (canonicalRoot ++ (dir ++ names)) = some (.file data) := by
      rw [← List.append_assoc, Node.get_append, hdir]
      exact hget
    rw [execute_read]
    exact read_file fs root hroot (List.append_ne_nil_of_left_ne_nil hne names) hfile hencoded
      ⟨(hplain line hline).1, (hspell names data hget).2 hlimit ⟨content, hcontent⟩⟩ hlimit hcontent

end

/-! ### A small tree -/

def homeName : FileName := ⟨[120], by decide⟩
def demoName : FileName := ⟨[100], by decide⟩
def moduleName : FileName := ⟨[109], by decide⟩

/-- A directory with one file. -/
def demoEntries : List (FileName × FileSystem) := [(moduleName, .file [104, 105])]

/-- A home with one extension. -/
def smallEntries : List (FileName × FileSystem) := [(demoName, .dir demoEntries)]

def smallTree : FileSystem := .dir [(homeName, .dir smallEntries)]

theorem unique_smallTree : smallTree.Unique := by
  have hfile : ∀ entry ∈ demoEntries, entry.2.Unique := by
    intro entry hentry
    rw [List.mem_singleton.mp hentry]
    exact .file _
  have hdemo : ∀ entry ∈ smallEntries, entry.2.Unique := by
    intro entry hentry
    rw [List.mem_singleton.mp hentry]
    exact .dir (by decide) hfile
  refine .dir (by decide) ?_
  intro entry hentry
  rw [List.mem_singleton.mp hentry]
  exact .dir (by decide) hdemo

theorem canonicalize_small : canonicalize smallTree [.name homeName] = .ok [homeName] := rfl

/-- The extension of the small tree is listed, and its file is read. -/
theorem demo_listing :
    CompleteListing smallTree [.name homeName] (fun _ _ => .ok "") Unit [demoName]
        (.dir demoEntries) ↔
      [demoName] ≠ [] ∧ AcceptedPath [demoName] ∧ SpellableFiles [demoName] (.dir demoEntries) :=
  completeListing_iff smallTree [.name homeName] (fun _ _ => .ok "") Unit unique_smallTree
    canonicalize_small rfl

/-- The root of the small tree cannot be listed. -/
theorem root_not_listed :
    smallTree.Unique ∧ smallTree.get ([homeName] ++ []) = some (.dir smallEntries) ∧
      ¬ CompleteListing smallTree [.name homeName] (fun _ _ => .ok "") Unit []
        (.dir smallEntries) := by
  refine ⟨unique_smallTree, rfl, ?_⟩
  rintro ⟨path, text, lines, hasks, hlist, -⟩
  rcases hasks with ⟨-, rfl⟩ | ⟨hne, -⟩
  · rw [execute_list] at hlist
    exact list_dot _ _ _ hlist
  · exact hne rfl

end Tea.Contract
