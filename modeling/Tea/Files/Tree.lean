/-
  Tea/Files/Tree.lean
  ===================
  **Trees of files with symbolic links**, over any names and any contents: the node of a path,
  the files below a node, and the resolution of a path, which follows links; and the ones of a
  machine, with the segments of a path as names.
-/
import Mathlib.Data.List.Basic
import Mathlib.Data.List.Nodup

namespace Tea.Files

/-- What a segment of a path leads to. -/
inductive Step (Name : Type) where
  | current
  | parent
  | name (name : Name)
deriving DecidableEq

inductive Node (Name Data : Type) where
  | file (data : Data)
  | dir (entries : List (Name × Node Name Data))
  | symlink (absolute : Bool) (target : List (Step Name))
  | other

namespace Node

variable {Name Data : Type}

/-- No directory has two entries of one name. -/
inductive Unique : Node Name Data → Prop where
  | file (data : Data) : Unique (.file data)
  | dir {entries : List (Name × Node Name Data)} (nodup : (entries.map Prod.fst).Nodup)
    (below : ∀ entry ∈ entries, Unique entry.2) : Unique (.dir entries)
  | symlink (absolute : Bool) (target : List (Step Name)) : Unique (.symlink absolute target)
  | other : Unique .other

/-! ### Paths -/

variable [DecidableEq Name]

def child : Node Name Data → Name → Option (Node Name Data)
  | .dir entries, name => (entries.find? fun entry => entry.1 = name).map Prod.snd
  | _, _ => none

/-- The node of a path, which follows no link. -/
def get : Node Name Data → List Name → Option (Node Name Data)
  | node, [] => some node
  | node, name :: names => (node.child name).bind fun child => child.get names

theorem get_append (node : Node Name Data) (before after : List Name) :
    node.get (before ++ after) = (node.get before).bind fun below => below.get after := by
  induction before generalizing node with
  | nil => rfl
  | cons name before ih =>
    rw [List.cons_append, get, get]
    cases node.child name with
    | none => rfl
    | some child => exact ih child

/-- The entry of a name is the one that is found. -/
theorem child_eq_some_iff {entries : List (Name × Node Name Data)}
    (hnodup : (entries.map Prod.fst).Nodup) {name : Name} {node : Node Name Data} :
    (Node.dir entries).child name = some node ↔ (name, node) ∈ entries := by
  induction entries with
  | nil => simp [child]
  | cons entry entries ih =>
    obtain ⟨first, found⟩ := entry
    obtain ⟨hfirst, hrest⟩ := List.nodup_cons.mp hnodup
    have ih := ih hrest
    rw [child] at ih
    by_cases hname : first = name
    · subst hname
      have hnot : (first, node) ∉ entries := by
        intro hmem
        exact hfirst (List.mem_map.mpr ⟨_, hmem, rfl⟩)
      simp [child, hnot, eq_comm]
    · have hname' : ¬ name = first := fun h => hname h.symm
      simp [child, hname, hname', ← ih]

theorem unique_get {node below : Node Name Data} (h : node.Unique) {names : List Name}
    (hget : node.get names = some below) : below.Unique := by
  induction names generalizing node with
  | nil =>
    cases hget
    exact h
  | cons name names ih =>
    rw [get] at hget
    cases h with
    | @dir entries nodup hbelow =>
      cases hchild : (Node.dir entries).child name with
      | none =>
        rw [hchild] at hget
        cases hget
      | some child =>
        rw [hchild] at hget
        exact ih (hbelow _ ((child_eq_some_iff nodup).mp hchild)) hget
    | file data => cases hget
    | symlink absolute target => cases hget
    | other => cases hget

/-! ### Files -/

omit [DecidableEq Name] in
mutual

/-- The regular files below a node, with their paths. -/
def files : Node Name Data → List (List Name × Data)
  | .file data => [([], data)]
  | .dir entries => filesIn entries
  | .symlink _ _ => []
  | .other => []

def filesIn : List (Name × Node Name Data) → List (List Name × Data)
  | [] => []
  | (name, node) :: entries =>
    node.files.map (fun file => (name :: file.1, file.2)) ++ filesIn entries

end

omit [DecidableEq Name] in
theorem mem_filesIn {entries : List (Name × Node Name Data)} {names : List Name} {data : Data} :
    (names, data) ∈ filesIn entries ↔
      ∃ entry ∈ entries, ∃ rest, names = entry.1 :: rest ∧ (rest, data) ∈ entry.2.files := by
  induction entries with
  | nil => simp [filesIn]
  | cons entry entries ih =>
    obtain ⟨name, node⟩ := entry
    rw [filesIn, List.mem_append, ih]
    constructor
    · rintro (hmem | ⟨entry, hentry, h⟩)
      · obtain ⟨file, hfile, heq⟩ := List.mem_map.mp hmem
        cases heq
        exact ⟨_, List.mem_cons_self, _, rfl, hfile⟩
      · exact ⟨entry, List.mem_cons_of_mem _ hentry, h⟩
    · rintro ⟨entry, hentry, rest, hnames, hrest⟩
      rcases List.mem_cons.mp hentry with rfl | hentry
      · exact .inl (List.mem_map.mpr ⟨(rest, data), hrest, by rw [hnames]⟩)
      · exact .inr ⟨entry, hentry, rest, hnames, hrest⟩

/-- **The files below a node** are the ones that a path without links leads to. -/
theorem mem_files {node : Node Name Data} (h : node.Unique) {names : List Name} {data : Data} :
    (names, data) ∈ node.files ↔ node.get names = some (.file data) := by
  induction h generalizing names with
  | file found =>
    cases names with
    | nil => simp [files, get, eq_comm]
    | cons name names => simp [files, get, child]
  | symlink absolute target =>
    cases names with
    | nil => simp [files, get]
    | cons name names => simp [files, get, child]
  | other =>
    cases names with
    | nil => simp [files, get]
    | cons name names => simp [files, get, child]
  | @dir entries nodup below ih =>
    rw [files, mem_filesIn]
    cases names with
    | nil => simp [get]
    | cons name names =>
      rw [get]
      constructor
      · rintro ⟨entry, hentry, rest, hnames, hrest⟩
        cases hnames
        rw [(child_eq_some_iff nodup).mpr hentry]
        exact (ih entry hentry).mp hrest
      · intro hget
        cases hchild : (Node.dir entries).child name with
        | none =>
          rw [hchild] at hget
          cases hget
        | some found =>
          rw [hchild] at hget
          have hentry := (child_eq_some_iff nodup).mp hchild
          exact ⟨(name, found), hentry, names, rfl, (ih _ hentry).mpr hget⟩

omit [DecidableEq Name] in
/-- Every file has a path of its own. -/
theorem nodup_files {node : Node Name Data} (h : node.Unique) :
    (node.files.map Prod.fst).Nodup := by
  induction h with
  | file data => simp [files]
  | symlink absolute target => simp [files]
  | other => simp [files]
  | @dir entries nodup below ih =>
    rw [files]
    induction entries with
    | nil => simp [filesIn]
    | cons entry entries ihentries =>
      obtain ⟨name, node⟩ := entry
      obtain ⟨hname, hrest⟩ := List.nodup_cons.mp nodup
      have htail := ihentries hrest (fun entry hmem => below entry (List.mem_cons_of_mem _ hmem))
        (fun entry hmem => ih entry (List.mem_cons_of_mem _ hmem))
      have hhead := ih (name, node) List.mem_cons_self
      rw [filesIn, List.map_append, List.nodup_append, List.map_map]
      refine ⟨?_, htail, ?_⟩
      · have hcomp : Prod.fst ∘ (fun file : List Name × Data => (name :: file.1, file.2)) =
            List.cons name ∘ Prod.fst := rfl
        rw [hcomp, ← List.map_map]
        exact hhead.map List.cons_injective
      · intro path hpath other hother heq
        subst heq
        obtain ⟨file, -, rfl⟩ := List.mem_map.mp hpath
        obtain ⟨found, hfound, hpathEq⟩ := List.mem_map.mp hother
        obtain ⟨entry, hentry, rest, hnames, -⟩ := mem_filesIn.mp hfound
        rw [hnames] at hpathEq
        have hfirst : entry.1 = name := (List.cons.inj hpathEq).1
        exact hname (List.mem_map.mpr ⟨entry, hentry, hfirst⟩)

/-! ### Resolution -/

end Node

/-- Why a path leads nowhere. -/
inductive PathError where
  | notFound
  | notADirectory
  | tooManyLinks
deriving DecidableEq

section

variable {Name Data : Type} [DecidableEq Name]

/-- The resolution from the directory `here` on; `follow` goes on behind a link. -/
def walkSteps (follow : List Name → List (Step Name) → Except PathError (List Name))
    (fs : Node Name Data) : List Name → List (Step Name) → Except PathError (List Name)
  | here, [] => .ok here
  | here, step :: rest =>
    match fs.get here with
    | some (.dir entries) =>
      match step with
      | .current => walkSteps follow fs here rest
      | .parent => walkSteps follow fs here.dropLast rest
      | .name name =>
        match (Node.dir entries).child name with
        | none => .error .notFound
        | some (.symlink absolute target) =>
          follow (if absolute then [] else here) (target ++ rest)
        | some _ => walkSteps follow fs (here ++ [name]) rest
    | _ => .error .notADirectory

/-- The resolution that follows so many links at most. -/
def walk (fs : Node Name Data) : Nat → List Name → List (Step Name) → Except PathError (List Name)
  | 0 => walkSteps (fun _ _ => .error .tooManyLinks) fs
  | links + 1 => walkSteps (walk fs links) fs

/-- Nodes that are no link. -/
def Node.Real (node : Node Name Data) : Prop :=
  ∀ absolute target, node ≠ .symlink absolute target

omit [DecidableEq Name] in
theorem Node.real_dir (entries : List (Name × Node Name Data)) :
    (Node.dir entries).Real := fun _ _ h => by cases h

omit [DecidableEq Name] in
theorem Node.real_file (data : Data) : (Node.file data : Node Name Data).Real :=
  fun _ _ h => by cases h

theorem walkSteps_append {follow : List Name → List (Step Name) → Except PathError (List Name)}
    {fs : Node Name Data} {links : Nat} (hwalk : walk fs links = walkSteps follow fs)
    (rest : List (Step Name))
    (hfollow : ∀ here first there, follow here first = .ok there →
      ∃ links', follow here (first ++ rest) = walk fs links' there rest)
    {here there : List Name} {first : List (Step Name)}
    (h : walkSteps follow fs here first = .ok there) :
    ∃ links', walkSteps follow fs here (first ++ rest) = walk fs links' there rest := by
  induction first generalizing here with
  | nil =>
    cases h
    exact ⟨links, by rw [hwalk, List.nil_append]⟩
  | cons step first ih =>
    rw [List.cons_append]
    unfold walkSteps at h ⊢
    cases hnode : fs.get here with
    | none =>
      rw [hnode] at h
      cases h
    | some node =>
      cases node with
      | dir entries =>
        simp only [hnode] at h ⊢
        cases step with
        | current => exact ih h
        | parent => exact ih h
        | name name =>
          dsimp only at h ⊢
          cases hchild : (Node.dir entries).child name with
          | none =>
            rw [hchild] at h
            cases h
          | some child =>
            rw [hchild] at h
            cases child with
            | symlink absolute target =>
              dsimp only at h ⊢
              rw [← List.append_assoc]
              exact hfollow _ _ _ h
            | file data => exact ih h
            | dir entries => exact ih h
            | other => exact ih h
      | file data =>
        rw [hnode] at h
        cases h
      | symlink absolute target =>
        rw [hnode] at h
        cases h
      | other =>
        rw [hnode] at h
        cases h

/-- **A path is resolved in two parts**, the second one with the links that are left. -/
theorem walk_append (fs : Node Name Data) (links : Nat) {here there : List Name}
    {first : List (Step Name)} (rest : List (Step Name))
    (h : walk fs links here first = .ok there) :
    ∃ links', walk fs links here (first ++ rest) = walk fs links' there rest := by
  induction links generalizing here there first with
  | zero =>
    have hwalk : walk fs 0 = walkSteps (fun _ _ => .error .tooManyLinks) fs := rfl
    refine walkSteps_append hwalk rest ?_ h
    intro here first there hfollow
    cases hfollow
  | succ links ih =>
    have hwalk : walk fs (links + 1) = walkSteps (walk fs links) fs := rfl
    refine walkSteps_append hwalk rest ?_ h
    intro here first there hfollow
    exact ih hfollow

/-- A path without links is the one it is resolved to. -/
theorem walk_names {fs below node : Node Name Data} (links : Nat) {here names : List Name}
    (hhere : fs.get here = some below) (hnames : below.get names = some node)
    (hreal : node.Real) : walk fs links here (names.map Step.name) = .ok (here ++ names) := by
  have hsteps : ∀ follow, walkSteps follow fs here (names.map Step.name) = .ok (here ++ names) := by
    intro follow
    induction names generalizing here below with
    | nil => rw [List.map_nil, walkSteps, List.append_nil]
    | cons name names ih =>
      rw [Node.get] at hnames
      cases hchild : below.child name with
      | none =>
        rw [hchild] at hnames
        cases hnames
      | some child =>
        rw [hchild] at hnames
        have hnext : fs.get (here ++ [name]) = some child := by
          rw [Node.get_append, hhere, Option.bind_some, Node.get, hchild]
          rfl
        have ih := ih hnext hnames
        rw [List.append_assoc] at ih
        cases below with
        | dir entries =>
          rw [List.map_cons, walkSteps, hhere]
          dsimp only
          rw [hchild]
          cases child with
          | symlink absolute target =>
            cases names with
            | nil =>
              cases hnames
              exact absurd rfl (hreal absolute target)
            | cons next names => cases hnames
          | file data => exact ih
          | dir entries => exact ih
          | other => exact ih
        | file data => cases hchild
        | symlink absolute target => cases hchild
        | other => cases hchild
  cases links with
  | zero => exact hsteps _
  | succ links => exact hsteps _

/-- A path without links leads to a node that is no link. -/
def RealPath (fs : Node Name Data) (path : List Name) : Prop :=
  ∃ node, fs.get path = some node ∧ node.Real

/-- What is above a node is a directory. -/
theorem realPath_above {fs node : Node Name Data} {names : List Name} {name : Name}
    (h : fs.get (names ++ [name]) = some node) : RealPath fs names := by
  rw [Node.get_append] at h
  obtain ⟨above, habove, hchild⟩ := Option.bind_eq_some_iff.mp h
  refine ⟨above, habove, ?_⟩
  intro absolute target heq
  subst heq
  cases hchild

theorem realPath_dropLast {fs : Node Name Data} (hfs : fs.Real) {names : List Name}
    (h : RealPath fs names) : RealPath fs names.dropLast := by
  rcases List.eq_nil_or_concat names with rfl | ⟨before, name, rfl⟩
  · exact ⟨fs, rfl, hfs⟩
  · obtain ⟨node, hnode, -⟩ := h
    rw [List.concat_eq_append] at hnode ⊢
    rw [List.dropLast_concat]
    exact realPath_above hnode

theorem walkSteps_real {follow : List Name → List (Step Name) → Except PathError (List Name)}
    {fs : Node Name Data} (hfs : fs.Real)
    (hfollow : ∀ here steps there, RealPath fs here → follow here steps = .ok there →
      RealPath fs there)
    {here there : List Name} {steps : List (Step Name)} (hhere : RealPath fs here)
    (h : walkSteps follow fs here steps = .ok there) : RealPath fs there := by
  induction steps generalizing here with
  | nil =>
    cases h
    exact hhere
  | cons step steps ih =>
    unfold walkSteps at h
    cases hnode : fs.get here with
    | none =>
      rw [hnode] at h
      cases h
    | some node =>
      cases node with
      | dir entries =>
        simp only [hnode] at h
        cases step with
        | current => exact ih hhere h
        | parent => exact ih (realPath_dropLast hfs hhere) h
        | name name =>
          dsimp only at h
          cases hchild : (Node.dir entries).child name with
          | none =>
            rw [hchild] at h
            cases h
          | some child =>
            have hnext : fs.get (here ++ [name]) = some child := by
              rw [Node.get_append, hnode, Option.bind_some, Node.get, hchild]
              rfl
            rw [hchild] at h
            cases child with
            | symlink absolute target =>
              refine hfollow _ _ _ ?_ h
              cases absolute with
              | false => exact hhere
              | true => exact ⟨fs, rfl, hfs⟩
            | file data => exact ih ⟨_, hnext, Node.real_file data⟩ h
            | dir entries => exact ih ⟨_, hnext, Node.real_dir entries⟩ h
            | other => exact ih ⟨_, hnext, fun _ _ hlink => by cases hlink⟩ h
      | file data =>
        rw [hnode] at h
        cases h
      | symlink absolute target =>
        rw [hnode] at h
        cases h
      | other =>
        rw [hnode] at h
        cases h

/-- **What a path is resolved to** has no links on it. -/
theorem walk_real {fs : Node Name Data} (hfs : fs.Real) (links : Nat) {here there : List Name}
    {steps : List (Step Name)} (hhere : RealPath fs here)
    (h : walk fs links here steps = .ok there) : RealPath fs there := by
  induction links generalizing here there steps with
  | zero =>
    refine walkSteps_real hfs ?_ hhere h
    intro here steps there _ hfollow
    cases hfollow
  | succ links ih =>
    refine walkSteps_real hfs ?_ hhere h
    intro here steps there hreal hfollow
    exact ih hreal hfollow

end

/-! ### Names as bytes -/

/-- A name of a file: it is not empty, no dots, and without a separator. -/
def ValidName (bytes : List UInt8) : Prop :=
  bytes ≠ [] ∧ bytes ≠ [46] ∧ bytes ≠ [46, 46] ∧ 47 ∉ bytes ∧ 0 ∉ bytes

instance (bytes : List UInt8) : Decidable (ValidName bytes) :=
  inferInstanceAs (Decidable (_ ∧ _ ∧ _ ∧ _ ∧ _))

abbrev FileName := { bytes : List UInt8 // ValidName bytes }

/-- The files of the machine, with the bytes they hold. -/
abbrev FileSystem := Node FileName (List UInt8)

/-- The segments of a path between its separators. -/
def segments (path : List UInt8) : List (List UInt8) := path.splitOn 47

/-- What the system makes of a segment; an empty one stays where it is. -/
def stepOf (segment : List UInt8) : Step FileName :=
  if valid : ValidName segment then .name ⟨segment, valid⟩
  else if segment = [46, 46] then .parent
  else .current

/-- The names with separators between them. -/
def pathText (names : List FileName) : List UInt8 :=
  [47].intercalate (names.map Subtype.val)

/-- The number of links that the system follows. -/
def maxLinks : Nat := 40

/-- `fs::canonicalize` of an absolute path. -/
def canonicalize (fs : FileSystem) (path : List (Step FileName)) :
    Except PathError (List FileName) :=
  walk fs maxLinks [] path

/-- The text of an error of the system. -/
def PathError.display : PathError → String
  | .notFound => "No such file or directory (os error 2)"
  | .notADirectory => "Not a directory (os error 20)"
  | .tooManyLinks => "Too many levels of symbolic links (os error 40)"

/-! ### Paths of names -/

theorem segments_pathText {names : List FileName} (hne : names ≠ []) :
    segments (pathText names) = names.map Subtype.val := by
  apply List.splitOn_intercalate
  · intro segment hsegment
    obtain ⟨name, -, rfl⟩ := List.mem_map.mp hsegment
    exact name.property.2.2.2.1
  · rwa [ne_eq, List.map_eq_nil_iff]

theorem pathText_injective {names others : List FileName} (hne : names ≠ []) (hne' : others ≠ [])
    (h : pathText names = pathText others) : names = others := by
  have hsegments := congrArg segments h
  rw [segments_pathText hne, segments_pathText hne'] at hsegments
  exact List.map_injective_iff.mpr Subtype.val_injective hsegments

theorem stepOf_name (name : FileName) : stepOf name.val = .name name := by
  rw [stepOf, dif_pos name.property]

theorem map_stepOf_names (names : List FileName) :
    (names.map Subtype.val).map stepOf = names.map .name := by
  rw [List.map_map]
  exact List.map_congr_left fun name _ => stepOf_name name

theorem head_pathText {names : List FileName} (hne : names ≠ []) :
    (pathText names).head? ≠ some 47 ∧ pathText names ≠ [] := by
  cases names with
  | nil => exact absurd rfl hne
  | cons name names =>
    obtain ⟨hname, -, -, hslash, -⟩ := name.property
    obtain ⟨first, rest, hfirst⟩ := List.exists_cons_of_ne_nil hname
    have htext : ∃ more, pathText (name :: names) = first :: more := by
      cases names with
      | nil => exact ⟨rest, by simp [pathText, hfirst]⟩
      | cons next names => exact ⟨_, by simp [pathText, hfirst, List.intercalate_cons_cons]; rfl⟩
    obtain ⟨more, hmore⟩ := htext
    rw [hmore]
    refine ⟨?_, List.cons_ne_nil _ _⟩
    intro h
    rw [List.head?_cons, Option.some.injEq] at h
    subst h
    exact hslash (by rw [hfirst]; exact List.mem_cons_self)

theorem canonicalize_names {fs node : FileSystem} {names : List FileName}
    (h : fs.get names = some node) (hreal : node.Real) :
    canonicalize fs (names.map .name) = .ok names := by
  have hself : fs.get [] = some fs := rfl
  have hwalk := walk_names maxLinks hself h hreal
  rwa [List.nil_append] at hwalk

/-- A path that the system resolves has no links on it any more. -/
theorem canonicalize_real {fs : FileSystem} (hfs : fs.Real) {path : List (Step FileName)}
    {names : List FileName} (h : canonicalize fs path = .ok names) : RealPath fs names :=
  walk_real hfs maxLinks ⟨fs, rfl, hfs⟩ h

end Tea.Files
