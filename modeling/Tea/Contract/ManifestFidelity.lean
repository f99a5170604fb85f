/-
  Tea/Contract/ManifestFidelity.lean
  ==================================
  **What a manifest says is what it grants**: a manifest is read back from its text, the
  order in which operations are given does not matter to the text, and a check succeeds for
  the operations that an accepted text lists.

  The map of an object keeps the last of two fields with one key.  A text that repeats the
  key of a module, or a key inside of a permission, is accepted and lists operations that
  are not granted; without such keys the text and the grants agree (`manifest_faithful`).
-/
import Tea.Encoding.JsonSpelling
import Tea.Luau.ManifestCodec

namespace Tea.Contract

open Tea.Encoding
open Tea.Luau

/-! ### What a text lists -/

/-- The entries under the key of the module. -/
def entriesOf (s : Spelled) (owner : CapabilityModule) : List Spelled :=
  (s.named owner.jsonKey).flatMap Spelled.items

/-- The fields with the name of a target, when one is wanted; else there are none. -/
def NamesTarget (mcp : Spelled) : Option String → Prop
  | some target => .string target ∈ mcp.named "target"
  | none => mcp.named "target" = []

/-- The entry lists the operation: it is its name, or has the fields of its permission. -/
inductive Lists : Spelled → CapabilityOperation → Prop
  | name {operation : CapabilityOperation} (hsimple : operation.permission = none) :
      Lists (.string operation.sortKey) operation
  | permission {entry mcp : Spelled} {permission : McpPermission} (hmcp : mcp ∈ entry.named "mcp")
      (hserver : .string permission.server ∈ mcp.named "server")
      (hoperation : .string permission.operation.asStr ∈ mcp.named "operation")
      (htarget : NamesTarget mcp permission.target) : Lists entry (.world (.mcp permission))

/-- An operation that a request can ask for, listed among the entries of its module. -/
def ListedIn (s : Spelled) (operation : CapabilityOperation) : Prop :=
  ∃ entry ∈ entriesOf s operation.moduleOf, Lists entry operation

/-- No module is granted twice. -/
def GrantedOnce (s : Spelled) : Prop :=
  ∀ owner : CapabilityModule, (s.named owner.jsonKey).length ≤ 1

/-- No two entries of a module list one operation. -/
def ListedOnce (s : Spelled) : Prop :=
  ∀ operation : CapabilityOperation, operation.Valid →
    (entriesOf s operation.moduleOf).Pairwise fun entry other =>
      Lists entry operation → ¬ Lists other operation

/-- No entry names two operations of its module through a repeated key. -/
def NamesOne (s : Spelled) : Prop :=
  ∀ operation other : CapabilityOperation, operation.Valid → other.Valid →
    other.moduleOf = operation.moduleOf → ∀ entry ∈ entriesOf s operation.moduleOf,
      Lists entry operation → Lists entry other → other = operation

/-- The manifest grants what the text lists, and the text lists it once. -/
structure Faithful (manifest : CapabilityManifest) (s : Spelled) : Prop where
  check : ∀ operation : CapabilityOperation, operation.Valid →
    (manifest.check operation = .ok () ↔ ListedIn s operation)
  granted : GrantedOnce s
  listed : ListedOnce s

/-- No key is repeated where it matters. -/
structure Unrepeated (s : Spelled) : Prop where
  granted : GrantedOnce s
  named : NamesOne s

/-! ### Entries and what is read from them -/

variable {F : Type} {read : Numeral → JsonNumber F}

/-- An entry lists the operation that is read from it. -/
theorem lists_of_readsAs {entry : Spelled} {operation : CapabilityOperation}
    (h : ReadsAs (entry.value read) operation) : Lists entry operation := by
  generalize hv : entry.value read = v at h
  cases h with
  | name hsimple =>
    rw [Spelled.value_eq_string hv]
    exact .name hsimple
  | @permission permission outer fields hvalid houter hmcp hfields =>
    have hget : (entry.value read).get "mcp" = some (.mapping fields) := by
      rw [hv]
      exact hmcp
    obtain ⟨mcp, hmem, hmapping⟩ := Spelled.get_value hget
    have hread : ∀ key, (mcp.value read).get key = JsonValue.lookupField key fields := by
      intro key
      rw [hmapping]
      rfl
    have hstring : ∀ {key text}, JsonValue.lookupField key fields = some (.string text) →
        .string text ∈ mcp.named key := by
      intro key text hlookup
      obtain ⟨field, hfield, hvalue⟩ := Spelled.get_value ((hread key).trans hlookup)
      rwa [← Spelled.value_eq_string hvalue]
    refine .permission hmem (hstring hfields.server) (hstring hfields.operation) ?_
    have htarget := hfields.target
    cases hwanted : permission.target with
    | none =>
      rw [hwanted] at htarget
      exact Spelled.get_value_none.mp ((hread "target").trans htarget)
    | some target =>
      rw [hwanted] at htarget
      exact hstring htarget

/-- The grant is read from the field: its items are read as the operations. -/
structure ReadFrom (read : Numeral → JsonNumber F) (s : Spelled) (grant : CapabilityGrant)
    (array : Spelled) (operations : List CapabilityOperation) : Prop where
  field : array ∈ s.named grant.owner.jsonKey
  entries : List.Forall₂ (fun entry => ReadsIn grant.owner (Spelled.value read entry))
    array.items operations
  once : operations.Nodup
  granted : ∀ operation, operation ∈ grant.operations ↔ operation ∈ operations

theorem readFrom_of_parseGrant {s : Spelled} {owner : CapabilityModule} {value : JsonValue F}
    {grant : CapabilityGrant} (hvalue : (s.value read).get owner.jsonKey = some value)
    (h : parseGrant owner value = .ok grant) :
    grant.owner = owner ∧ ∃ field operations, ReadFrom read s grant field operations := by
  obtain ⟨values, operations, rfl, hreads, hnew⟩ := parseGrant_ok_iff.mp h
  obtain ⟨rfl, hmem, hnodup⟩ := CapabilityGrant.new_ok hnew
  obtain ⟨field, hfield, harray⟩ := Spelled.get_value hvalue
  refine ⟨rfl, field, operations, hfield, ?_, hnodup, hmem⟩
  rwa [Spelled.value_eq_array harray, List.forall₂_map_left_iff] at hreads

/-- The grants of an accepted text, and the fields that they are read from. -/
theorem grants_of_fromJson {s : Spelled} {manifest : CapabilityManifest}
    (h : CapabilityManifest.fromJson (s.value read) = .ok manifest) :
    (∀ grant ∈ manifest.grants, ∃ field operations, ReadFrom read s grant field operations) ∧
      ∀ owner : CapabilityModule, (s.value read).get owner.jsonKey ≠ none →
        ∃ grant ∈ manifest.grants, grant.owner = owner := by
  obtain ⟨fields, grants, hfields, hgrants, hnew⟩ := fromJson_ok h
  obtain ⟨hmem, -⟩ := CapabilityManifest.new_ok hnew
  obtain ⟨hread, hfound⟩ := parseGrants_ok hgrants
  have hget : ∀ key, (s.value read).get key = JsonValue.lookupField key fields := by
    intro key
    rw [hfields]
    rfl
  constructor
  · intro grant hgrant
    obtain ⟨owner, -, value, hvalue, hparse⟩ := hread grant ((hmem grant).mp hgrant)
    exact (readFrom_of_parseGrant ((hget _).trans hvalue) hparse).2
  · intro owner hne
    obtain ⟨value, hvalue⟩ := Option.ne_none_iff_exists'.mp hne
    have howner : owner ∈ capabilityModules := by cases owner <;> decide
    obtain ⟨grant, hgrant, hparse⟩ := hfound owner howner value ((hget _).symm.trans hvalue)
    exact ⟨grant, (hmem grant).mpr hgrant, (readFrom_of_parseGrant hvalue hparse).1⟩

/-! ### Lists of entries -/

theorem forall₂_mem_left {α β : Type} {R : α → β → Prop} {l : List α} {l' : List β}
    (h : List.Forall₂ R l l') {a : α} (ha : a ∈ l) : ∃ b ∈ l', R a b := by
  induction h with
  | nil => cases ha
  | cons hab _ ih =>
    rcases List.mem_cons.mp ha with rfl | ha
    · exact ⟨_, List.mem_cons_self, hab⟩
    · obtain ⟨b, hb, hR⟩ := ih ha
      exact ⟨b, List.mem_cons_of_mem _ hb, hR⟩

theorem forall₂_mem_right {α β : Type} {R : α → β → Prop} {l : List α} {l' : List β}
    (h : List.Forall₂ R l l') {b : β} (hb : b ∈ l') : ∃ a ∈ l, R a b :=
  forall₂_mem_left (R := flip R) (List.Forall₂.flip (R := flip R) h) hb

/-- What holds between the partners of two places holds of them through their partners. -/
theorem forall₂_pairwise {α β : Type} {R : α → β → Prop} {S : β → β → Prop} {l : List α}
    {l' : List β} (h : List.Forall₂ R l l') (hpairs : l'.Pairwise S) :
    l.Pairwise fun a a' => ∃ b b', R a b ∧ R a' b' ∧ S b b' := by
  induction h with
  | nil => exact List.Pairwise.nil
  | @cons a b l l' hab hrest ih =>
    obtain ⟨hfirst, hpairs⟩ := List.pairwise_cons.mp hpairs
    refine List.pairwise_cons.mpr ⟨?_, ih hpairs⟩
    intro a' ha'
    obtain ⟨b', hb', hR⟩ := forall₂_mem_left hrest ha'
    exact ⟨b, b', hab, hR, hfirst b' hb'⟩

/-- Of two places of a list that exclude each other only one can be. -/
theorem pairwise_unique {α : Type} {P : α → Prop} {l : List α}
    (h : l.Pairwise fun a b => P a → ¬ P b) {a b : α} (ha : a ∈ l) (hb : b ∈ l)
    (hPa : P a) (hPb : P b) : a = b := by
  induction h with
  | nil => cases ha
  | @cons c l hfirst _ ih =>
    rcases List.mem_cons.mp ha with rfl | ha'
    · rcases List.mem_cons.mp hb with rfl | hb'
      · rfl
      · exact absurd hPb (hfirst b hb' hPa)
    · rcases List.mem_cons.mp hb with rfl | hb'
      · exact absurd hPa (hfirst a ha' hPb)
      · exact ih ha' hb'

/-! ### Grants and what the text lists -/

section

variable {s array : Spelled} {grant : CapabilityGrant} {operations : List CapabilityOperation}

theorem ReadFrom.mem_entriesOf (h : ReadFrom read s grant array operations) {entry : Spelled}
    (hentry : entry ∈ array.items) : entry ∈ entriesOf s grant.owner :=
  List.mem_flatMap.mpr ⟨array, h.field, hentry⟩

/-- With one field for the module its items are all the entries. -/
theorem ReadFrom.entriesOf_eq (h : ReadFrom read s grant array operations)
    (honce : GrantedOnce s) : entriesOf s grant.owner = array.items := by
  obtain ⟨only, honly⟩ : ∃ only, s.named grant.owner.jsonKey = [only] := by
    refine List.length_eq_one_iff.mp (le_antisymm (honce _) ?_)
    exact List.length_pos_of_mem h.field
  have hfield := h.field
  rw [honly, List.mem_singleton] at hfield
  rw [entriesOf, honly, List.flatMap_singleton, hfield]

/-- An operation of the grant is listed by the entry that it is read from. -/
theorem ReadFrom.listed (h : ReadFrom read s grant array operations)
    {operation : CapabilityOperation} (hoperation : operation ∈ grant.operations) :
    ∃ entry ∈ array.items, ReadsIn grant.owner (entry.value read) operation ∧
      Lists entry operation := by
  obtain ⟨entry, hentry, hreads⟩ := forall₂_mem_right h.entries
    ((h.granted operation).mp hoperation)
  exact ⟨entry, hentry, hreads, lists_of_readsAs hreads.2⟩

/-- Every entry is read as an operation of the grant, which it lists. -/
theorem ReadFrom.reads (h : ReadFrom read s grant array operations) {entry : Spelled}
    (hentry : entry ∈ array.items) : ∃ operation ∈ grant.operations,
      ReadsIn grant.owner (entry.value read) operation ∧ Lists entry operation := by
  obtain ⟨operation, hmem, hreads⟩ := forall₂_mem_left h.entries hentry
  exact ⟨operation, (h.granted operation).mpr hmem, hreads, lists_of_readsAs hreads.2⟩

end

section

variable {s : Spelled} {manifest : CapabilityManifest}

/-- What is checked is listed. -/
theorem listed_of_check (h : CapabilityManifest.fromJson (s.value read) = .ok manifest)
    {operation : CapabilityOperation} (hcheck : manifest.check operation = .ok ()) :
    ListedIn s operation := by
  obtain ⟨grant, hgrant, hoperation⟩ := CapabilityManifest.check_iff.mp hcheck
  obtain ⟨array, operations, hfrom⟩ := (grants_of_fromJson h).1 grant hgrant
  obtain ⟨entry, hentry, -, hlists⟩ := hfrom.listed hoperation
  refine ⟨entry, ?_, hlists⟩
  rw [grant.own operation hoperation]
  exact hfrom.mem_entriesOf hentry

/-- An entry of a text that grants its module once is the entry of a grant. -/
theorem grant_of_entry (h : CapabilityManifest.fromJson (s.value read) = .ok manifest)
    (honce : GrantedOnce s) {owner : CapabilityModule} {entry : Spelled}
    (hentry : entry ∈ entriesOf s owner) :
    ∃ grant ∈ manifest.grants, grant.owner = owner ∧ ∃ array operations,
      ReadFrom read s grant array operations ∧ entry ∈ array.items := by
  obtain ⟨field, hfield, -⟩ := List.mem_flatMap.mp hentry
  obtain ⟨hread, hfound⟩ := grants_of_fromJson h
  obtain ⟨grant, hgrant, rfl⟩ := hfound owner (by
    rw [Spelled.get_value_of_once (honce owner) hfield]
    exact Option.some_ne_none _)
  obtain ⟨array, operations, hfrom⟩ := hread grant hgrant
  rw [hfrom.entriesOf_eq honce] at hentry
  exact ⟨grant, hgrant, rfl, array, operations, hfrom, hentry⟩

/-- A text without repeated keys grants what it lists. -/
theorem faithful_of_unrepeated (h : CapabilityManifest.fromJson (s.value read) = .ok manifest)
    (hkeys : Unrepeated s) : Faithful manifest s := by
  refine ⟨?_, hkeys.granted, ?_⟩
  · intro operation hvalid
    refine ⟨listed_of_check h, ?_⟩
    rintro ⟨entry, hentry, hlists⟩
    obtain ⟨grant, hgrant, howner, array, operations, hfrom, hitem⟩ :=
      grant_of_entry h hkeys.granted hentry
    obtain ⟨other, hother, hreads, hlists'⟩ := hfrom.reads hitem
    -- the operation that the entry is read as is the only one that it lists
    have hsame : other = operation := hkeys.named operation other hvalid hreads.2.valid
      (hreads.1.trans howner) entry hentry hlists hlists'
    exact CapabilityManifest.check_iff.mpr ⟨grant, hgrant, hsame ▸ hother⟩
  · intro operation hvalid
    by_cases hany : ∃ entry, entry ∈ entriesOf s operation.moduleOf
    · obtain ⟨entry, hentry⟩ := hany
      obtain ⟨grant, -, howner, array, operations, hfrom, -⟩ :=
        grant_of_entry h hkeys.granted hentry
      have hentries := hfrom.entriesOf_eq hkeys.granted
      rw [howner] at hentries
      have hread : ∀ entry ∈ array.items, ∀ other,
          ReadsIn grant.owner (Spelled.value read entry) other → Lists entry operation →
            other = operation := by
        intro entry hentry other hreads hlists
        refine hkeys.named operation other hvalid hreads.2.valid (hreads.1.trans howner) entry ?_
          hlists (lists_of_readsAs hreads.2)
        rwa [hentries]
      rw [hentries]
      refine (forall₂_pairwise hfrom.entries hfrom.once).imp_of_mem ?_
      rintro a b ha hb ⟨first, second, hfirst, hsecond, hne⟩ hlists hlists'
      exact hne ((hread a ha first hfirst hlists).trans (hread b hb second hsecond hlists').symm)
    · rw [List.eq_nil_iff_forall_not_mem.mpr (fun entry hentry => hany ⟨entry, hentry⟩)]
      exact List.Pairwise.nil

/-- A text that grants what it lists repeats no key where it matters. -/
theorem unrepeated_of_faithful (h : CapabilityManifest.fromJson (s.value read) = .ok manifest)
    (hfaithful : Faithful manifest s) : Unrepeated s := by
  refine ⟨hfaithful.granted, ?_⟩
  -- an operation that an entry lists is the one that this entry is read as
  have hread : ∀ operation : CapabilityOperation, operation.Valid → ∀ entry ∈
      entriesOf s operation.moduleOf, Lists entry operation →
        ReadsIn operation.moduleOf (entry.value read) operation := by
    intro operation hvalid entry hentry hlists
    have hcheck := (hfaithful.check operation hvalid).mpr ⟨entry, hentry, hlists⟩
    obtain ⟨grant, hgrant, hoperation⟩ := CapabilityManifest.check_iff.mp hcheck
    obtain ⟨array, operations, hfrom⟩ := (grants_of_fromJson h).1 grant hgrant
    obtain ⟨other, hother, hreads, hlists'⟩ := hfrom.listed hoperation
    have howner := grant.own operation hoperation
    have hmem : other ∈ entriesOf s operation.moduleOf := howner ▸ hfrom.mem_entriesOf hother
    rw [← pairwise_unique (hfaithful.listed operation hvalid) hmem hentry hlists' hlists, howner]
    exact hreads
  intro operation other hvalid hvalid' howner entry hentry hlists hlists'
  have hreads := hread other hvalid' entry (howner ▸ hentry) hlists'
  rw [howner] at hreads
  exact hreads.unique (hread operation hvalid entry hentry hlists)

end

/-! ### Orders of listing -/

/-- Modules with their operations, as they are given to the constructors. -/
abbrev Listing := List (CapabilityModule × List CapabilityOperation)

/-- The manifest is built from a grant for every module that is given. -/
def BuiltFrom (listing : Listing) (manifest : CapabilityManifest) : Prop :=
  ∃ grants, List.Forall₂ (fun given grant => CapabilityGrant.new given.1 given.2 = .ok grant)
    listing grants ∧ CapabilityManifest.new grants = .ok manifest

/-- Each module is given in the other listing with the same operations. -/
def GivenIn (listing other : Listing) : Prop :=
  ∀ given ∈ listing, ∃ given' ∈ other, given'.1 = given.1 ∧
    ∀ operation, operation ∈ given'.2 ↔ operation ∈ given.2

theorem grants_subset_of_within {listing other : Listing} {manifest manifest' : CapabilityManifest}
    (hbuilt : BuiltFrom listing manifest) (hbuilt' : BuiltFrom other manifest')
    (hwithin : GivenIn listing other) {grant : CapabilityGrant} (hgrant : grant ∈ manifest.grants) :
    grant ∈ manifest'.grants := by
  obtain ⟨grants, hgrants, hnew⟩ := hbuilt
  obtain ⟨grants', hgrants', hnew'⟩ := hbuilt'
  rw [(CapabilityManifest.new_ok hnew).1] at hgrant
  rw [(CapabilityManifest.new_ok hnew').1]
  obtain ⟨given, hgiven, hfrom⟩ := forall₂_mem_right hgrants hgrant
  obtain ⟨given', hgiven', howner, hsame⟩ := hwithin given hgiven
  obtain ⟨grant', hgrant', hfrom'⟩ := forall₂_mem_left hgrants' hgiven'
  obtain ⟨hown, hmem, -⟩ := CapabilityGrant.new_ok hfrom
  obtain ⟨hown', hmem', -⟩ := CapabilityGrant.new_ok hfrom'
  have hequal : grant = grant' := by
    refine CapabilityGrant.ext (by rw [hown, hown', howner]) ?_
    intro operation
    rw [hmem, hmem', hsame]
  rwa [hequal]

theorem built_unique {listing other : Listing} {manifest manifest' : CapabilityManifest}
    (hbuilt : BuiltFrom listing manifest) (hbuilt' : BuiltFrom other manifest')
    (hwithin : GivenIn listing other) (hwithin' : GivenIn other listing) :
    manifest = manifest' :=
  CapabilityManifest.ext fun _ => ⟨grants_subset_of_within hbuilt hbuilt' hwithin,
    grants_subset_of_within hbuilt' hbuilt hwithin'⟩

/-! ### Fidelity -/

/-- **A manifest and its text**: a manifest is read back from its text, the order in which
    its operations were given does not show in it, and an accepted text grants what it lists
    just when it repeats no key of a module and names one operation in each entry. -/
theorem manifest_faithful {codec : JsonCodec F} (hcodec : ReadsSpelled codec.parse read) :
    (∀ manifest : CapabilityManifest, manifest.Valid →
      CapabilityManifest.parseJson codec (manifest.toJsonString codec) = .ok manifest) ∧
    (∀ listing other manifest manifest', BuiltFrom listing manifest → BuiltFrom other manifest' →
      GivenIn listing other → GivenIn other listing →
        manifest.toJsonString codec = manifest'.toJsonString codec) ∧
    ∀ text manifest, CapabilityManifest.parseJson codec text = .ok manifest →
      ∃ s, spelling text = some s ∧ (Faithful manifest s ↔ Unrepeated s) := by
  refine ⟨fun _ => parseJson_toJsonString codec, ?_, ?_⟩
  · intro listing other manifest manifest' hbuilt hbuilt' hwithin hwithin'
    rw [built_unique hbuilt hbuilt' hwithin hwithin']
  · intro text manifest hparse
    rw [CapabilityManifest.parseJson] at hparse
    split at hparse
    next v hv =>
      obtain ⟨s, hs, rfl⟩ := hcodec hv
      exact ⟨s, hs, unrepeated_of_faithful hparse, faithful_of_unrepeated hparse⟩
    next => cases hparse

/-- The name that an entry is, if it is one. -/
def entryName : Spelled → Option String
  | .string name => some name
  | _ => none

theorem entryName_eq_some {entry : Spelled} {name : String} (h : entryName entry = some name) :
    entry = .string name := by
  cases entry <;> cases h
  rfl

/-- A name is that of one operation of a module. -/
theorem lists_name_unique {name : String} {operation other : CapabilityOperation}
    (h : Lists (.string name) operation) (hother : Lists (.string name) other)
    (howner : other.moduleOf = operation.moduleOf) : other = operation := by
  cases h with
  | name hsimple =>
    generalize hname : operation.sortKey = name at hother
    cases hother with
    | name hsimple' =>
      have hparsed : parseSimpleOperation operation.moduleOf other.sortKey "" = .ok other :=
        parseSimpleOperation_ok_iff.mpr ⟨howner, hsimple', rfl⟩
      have hparsed' : parseSimpleOperation operation.moduleOf other.sortKey "" = .ok operation :=
        parseSimpleOperation_ok_iff.mpr ⟨rfl, hsimple, hname.symm⟩
      rw [hparsed] at hparsed'
      exact Except.ok.inj hparsed'
    | permission hmcp => cases hmcp
  | permission hmcp => cases hmcp

/-- Each module is there once at most, with entries that are names. -/
def plainNames (s : Spelled) : Bool :=
  capabilityModules.all fun owner => (s.named owner.jsonKey).length ≤ 1 &&
    (entriesOf s owner).all fun entry => (entryName entry).isSome

theorem unrepeated_of_plainNames {s : Spelled} (h : plainNames s = true) : Unrepeated s := by
  have howner : ∀ owner : CapabilityModule, (s.named owner.jsonKey).length ≤ 1 ∧
      ∀ entry ∈ entriesOf s owner, (entryName entry).isSome = true := by
    intro owner
    have hmem : owner ∈ capabilityModules := by cases owner <;> decide
    have hboth := List.all_eq_true.mp h owner hmem
    rw [Bool.and_eq_true, decide_eq_true_eq] at hboth
    exact ⟨hboth.1, List.all_eq_true.mp hboth.2⟩
  refine ⟨fun owner => (howner owner).1, ?_⟩
  intro operation other _ _ hsame entry hentry hlists hlists'
  obtain ⟨name, hname⟩ := Option.isSome_iff_exists.mp ((howner _).2 entry hentry)
  rw [entryName_eq_some hname] at hlists hlists'
  exact lists_name_unique hlists hlists' hsame

/-- A manifest that lets a policy stop its agent. -/
def stopGranted : String := "\x7b\"abi_version\":1,\"agent\":[\"stop\"]\x7d"

theorem parseJson_of_toOption {text : String} {P : CapabilityManifest → Bool}
    (h : (CapabilityManifest.parseJson textCodec text).toOption.any P = true) :
    ∃ manifest, CapabilityManifest.parseJson textCodec text = .ok manifest ∧ P manifest = true := by
  cases hparse : CapabilityManifest.parseJson textCodec text with
  | ok manifest =>
    rw [hparse] at h
    exact ⟨manifest, rfl, h⟩
  | error error =>
    rw [hparse] at h
    cases h

theorem manifest_faithful_granted_once : ∃ manifest s,
    CapabilityManifest.parseJson textCodec stopGranted = .ok manifest ∧
      spelling stopGranted = some s ∧ Faithful manifest s := by
  have hparsed : (CapabilityManifest.parseJson textCodec stopGranted).toOption.any
      (fun _ => true) = true := by decide +kernel
  obtain ⟨manifest, hmanifest, -⟩ := parseJson_of_toOption hparsed
  obtain ⟨s, hs, hfaithful⟩ := (manifest_faithful textCodec_reads).2.2 _ _ hmanifest
  have hnames : (spelling stopGranted).any plainNames = true := by decide +kernel
  rw [hs] at hnames
  exact ⟨manifest, s, hmanifest, hs, hfaithful.mpr (unrepeated_of_plainNames hnames)⟩

/-- A manifest with two lists for one module. -/
def grantedTwice : String :=
  "\x7b\"abi_version\":1,\"agent\":[\"events\"],\"agent\":[\"stop\"]\x7d"

/-- Of two lists for a module only the last is granted, and the text is accepted. -/
theorem manifest_of_repeated_module : ∃ manifest s,
    CapabilityManifest.parseJson textCodec grantedTwice = .ok manifest ∧
      spelling grantedTwice = some s ∧ ¬ GrantedOnce s ∧
        ListedIn s (.agent .events) ∧ manifest.check (.agent .events) ≠ .ok () := by
  have hparsed : (CapabilityManifest.parseJson textCodec grantedTwice).toOption.any
      (fun manifest => !(manifest.check (.agent .events)).isOk) = true := by decide +kernel
  obtain ⟨manifest, hmanifest, hdenied⟩ := parseJson_of_toOption hparsed
  have hspelled : (spelling grantedTwice).any (fun s => (s.named "agent").length = 2 &&
      (entriesOf s .agent).any fun entry => entryName entry = some "events") = true := by
    decide +kernel
  obtain ⟨s, hs, hspelled⟩ := (Option.any_eq_true _ _).mp hspelled
  simp only [Bool.and_eq_true, decide_eq_true_eq, List.any_eq_true] at hspelled
  obtain ⟨htwice, entry, hentry, hname⟩ := hspelled
  refine ⟨manifest, s, hmanifest, hs, ?_, ⟨entry, hentry, ?_⟩, ?_⟩
  · intro honce
    have hle : (s.named "agent").length ≤ 1 := honce .agent
    omega
  · rw [entryName_eq_some hname]
    exact .name (rfl : (CapabilityOperation.agent .events).permission = none)
  · intro hok
    rw [hok] at hdenied
    cases hdenied

end Tea.Contract
