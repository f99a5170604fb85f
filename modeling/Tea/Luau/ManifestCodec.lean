/-
  Tea/Luau/ManifestCodec.lean
  ===========================
  **The decoder against the encoder**: which values are read as an operation, and that a
  manifest is read back from what it is written as.
-/
import Tea.Luau.Grants
import Tea.Luau.Manifest

namespace Tea.Luau

open Tea.Encoding
open Tea.Tui (isBlank)

variable {F : Type}

/-! ### Fields -/

theorem bind_ok_iff {ε α β : Type} {x : Except ε α} {f : α → Except ε β} {b : β} :
    (x >>= f) = .ok b ↔ ∃ a, x = .ok a ∧ f a = .ok b := by
  cases x <;> simp [bind, Except.bind]

theorem map_ok_iff {ε α β : Type} {x : Except ε α} {f : α → β} {b : β} :
    x.map f = .ok b ↔ ∃ a, x = .ok a ∧ f a = b := by
  cases x <;> simp [Except.map]

theorem mapError_ok_iff {ε ε' α : Type} {x : Except ε α} {f : ε → ε'} {a : α} :
    x.mapError f = .ok a ↔ x = .ok a := by
  cases x <;> simp [Except.mapError]

theorem lookupField_mem {key : String} {value : JsonValue F}
    {fields : List (String × JsonValue F)} (h : JsonValue.lookupField key fields = some value) :
    (key, value) ∈ fields := by
  induction fields with
  | nil => cases h
  | cons field fields ih =>
    obtain ⟨name, other⟩ := field
    rw [JsonValue.lookupField] at h
    split at h
    next hname =>
      cases h
      rw [hname]
      exact List.mem_cons_self
    next => exact List.mem_cons_of_mem _ (ih h)

theorem lookupField_ne_none {field : String × JsonValue F} {fields : List (String × JsonValue F)}
    (h : field ∈ fields) : JsonValue.lookupField field.1 fields ≠ none := by
  induction fields with
  | nil => cases h
  | cons other fields ih =>
    obtain ⟨name, value⟩ := other
    rw [JsonValue.lookupField]
    split
    · exact Option.some_ne_none _
    next hname =>
      rcases List.mem_cons.mp h with rfl | h
      · exact absurd rfl hname
      · exact ih h

/-- Without two fields of one key it does not matter from which end they are looked up. -/
theorem lookupField_reverse {fields : List (String × JsonValue F)}
    (h : (fields.map (·.1)).Nodup) (key : String) :
    JsonValue.lookupField key fields.reverse = JsonValue.lookupField key fields := by
  induction fields with
  | nil => rfl
  | cons field fields ih =>
    obtain ⟨name, value⟩ := field
    obtain ⟨hnot, hnodup⟩ := List.nodup_cons.mp h
    rw [List.reverse_cons, JsonValue.lookupField_append, ih hnodup, JsonValue.lookupField]
    by_cases hname : name = key
    · subst hname
      have hnone : JsonValue.lookupField name fields = none := by
        by_contra hne
        obtain ⟨other, hother⟩ := Option.ne_none_iff_exists'.mp hne
        exact hnot (List.mem_map_of_mem (f := (·.1)) (lookupField_mem hother))
      simp [hnone, JsonValue.lookupField]
    · simp [JsonValue.lookupField, hname]

theorem rejectUnknownKeys_ok_iff {fields : List (String × JsonValue F)} {known : List String}
    {path : String} :
    rejectUnknownKeys fields known path = .ok () ↔ ∀ field ∈ fields, field.1 ∈ known := by
  rw [rejectUnknownKeys]
  constructor
  · intro h field hfield
    split at h
    next => cases h
    next hnone =>
      have hall := List.find?_eq_none.mp hnone field hfield
      simpa using hall
  · intro h
    rw [List.find?_eq_none.mpr]
    intro field hfield
    simpa using h field hfield

/-- The fields of an object that is read back have its keys. -/
theorem reread_known {codec : JsonCodec F} {pairs fields : List (String × JsonValue F)}
    (h : ∀ key, JsonValue.lookupField key fields =
      (JsonValue.lookupField key pairs.reverse).map codec.reread) :
    ∀ field ∈ fields, field.1 ∈ pairs.map (·.1) := by
  intro field hfield
  have hne := lookupField_ne_none hfield
  rw [h, ne_eq, Option.map_eq_none_iff] at hne
  obtain ⟨value, hvalue⟩ := Option.ne_none_iff_exists'.mp hne
  have hmem := lookupField_mem hvalue
  exact List.mem_map_of_mem (f := (·.1)) (List.mem_reverse.mp hmem)

/-! ### Operations -/

/-- The permission that an operation is, if it is one. -/
def CapabilityOperation.permission : CapabilityOperation → Option McpPermission
  | .world (.mcp permission) => some permission
  | _ => none

/-- `McpPermission::new` accepts the permission. -/
def McpPermission.Valid (permission : McpPermission) : Prop :=
  isBlank permission.server = false ∧ ∀ target ∈ permission.target, isBlank target = false

/-- The permission of an operation is one that `McpPermission::new` accepts. -/
def CapabilityOperation.Valid (operation : CapabilityOperation) : Prop :=
  ∀ permission ∈ operation.permission, permission.Valid

theorem validateNonEmpty_ok_iff {kind value : String} :
    validateNonEmpty kind value = .ok () ↔ isBlank value = false := by
  rw [validateNonEmpty]
  split
  next h => simp [h]
  next h => simpa using h

theorem validateTarget_ok_iff {target : Option String} :
    validateTarget target = .ok () ↔ ∀ value ∈ target, isBlank value = false := by
  cases target with
  | none => simp [validateTarget]
  | some target => simp [validateTarget, validateNonEmpty_ok_iff]

theorem McpPermission.new_ok_iff {server : String} {operation : McpOperation}
    {target : Option String} {permission : McpPermission} :
    McpPermission.new server operation target = .ok permission ↔
      permission = ⟨server, operation, target⟩ ∧ permission.Valid := by
  simp only [McpPermission.new, bind_ok_iff]
  constructor
  · rintro ⟨_, hserver, _, htarget, h⟩
    cases h
    exact ⟨rfl, validateNonEmpty_ok_iff.mp hserver, validateTarget_ok_iff.mp htarget⟩
  · rintro ⟨rfl, hserver, htarget⟩
    exact ⟨(), validateNonEmpty_ok_iff.mpr hserver, (), validateTarget_ok_iff.mpr htarget, rfl⟩

/-- A string is read as the operation of this name. -/
theorem parseSimpleOperation_ok_iff {owner : CapabilityModule} {name path : String}
    {operation : CapabilityOperation} :
    parseSimpleOperation owner name path = .ok operation ↔
      operation.moduleOf = owner ∧ operation.permission = none ∧ name = operation.sortKey := by
  constructor
  · intro h
    cases owner with
    | trace =>
      by_cases hname : TraceOperation.emit.asStr = name
      · rw [parseSimpleOperation.eq_def] at h
        simp only [if_pos hname] at h
        cases h
        exact ⟨rfl, rfl, hname.symm⟩
      · rw [parseSimpleOperation.eq_def] at h
        simp only [if_neg hname] at h
        cases h
    | _ =>
      simp only [parseSimpleOperation, AgentOperation.parse, TaskOperation.parse,
        JsonOperation.ofStr, TimeOperation.parse] at h
      split_ifs at h <;> cases h <;> exact ⟨rfl, rfl, by assumption⟩
  · rintro ⟨rfl, hsimple, rfl⟩
    rcases operation with op | op | op | op | op | op <;> cases op <;> first | rfl | cases hsimple

theorem McpOperation.parse_asStr (operation : McpOperation) :
    McpOperation.parse operation.asStr = some operation := by
  cases operation <;> rfl

theorem McpOperation.parse_eq_some {name : String} {operation : McpOperation}
    (h : McpOperation.parse name = some operation) : name = operation.asStr := by
  rw [McpOperation.parse] at h
  split_ifs at h <;> cases h <;> assumption

theorem expectString_ok_iff {value : JsonValue F} {path text : String} :
    expectString value path = .ok text ↔ value = .string text ∧ isBlank text = false := by
  rw [expectString.eq_def]
  split
  next other =>
    split
    next h =>
      constructor
      · intro hok
        cases hok
      · rintro ⟨heq, hblank⟩
        cases heq
        rw [h] at hblank
        cases hblank
    next h =>
      constructor
      · intro hok
        cases hok
        exact ⟨rfl, by simpa using h⟩
      · rintro ⟨heq, -⟩
        cases heq
        rfl
  next other hne =>
    constructor
    · intro hok
      cases hok
    · rintro ⟨rfl, -⟩
      exact absurd rfl (hne text)

theorem requiredString_ok_iff {fields : List (String × JsonValue F)} {key path text : String} :
    requiredString fields key path = .ok text ↔
      JsonValue.lookupField key fields = some (.string text) ∧ isBlank text = false := by
  rw [requiredString]
  split
  next value hvalue => rw [expectString_ok_iff, hvalue, Option.some.injEq]
  next hnone =>
    rw [hnone]
    constructor
    · intro hok
      cases hok
    · rintro ⟨hsome, -⟩
      cases hsome

/-- The fields are those of the permission, in whatever order. -/
structure PermissionFields (permission : McpPermission) (fields : List (String × JsonValue F)) :
    Prop where
  known : ∀ field ∈ fields, field.1 ∈ ["server", "operation", "target"]
  server : JsonValue.lookupField "server" fields = some (.string permission.server)
  operation : JsonValue.lookupField "operation" fields =
    some (.string permission.operation.asStr)
  target : JsonValue.lookupField "target" fields = permission.target.map .string

theorem expectObject_ok_iff {value : JsonValue F} {path : String}
    {fields : List (String × JsonValue F)} :
    expectObject value path = .ok fields ↔ value = .mapping fields := by
  rw [expectObject.eq_def]
  split
  next => rw [Except.ok.injEq, JsonValue.mapping.injEq]
  next other hne =>
    constructor
    · intro hok
      cases hok
    · rintro rfl
      exact absurd rfl (hne fields)

theorem readTarget_ok_iff {fields : List (String × JsonValue F)} {path : String}
    {target : Option String} :
    readTarget fields path = .ok target ↔
      JsonValue.lookupField "target" fields = target.map .string ∧
        ∀ value ∈ target, isBlank value = false := by
  rw [readTarget]
  split
  next value hvalue =>
    simp only [map_ok_iff, expectString_ok_iff, hvalue]
    constructor
    · rintro ⟨text, ⟨rfl, hblank⟩, rfl⟩
      exact ⟨rfl, by simpa using hblank⟩
    · rintro ⟨hsome, hblank⟩
      cases target with
      | none => cases hsome
      | some text => exact ⟨text, ⟨Option.some.inj hsome, hblank text rfl⟩, rfl⟩
  next hnone =>
    rw [hnone]
    cases target <;> simp

/-- An object is read as the permission that its fields are. -/
theorem parseMcpOperation_ok_iff {value : JsonValue F} {path : String} {world : WorldOperation} :
    parseMcpOperation value path = .ok world ↔
      ∃ permission fields, world = .mcp permission ∧ value = .mapping fields ∧
        permission.Valid ∧ PermissionFields permission fields := by
  simp only [parseMcpOperation, bind_ok_iff, expectObject_ok_iff, requiredString_ok_iff]
  constructor
  · rintro ⟨fields, rfl, _, hknown, server, ⟨hserver, hblank⟩, name, ⟨hname, -⟩, h⟩
    split at h
    next => cases h
    next operation hoperation =>
      obtain rfl := McpOperation.parse_eq_some hoperation
      obtain ⟨target, htarget, h⟩ := bind_ok_iff.mp h
      obtain ⟨htarget, -⟩ := readTarget_ok_iff.mp htarget
      obtain ⟨permission, hnew, rfl⟩ := map_ok_iff.mp h
      obtain ⟨rfl, hvalid⟩ := McpPermission.new_ok_iff.mp (mapError_ok_iff.mp hnew)
      exact ⟨_, fields, rfl, rfl, hvalid, rejectUnknownKeys_ok_iff.mp hknown, hserver, hname,
        htarget⟩
  · rintro ⟨⟨server, operation, target⟩, fields, rfl, rfl, hvalid, hknown, hserver, hoperation,
      htarget⟩
    have hblank : isBlank operation.asStr = false := by cases operation <;> decide
    refine ⟨fields, rfl, (), rejectUnknownKeys_ok_iff.mpr hknown, server, ⟨hserver, hvalid.1⟩, _,
      ⟨hoperation, hblank⟩, ?_⟩
    simp only [McpOperation.parse_asStr]
    exact bind_ok_iff.mpr ⟨target, readTarget_ok_iff.mpr ⟨htarget, hvalid.2⟩,
      map_ok_iff.mpr ⟨_, mapError_ok_iff.mpr (McpPermission.new_ok_iff.mpr ⟨rfl, hvalid⟩), rfl⟩⟩

/-- The value is that of an operation, up to the order of fields. -/
inductive ReadsAs : JsonValue F → CapabilityOperation → Prop
  | name {operation : CapabilityOperation} (hsimple : operation.permission = none) :
      ReadsAs (.string operation.sortKey) operation
  | permission {permission : McpPermission} {outer fields : List (String × JsonValue F)}
      (hvalid : permission.Valid) (houter : ∀ field ∈ outer, field.1 ∈ ["mcp"])
      (hmcp : JsonValue.lookupField "mcp" outer = some (.mapping fields))
      (hfields : PermissionFields permission fields) :
      ReadsAs (.mapping outer) (.world (.mcp permission))

/-- **A value is read as an operation** of the module that it is the value of. -/
theorem parseOperation_ok_iff {owner : CapabilityModule} {value : JsonValue F} {path : String}
    {operation : CapabilityOperation} :
    parseOperation owner value path = .ok operation ↔
      operation.moduleOf = owner ∧ ReadsAs value operation := by
  rw [parseOperation.eq_def]
  split
  next name =>
    rw [parseSimpleOperation_ok_iff]
    constructor
    · rintro ⟨howner, hsimple, rfl⟩
      exact ⟨howner, .name hsimple⟩
    · rintro ⟨howner, hreads⟩
      cases hreads with
      | name hsimple => exact ⟨howner, hsimple, rfl⟩
  next outer =>
    split
    next howner =>
      subst howner
      rw [bind_ok_iff]
      constructor
      · rintro ⟨_, houter, h⟩
        split at h
        next mcp hmcp =>
          obtain ⟨world, hworld, rfl⟩ := map_ok_iff.mp h
          obtain ⟨permission, fields, rfl, rfl, hvalid, hfields⟩ :=
            parseMcpOperation_ok_iff.mp hworld
          exact ⟨rfl, .permission hvalid (rejectUnknownKeys_ok_iff.mp houter) hmcp hfields⟩
        next => cases h
      · rintro ⟨-, hreads⟩
        cases hreads with
        | permission hvalid houter hmcp hfields =>
          refine ⟨(), rejectUnknownKeys_ok_iff.mpr houter, ?_⟩
          rw [hmcp]
          exact map_ok_iff.mpr ⟨_, parseMcpOperation_ok_iff.mpr
            ⟨_, _, rfl, rfl, hvalid, hfields⟩, rfl⟩
    next howner =>
      constructor
      · intro h
        cases h
      · rintro ⟨rfl, hreads⟩
        cases hreads
        exact absurd rfl howner
  next hstring hmapping =>
    constructor
    · intro h
      cases h
    · rintro ⟨-, hreads⟩
      cases hreads with
      | name => exact absurd rfl (hstring _)
      | permission => exact absurd rfl (hmapping _)

/-! ### Grants -/

/-- The value is read as an operation of the module. -/
def ReadsIn (owner : CapabilityModule) (value : JsonValue F) (operation : CapabilityOperation) :
    Prop := operation.moduleOf = owner ∧ ReadsAs value operation

theorem ReadsAs.valid {v : JsonValue F} {operation : CapabilityOperation}
    (h : ReadsAs v operation) : operation.Valid := by
  cases h with
  | name hsimple =>
    intro permission hpermission
    rw [hsimple] at hpermission
    cases hpermission
  | permission hvalid =>
    intro permission hpermission
    cases hpermission
    exact hvalid

theorem ReadsIn.unique {owner : CapabilityModule} {v : JsonValue F}
    {operation other : CapabilityOperation} (h : ReadsIn owner v operation)
    (hother : ReadsIn owner v other) : operation = other := by
  have hparsed : parseOperation owner v "" = .ok operation := parseOperation_ok_iff.mpr h
  rw [parseOperation_ok_iff.mpr hother] at hparsed
  exact (Except.ok.inj hparsed).symm

theorem parseOperations_ok_iff {owner : CapabilityModule} {index : Nat}
    {values : List (JsonValue F)} {operations : List CapabilityOperation} :
    parseOperations owner index values = .ok operations ↔
      List.Forall₂ (ReadsIn owner) values operations := by
  induction values generalizing index operations with
  | nil =>
    rw [parseOperations, Except.ok.injEq, List.forall₂_nil_left_iff]
    exact eq_comm
  | cons value values ih =>
    simp only [parseOperations, bind_ok_iff, parseOperation_ok_iff, ih]
    constructor
    · rintro ⟨operation, hoperation, operations, hoperations, h⟩
      cases h
      exact .cons hoperation hoperations
    · intro h
      cases h with
      | cons hoperation hoperations => exact ⟨_, hoperation, _, hoperations, rfl⟩

theorem parseGrant_ok_iff {owner : CapabilityModule} {value : JsonValue F}
    {grant : CapabilityGrant} :
    parseGrant owner value = .ok grant ↔ ∃ values operations, value = .array values ∧
      List.Forall₂ (ReadsIn owner) values operations ∧
        CapabilityGrant.new owner operations = .ok grant := by
  simp only [parseGrant, bind_ok_iff, parseOperations_ok_iff]
  constructor
  · rintro ⟨values, harray, operations, hoperations, hnew⟩
    rw [expectArray.eq_def] at harray
    split at harray
    next => exact ⟨values, operations, by rw [Except.ok.inj harray], hoperations, hnew⟩
    next => cases harray
  · rintro ⟨values, operations, rfl, hoperations, hnew⟩
    exact ⟨values, rfl, operations, hoperations, hnew⟩

/-- The grants that are read are those of the fields with the names of the modules. -/
theorem parseGrants_ok {fields : List (String × JsonValue F)} {owners : List CapabilityModule}
    {grants : List CapabilityGrant} (h : parseGrants fields owners = .ok grants) :
    (∀ grant ∈ grants, ∃ owner ∈ owners, ∃ value,
      JsonValue.lookupField owner.jsonKey fields = some value ∧
        parseGrant owner value = .ok grant) ∧
    ∀ owner ∈ owners, ∀ value, JsonValue.lookupField owner.jsonKey fields = some value →
      ∃ grant ∈ grants, parseGrant owner value = .ok grant := by
  induction owners generalizing grants with
  | nil =>
    cases h
    simp
  | cons owner owners ih =>
    rw [parseGrants] at h
    split at h
    next value hvalue =>
      simp only [bind_ok_iff] at h
      obtain ⟨grant, hgrant, more, hmore, hcons⟩ := h
      cases hcons
      obtain ⟨hread, hfound⟩ := ih hmore
      constructor
      · rw [List.forall_mem_cons]
        refine ⟨⟨owner, List.mem_cons_self, value, hvalue, hgrant⟩, ?_⟩
        intro other hother
        obtain ⟨owner', howner', hrest⟩ := hread other hother
        exact ⟨owner', List.mem_cons_of_mem _ howner', hrest⟩
      · rw [List.forall_mem_cons]
        constructor
        · intro value' hvalue'
          rw [hvalue] at hvalue'
          cases hvalue'
          exact ⟨grant, List.mem_cons_self, hgrant⟩
        · intro owner' howner' value' hvalue'
          obtain ⟨other, hother, hrest⟩ := hfound owner' howner' value' hvalue'
          exact ⟨other, List.mem_cons_of_mem _ hother, hrest⟩
    next hnone =>
      obtain ⟨hread, hfound⟩ := ih h
      constructor
      · intro grant hgrant
        obtain ⟨owner', howner', hrest⟩ := hread grant hgrant
        exact ⟨owner', List.mem_cons_of_mem _ howner', hrest⟩
      · rw [List.forall_mem_cons]
        refine ⟨?_, hfound⟩
        intro value hvalue
        rw [hnone] at hvalue
        cases hvalue

theorem fromJson_ok {value : JsonValue F} {manifest : CapabilityManifest}
    (h : CapabilityManifest.fromJson value = .ok manifest) :
    ∃ fields grants, value = .mapping fields ∧
      parseGrants fields capabilityModules = .ok grants ∧
        CapabilityManifest.new grants = .ok manifest := by
  simp only [CapabilityManifest.fromJson, bind_ok_iff, expectObject_ok_iff] at h
  obtain ⟨fields, hfields, abiVersion, habi, h⟩ := h
  split at h
  next => cases h
  next =>
    simp only [bind_ok_iff] at h
    obtain ⟨_, -, grants, hgrants, hnew⟩ := h
    exact ⟨fields, grants, hfields, hgrants, hnew⟩

/-! ### Round trip -/

/-- Every operation of the manifest is validated. -/
def CapabilityManifest.Valid (manifest : CapabilityManifest) : Prop :=
  ∀ grant ∈ manifest.grants, ∀ operation ∈ grant.operations, operation.Valid

variable (codec : JsonCodec F)

/-- The fields of a permission are read back as they are. -/
theorem permissionFields_reread (permission : McpPermission) :
    ∃ fields, codec.reread (.object (permissionFields permission)) = .mapping fields ∧
      PermissionFields permission fields := by
  obtain ⟨server, operation, target⟩ := permission
  obtain ⟨fields, hfields, hlookup⟩ := codec.reread_object
    (permissionFields ⟨server, operation, target⟩)
  refine ⟨fields, hfields, ?_, ?_, ?_, ?_⟩
  · intro field hfield
    have hknown := reread_known hlookup field hfield
    cases target with
    | none =>
      simp only [permissionFields, Option.map_none, Option.toList_none, List.append_nil,
        List.map_cons, List.map_nil, List.mem_cons, List.not_mem_nil, or_false] at hknown
      rcases hknown with hkey | hkey <;> simp [hkey]
    | some target => simpa [permissionFields] using hknown
  all_goals rw [hlookup]
  all_goals cases target <;>
    simp [permissionFields, JsonValue.lookupField, codec.reread_string]

/-- The value of an operation is read back as the operation. -/
theorem readsAs_reread {operation : CapabilityOperation} (h : operation.Valid) :
    ReadsAs (codec.reread (operationToJson operation)) operation := by
  rw [operationToJson.eq_def]
  split
  next permission =>
    obtain ⟨outer, houter, hlookup⟩ := codec.reread_object
      [("mcp", .object (permissionFields permission))]
    obtain ⟨fields, hfields, hpermission⟩ := permissionFields_reread codec permission
    rw [houter]
    refine .permission (h permission rfl) (reread_known hlookup) ?_ hpermission
    rw [hlookup, ← hfields]
    rfl
  next hne =>
    rw [codec.reread_string]
    refine .name ?_
    rw [CapabilityOperation.permission.eq_def]
    split
    next permission => exact absurd rfl (hne permission)
    next => rfl

theorem parseGrant_reread {grant : CapabilityGrant}
    (h : ∀ operation ∈ grant.operations, operation.Valid) :
    parseGrant grant.owner (codec.reread (.array (grant.operations.map operationToJson))) =
      .ok grant := by
  rw [codec.reread_array]
  refine parseGrant_ok_iff.mpr ⟨_, grant.operations, rfl, ?_, grant.new_operations⟩
  rw [List.map_map, List.forall₂_map_left_iff, List.forall₂_same]
  intro operation hoperation
  exact ⟨grant.own operation hoperation, readsAs_reread codec (h operation hoperation)⟩

theorem jsonKey_inj {owner other : CapabilityModule} (h : owner.jsonKey = other.jsonKey) :
    owner = other := by
  cases owner <;> cases other <;> simp_all [CapabilityModule.jsonKey]

theorem jsonKey_ne_abiVersion (owner : CapabilityModule) : "abi_version" ≠ owner.jsonKey := by
  cases owner <;> decide

theorem manifestFields_nodup (manifest : CapabilityManifest) :
    ((manifestFields manifest : List (String × JsonValue F)).map (·.1)).Nodup := by
  rw [manifestFields, List.map_cons, List.map_map, List.nodup_cons]
  constructor
  · intro hmem
    obtain ⟨grant, -, hkey⟩ := List.mem_map.mp hmem
    exact jsonKey_ne_abiVersion grant.owner hkey.symm
  · have hnodup := manifest.nodup_owners.map fun _ _ => jsonKey_inj
    rwa [List.map_map] at hnodup

/-- The field of a module holds the operations of its grant. -/
theorem lookupField_manifestFields (manifest : CapabilityManifest) (owner : CapabilityModule) :
    JsonValue.lookupField owner.jsonKey (manifestFields manifest : List (String × JsonValue F)) =
      (manifest.grant owner).map fun grant => .array (grant.operations.map operationToJson) := by
  rw [manifestFields, JsonValue.lookupField, if_neg (jsonKey_ne_abiVersion owner),
    CapabilityManifest.grant]
  induction manifest.grants with
  | nil => rfl
  | cons grant grants ih =>
    rw [List.map_cons, JsonValue.lookupField]
    by_cases howner : grant.owner = owner
    · rw [if_pos (congrArg _ howner), List.find?_cons_of_pos (by simpa using howner)]
      rfl
    · rw [if_neg fun hkey => howner (jsonKey_inj hkey), ih,
        List.find?_cons_of_neg (by simpa using howner)]

theorem parseGrants_reread {manifest : CapabilityManifest} (h : manifest.Valid)
    {fields : List (String × JsonValue F)}
    (hfields : ∀ owner, JsonValue.lookupField owner.jsonKey fields =
      (manifest.grant owner).map fun grant =>
        codec.reread (.array (grant.operations.map operationToJson)))
    (owners : List CapabilityModule) :
    parseGrants fields owners = .ok (owners.filterMap manifest.grant) := by
  induction owners with
  | nil => rfl
  | cons owner owners ih =>
    rw [parseGrants, hfields]
    cases hgrant : manifest.grant owner with
    | none => rw [List.filterMap_cons_none hgrant]; exact ih
    | some grant =>
      obtain ⟨hmem, rfl⟩ := CapabilityManifest.grant_eq_some_iff.mp hgrant
      rw [List.filterMap_cons_some hgrant]
      simp only [Option.map_some, parseGrant_reread codec (h grant hmem), ih]
      rfl

theorem canonical_operationToJson (operation : CapabilityOperation) :
    (operationToJson operation : JsonValue F).Canonical := by
  rw [operationToJson.eq_def]
  split
  next permission =>
    refine JsonValue.canonical_object ?_
    intro pair hpair
    rw [List.mem_singleton.mp hpair]
    refine JsonValue.canonical_object ?_
    intro field hfield
    rcases List.mem_append.mp hfield with hfield | hfield
    · rcases List.mem_cons.mp hfield with rfl | hfield
      · exact .string _
      · rw [List.mem_singleton.mp hfield]
        exact .string _
    · obtain ⟨target, -, rfl⟩ := Option.map_eq_some_iff.mp (Option.mem_toList.mp hfield)
      exact .string _
  next => exact .string _

theorem canonical_toJson (manifest : CapabilityManifest) :
    (manifest.toJson : JsonValue F).Canonical := by
  refine JsonValue.canonical_object ?_
  rw [manifestFields, List.forall_mem_cons]
  refine ⟨.number _, ?_⟩
  intro pair hpair
  obtain ⟨grant, -, rfl⟩ := List.mem_map.mp hpair
  refine .array ?_
  intro value hvalue
  obtain ⟨operation, -, rfl⟩ := List.mem_map.mp hvalue
  exact canonical_operationToJson operation

/-- The grants of all modules are the grants of the manifest. -/
theorem new_filterMap_grant (manifest : CapabilityManifest) :
    CapabilityManifest.new (capabilityModules.filterMap manifest.grant) = .ok manifest := by
  refine CapabilityManifest.new_grants ?_ ?_
  · intro grant
    rw [List.mem_filterMap]
    constructor
    · rintro ⟨owner, -, hgrant⟩
      exact (CapabilityManifest.grant_eq_some_iff.mp hgrant).1
    · intro hgrant
      refine ⟨grant.owner, ?_, CapabilityManifest.grant_eq_some_iff.mpr ⟨hgrant, rfl⟩⟩
      cases grant.owner <;> decide
  · have hsublist : ∀ owners : List CapabilityModule,
        ((owners.filterMap manifest.grant).map (·.owner)).Sublist owners := by
      intro owners
      induction owners with
      | nil => exact List.Sublist.refl _
      | cons owner owners ih =>
        cases hgrant : manifest.grant owner with
        | none =>
          rw [List.filterMap_cons_none hgrant]
          exact ih.cons owner
        | some grant =>
          rw [List.filterMap_cons_some hgrant, List.map_cons,
            (CapabilityManifest.grant_eq_some_iff.mp hgrant).2]
          exact ih.cons_cons owner
    exact (hsublist capabilityModules).nodup (by decide)

/-- **A manifest is read back** from the text it is written as. -/
theorem parseJson_toJsonString {manifest : CapabilityManifest} (h : manifest.Valid) :
    CapabilityManifest.parseJson codec (manifest.toJsonString codec) = .ok manifest := by
  rw [CapabilityManifest.parseJson, CapabilityManifest.toJsonString,
    codec.parse_print (canonical_toJson manifest)]
  obtain ⟨fields, hfields, hlookup⟩ := codec.reread_object (manifestFields manifest)
  have hkeys : ∀ key, JsonValue.lookupField key fields =
      (JsonValue.lookupField key (manifestFields manifest)).map codec.reread := by
    intro key
    rw [hlookup, lookupField_reverse (manifestFields_nodup manifest)]
  have habi : requiredU64 fields "abi_version" = .ok manifest.abiVersion := by
    rw [requiredU64, hkeys, manifestFields, JsonValue.lookupField, if_pos rfl]
    simp only [Option.map_some, codec.reread_unsigned]
  have hknown : rejectUnknownKeys fields
      ("abi_version" :: capabilityModules.map (·.jsonKey)) "manifest" = .ok () := by
    refine rejectUnknownKeys_ok_iff.mpr ?_
    intro field hfield
    have hmem := reread_known hlookup field hfield
    rw [manifestFields, List.map_cons, List.map_map, List.mem_cons] at hmem
    rcases hmem with hkey | hmem
    · rw [hkey]
      exact List.mem_cons_self
    · obtain ⟨grant, -, hkey⟩ := List.mem_map.mp hmem
      rw [← hkey]
      refine List.mem_cons_of_mem _ (List.mem_map_of_mem ?_)
      cases grant.owner <;> decide
  have hmodules : ∀ owner : CapabilityModule, JsonValue.lookupField owner.jsonKey fields =
      (manifest.grant owner).map fun grant =>
        codec.reread (.array (grant.operations.map operationToJson)) := by
    intro owner
    rw [hkeys, lookupField_manifestFields, Option.map_map]
    rfl
  have hgrants := parseGrants_reread codec h hmodules capabilityModules
  simp only [CapabilityManifest.toJson, hfields, CapabilityManifest.fromJson, bind_ok_iff]
  refine ⟨fields, rfl, manifest.abiVersion, habi, ?_⟩
  rw [if_neg (not_not_intro manifest.supported)]
  exact bind_ok_iff.mpr ⟨(), hknown, bind_ok_iff.mpr ⟨_, hgrants, new_filterMap_grant manifest⟩⟩

end Tea.Luau
