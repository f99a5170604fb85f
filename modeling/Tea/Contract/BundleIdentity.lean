/-
  Tea/Contract/BundleIdentity.lean
  ================================
  **What the identity of a bundle covers.**  The hashed bytes of two bundles differ unless
  the bundles are the same or the one lists, path and source alternately, the first modules
  of the other as its last capabilities: no field says where the capabilities end.
-/
import Tea.Luau.Bundle

namespace Tea.Contract

open Tea.Encoding
open Tea.Luau

/-- The bundles have the same ABI version, entrypoint, capabilities and modules. -/
def SameBundle (bundle other : Bundle) : Prop :=
  bundle.manifest.abiVersion = other.manifest.abiVersion ∧
    bundle.manifest.entrypoint = other.manifest.entrypoint ∧
    bundle.manifest.capabilities = other.manifest.capabilities ∧
    bundle.modules.entries = other.modules.entries

/-- The last capabilities of the bundle are the first modules of the other one. -/
def Regrouped (bundle other : Bundle) : Prop :=
  bundle.manifest.abiVersion = other.manifest.abiVersion ∧
    bundle.manifest.entrypoint = other.manifest.entrypoint ∧
    ∃ moved : List (ModulePath × List Char), moved ≠ [] ∧
      bundle.manifest.capabilities.map (·.text) =
        other.manifest.capabilities.map (·.text) ++ moved.flatMap entryTexts ∧
      other.modules.entries = moved ++ bundle.modules.entries

/-! ### Fields -/

theorem encodeUtf8_inj {text other : List Char} (h : encodeUtf8 text = encodeUtf8 other) :
    text = other := by
  have hread := congrArg fromUtf8 h
  rw [fromUtf8_encode, fromUtf8_encode] at hread
  exact Except.ok.inj hread

theorem framed_hashedFields (bundle : Bundle) :
    ∀ field ∈ hashedFields bundle.manifest bundle.modules, Framed field := by
  have htext : ∀ text ∈ bundle.manifest.entrypoint.text ::
      hashedTexts bundle.manifest bundle.modules, Framed (encodeUtf8 text) := by
    intro text htext
    have hlt := bundle.addressable text htext
    have hrange : byteRange 8 = 18446744073709551616 := by decide
    rw [Framed]
    omega
  rw [List.forall_mem_cons] at htext
  refine List.forall_mem_cons.mpr ⟨?_, List.forall_mem_cons.mpr ⟨htext.1, ?_⟩⟩
  · rw [Framed, leBytes_length]
    decide
  · exact List.forall_mem_map.mpr htext.2

/-- The hashed texts are read back from the hashed bytes. -/
theorem hashInput_inj {bundle other : Bundle}
    (h : hashInput bundle.manifest bundle.modules = hashInput other.manifest other.modules) :
    bundle.manifest.entrypoint = other.manifest.entrypoint ∧
      hashedTexts bundle.manifest bundle.modules = hashedTexts other.manifest other.modules := by
  have hfields := frames_inj (framed_hashedFields bundle) (framed_hashedFields other) h
  obtain ⟨-, hfields⟩ := List.cons.inj hfields
  obtain ⟨hentry, htexts⟩ := List.cons.inj hfields
  refine ⟨ModulePath.ext (encodeUtf8_inj hentry), ?_⟩
  exact List.map_injective_iff.mpr (fun _ _ => encodeUtf8_inj) htexts

/-! ### Entries -/

theorem entryTexts_inj {entry other : ModulePath × List Char} {texts more : List (List Char)}
    (h : entryTexts entry ++ texts = entryTexts other ++ more) :
    entry = other ∧ texts = more := by
  obtain ⟨hpath, hrest⟩ := List.cons.inj h
  obtain ⟨hsource, hrest⟩ := List.cons.inj hrest
  exact ⟨Prod.ext (ModulePath.ext hpath) hsource, hrest⟩

@[simp] theorem length_flatMap_entryTexts (entries : List (ModulePath × List Char)) :
    (entries.flatMap entryTexts).length = 2 * entries.length := by
  induction entries with
  | nil => rfl
  | cons entry entries ih =>
    rw [List.flatMap_cons, List.length_append, ih, List.length_cons, entryTexts]
    simp
    omega

theorem flatMap_entryTexts_inj {entries others : List (ModulePath × List Char)}
    (h : entries.flatMap entryTexts = others.flatMap entryTexts) : entries = others := by
  have hlength := congrArg List.length h
  simp only [length_flatMap_entryTexts] at hlength
  induction entries generalizing others with
  | nil =>
    cases others with
    | nil => rfl
    | cons other others => simp at hlength
  | cons entry entries ih =>
    cases others with
    | nil => simp at hlength
    | cons other others =>
      obtain ⟨rfl, hrest⟩ := entryTexts_inj h
      simp only [List.length_cons] at hlength
      rw [ih hrest (by omega)]

/-- Texts in front of entries that together are entries are entries. -/
theorem flatMap_entryTexts_split {entries rest : List (ModulePath × List Char)}
    {texts : List (List Char)}
    (h : entries.flatMap entryTexts = texts ++ rest.flatMap entryTexts) :
    ∃ moved, texts = moved.flatMap entryTexts ∧ entries = moved ++ rest := by
  have hlength := congrArg List.length h
  simp only [List.length_append, length_flatMap_entryTexts] at hlength
  rw [← List.take_append_drop (texts.length / 2) entries, List.flatMap_append] at h
  obtain ⟨hmoved, hrest⟩ := List.append_inj h (by
    rw [length_flatMap_entryTexts, List.length_take]
    omega)
  refine ⟨entries.take (texts.length / 2), hmoved.symm, ?_⟩
  rw [← flatMap_entryTexts_inj hrest, List.take_append_drop]

/-! ### Bundles -/

theorem names_inj {names others : List CapabilityName}
    (h : names.map (·.text) = others.map (·.text)) : names = others :=
  List.map_injective_iff.mpr (fun _ _ => CapabilityName.ext) h

/-- Equal texts with at least as many capabilities are regrouped, or the bundles are one. -/
theorem same_or_regrouped {bundle other : Bundle}
    (hentry : bundle.manifest.entrypoint = other.manifest.entrypoint)
    (h : hashedTexts bundle.manifest bundle.modules = hashedTexts other.manifest other.modules)
    (hle : other.manifest.capabilities.length ≤ bundle.manifest.capabilities.length) :
    SameBundle bundle other ∨ Regrouped bundle other := by
  have habi := bundle.manifest.supported.trans other.manifest.supported.symm
  rw [hashedTexts, hashedTexts] at h
  rcases List.append_eq_append_iff.mp h with ⟨texts, hcapabilities, hmodules⟩ |
      ⟨texts, hcapabilities, hmodules⟩
  · have hlength := congrArg List.length hcapabilities
    simp only [List.length_append, List.length_map] at hlength
    obtain rfl : texts = [] := List.eq_nil_of_length_eq_zero (by omega)
    rw [List.append_nil] at hcapabilities
    exact Or.inl ⟨habi, hentry, names_inj hcapabilities.symm, flatMap_entryTexts_inj hmodules⟩
  · obtain ⟨moved, rfl, hmoved⟩ := flatMap_entryTexts_split hmodules
    by_cases hnil : moved = []
    · subst hnil
      rw [List.flatMap_nil, List.append_nil] at hcapabilities
      exact Or.inl ⟨habi, hentry, names_inj hcapabilities, hmoved.symm⟩
    · exact Or.inr ⟨habi, hentry, moved, hnil, hcapabilities, hmoved⟩

theorem SameBundle.symm {bundle other : Bundle} (h : SameBundle bundle other) :
    SameBundle other bundle := ⟨h.1.symm, h.2.1.symm, h.2.2.1.symm, h.2.2.2.symm⟩

/-- Regrouped bundles have one hashed stream. -/
theorem Regrouped.hashInput_eq {bundle other : Bundle} (h : Regrouped bundle other) :
    hashInput bundle.manifest bundle.modules = hashInput other.manifest other.modules := by
  obtain ⟨habi, hentry, moved, -, hcapabilities, hmodules⟩ := h
  rw [hashInput, hashInput, hashedFields, hashedFields, hashedTexts, hashedTexts, habi, hentry,
    hcapabilities, hmodules, List.flatMap_append, List.append_assoc]

theorem Regrouped.not_same {bundle other : Bundle} (h : Regrouped bundle other) :
    ¬ SameBundle bundle other := by
  intro hsame
  obtain ⟨-, -, moved, hne, -, hmodules⟩ := h
  rw [hsame.2.2.2] at hmodules
  exact hne (List.self_eq_append_left.mp hmodules)

/-- **The identity covers every bundle that is not regrouped.**  Equal hashed bytes mean equal
    bundles just when neither bundle lists the first modules of the other as capabilities. -/
theorem hashInput_covers_iff (bundle other : Bundle) :
    (hashInput bundle.manifest bundle.modules = hashInput other.manifest other.modules →
        SameBundle bundle other) ↔
      ¬ Regrouped bundle other ∧ ¬ Regrouped other bundle := by
  constructor
  · intro h
    constructor
    · intro hregrouped
      exact hregrouped.not_same (h hregrouped.hashInput_eq)
    · intro hregrouped
      exact hregrouped.not_same (h hregrouped.hashInput_eq.symm).symm
  · rintro ⟨hleft, hright⟩ heq
    obtain ⟨hentry, htexts⟩ := hashInput_inj heq
    rcases Nat.le_total other.manifest.capabilities.length
        bundle.manifest.capabilities.length with hle | hle
    · exact (same_or_regrouped hentry htexts hle).resolve_right hleft
    · exact ((same_or_regrouped hentry.symm htexts.symm hle).resolve_right hright).symm

/-! ### Two bundles with one identity -/

def mainPath : ModulePath where
  text := ['m']
  accepted := by decide

def toolPath : ModulePath where
  text := ['a']
  accepted := by decide

def toolName : CapabilityName where
  text := ['a']
  accepted := by decide

def callName : CapabilityName where
  text := ['b']
  accepted := by decide

/-- A bundle with two capabilities and the entrypoint alone. -/
def listedBundle : Bundle where
  manifest := {
    abiVersion := 1, entrypoint := mainPath, capabilities := [toolName, callName]
    supported := rfl, sorted := by decide }
  modules := { entries := [(mainPath, ['x'])], ordered := by decide }
  present := by decide
  addressable := by decide

/-- A bundle without capabilities, with a module beside the entrypoint. -/
def mappedBundle : Bundle where
  manifest := BundleManifest.bare mainPath
  modules := { entries := [(toolPath, ['b']), (mainPath, ['x'])], ordered := by decide }
  present := by decide
  addressable := by decide

/-- Moving a pair between the capabilities and the modules keeps the hashed bytes. -/
theorem moved_pair_keeps_hashInput :
    ¬ ∀ bundle other : Bundle,
      hashInput bundle.manifest bundle.modules = hashInput other.manifest other.modules →
        SameBundle bundle other := by
  intro h
  have hsame := h listedBundle mappedBundle (by decide)
  exact absurd (congrArg List.length hsame.2.2.1) (by decide)

end Tea.Contract
