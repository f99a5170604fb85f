/-
  Tea/Encoding/OrderedKeys.lean
  =============================
  **Ordered sets and maps as lists** whose keys increase: an item with a new key is inserted
  at its place, and a list is determined by its items.
-/
import Mathlib.Data.List.Sort

namespace Tea.Encoding

variable {α κ : Type} [LinearOrder κ]

/-- The keys of the items increase. -/
def KeysIncrease (key : α → κ) (items : List α) : Prop :=
  items.Pairwise fun item other => key item < key other

instance (key : α → κ) (items : List α) : Decidable (KeysIncrease key items) :=
  inferInstanceAs (Decidable (items.Pairwise fun item other => key item < key other))

/-- The order of items by their keys. -/
def KeyLe (key : α → κ) (item other : α) : Prop := key item ≤ key other

instance (key : α → κ) : DecidableRel (KeyLe key) := fun item other =>
  inferInstanceAs (Decidable (key item ≤ key other))

instance (key : α → κ) : Std.Total (KeyLe key) :=
  ⟨fun item other => le_total (key item) (key other)⟩

instance (key : α → κ) : IsTrans α (KeyLe key) := ⟨fun _ _ _ => le_trans⟩

def insertByKey (key : α → κ) (item : α) (items : List α) : List α :=
  items.orderedInsert (KeyLe key) item

@[simp] theorem mem_insertByKey {key : α → κ} {item other : α} {items : List α} :
    other ∈ insertByKey key item items ↔ other = item ∨ other ∈ items :=
  List.mem_orderedInsert (KeyLe key)

/-- An item with a new key keeps the keys increasing. -/
theorem KeysIncrease.insert {key : α → κ} {item : α} {items : List α} (h : KeysIncrease key items)
    (hnew : ∀ other ∈ items, key other ≠ key item) :
    KeysIncrease key (insertByKey key item items) := by
  have hle : (insertByKey key item items).Pairwise (KeyLe key) :=
    (h.imp fun hlt => le_of_lt hlt).orderedInsert item
  have hne : (insertByKey key item items).Pairwise fun item other => key item ≠ key other := by
    refine ((List.perm_orderedInsert (KeyLe key) _ _).pairwise_iff fun hne => hne.symm).mpr ?_
    refine List.pairwise_cons.mpr ⟨?_, h.imp ne_of_lt⟩
    intro other hother
    exact (hnew other hother).symm
  exact (hle.and hne).imp fun h => lt_of_le_of_ne h.1 h.2

/-- Lists of the same items are the same. -/
theorem KeysIncrease.ext {key : α → κ} {items others : List α} (h : KeysIncrease key items)
    (h' : KeysIncrease key others) (hmem : ∀ item, item ∈ items ↔ item ∈ others) :
    items = others := by
  have : Std.Antisymm fun item other : α => key item < key other :=
    ⟨fun _ _ hlt hgt => absurd hgt (lt_asymm hlt)⟩
  have : Std.Irrefl fun item other : α => key item < key other := ⟨fun _ => lt_irrefl _⟩
  exact List.Pairwise.eq_of_mem_iff h h' hmem

/-- The item of a key is found. -/
theorem KeysIncrease.find_eq_some_iff {key : α → κ} {items : List α} (h : KeysIncrease key items)
    {p : α → Bool} (hp : ∀ item other, p item = true → p other = true → key item = key other)
    {item : α} : items.find? p = some item ↔ item ∈ items ∧ p item = true := by
  constructor
  · intro hfind
    exact ⟨List.mem_of_find?_eq_some hfind, List.find?_some hfind⟩
  · rintro ⟨hmem, hitem⟩
    obtain ⟨before, after, rfl⟩ := List.append_of_mem hmem
    rw [KeysIncrease, List.pairwise_append] at h
    rw [List.find?_append, List.find?_eq_none.mpr, Option.none_or, List.find?_cons_of_pos hitem]
    intro other hother hpos
    have hlt := h.2.2 other hother item List.mem_cons_self
    rw [hp other item hpos hitem] at hlt
    exact lt_irrefl _ hlt

end Tea.Encoding
