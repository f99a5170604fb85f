/-
  Tea/Tools/Registry.lean
  =======================
  **The registry of tools** (`ToolRegistry`): tools by their names, and the names in the order
  in which they were registered.
-/
import Mathlib.Data.List.Nodup

namespace Tea.Tools

/-- The map and the order have the same names, each of them once. -/
structure ToolRegistry (Tool : Type) (nameOf : Tool → String) where
  tools : String → Option Tool
  order : List String
  distinct : order.Nodup
  registered : ∀ name, name ∈ order ↔ (tools name).isSome
  named : ∀ {name tool}, tools name = some tool → nameOf tool = name

namespace ToolRegistry

variable {Tool : Type} {nameOf : Tool → String}

def empty : ToolRegistry Tool nameOf where
  tools _ := none
  order := []
  distinct := .nil
  registered _ := by simp
  named h := by cases h

/-- A tool of the same name is replaced where it stands. -/
def insert (registry : ToolRegistry Tool nameOf) (tool : Tool) : ToolRegistry Tool nameOf where
  tools name := if name = nameOf tool then some tool else registry.tools name
  order :=
    if (registry.tools (nameOf tool)).isSome then registry.order
    else registry.order ++ [nameOf tool]
  distinct := by
    split_ifs with h
    · exact registry.distinct
    · refine List.nodup_append.mpr ⟨registry.distinct, List.nodup_singleton _, ?_⟩
      intro name hname other hother heq
      rw [List.mem_singleton] at hother
      rw [heq, hother] at hname
      exact h ((registry.registered _).mp hname)
  registered name := by
    by_cases hname : name = nameOf tool
    · rw [if_pos hname, hname]
      split_ifs with h
      · simpa using (registry.registered _).mpr h
      · simp
    · rw [if_neg hname, ← registry.registered name]
      split_ifs
      · rfl
      · simp [hname]
  named := by
    intro name other h
    split_ifs at h with hname
    · cases h
      exact hname.symm
    · exact registry.named h

def remove (registry : ToolRegistry Tool nameOf) (name : String) :
    Option Tool × ToolRegistry Tool nameOf :=
  (registry.tools name, {
    tools := fun other => if other = name then none else registry.tools other
    order :=
      if (registry.tools name).isSome then registry.order.filter (· ≠ name) else registry.order
    distinct := by
      split_ifs
      · exact registry.distinct.filter _
      · exact registry.distinct
    registered := by
      intro other
      by_cases hother : other = name
      · subst hother
        rw [if_pos rfl]
        split_ifs with h
        · simp
        · simp [registry.registered, h]
      · rw [if_neg hother, ← registry.registered other]
        split_ifs
        · simp [hother]
        · rfl
    named := by
      intro other tool h
      split_ifs at h
      exact registry.named h })

def get (registry : ToolRegistry Tool nameOf) (name : String) : Option Tool := registry.tools name

/-- The tools in the order of their names, as `definitions` goes through them. -/
def listed (registry : ToolRegistry Tool nameOf) : List Tool :=
  registry.order.filterMap registry.tools

/-! ### Names and tools -/

variable (registry : ToolRegistry Tool nameOf)

theorem map_listed : registry.listed.map nameOf = registry.order := by
  have hnames : ∀ names : List String, (∀ name ∈ names, (registry.tools name).isSome) →
      (names.filterMap registry.tools).map nameOf = names := by
    intro names
    induction names with
    | nil => exact fun _ => rfl
    | cons name names ih =>
      intro hall
      obtain ⟨hname, hnames⟩ := List.forall_mem_cons.mp hall
      obtain ⟨tool, htool⟩ := Option.isSome_iff_exists.mp hname
      rw [List.filterMap_cons_some htool, List.map_cons, registry.named htool, ih hnames]
  exact hnames _ fun name hname => (registry.registered name).mp hname

theorem insert_tools (tool : Tool) (name : String) : (registry.insert tool).tools name =
    if name = nameOf tool then some tool else registry.tools name := rfl

theorem insert_order (tool : Tool) : (registry.insert tool).order =
    if (registry.tools (nameOf tool)).isSome then registry.order
    else registry.order ++ [nameOf tool] := rfl

theorem order_insert {tool : Tool} (h : nameOf tool ∉ registry.order) :
    (registry.insert tool).order = registry.order ++ [nameOf tool] := by
  rw [registry.registered] at h
  rw [insert_order, if_neg h]

/-- A tool of a new name is the last one. -/
theorem listed_insert {tool : Tool} (h : nameOf tool ∉ registry.order) :
    (registry.insert tool).listed = registry.listed ++ [tool] := by
  have hold : registry.order.filterMap (registry.insert tool).tools = registry.listed := by
    refine List.filterMap_congr ?_
    intro name hname
    rw [insert_tools, if_neg]
    rintro rfl
    exact h hname
  rw [listed, order_insert registry h, List.filterMap_append, hold]
  simp [insert_tools]

end ToolRegistry

end Tea.Tools
