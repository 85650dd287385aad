import Std.Data.ExtTreeMap

/-!
# Catalogs

A catalog holds one entry for each name, in the order in which the names were first entered. A second
entry of a name takes the place of the first or is dropped, as the entries themselves decide. An index
leads from a name to its position, and a catalog carries the proof that it does, so that two entries
never share a name and looking a name up finds the entry that has it.
-/

namespace RegistryBindings.Registry

/-- Entries that have a name. `replaces new old` says whether a later entry of a name takes the place of
an earlier one. -/
class CatalogEntry (α : Type) where
  name : α → String
  replaces : α → α → Bool

variable {α : Type} [CatalogEntry α]

/-- The index leads from each name to the position of its entry, and from no other text anywhere. -/
def IsIndexOf (index : Std.ExtTreeMap String Nat) (entries : Array α) : Prop :=
  ∀ name position, index[name]? = some position ↔ entries[position]?.map CatalogEntry.name = some name

theorem isIndexOf_empty : IsIndexOf (α := α) ∅ #[] := by
  intro name position
  simp

/-- What stays where an entry stands and another of its name is entered. -/
def merge (entry old : α) : α :=
  if CatalogEntry.replaces entry old then entry else old

theorem name_merge {entry old : α} (h : CatalogEntry.name old = CatalogEntry.name entry) :
    CatalogEntry.name (merge entry old) = CatalogEntry.name old := by
  unfold merge
  split
  · exact h.symm
  · rfl

theorem IsIndexOf.modify {index : Std.ExtTreeMap String Nat} {entries : Array α} {entry : α}
    {position : Nat} (hindex : IsIndexOf index entries)
    (hposition : index[CatalogEntry.name entry]? = some position) :
    IsIndexOf index (entries.modify position (merge entry)) := by
  intro name other
  rw [hindex, Array.getElem?_modify]
  split
  · next heq =>
    subst heq
    obtain ⟨old, hold, hname⟩ := Option.map_eq_some_iff.mp ((hindex _ _).mp hposition)
    simp only [hold, Option.map_some, name_merge hname]
  · rfl

theorem IsIndexOf.push {index : Std.ExtTreeMap String Nat} {entries : Array α} {entry : α}
    (hindex : IsIndexOf index entries) (hnew : index[CatalogEntry.name entry]? = none) :
    IsIndexOf (index.insert (CatalogEntry.name entry) entries.size) (entries.push entry) := by
  intro name position
  have hsize : index[name]? ≠ some entries.size := by
    intro h
    rw [hindex, Array.getElem?_size, Option.map_none] at h
    cases h
  rw [Std.ExtTreeMap.getElem?_insert, Array.getElem?_push]
  by_cases hname : CatalogEntry.name entry = name
  · subst hname
    have hold : entries[position]?.map CatalogEntry.name ≠ some (CatalogEntry.name entry) := by
      intro h
      rw [(hindex _ _).mpr h] at hnew
      cases hnew
    by_cases hposition : position = entries.size
    · simp [hposition]
    · simp [hposition, hold, Ne.symm hposition]
  · by_cases hposition : position = entries.size
    · simp [hname, hposition, hsize]
    · simpa [hname, hposition] using hindex name position

structure Catalog (α : Type) [CatalogEntry α] where
  entries : Array α := #[]
  index : Std.ExtTreeMap String Nat := ∅
  isIndexOf : IsIndexOf index entries := by exact isIndexOf_empty

namespace Catalog

def add (catalog : Catalog α) (entry : α) : Catalog α :=
  match h : catalog.index[CatalogEntry.name entry]? with
  | some position =>
    { entries := catalog.entries.modify position (merge entry)
      index := catalog.index
      isIndexOf := catalog.isIndexOf.modify h }
  | none =>
    { entries := catalog.entries.push entry
      index := catalog.index.insert (CatalogEntry.name entry) catalog.entries.size
      isIndexOf := catalog.isIndexOf.push h }

def ofList (entries : List α) : Catalog α :=
  entries.foldl add {}

def toList (catalog : Catalog α) : List α :=
  catalog.entries.toList

def find? (catalog : Catalog α) (name : String) : Option α :=
  catalog.index[name]?.bind fun position => catalog.entries[position]?

theorem find?_eq_some_iff {catalog : Catalog α} {name : String} {entry : α} :
    catalog.find? name = some entry ↔ entry ∈ catalog.toList ∧ CatalogEntry.name entry = name := by
  rw [find?, Option.bind_eq_some_iff, toList, Array.mem_toList_iff, Array.mem_iff_getElem?]
  constructor
  · rintro ⟨position, hposition, hentry⟩
    rw [catalog.isIndexOf, hentry, Option.map_some] at hposition
    exact ⟨⟨position, hentry⟩, Option.some.inj hposition⟩
  · rintro ⟨⟨position, hentry⟩, rfl⟩
    refine ⟨position, ?_, hentry⟩
    rw [catalog.isIndexOf, hentry, Option.map_some]

theorem find?_name {catalog : Catalog α} {entry : α} (h : entry ∈ catalog.toList) :
    catalog.find? (CatalogEntry.name entry) = some entry :=
  find?_eq_some_iff.mpr ⟨h, rfl⟩

/-- An entry is the only one of its name. -/
theorem eq_of_name_eq {catalog : Catalog α} {entry other : α} (h : entry ∈ catalog.toList)
    (hother : other ∈ catalog.toList) (hname : CatalogEntry.name entry = CatalogEntry.name other) :
    entry = other := by
  have hfind := find?_name h
  rw [hname, find?_name hother] at hfind
  exact (Option.some.inj hfind).symm

end Catalog

end RegistryBindings.Registry
