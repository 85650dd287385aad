import Mathlib.Data.List.TakeWhile
import RegistryBindings.Proofs.Registry.Catalog
import RegistryBindings.Registry.Reading

/-!
# Declarations added one after the other

Enumerants and commands are added in any order, each to the catalog of its kind. The first addition of a name
decides where it stands, for good: later ones can only exchange the entry there, and none of them moves or
changes what stands elsewhere. So a catalog can be told from the list of what was added to it: its names are
those of the list, each once, the index leads a name to the number of different names that were added before
it, and the entry found there is the one of the list that counts.
-/

namespace RegistryBindings.Registry

/-! ### Positions -/

/-- The number of different names that stand before the first occurrence of the name. -/
def firstPlace (names : List String) (name : String) : Nat :=
  (names.takeWhile (· ≠ name)).eraseDups.length

theorem firstPlace_append_of_mem {names : List String} {name : String} (h : name ∈ names)
    (more : List String) : firstPlace (names ++ more) name = firstPlace names name := by
  have hstops : ¬ (names.takeWhile (· ≠ name)).length = names.length := by
    intro hlength
    have hall := List.takeWhile_eq_self_iff.mp ((List.takeWhile_prefix _).eq_of_length hlength)
    simpa using hall name h
  rw [firstPlace, List.takeWhile_append, if_neg hstops, firstPlace]

theorem firstPlace_append_self {names : List String} {name : String} (h : name ∉ names) :
    firstPlace (names ++ [name]) name = names.eraseDups.length := by
  have hall : ∀ other ∈ names, decide (other ≠ name) = true := by
    rintro other hother
    exact decide_eq_true fun heq => h (heq ▸ hother)
  rw [firstPlace, List.takeWhile_append_of_pos hall]
  simp

namespace Catalog

variable {α : Type} [CatalogEntry α] {catalog : Catalog α}

/-- A name stays where it is. A new one gets the place after all others. -/
theorem getElem?_index_add (catalog : Catalog α) (entry : α) (name : String) :
    (catalog.add entry).index[name]? =
      catalog.index[name]?.or (if CatalogEntry.name entry = name then some catalog.entries.size else none) := by
  unfold add
  split
  · next position h =>
    by_cases hname : CatalogEntry.name entry = name
    · rw [← hname, h]
      rfl
    · rw [if_neg hname, Option.or_none]
  · next h =>
    rw [Std.ExtTreeMap.getElem?_insert]
    by_cases hname : CatalogEntry.name entry = name
    · subst hname
      simp [h]
    · simp [hname]

theorem index_add_of_some {name : String} {position : Nat} (h : catalog.index[name]? = some position)
    (entry : α) : (catalog.add entry).index[name]? = some position := by
  rw [getElem?_index_add, h, Option.some_or]

theorem index_foldl_add_of_some {name : String} {position : Nat} (h : catalog.index[name]? = some position)
    (entries : List α) : (entries.foldl add catalog).index[name]? = some position := by
  induction entries generalizing catalog with
  | nil => exact h
  | cons entry entries ih => exact ih (index_add_of_some h entry)

theorem size_entries_ofList (entries : List α) :
    (ofList entries).entries.size = (entries.map CatalogEntry.name).eraseDups.length := by
  rw [← names_ofList, List.length_map, toList, Array.length_toList]

theorem getElem?_index_ofList (entries : List α) (name : String) :
    (ofList entries).index[name]? =
      if name ∈ entries.map CatalogEntry.name then
        some (firstPlace (entries.map CatalogEntry.name) name)
      else none := by
  induction entries using List.reverseRecOn with
  | nil => simp [ofList]
  | append_singleton entries entry ih =>
    have hadd : ofList (entries ++ [entry]) = (ofList entries).add entry := List.foldl_append
    rw [hadd, getElem?_index_add, ih, List.map_append, List.map_singleton]
    by_cases hold : name ∈ entries.map CatalogEntry.name
    · rw [if_pos hold, Option.some_or, if_pos (List.mem_append_left _ hold), firstPlace_append_of_mem hold]
    · rw [if_neg hold, Option.none_or, size_entries_ofList]
      by_cases hname : CatalogEntry.name entry = name
      · subst hname
        rw [if_pos rfl, if_pos (by simp), firstPlace_append_self hold]
      · have hnew : name ∉ entries.map CatalogEntry.name ++ [CatalogEntry.name entry] := by
          simpa [Ne.symm hname] using hold
        rw [if_neg hname, if_neg hnew]

/-- The index leads to the entry that is found under the name. -/
theorem getElem?_entries_of_index {name : String} {position : Nat}
    (h : catalog.index[name]? = some position) : catalog.toList[position]? = catalog.find? name := by
  rw [find?, h, Option.bind_some, toList, Array.getElem?_toList]

/-- What a catalog is that was empty at first and had the entries added to it. `kept?` says which entry of
a name counts. -/
structure Keeps (catalog : Catalog α) (added : List α) (kept? : String → Option α) : Prop where
  names_eq : catalog.toList.map CatalogEntry.name = (added.map CatalogEntry.name).eraseDups
  nodup_names : (catalog.toList.map CatalogEntry.name).Nodup
  /-- The index has the names of the list and no others, and leads each to where it stands. -/
  index_iff : ∀ (name : String) (position : Nat), catalog.index[name]? = some position ↔
    (catalog.toList.map CatalogEntry.name)[position]? = some name
  index_eq : ∀ name : String, catalog.index[name]? =
    if name ∈ added.map CatalogEntry.name then some (firstPlace (added.map CatalogEntry.name) name) else none
  stored : ∀ (name : String) (position : Nat), catalog.index[name]? = some position →
    catalog.toList[position]? = kept? name ∧ (kept? name).isSome

theorem keeps_ofList {entries : List α} {kept? : String → Option α}
    (h : ∀ name, (ofList entries).find? name = kept? name) : (ofList entries).Keeps entries kept? where
  names_eq := names_ofList entries
  nodup_names := names_ofList entries ▸ nodup_eraseDups _
  index_iff name position := by
    rw [(ofList entries).isIndexOf name position, toList, List.getElem?_map, Array.getElem?_toList]
  index_eq := getElem?_index_ofList entries
  stored name position hposition := by
    rw [getElem?_entries_of_index hposition, h]
    refine ⟨rfl, ?_⟩
    have hmem := mem_names_iff.mpr ⟨position, hposition⟩
    rw [names_ofList, List.mem_eraseDups] at hmem
    rw [← h]
    exact isSome_find?_ofList.mpr hmem

/-- The entries of all names but one are in both, at the same positions. -/
def SameButFor (name : String) (catalog other : Catalog α) : Prop :=
  ∀ another ≠ name, other.index[another]? = catalog.index[another]? ∧
    other.find? another = catalog.find? another

theorem sameButFor_add (catalog : Catalog α) (entry : α) :
    SameButFor (CatalogEntry.name entry) catalog (catalog.add entry) := by
  intro another hname
  rw [getElem?_index_add, find?_add, if_neg hname.symm, if_neg hname.symm, Option.or_none]
  exact ⟨rfl, rfl⟩

end Catalog

/-! ### Additions of both kinds -/

inductive Addition where
  | enum (declaration : EnumDeclaration)
  | command (command : Command)

namespace Addition

def apply (declarations : Declarations) : Addition → Declarations
  | enum added => declarations.addEnum? (some added)
  | command added => declarations.addCommand added

def enum? : Addition → Option EnumDeclaration
  | enum added => some added
  | command _ => none

def command? : Addition → Option Command
  | enum _ => none
  | command added => some added

/-- The addition changes nothing but the entry of its kind and name. -/
def LeavesOthers (before after : Declarations) : Addition → Prop
  | enum added =>
    before.enums.SameButFor added.enumerant.name after.enums ∧ after.commands = before.commands
  | command added => after.enums = before.enums ∧ before.commands.SameButFor added.name after.commands

theorem leavesOthers_apply (declarations : Declarations) (addition : Addition) :
    addition.LeavesOthers declarations (addition.apply declarations) := by
  cases addition with
  | enum added => exact ⟨Catalog.sameButFor_add declarations.enums added, rfl⟩
  | command added => exact ⟨rfl, Catalog.sameButFor_add declarations.commands added⟩

end Addition

namespace Declarations

def applyAll (declarations : Declarations) (additions : List Addition) : Declarations :=
  additions.foldl Addition.apply declarations

/-- Each catalog sees the additions of its kind only. -/
theorem enums_applyAll (declarations : Declarations) (additions : List Addition) :
    (declarations.applyAll additions).enums =
      (additions.filterMap Addition.enum?).foldl .add declarations.enums := by
  induction additions generalizing declarations with
  | nil => rfl
  | cons addition additions ih =>
    rw [applyAll, List.foldl_cons]
    refine (ih _).trans ?_
    cases addition with
    | enum added => rfl
    | command added => rfl

theorem commands_applyAll (declarations : Declarations) (additions : List Addition) :
    (declarations.applyAll additions).commands =
      (additions.filterMap Addition.command?).foldl .add declarations.commands := by
  induction additions generalizing declarations with
  | nil => rfl
  | cons addition additions ih =>
    rw [applyAll, List.foldl_cons]
    refine (ih _).trans ?_
    cases addition with
    | enum added => rfl
    | command added => rfl

/-- Whatever is added in whatever order, each catalog is told by the additions of its kind: an enumerant's
entry is the last that was declared for one interface, or else the last of all, and a command's is the last. A
name keeps its position while more is added, and one addition touches no entry of another name or kind. -/
theorem keeps_applyAll (additions : List Addition) :
    (({} : Declarations).applyAll additions).enums.Keeps (additions.filterMap Addition.enum?)
        (lastDeclaration? (additions.filterMap Addition.enum?)) ∧
      (({} : Declarations).applyAll additions).commands.Keeps (additions.filterMap Addition.command?)
        (lastCommand? (additions.filterMap Addition.command?)) ∧
      (∀ (more : List Addition) (name : String) (position : Nat),
        ((({} : Declarations).applyAll additions).enums.index[name]? = some position →
          (({} : Declarations).applyAll (additions ++ more)).enums.index[name]? = some position) ∧
        ((({} : Declarations).applyAll additions).commands.index[name]? = some position →
          (({} : Declarations).applyAll (additions ++ more)).commands.index[name]? = some position)) ∧
      ∀ addition : Addition, addition.LeavesOthers (({} : Declarations).applyAll additions)
        (({} : Declarations).applyAll (additions ++ [addition])) := by
  have hmore (more : List Addition) : ({} : Declarations).applyAll (additions ++ more) =
      (({} : Declarations).applyAll additions).applyAll more := List.foldl_append
  refine ⟨?_, ?_, fun more name position => ⟨fun h => ?_, fun h => ?_⟩, fun addition => ?_⟩
  · rw [enums_applyAll]
    exact Catalog.keeps_ofList (find?_ofList_enum _)
  · rw [commands_applyAll]
    exact Catalog.keeps_ofList (find?_ofList_command _)
  · rw [hmore, enums_applyAll]
    exact Catalog.index_foldl_add_of_some h _
  · rw [hmore, commands_applyAll]
    exact Catalog.index_foldl_add_of_some h _
  · rw [hmore]
    exact addition.leavesOthers_apply _

end Declarations

end RegistryBindings.Registry
