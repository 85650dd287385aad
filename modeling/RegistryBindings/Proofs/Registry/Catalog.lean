import Mathlib.Data.List.Basic
import Mathlib.Data.List.Induction
import RegistryBindings.Registry.Declarations

/-!
# What a catalog keeps of a list

A catalog made from a list has the names of the list, each where it stands first. Of the entries that
share a name it keeps one: of commands the last, and of enumerants the last that is declared for one
interface, or the last of all if none is.
-/

namespace RegistryBindings.Registry

/-! ### Keeping the first of each -/

section FirstOccurrences

variable {α : Type} [BEq α] [LawfulBEq α]

theorem eraseDups_append_singleton (xs : List α) (x : α) :
    (xs ++ [x]).eraseDups = if x ∈ xs then xs.eraseDups else xs.eraseDups ++ [x] := by
  rw [List.eraseDups_append]
  by_cases h : x ∈ xs
  · simp [h, List.removeAll]
  · simp [h, List.removeAll, List.eraseDups_cons]

theorem nodup_eraseDups (xs : List α) : xs.eraseDups.Nodup := by
  induction xs using List.reverseRecOn with
  | nil => simp
  | append_singleton xs x ih =>
    rw [eraseDups_append_singleton]
    split
    · exact ih
    · next h =>
      rw [List.nodup_append]
      refine ⟨ih, List.pairwise_singleton _ x, fun y hy z hz heq => ?_⟩
      rw [List.mem_singleton] at hz
      rw [heq, hz, List.mem_eraseDups] at hy
      exact h hy

/-- Whether the unwanted are left out before or after the repeated makes no difference. -/
theorem eraseDups_filter (keep : α → Bool) (xs : List α) :
    (xs.filter keep).eraseDups = xs.eraseDups.filter keep := by
  induction xs using List.reverseRecOn with
  | nil => simp
  | append_singleton xs x ih =>
    rw [List.filter_append, eraseDups_append_singleton]
    by_cases hkeep : keep x = true
    · have hx : [x].filter keep = [x] := by simp [hkeep]
      rw [hx, eraseDups_append_singleton, ih]
      simp only [List.mem_filter, hkeep, and_true]
      split
      · rfl
      · rw [List.filter_append, hx]
    · have hx : [x].filter keep = [] := by simp [hkeep]
      rw [hx, List.append_nil, ih]
      split
      · rfl
      · rw [List.filter_append, hx, List.append_nil]

theorem eraseDups_append_congr {xs xs' ys ys' : List α} (hxs : xs.eraseDups = xs'.eraseDups)
    (hys : ys.eraseDups = ys'.eraseDups) : (xs ++ ys).eraseDups = (xs' ++ ys').eraseDups := by
  have hmem (x : α) : x ∈ xs ↔ x ∈ xs' := by
    rw [← List.mem_eraseDups, hxs, List.mem_eraseDups]
  have hremove (zs : List α) : zs.removeAll xs' = zs.removeAll xs := by
    simp [List.removeAll, hmem]
  rw [List.eraseDups_append, List.eraseDups_append, hremove, hxs]
  simp only [List.removeAll, eraseDups_filter, hys]

theorem eraseDups_flatMap_congr {β : Type} {f g : β → List α}
    (h : ∀ b, (f b).eraseDups = (g b).eraseDups) (bs : List β) :
    (bs.flatMap f).eraseDups = (bs.flatMap g).eraseDups := by
  induction bs with
  | nil => rfl
  | cons b bs ih =>
    rw [List.flatMap_cons, List.flatMap_cons]
    exact eraseDups_append_congr (h b) ih

theorem eraseDups_replicate_succ (count : Nat) (x : α) :
    (List.replicate (count + 1) x).eraseDups = [x] := by
  induction count with
  | zero => exact eraseDups_append_singleton [] x
  | succ count ih =>
    rw [List.replicate_succ', eraseDups_append_singleton, if_pos (by simp), ih]

end FirstOccurrences

/-! ### Entering one after the other -/

namespace Catalog

variable {α : Type} [CatalogEntry α]

theorem mem_names_iff {catalog : Catalog α} {name : String} :
    name ∈ catalog.toList.map CatalogEntry.name ↔ ∃ position, catalog.index[name]? = some position := by
  simp only [catalog.isIndexOf name, Option.map_eq_some_iff, List.mem_map, toList,
    Array.mem_toList_iff, Array.mem_iff_getElem?]
  constructor
  · rintro ⟨entry, ⟨position, hentry⟩, hname⟩
    exact ⟨position, entry, hentry, hname⟩
  · rintro ⟨position, entry, hentry, hname⟩
    exact ⟨entry, ⟨position, hentry⟩, hname⟩

theorem names_add (catalog : Catalog α) (entry : α) :
    (catalog.add entry).toList.map CatalogEntry.name =
      if CatalogEntry.name entry ∈ catalog.toList.map CatalogEntry.name then
        catalog.toList.map CatalogEntry.name
      else catalog.toList.map CatalogEntry.name ++ [CatalogEntry.name entry] := by
  unfold add
  split
  · next position h =>
    rw [if_pos (mem_names_iff.mpr ⟨position, h⟩)]
    obtain ⟨old, hold, hname⟩ := Option.map_eq_some_iff.mp ((catalog.isIndexOf _ _).mp h)
    apply List.ext_getElem?
    intro other
    simp only [toList, List.getElem?_map, Array.getElem?_toList, Array.getElem?_modify]
    split
    · next heq =>
      subst heq
      rw [hold, Option.map_some, Option.map_some, name_merge hname, Option.map_some]
    · rfl
  · next h =>
    have hnew : CatalogEntry.name entry ∉ catalog.toList.map CatalogEntry.name := by
      rw [mem_names_iff, h]
      simp
    rw [if_neg hnew]
    simp [toList]

theorem find?_add (catalog : Catalog α) (entry : α) (name : String) :
    (catalog.add entry).find? name =
      if CatalogEntry.name entry = name then
        some (((catalog.find? name).map (merge entry)).getD entry)
      else catalog.find? name := by
  unfold add find?
  split
  · next position h =>
    obtain ⟨old, hold, -⟩ := Option.map_eq_some_iff.mp ((catalog.isIndexOf _ _).mp h)
    change (catalog.index[name]?.bind fun other =>
      (catalog.entries.modify position (merge entry))[other]?) = _
    by_cases hname : CatalogEntry.name entry = name
    · subst hname
      simp [h, hold, Array.getElem?_modify]
    · rw [if_neg hname]
      apply Option.bind_congr
      intro other hother
      have hne : position ≠ other := by
        intro heq
        have hnames := (catalog.isIndexOf _ _).mp hother
        rw [← heq, (catalog.isIndexOf _ _).mp h] at hnames
        exact hname (Option.some.inj hnames)
      rw [Array.getElem?_modify, if_neg hne]
  · next h =>
    change ((catalog.index.insert (CatalogEntry.name entry) catalog.entries.size)[name]?.bind
      fun other => (catalog.entries.push entry)[other]?) = _
    rw [Std.ExtTreeMap.getElem?_insert]
    by_cases hname : CatalogEntry.name entry = name
    · subst hname
      simp [h]
    · rw [if_neg hname, if_neg (by simpa using hname)]
      apply Option.bind_congr
      intro other hother
      obtain ⟨old, hold, -⟩ := Option.map_eq_some_iff.mp ((catalog.isIndexOf _ _).mp hother)
      have hlt : other < catalog.entries.size := (Array.getElem?_eq_some_iff.mp hold).1
      rw [Array.getElem?_push, if_neg (by omega)]

theorem names_ofList (entries : List α) :
    (ofList entries).toList.map CatalogEntry.name = (entries.map CatalogEntry.name).eraseDups := by
  induction entries using List.reverseRecOn with
  | nil => rfl
  | append_singleton entries entry ih =>
    have hadd : ofList (entries ++ [entry]) = (ofList entries).add entry := List.foldl_append
    rw [hadd, names_add, List.map_append, List.map_singleton, eraseDups_append_singleton, ih]
    simp only [List.mem_eraseDups]

theorem isSome_find?_ofList {entries : List α} {name : String} :
    ((ofList entries).find? name).isSome ↔ name ∈ entries.map CatalogEntry.name := by
  rw [← List.mem_eraseDups, ← names_ofList, List.mem_map, Option.isSome_iff_exists]
  simp only [find?_eq_some_iff]

theorem find?_ofList_append_singleton (entries : List α) (entry : α) (name : String) :
    (ofList (entries ++ [entry])).find? name =
      if CatalogEntry.name entry = name then
        some ((((ofList entries).find? name).map (merge entry)).getD entry)
      else (ofList entries).find? name := by
  have hadd : ofList (entries ++ [entry]) = (ofList entries).add entry := List.foldl_append
  rw [hadd, find?_add]

/-- Leaving entries out by their names before they are entered or after comes to the same. -/
theorem find?_ofList_filter (keep : String → Bool) (entries : List α) {name : String}
    (h : keep name = true) :
    (ofList (entries.filter fun entry => keep (CatalogEntry.name entry))).find? name =
      (ofList entries).find? name := by
  induction entries using List.reverseRecOn with
  | nil => rfl
  | append_singleton entries entry ih =>
    rw [List.filter_append, find?_ofList_append_singleton]
    by_cases hkeep : keep (CatalogEntry.name entry) = true
    · have hone : [entry].filter (fun entry => keep (CatalogEntry.name entry)) = [entry] := by simp [hkeep]
      rw [hone, find?_ofList_append_singleton, ih]
    · have hnone : [entry].filter (fun entry => keep (CatalogEntry.name entry)) = [] := by simp [hkeep]
      have hname : CatalogEntry.name entry ≠ name := by
        rintro rfl
        exact hkeep h
      rw [hnone, List.append_nil, ih, if_neg hname]

theorem toList_eq_filterMap (catalog : Catalog α) :
    catalog.toList = (catalog.toList.map CatalogEntry.name).filterMap catalog.find? := by
  rw [List.filterMap_map]
  have hfind : catalog.toList.filterMap (catalog.find? ∘ CatalogEntry.name) =
      catalog.toList.filterMap some := List.filterMap_congr fun entry hentry => find?_name hentry
  rw [hfind, List.filterMap_some]

theorem toList_ofList_filter (keep : String → Bool) (entries : List α) :
    (ofList (entries.filter fun entry => keep (CatalogEntry.name entry))).toList =
      (ofList entries).toList.filter fun entry => keep (CatalogEntry.name entry) := by
  have hnames : ((entries.filter fun entry => keep (CatalogEntry.name entry)).map
      CatalogEntry.name).eraseDups = ((entries.map CatalogEntry.name).eraseDups).filter keep := by
    rw [← eraseDups_filter, List.filter_map]
    rfl
  rw [toList_eq_filterMap, names_ofList, hnames, ← names_ofList, List.filter_map, List.filterMap_map]
  have hfind : ((ofList entries).toList.filter (keep ∘ CatalogEntry.name)).filterMap
        ((ofList (entries.filter fun entry => keep (CatalogEntry.name entry))).find? ∘ CatalogEntry.name) =
      ((ofList entries).toList.filter (keep ∘ CatalogEntry.name)).filterMap some := by
    refine List.filterMap_congr fun entry hentry => ?_
    obtain ⟨hmem, hkeep⟩ := List.mem_filter.mp hentry
    exact (find?_ofList_filter keep entries hkeep).trans (find?_name hmem)
  exact hfind.trans List.filterMap_some

/-- An entry is found under its name or not at all. -/
theorem filter_find?_congr {catalog other : Catalog α} {keep keep' : α → Bool}
    (h : catalog.toList.filter keep = other.toList.filter keep') (name : String) :
    (catalog.find? name).filter keep = (other.find? name).filter keep' := by
  ext entry
  have hmem : entry ∈ catalog.toList.filter keep ↔ entry ∈ other.toList.filter keep' := by rw [h]
  simp only [List.mem_filter] at hmem
  simp only [Option.filter_eq_some_iff, find?_eq_some_iff]
  constructor
  · rintro ⟨⟨hentry, hname⟩, hkeep⟩
    obtain ⟨hother, hkeep'⟩ := hmem.mp ⟨hentry, hkeep⟩
    exact ⟨⟨hother, hname⟩, hkeep'⟩
  · rintro ⟨⟨hother, hname⟩, hkeep'⟩
    obtain ⟨hentry, hkeep⟩ := hmem.mpr ⟨hother, hkeep'⟩
    exact ⟨⟨hentry, hname⟩, hkeep⟩

end Catalog

def lastCommand? (commands : List Command) (name : String) : Option Command :=
  (commands.filter (·.name = name)).getLast?

/-- The last declaration of a name that is made for one interface, or the last of all. -/
def lastDeclaration? (declarations : List EnumDeclaration) (name : String) : Option EnumDeclaration :=
  ((declarations.filter fun declaration =>
      declaration.enumerant.name = name ∧ declaration.apiSpecific).getLast?).or
    (declarations.filter (·.enumerant.name = name)).getLast?

theorem find?_ofList_command (commands : List Command) (name : String) :
    (Catalog.ofList commands).find? name = lastCommand? commands name := by
  unfold lastCommand?
  induction commands using List.reverseRecOn with
  | nil => rfl
  | append_singleton commands command ih =>
    rw [Catalog.find?_ofList_append_singleton, List.filter_append, ih]
    have hmerge (old : Command) : merge command old = command := if_pos rfl
    change (if command.name = name then _ else _) = _
    by_cases hname : command.name = name
    · cases (commands.filter (·.name = name)).getLast? <;> simp [hname, hmerge]
    · simp [hname]

theorem find?_ofList_enum (declarations : List EnumDeclaration) (name : String) :
    (Catalog.ofList declarations).find? name = lastDeclaration? declarations name := by
  unfold lastDeclaration?
  induction declarations using List.reverseRecOn with
  | nil => rfl
  | append_singleton declarations declaration ih =>
    rw [Catalog.find?_ofList_append_singleton, List.filter_append, List.filter_append, ih]
    have hmerge (old : EnumDeclaration) : merge declaration old =
        if declaration.apiSpecific ∨ old.apiSpecific = false then declaration else old := by
      simp [merge, CatalogEntry.replaces]
    change (if declaration.enumerant.name = name then _ else _) = _
    by_cases hname : declaration.enumerant.name = name
    · have hnamed : [declaration].filter (·.enumerant.name = name) = [declaration] := by simp [hname]
      rw [if_pos hname, hnamed, List.getLast?_append, List.getLast?_append]
      cases hspecific : declaration.apiSpecific with
      | true =>
        have hmerged (old : EnumDeclaration) : merge declaration old = declaration := by
          rw [hmerge, if_pos (.inl hspecific)]
        simp only [funext hmerged]
        cases hlast : Option.or _ _ <;> simp [hname, hspecific]
      | false =>
        have hgeneral : [declaration].filter (fun declaration =>
            declaration.enumerant.name = name ∧ declaration.apiSpecific) = [] := by simp [hspecific]
        rw [hgeneral, List.getLast?_nil, Option.none_or]
        cases hlast : (declarations.filter fun declaration =>
            declaration.enumerant.name = name ∧ declaration.apiSpecific).getLast? with
        | some old =>
          have hold : old.apiSpecific = true := by
            have hmem := List.mem_of_getLast? hlast
            simp only [List.mem_filter, decide_eq_true_eq] at hmem
            exact hmem.2.2
          simp [hspecific, hmerge, hold]
        | none =>
          have hnone := List.getLast?_eq_none_iff.mp hlast
          cases hany : (declarations.filter (·.enumerant.name = name)).getLast? with
          | none => rfl
          | some old =>
            have hold : old.apiSpecific = false := by
              have hmem := List.mem_of_getLast? hany
              simp only [List.mem_filter, decide_eq_true_eq] at hmem
              simp only [List.filter_eq_nil_iff, decide_eq_true_eq, not_and, Bool.not_eq_true] at hnone
              exact hnone old hmem.1 hmem.2
            simp [hmerge, hold]
    · simp [hname]

end RegistryBindings.Registry
