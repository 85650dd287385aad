import RegistryBindings.Registry.Basic

/-!
# Versions made by edits

A version can be read from a document or made by hand, group by group and command by command. What groups it has
is said here without the map that they are kept in: those that were added, whatever was replaced or changed.
-/

namespace RegistryBindings.Registry.Version

variable {version : Version} {group : String}

/-- A group stands under its own name, so the names of the groups are the keys. -/
theorem names_groupList (version : Version) :
    version.groupList.map (·.name) = version.groups.byName.keys := by
  rw [groupList, Groups.toList, List.map_map, ← Std.ExtTreeMap.map_fst_toList_eq_keys]
  refine List.map_congr_left fun pair hpair => ?_
  exact version.groups.name_eq pair.1 pair.2 (Std.ExtTreeMap.mem_toList_iff_getElem?_eq_some.mp hpair)

theorem mem_names_groupList : group ∈ version.groupList.map (·.name) ↔ version.hasGroup group = true := by
  rw [names_groupList, Std.ExtTreeMap.mem_keys, Std.ExtTreeMap.mem_iff_contains]
  rfl

theorem nodup_names_groupList (version : Version) : (version.groupList.map (·.name)).Nodup := by
  rw [names_groupList]
  exact Std.ExtTreeMap.nodup_keys

/-- A change to a version. An enumerant can only be added to a group that is there. -/
inductive Edit where
  | group (group : Group)
  | enumerant (group : String) (enumerant : Enumerant)
  | command (command : Command)
deriving DecidableEq, Repr

def Edit.apply (version : Version) : Edit → Version
  | .group added => version.addGroup added
  | .enumerant into added => (version.addEnumerant? into added).getD version
  | .command added => version.addCommand added

def ofEdits (api name number : String) (edits : List Edit) : Version :=
  edits.foldl Edit.apply { api, name, number }

def AddedBy (edits : List Edit) (group : String) : Prop :=
  ∃ added, Edit.group added ∈ edits ∧ added.name = group

theorem hasGroup_addGroup {added : Group} :
    (version.addGroup added).hasGroup group = true ↔ version.hasGroup group = true ∨ added.name = group := by
  rw [hasGroup_eq_isSome, hasGroup_eq_isSome, group?, addGroup, Groups.get?_insert, group?]
  by_cases h : added.name = group <;> simp [h]

/-- Only a group that is there gets an enumerant, and it keeps its name. -/
theorem hasGroup_addEnumerant? {into : String} {added : Enumerant} {other : Version}
    (h : version.addEnumerant? into added = some other) :
    other.hasGroup group = true ↔ version.hasGroup group = true := by
  obtain ⟨found, hfound, rfl⟩ := Option.map_eq_some_iff.mp h
  have hname : found.name = into := (Groups.get?_eq_some_iff.mp hfound).2
  have hinto : version.hasGroup found.name = true := by
    rw [hasGroup_eq_isSome, hname, hfound]
    rfl
  rw [hasGroup_addGroup]
  exact or_iff_left_of_imp fun hgroup => hgroup ▸ hinto

/-- What one edit does to the groups. -/
theorem hasGroup_apply (edit : Edit) :
    (edit.apply version).hasGroup group = true ↔ version.hasGroup group = true ∨ AddedBy [edit] group := by
  cases edit with
  | group added =>
    rw [Edit.apply, hasGroup_addGroup]
    simp [AddedBy]
  | enumerant into added =>
    have hnone : ¬ AddedBy [.enumerant into added] group := by simp [AddedBy]
    rw [Edit.apply, or_iff_left hnone]
    cases hother : version.addEnumerant? into added with
    | none => rfl
    | some other => exact hasGroup_addEnumerant? hother
  | command added =>
    have hnone : ¬ AddedBy [.command added] group := by simp [AddedBy]
    rw [or_iff_left hnone]
    rfl

/-- A version has the groups that were added to it, whatever was replaced or changed. -/
theorem hasGroup_foldl (edits : List Edit) :
    (edits.foldl Edit.apply version).hasGroup group = true ↔
      version.hasGroup group = true ∨ AddedBy edits group := by
  induction edits generalizing version with
  | nil => simp [AddedBy]
  | cons edit edits ih =>
    have hsplit : AddedBy (edit :: edits) group ↔ AddedBy [edit] group ∨ AddedBy edits group := by
      simp only [AddedBy, List.mem_cons, List.not_mem_nil, or_false, or_and_right, exists_or]
    rw [List.foldl_cons, ih, hasGroup_apply, hsplit, or_assoc]

theorem hasGroup_ofEdits {api name number : String} (edits : List Edit) :
    (ofEdits api name number edits).hasGroup group = true ↔ AddedBy edits group := by
  have hempty : ({ api, name, number } : Version).hasGroup group = false := by
    rw [hasGroup_eq_isSome, group?, Groups.get?_empty]
    rfl
  rw [ofEdits, hasGroup_foldl, hempty]
  simp

end RegistryBindings.Registry.Version
