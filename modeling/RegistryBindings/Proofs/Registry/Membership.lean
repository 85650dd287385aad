import Mathlib.Data.List.Nodup
import RegistryBindings.Proofs.Registry.Catalog
import RegistryBindings.Proofs.Registry.Requirement

/-!
# The groups of a version

A group has one list of members for all versions, its master list: the declarations that name the group
and then what the listings add to it, each enumerant once. A version shows the part of it that it
requires, and leaves the group out if that part is empty. Enrolling members one by one gives the same
because an enumerant has only one declaration, so that "its name is there already" and "it is there
already" come to the same.
-/

namespace RegistryBindings.Registry

/-! ### Enrolling -/

def membersOf (memberships : List (String × Enumerant)) (group : String) : List Enumerant :=
  (memberships.filter (·.1 = group)).map (·.2)

theorem membersOf_cons (membership : String × Enumerant) (memberships : List (String × Enumerant))
    (group : String) :
    membersOf (membership :: memberships) group =
      if membership.1 = group then membership.2 :: membersOf memberships group
      else membersOf memberships group := by
  by_cases h : membership.1 = group <;> simp [membersOf, h]

theorem membersOf_append (memberships more : List (String × Enumerant)) (group : String) :
    membersOf (memberships ++ more) group = membersOf memberships group ++ membersOf more group := by
  simp [membersOf]

theorem membersOf_flatMap {β : Type} (f : β → List (String × Enumerant)) (bs : List β) (group : String) :
    membersOf (bs.flatMap f) group = bs.flatMap fun b => membersOf (f b) group := by
  induction bs with
  | nil => rfl
  | cons b bs ih => rw [List.flatMap_cons, membersOf_append, ih, List.flatMap_cons]

/-- A declaration that names the group twice still makes one member. -/
theorem eraseDups_membersOf_map (groups : List String) (enumerant : Enumerant) (group : String) :
    (membersOf (groups.map fun name => (name, enumerant)) group).eraseDups =
      if group ∈ groups then [enumerant] else [] := by
  have hmembers : membersOf (groups.map fun name => (name, enumerant)) group =
      List.replicate (groups.count group) enumerant := by
    induction groups with
    | nil => rfl
    | cons name groups ih =>
      rw [List.map_cons, membersOf_cons, ih, List.count_cons]
      by_cases h : name = group
      · simp [h, List.replicate_succ]
      · simp [h]
  rw [hmembers]
  split
  · next h =>
    obtain ⟨count, hcount⟩ := Nat.exists_eq_add_one.mpr (List.count_pos_iff.mpr h)
    rw [hcount, eraseDups_replicate_succ]
  · next h => rw [List.count_eq_zero.mpr h, List.replicate_zero, List.eraseDups_nil]

/-- Of a listing a group has all members that are found, if the listing is one of the group. -/
theorem membersOf_filterMap (find? : String → Option Enumerant) (members : List String)
    (name group : String) :
    membersOf (members.filterMap fun member => (find? member).map fun found => (name, found)) group =
      if name = group then members.filterMap find? else [] := by
  induction members with
  | nil => simp [membersOf]
  | cons member members ih =>
    rw [List.filterMap_cons, List.filterMap_cons]
    cases find? member with
    | none => exact ih
    | some enumerant =>
      rw [Option.map_some]
      simp only [membersOf_cons, ih]
      split <;> rfl

theorem mem_membersOf {memberships : List (String × Enumerant)} {group : String}
    {enumerant : Enumerant} :
    enumerant ∈ membersOf memberships group ↔ (group, enumerant) ∈ memberships := by
  simp [membersOf]

theorem membersOf_filter (keep : Enumerant → Bool) (memberships : List (String × Enumerant))
    (group : String) :
    membersOf (memberships.filter fun membership => keep membership.2) group =
      (membersOf memberships group).filter keep := by
  simp only [membersOf, List.filter_map, List.filter_filter]
  congr 1
  apply List.filter_congr
  intro membership _
  exact Bool.and_comm _ _

def NamesOnce (memberships : List (String × Enumerant)) : Prop :=
  ∀ membership ∈ memberships, ∀ other ∈ memberships,
    membership.2.name = other.2.name → membership.2 = other.2

theorem name_getD_get? (groups : Groups) (name : String) :
    ((groups.get? name).getD ⟨name, []⟩).name = name := by
  cases hfound : groups.get? name with
  | none => rfl
  | some group => exact (Groups.get?_eq_some_iff.mp hfound).2

theorem get?_enroll (groups : Groups) (key name : String) (enumerant : Enumerant) :
    (enroll groups (key, enumerant)).get? name =
      if key = name ∧ ((groups.get? key).getD ⟨key, []⟩).members.any (·.name = enumerant.name) = false then
        some ⟨name, ((groups.get? key).getD ⟨key, []⟩).members ++ [enumerant]⟩
      else groups.get? name := by
  have hname := name_getD_get? groups key
  rw [enroll]
  split
  · next hany => rw [if_neg (by simp [hany])]
  · next hany =>
    rw [Groups.get?_insert, hname]
    by_cases h : key = name
    · rw [if_pos h, if_pos ⟨h, Bool.eq_false_iff.mpr hany⟩, h]
    · rw [if_neg h, if_neg fun hboth => h hboth.1]

/-- Enrolling keeps the first of each enumerant, group by group. -/
theorem get?_foldl_enroll {memberships : List (String × Enumerant)} (h : NamesOnce memberships)
    (group : String) :
    (memberships.foldl enroll ∅).get? group =
      if membersOf memberships group = [] then none
      else some ⟨group, (membersOf memberships group).eraseDups⟩ := by
  induction memberships using List.reverseRecOn with
  | nil => exact Groups.get?_empty group
  | append_singleton memberships membership ih =>
    have ih := ih fun a ha b hb => h a (List.mem_append_left _ ha) b (List.mem_append_left _ hb)
    obtain ⟨name, enumerant⟩ := membership
    rw [List.foldl_append, List.foldl_cons, List.foldl_nil, get?_enroll, membersOf_append]
    by_cases hgroup : name = group
    · subst hgroup
      have hsingle : membersOf [(name, enumerant)] name = [enumerant] := by simp [membersOf]
      have hmembers : (((memberships.foldl enroll ∅).get? name).getD ⟨name, []⟩).members =
          (membersOf memberships name).eraseDups := by
        rw [ih]
        split
        · next hnil => simp [hnil]
        · rfl
      -- By name or by value: the enumerant of a name is one and the same.
      have hany : (membersOf memberships name).eraseDups.any (·.name = enumerant.name) = true ↔
          enumerant ∈ membersOf memberships name := by
        rw [List.any_eq_true]
        constructor
        · rintro ⟨other, hother, hname⟩
          rw [List.mem_eraseDups] at hother
          have hmem := mem_membersOf.mp hother
          have heq : other = enumerant :=
            h _ (List.mem_append_left _ hmem) (name, enumerant) (by simp) (of_decide_eq_true hname)
          exact heq ▸ hother
        · intro hmem
          exact ⟨enumerant, List.mem_eraseDups.mpr hmem, decide_eq_true rfl⟩
      simp only [true_and, hmembers, ← Bool.not_eq_true, hany, hsingle, eraseDups_append_singleton]
      by_cases hmem : enumerant ∈ membersOf memberships name
      · have hne : membersOf memberships name ≠ [] := List.ne_nil_of_mem hmem
        rw [if_neg (not_not_intro hmem), ih, if_neg hne]
        simp [hmem]
      · simp [hmem]
    · have hnone : membersOf [(name, enumerant)] group = [] := by simp [membersOf, hgroup]
      rw [if_neg fun h => hgroup h.1, hnone, List.append_nil, ih]

/-! ### The groups of a version -/

namespace Declarations

variable (declarations : Declarations)

/-- The enumerants that the group can have in any version: those whose declarations name it, and then
those that listings of it add, each once. -/
def masterList (group : String) : List Enumerant :=
  ((declarations.enums.toList.filter fun declaration => group ∈ declaration.groups).map (·.enumerant) ++
    ((declarations.listings.filter (·.group = group)).flatMap (·.members)).filterMap fun member =>
      (declarations.enums.find? member).map (·.enumerant)).eraseDups

/-- Whether a declared enumerant belongs to the group, by its declaration or by a listing. -/
def Belongs (declaration : EnumDeclaration) (group : String) : Prop :=
  group ∈ declaration.groups ∨
    ∃ listing ∈ declarations.listings,
      listing.group = group ∧ declaration.enumerant.name ∈ listing.members

theorem mem_memberships {group : String} {enumerant : Enumerant} :
    (group, enumerant) ∈ declarations.memberships ↔
      ∃ declaration ∈ declarations.enums.toList,
        declaration.enumerant = enumerant ∧ declarations.Belongs declaration group := by
  simp only [memberships, Belongs, List.mem_append, List.mem_flatMap, List.mem_map, List.mem_filterMap,
    Option.map_eq_some_iff, Prod.mk.injEq]
  constructor
  · rintro (⟨declaration, hmem, _, hgroup, rfl, rfl⟩ |
      ⟨listing, hlisting, member, hmember, declaration, hfind, rfl, rfl⟩)
    · exact ⟨declaration, hmem, rfl, .inl hgroup⟩
    · obtain ⟨hmem, rfl⟩ := Catalog.find?_eq_some_iff.mp hfind
      exact ⟨declaration, hmem, rfl, .inr ⟨listing, hlisting, rfl, hmember⟩⟩
  · rintro ⟨declaration, hmem, rfl, hgroup | ⟨listing, hlisting, rfl, hmember⟩⟩
    · exact .inl ⟨declaration, hmem, group, hgroup, rfl, rfl⟩
    · exact .inr ⟨listing, hlisting, _, hmember, declaration, Catalog.find?_name hmem, rfl, rfl⟩

theorem namesOnce_memberships : NamesOnce declarations.memberships := by
  rintro ⟨_, enumerant⟩ hmem ⟨_, other⟩ hother hname
  obtain ⟨declaration, hdeclared, rfl, -⟩ := declarations.mem_memberships.mp hmem
  obtain ⟨another, hanother, rfl, -⟩ := declarations.mem_memberships.mp hother
  rw [Catalog.eq_of_name_eq hdeclared hanother hname]

theorem eraseDups_membersOf_memberships (group : String) :
    (membersOf declarations.memberships group).eraseDups = declarations.masterList group := by
  rw [memberships, membersOf_append, membersOf_flatMap, membersOf_flatMap, masterList]
  apply eraseDups_append_congr
  · have hnamed : (declarations.enums.toList.filter fun declaration => group ∈ declaration.groups).map
          (·.enumerant) =
        declarations.enums.toList.flatMap fun declaration =>
          if group ∈ declaration.groups then [declaration.enumerant] else [] := by
      induction declarations.enums.toList with
      | nil => rfl
      | cons declaration rest ih =>
        rw [List.flatMap_cons, ← ih]
        by_cases h : group ∈ declaration.groups <;> simp [h]
    rw [hnamed]
    refine eraseDups_flatMap_congr (fun declaration => ?_) _
    rw [eraseDups_membersOf_map]
    split
    · exact (eraseDups_append_singleton [] _).symm
    · rfl
  · congr 1
    induction declarations.listings with
    | nil => rfl
    | cons listing rest ih =>
      have hlisting := membersOf_filterMap
        (fun member => (declarations.enums.find? member).map (·.enumerant)) listing.members
        listing.group group
      simp only [Option.map_map, Function.comp_def] at hlisting
      rw [List.flatMap_cons, ih, hlisting]
      by_cases h : listing.group = group <;> simp [h]

theorem mem_masterList {group : String} {enumerant : Enumerant} :
    enumerant ∈ declarations.masterList group ↔
      ∃ declaration ∈ declarations.enums.toList,
        declaration.enumerant = enumerant ∧ declarations.Belongs declaration group := by
  rw [← eraseDups_membersOf_memberships, List.mem_eraseDups, mem_membersOf, mem_memberships]

theorem nodup_names_masterList (group : String) :
    ((declarations.masterList group).map (·.name)).Nodup := by
  refine List.Nodup.map_on ?_ (nodup_eraseDups _)
  intro enumerant hmem other hother hname
  obtain ⟨declaration, hdeclared, rfl, -⟩ := declarations.mem_masterList.mp hmem
  obtain ⟨another, hanother, rfl, -⟩ := declarations.mem_masterList.mp hother
  rw [Catalog.eq_of_name_eq hdeclared hanother hname]

variable (selection : Selection)

/-- The part of the master list that the version of the last of the first `count` features requires. -/
def shownMembers (count : Nat) (group : String) : List Enumerant :=
  (declarations.masterList group).filter fun enumerant =>
    declarations.Requires selection (·.enums) count enumerant.name

structure Shows (count : Nat) (group : String) (found : Group) : Prop where
  name_eq : found.name = group
  members_eq : found.members = declarations.shownMembers selection count group
  members_ne_nil : found.members ≠ []
  nodup_names : (found.members.map (·.name)).Nodup
  required_of_mem : ∀ enumerant ∈ found.members,
    declarations.Requires selection (·.enums) count enumerant.name
  declared_of_mem : ∀ enumerant ∈ found.members,
    (declarations.enums.find? enumerant.name).map (·.enumerant) = some enumerant

variable {declarations selection}

/-- Filtering the memberships before they are enrolled shows the same part of the master list. -/
theorem group?_version (feature : Feature) (count : Nat) (group : String) :
    (declarations.version feature (declarations.requiredAt selection count)).group? group =
      if declarations.shownMembers selection count group = [] then none
      else some ⟨group, declarations.shownMembers selection count group⟩ := by
  let keep (enumerant : Enumerant) : Bool :=
    declarations.Requires selection (·.enums) count enumerant.name
  have honce : NamesOnce (declarations.memberships.filter fun membership => keep membership.2) :=
    fun membership hmem other hother =>
      declarations.namesOnce_memberships _ (List.mem_of_mem_filter hmem) _ (List.mem_of_mem_filter hother)
  have hshown : (membersOf (declarations.memberships.filter fun membership => keep membership.2)
      group).eraseDups = declarations.shownMembers selection count group := by
    rw [membersOf_filter, eraseDups_filter, eraseDups_membersOf_memberships, shownMembers]
  have hnil : membersOf (declarations.memberships.filter fun membership => keep membership.2) group =
      [] ↔ declarations.shownMembers selection count group = [] := by
    rw [← hshown, List.eq_nil_iff_forall_not_mem, List.eq_nil_iff_forall_not_mem]
    simp only [List.mem_eraseDups]
  simp only [version, Version.group?, contains_enums_requiredAt]
  rw [get?_foldl_enroll honce, hshown]
  simp only [hnil]

theorem group?_of_mem_versions {position : Nat} {version : Version}
    (h : (declarations.registry selection).versions[position]? = some version) (group : String) :
    version.group? group =
      if declarations.shownMembers selection (position + 1) group = [] then none
      else some ⟨group, declarations.shownMembers selection (position + 1) group⟩ := by
  rw [versions_eq_mapIdx, List.getElem?_mapIdx, Option.map_eq_some_iff] at h
  obtain ⟨feature, -, rfl⟩ := h
  exact group?_version feature (position + 1) group

theorem shows_of_group? {position : Nat} {version : Version} {group : String} {found : Group}
    (h : (declarations.registry selection).versions[position]? = some version)
    (hfound : version.group? group = some found) :
    declarations.Shows selection (position + 1) group found := by
  rw [group?_of_mem_versions h] at hfound
  split at hfound
  · cases hfound
  · next hne =>
    cases hfound
    refine ⟨rfl, rfl, hne, ?_, ?_, ?_⟩
    · exact ((List.filter_sublist).map _).nodup (declarations.nodup_names_masterList group)
    · intro enumerant hmem
      exact of_decide_eq_true (List.mem_filter.mp hmem).2
    · intro enumerant hmem
      obtain ⟨declaration, hdeclared, rfl, -⟩ :=
        declarations.mem_masterList.mp (List.mem_of_mem_filter hmem)
      exact Option.map_eq_some_iff.mpr ⟨declaration, Catalog.find?_name hdeclared, rfl⟩

theorem hasGroup_of_mem_versions {position : Nat} {version : Version}
    (h : (declarations.registry selection).versions[position]? = some version) (group : String) :
    version.hasGroup group = true ↔
      ∃ declaration ∈ declarations.enums.toList,
        declarations.Requires selection (·.enums) (position + 1) declaration.enumerant.name ∧
          declarations.Belongs declaration group := by
  have hgroup : version.hasGroup group = true ↔
      declarations.shownMembers selection (position + 1) group ≠ [] := by
    rw [Version.hasGroup_eq_isSome, group?_of_mem_versions h]
    split
    · next hnil => simp [hnil]
    · next hne => simp [hne]
  rw [hgroup, ne_eq, List.eq_nil_iff_forall_not_mem, not_forall_not]
  constructor
  · rintro ⟨enumerant, hmem⟩
    obtain ⟨hmaster, hrequired⟩ := List.mem_filter.mp hmem
    obtain ⟨declaration, hdeclared, rfl, hbelongs⟩ := declarations.mem_masterList.mp hmaster
    exact ⟨declaration, hdeclared, of_decide_eq_true hrequired, hbelongs⟩
  · rintro ⟨declaration, hdeclared, hrequired, hbelongs⟩
    exact ⟨declaration.enumerant, List.mem_filter.mpr
      ⟨declarations.mem_masterList.mpr ⟨declaration, hdeclared, rfl, hbelongs⟩,
        decide_eq_true hrequired⟩⟩

theorem sublist_shownMembers_iff {count : Nat} {group : String} {first second : Enumerant}
    (hfirst : first ∈ declarations.shownMembers selection count group)
    (hsecond : second ∈ declarations.shownMembers selection count group) :
    [first, second].Sublist (declarations.shownMembers selection count group) ↔
      [first, second].Sublist (declarations.masterList group) := by
  constructor
  · intro h
    exact h.trans List.filter_sublist
  · intro h
    refine List.sublist_filter_iff.mpr ⟨[first, second], h, (List.filter_eq_self.mpr ?_).symm⟩
    intro enumerant hmem
    rw [List.mem_cons, List.mem_singleton] at hmem
    rcases hmem with rfl | rfl
    · exact (List.mem_filter.mp hfirst).2
    · exact (List.mem_filter.mp hsecond).2

/-- A version has a group if it requires a declared enumerant that belongs to it, and shows of it what it
requires of the master list. So two versions that both show two members of a group show them in the same
order. -/
theorem groups_registry {position : Nat} {version : Version}
    (h : (declarations.registry selection).versions[position]? = some version) (group : String) :
    (version.hasGroup group = true ↔
      ∃ declaration ∈ declarations.enums.toList,
        declarations.Requires selection (·.enums) (position + 1) declaration.enumerant.name ∧
          declarations.Belongs declaration group) ∧
    (∀ found, version.group? group = some found →
      declarations.Shows selection (position + 1) group found) ∧
    ∀ other ∈ (declarations.registry selection).versions, ∀ found another,
      version.group? group = some found → other.group? group = some another →
        ∀ first ∈ found.members, ∀ second ∈ found.members,
          first ∈ another.members → second ∈ another.members →
            ([first, second].Sublist found.members ↔ [first, second].Sublist another.members) := by
  refine ⟨hasGroup_of_mem_versions h group, fun found => shows_of_group? h, ?_⟩
  intro other hother found another hfound hanother first hfirst second hsecond hfirst' hsecond'
  obtain ⟨position', hposition'⟩ := List.mem_iff_getElem?.mp hother
  rw [(shows_of_group? h hfound).members_eq] at hfirst hsecond ⊢
  rw [(shows_of_group? hposition' hanother).members_eq] at hfirst' hsecond' ⊢
  rw [sublist_shownMembers_iff hfirst hsecond, sublist_shownMembers_iff hfirst' hsecond']

end Declarations

/-- Two enumerants that are both named and listed for a group, a listed name that is not declared, and a
feature that requires one of the two. -/
def maskDeclarations : Declarations where
  enums := Catalog.ofList [
    ⟨⟨"GL_LOW", "LOW", "0x1"⟩, ["Mask", "Bits", "Mask"], false⟩,
    ⟨⟨"GL_HIGH", "HIGH", "0x2"⟩, ["Bits"], false⟩]
  listings := [⟨"Mask", ["GL_GONE", "GL_HIGH", "GL_LOW", "GL_HIGH"]⟩]
  features := [
    ⟨"gl", "GL_VERSION_1_0", "1.0", [{ kind := .require, profile? := none, api? := none, enums := ["GL_HIGH"] }]⟩]

theorem groups_registry_mask :
    ∃ version, (maskDeclarations.registry {}).versions[0]? = some version ∧
      version.group? "Mask" = some ⟨"Mask", [⟨"GL_HIGH", "HIGH", "0x2"⟩]⟩ ∧
      maskDeclarations.Shows {} 1 "Mask" ⟨"Mask", [⟨"GL_HIGH", "HIGH", "0x2"⟩]⟩ := by
  obtain ⟨version, h⟩ : ∃ version, (maskDeclarations.registry {}).versions[0]? = some version :=
    ⟨_, List.getElem?_eq_getElem (by decide +kernel)⟩
  have hfound : version.group? "Mask" = some ⟨"Mask", [⟨"GL_HIGH", "HIGH", "0x2"⟩]⟩ := by
    have hlookup : ((maskDeclarations.registry {}).versions[0]?.bind (·.group? "Mask")) =
        some ⟨"Mask", [⟨"GL_HIGH", "HIGH", "0x2"⟩]⟩ := by decide +kernel
    rwa [h, Option.bind_some] at hlookup
  exact ⟨version, h, hfound, (Declarations.groups_registry h "Mask").2.1 _ hfound⟩

end RegistryBindings.Registry
