import Mathlib.Data.List.Nodup
import RegistryBindings.Proofs.Artifact.Bindings
import RegistryBindings.Proofs.Artifact.EnumsLayout
import RegistryBindings.Proofs.Registry.Collecting
import RegistryBindings.Proofs.Registry.Membership
import RegistryBindings.Proofs.Registry.ShortName

/-!
# The identifiers of one block

The members of a group have different names, but a block shows their identifiers, which leave the namespaces out.
So a block declares an identifier twice exactly if two of its members have short names that clash: the same short
name, or two that a leading digit makes the same. That cannot happen where all names are in one namespace and no
second underscore follows it. It can happen where an enumerant of a block is not in the namespace that the block
names, because such a name loses a part all the same.
-/

namespace RegistryBindings

namespace Artifact

open Binding Markup Registry Text

/-! ### Short names that clash -/

def BeginsWithDigit (text : String) : Prop :=
  ∃ c ∈ text.toList.head?, c.isDigit = true

instance (text : String) : Decidable (BeginsWithDigit text) :=
  decidable_of_iff (text.toList.head?.any (·.isDigit) = true) (by simp [BeginsWithDigit, Option.any_eq_true])

def Clash (first second : String) : Prop :=
  first = second ∨ (BeginsWithDigit first ∧ second = "_" ++ first) ∨ (BeginsWithDigit second ∧ first = "_" ++ second)

theorem memberIdentifier_eq (shortName : String) :
    memberIdentifier shortName = if BeginsWithDigit shortName then "_" ++ shortName else shortName := by
  unfold memberIdentifier
  split
  · next c rest hlist => simp [BeginsWithDigit, hlist]
  · next hnil => simp [BeginsWithDigit, hnil]

theorem memberIdentifier_eq_iff {first second : String} :
    memberIdentifier first = memberIdentifier second ↔ Clash first second := by
  have hmark {digit word : String} (h : BeginsWithDigit word) : word ≠ "_" ++ digit := by
    rintro rfl
    simp [BeginsWithDigit] at h
  rw [memberIdentifier_eq, memberIdentifier_eq, Clash]
  by_cases hfirst : BeginsWithDigit first
  · by_cases hsecond : BeginsWithDigit second
    · simp [hfirst, hsecond, hmark hfirst, hmark hsecond]
    · simp only [hfirst, hsecond, if_true, if_false, true_and, false_and, or_false]
      constructor
      · exact fun heq => .inr heq.symm
      · rintro (rfl | rfl)
        · exact absurd hfirst hsecond
        · rfl
  · by_cases hsecond : BeginsWithDigit second
    · simp only [hfirst, hsecond, if_true, if_false, true_and, false_and, false_or]
      constructor
      · exact .inr
      · rintro (rfl | rfl)
        · exact absurd hsecond hfirst
        · rfl
    · simp [hfirst, hsecond]

/-- Short names that begin with something other than an underscore clash only if they are the same. -/
theorem Clash.eq {first second : String} (h : Clash first second) (hfirst : ∃ c ∈ first.toList.head?, c ≠ '_')
    (hsecond : ∃ c ∈ second.toList.head?, c ≠ '_') : first = second := by
  have hmarked (word : String) : ¬ ∃ c ∈ ("_" ++ word).toList.head?, c ≠ '_' := by
    simp
  rcases h with rfl | ⟨-, rfl⟩ | ⟨-, rfl⟩
  · rfl
  · exact absurd hsecond (hmarked first)
  · exact absurd hfirst (hmarked second)

/-! ### The identifiers of a group -/

def identifiers (group : Registry.Group) : List String :=
  (declaredMembers group).map (·.identifier)

def NoClash (group : Registry.Group) : Prop :=
  ∀ first ∈ group.members, ∀ second ∈ group.members, fitsWord first.value = true → fitsWord second.value = true →
    first.name ≠ second.name → ¬ Clash first.shortName second.shortName

theorem nodup_identifiers_iff {group : Registry.Group} (h : (group.members.map (·.name)).Nodup) :
    (identifiers group).Nodup ↔ NoClash group := by
  have hmembers : (group.members.filter fun enumerant => fitsWord enumerant.value).Nodup := h.of_map.filter _
  have hidentifiers : identifiers group =
      (group.members.filter fun enumerant => fitsWord enumerant.value).map fun enumerant =>
        memberIdentifier enumerant.shortName := List.map_map
  rw [hidentifiers, List.nodup_map_iff_inj_on hmembers]
  simp only [List.mem_filter, memberIdentifier_eq_iff]
  constructor
  · intro hinj first hfirst second hsecond hfits hfits' hname hclash
    exact hname (congrArg Enumerant.name (hinj first ⟨hfirst, hfits⟩ second ⟨hsecond, hfits'⟩ hclash))
  · intro hno first hfirst second hsecond hclash
    by_contra hne
    have hname : first.name ≠ second.name := fun hname =>
      hne (List.inj_on_of_nodup_map h hfirst.1 hsecond.1 hname)
    exact hno first hfirst.1 second hsecond.1 hfirst.2 hsecond.2 hname hclash

theorem isShortName_shortName {name : String} (h : IsIdentifier name) (namespace? : Option String) :
    IsShortName (shortName namespace? name) := by
  refine ⟨shortName_ne_empty (fun hempty => h.ne_nil (String.toList_eq_nil_iff.mpr hempty)) namespace?, ?_⟩
  exact fun c hc => h.2 c (mem_of_mem_shortName hc)

/-- An enumerant whose name is an identifier is shown by one: its short name is an end of the name that is not
empty, without the namespace, and it is an identifier again unless a digit leads it, which is then no longer so. -/
theorem isShortening_and_isIdentifier {name : String} (h : IsIdentifier name) (namespace? : Option String) :
    IsShortening namespace? name (shortName namespace? name) ∧
      IsIdentifier (memberIdentifier (shortName namespace? name)) := by
  have hname : name ≠ "" := fun hempty => h.ne_nil (String.toList_eq_nil_iff.mpr hempty)
  exact ⟨isShortening_shortName hname namespace?, isIdentifier_memberIdentifier (isShortName_shortName h namespace?)⟩

theorem isShortening_and_isIdentifier_digit :
    IsShortening (some "GLX") "GLX_3DFX_MODE" (shortName (some "GLX") "GLX_3DFX_MODE") ∧
      shortName (some "GLX") "GLX_3DFX_MODE" = "3DFX_MODE" ∧
        IsIdentifier (memberIdentifier (shortName (some "GLX") "GLX_3DFX_MODE")) ∧
          memberIdentifier (shortName (some "GLX") "GLX_3DFX_MODE") = "_3DFX_MODE" := by
  have hname : IsIdentifier "GLX_3DFX_MODE" := by decide
  obtain ⟨hshort, hidentifier⟩ := isShortening_and_isIdentifier hname (some "GLX")
  exact ⟨hshort, by decide, hidentifier, by decide⟩

end Artifact

/-! ### Where members come from -/

namespace Registry

open Markup

/-- A block of the document declares the enumerant, and its short name leaves the namespace of that block out. -/
def DeclaredIn (content : Content) (enumerant : Enumerant) : Prop :=
  ∃ part ∈ sections false content, part.1.name = "enums" ∧
    ∃ child ∈ part.2.children, child.tag.name = "enum" ∧
      child.tag.value? "name" = some enumerant.name ∧ child.tag.value? "value" = some enumerant.value ∧
        enumerant.shortName = shortName (part.1.value? "namespace") enumerant.name

theorem Version.group?_of_mem_groupList {version : Version} {group : Group} (h : group ∈ version.groupList) :
    version.group? group.name = some group :=
  Groups.get?_eq_some_iff.mpr ⟨h, rfl⟩

variable {selection : Selection} {content : Content} {declarations : Declarations}

theorem mem_of_lastDeclaration? {found : List EnumDeclaration} {name : String} {declaration : EnumDeclaration}
    (h : lastDeclaration? found name = some declaration) : declaration ∈ found := by
  rw [lastDeclaration?, Option.or_eq_some_iff] at h
  rcases h with h | ⟨-, h⟩
  · exact List.mem_of_mem_filter (List.mem_of_getLast? h)
  · exact List.mem_of_mem_filter (List.mem_of_getLast? h)

theorem declaredIn_of_declaredEnum? {part : Part} {child : Child} {declaration : EnumDeclaration}
    (hpart : part ∈ sections false content) (hname : part.1.name = "enums") (hchild : child ∈ part.2.children)
    (h : declaredEnum? selection part.1 child = some declaration) : DeclaredIn content declaration.enumerant := by
  rw [declaredEnum?] at h
  split at h
  · next henum =>
    cases hread : readEnum selection part.1 child.tag with
    | error error =>
      rw [hread] at h
      cases h
    | ok declaration? =>
      rw [hread] at h
      obtain rfl : declaration? = some declaration := h
      rw [readEnum] at hread
      split at hread
      · obtain ⟨name, hrequired, hrest⟩ := exists_ok_of_bind hread
        obtain ⟨value, hrequired', hdone⟩ := exists_ok_of_bind hrest
        cases hdone
        exact ⟨part, hpart, hname, child, hchild, henum, value?_of_requiredAttribute hrequired,
          value?_of_requiredAttribute hrequired', rfl⟩
      · cases hread
  · cases h

theorem declaredIn_of_find? (hread : readDeclarations selection content = .ok declarations) {name : String}
    {declaration : EnumDeclaration} (h : declarations.enums.find? name = some declaration) :
    DeclaredIn content declaration.enumerant := by
  obtain ⟨-, -, -, rfl⟩ := readDeclarations_eq_ok_iff.mp hread
  have hfind : (Catalog.ofList ((sections false content).flatMap (Part.enums selection))).find? name =
      some declaration := h
  rw [find?_ofList_enum] at hfind
  obtain ⟨part, hpart, hmem⟩ := List.mem_flatMap.mp (mem_of_lastDeclaration? hfind)
  rw [Part.enums, Part.ofKind] at hmem
  split at hmem
  · next hname =>
    obtain ⟨child, hchild, hdeclared⟩ := List.mem_filterMap.mp hmem
    exact declaredIn_of_declaredEnum? hpart hname hchild hdeclared
  · cases hmem

/-- The members of the groups of a version are declared in the document. -/
theorem declaredIn_of_mem_members (hread : readDeclarations selection content = .ok declarations) {position : Nat}
    {version : Version} {group : Group} {enumerant : Enumerant}
    (hversion : (declarations.registry selection).versions[position]? = some version)
    (hgroup : group ∈ version.groupList) (hmem : enumerant ∈ group.members) : DeclaredIn content enumerant := by
  have hshows := Declarations.shows_of_group? hversion (Version.group?_of_mem_groupList hgroup)
  obtain ⟨declaration, hfind, rfl⟩ := Option.map_eq_some_iff.mp (hshows.declared_of_mem enumerant hmem)
  exact declaredIn_of_find? hread hfind

/-- Every block of the document names the namespace, and the names of its enumerants are in it: each is the namespace,
an underscore, and something that begins with no other underscore. -/
def InNamespace (space : String) (content : Content) : Prop :=
  ∀ part ∈ sections false content, part.1.name = "enums" →
    part.1.value? "namespace" = some space ∧
      ∀ child ∈ part.2.children, child.tag.name = "enum" → ∀ name ∈ child.tag.value? "name",
        ∃ rest, name = space ++ "_" ++ rest ∧ ∃ c ∈ rest.toList.head?, c ≠ '_'

theorem DeclaredIn.eq_append {space : String} {enumerant : Enumerant} (h : DeclaredIn content enumerant)
    (hspace : InNamespace space content) :
    enumerant.name = space ++ "_" ++ enumerant.shortName ∧ ∃ c ∈ enumerant.shortName.toList.head?, c ≠ '_' := by
  obtain ⟨part, hpart, hblock, child, hchild, henum, hname, -, hshort⟩ := h
  obtain ⟨hnamespace, hnames⟩ := hspace part hpart hblock
  obtain ⟨rest, hrest, c, hc, hne⟩ := hnames child hchild henum enumerant.name hname
  have hempty : rest ≠ "" := by
    rintro rfl
    cases hc
  have hcut : enumerant.shortName = rest := by
    rw [hshort, hnamespace, hrest, shortName_of_namespace space hempty]
  rw [hcut]
  exact ⟨hrest, c, hc, hne⟩

end Registry

/-! ### The blocks of an artifact -/

namespace Artifact

open Binding Markup Registry Text

structure ShowsIdentifiers (content : Content) (target : Target) (names : SharedNames)
    (groups : List Registry.Group) (text : String) : Prop where
  text_eq : text = unlines (target.enums names (groups.map .ofGroup))
  declared : ∀ group ∈ groups, ∀ enumerant ∈ group.members, DeclaredIn content enumerant
  nodup_iff : ∀ group ∈ groups, (identifiers group).Nodup ↔ NoClash group
  nodup_of_inNamespace : ∀ space, InNamespace space content → ∀ group ∈ groups, (identifiers group).Nodup
  /-- Where all names are words, these are the identifiers that the text has. -/
  read_back : '\n' ∉ names.space.toList → (∀ group ∈ groups, IsIdentifier group.name) →
    (∀ group ∈ groups, ∀ enumerant ∈ group.members, IsIdentifier enumerant.name) →
      (target.enumBlocks text).map (fun block => (block.name, block.members.map (·.identifier))) =
        groups.map fun group => (group.name, identifiers group)

variable {text : String} {selection : Selection} {config : Config} {bindings : Bindings}

/-- Names of one namespace that differ have short names that differ, and none of these begins with an underscore. -/
theorem noClash_of_inNamespace {content : Content} {group : Registry.Group} {space : String}
    (hdeclared : ∀ enumerant ∈ group.members, DeclaredIn content enumerant) (hspace : InNamespace space content) :
    NoClash group := by
  intro first hfirst second hsecond _ _ hname hclash
  obtain ⟨hfirstName, hfirstHead⟩ := (hdeclared first hfirst).eq_append hspace
  obtain ⟨hsecondName, hsecondHead⟩ := (hdeclared second hsecond).eq_append hspace
  rw [hfirstName, hsecondName, hclash.eq hfirstHead hsecondHead] at hname
  exact hname rfl

/-- A block of the bindings of a document declares no identifier twice, if and only if no two of its members have
short names that clash. So no block does if the names of the document are in one namespace. -/
theorem nodup_identifiers_of_ofDocument (h : Bindings.ofDocument text selection config = .ok bindings) :
    ∃ declarations version, readDeclarations selection (Content.ofText text) = .ok declarations ∧
      config.version.select? (declarations.registry selection) = some version ∧
      ShowsIdentifiers (Content.ofText text) config.target config.names version.groupList bindings.enums := by
  obtain ⟨declarations, version, hread, hselect, rfl⟩ := exists_version_of_ofDocument h
  obtain ⟨position, hposition⟩ := List.mem_iff_getElem?.mp (mem_versions_of_select? hselect)
  have hdeclared : ∀ group ∈ version.groupList, ∀ enumerant ∈ group.members,
      DeclaredIn (Content.ofText text) enumerant := fun group hgroup enumerant =>
    declaredIn_of_mem_members hread hposition hgroup
  have hnames : ∀ group ∈ version.groupList, (group.members.map (·.name)).Nodup := fun group hgroup =>
    (Declarations.shows_of_group? hposition (Version.group?_of_mem_groupList hgroup)).nodup_names
  refine ⟨declarations, version, hread, hselect, rfl, hdeclared, fun group hgroup => ?_, ?_, ?_⟩
  · exact nodup_identifiers_iff (hnames group hgroup)
  · intro space hspace group hgroup
    exact (nodup_identifiers_iff (hnames group hgroup)).mpr (noClash_of_inNamespace (hdeclared group hgroup) hspace)
  · intro hspace hgroups hmembers
    have hwords : HasWords version := by
      refine ⟨hgroups, fun group hgroup enumerant hmem => ?_⟩
      obtain ⟨part, -, -, -, -, -, -, -, hshort⟩ := hdeclared group hgroup enumerant hmem
      rw [hshort]
      exact isShortName_shortName (hmembers group hgroup enumerant hmem) _
    rw [(enumsLayout_ofVersion hspace hwords).read_back, List.map_map]
    rfl

def declaring (enumerants : List (String × String)) : Content :=
  enumerants.foldr (fun (name, value) => .void ⟨"enum", [⟨"name", name⟩, ⟨"value", value⟩]⟩) .done

/-- A document with one such block, in the namespace `GL`, and a feature that requires the enumerants. -/
def modeDocument (enumerants : List (String × String)) : Content :=
  .element ⟨"registry", []⟩
    (.element ⟨"enums", [⟨"namespace", "GL"⟩, ⟨"group", "Mode"⟩]⟩ (declaring enumerants)
      (.element ⟨"feature", [⟨"api", "gl"⟩, ⟨"name", "GL_VERSION_1_0"⟩]⟩
        (.element ⟨"require", []⟩
          (enumerants.foldr (fun (name, _) => .void ⟨"enum", [⟨"name", name⟩]⟩) .done) .done)
        .done))
    .done

theorem mem_children_declaring {enumerants : List (String × String)} {child : Child}
    (h : child ∈ (declaring enumerants).children) :
    ∃ enumerant ∈ enumerants, child.tag.value? "name" = some enumerant.1 := by
  induction enumerants with
  | nil => cases h
  | cons enumerant enumerants ih =>
    rcases List.mem_cons.mp h with rfl | h
    · exact ⟨enumerant, List.mem_cons_self, rfl⟩
    · obtain ⟨other, hother, hname⟩ := ih h
      exact ⟨other, List.mem_cons_of_mem _ hother, hname⟩

theorem inNamespace_modeDocument {enumerants : List (String × String)}
    (h : ∀ enumerant ∈ enumerants, ∃ rest, enumerant.1 = "GL" ++ "_" ++ rest ∧ ∃ c ∈ rest.toList.head?, c ≠ '_') :
    InNamespace "GL" (modeDocument enumerants) := by
  intro part hpart hname
  obtain rfl : part = (⟨"enums", [⟨"namespace", "GL"⟩, ⟨"group", "Mode"⟩]⟩, declaring enumerants) := by
    simp [modeDocument, sections, IsSection] at hpart
    rcases hpart with heq | rfl
    · exact heq
    · have hne : "feature" ≠ "enums" := by decide
      exact absurd hname hne
  refine ⟨rfl, fun child hchild _ name hvalue => ?_⟩
  obtain ⟨enumerant, henumerant, hfound⟩ := mem_children_declaring hchild
  rw [hfound] at hvalue
  cases hvalue
  exact h enumerant henumerant

def latestGroups (document : Content) : Option (List Registry.Group) :=
  (readDeclarations {} document).toOption.bind fun declarations =>
    (declarations.registry {}).latest?.map (·.groupList)

/-- The bindings of the document have the blocks of its groups. -/
theorem exists_ofDocument_modeDocument {enumerants : List (String × String)} {groups : List Registry.Group}
    (hplain : (modeDocument enumerants).Plain) (hgroups : latestGroups (modeDocument enumerants) = some groups)
    (hnames : ∀ group ∈ groups, IsIdentifier group.name)
    (hmembers : ∀ group ∈ groups, ∀ enumerant ∈ group.members, IsShortName enumerant.shortName) :
    ∃ bindings,
      Bindings.ofDocument (String.ofList (modeDocument enumerants).write) {} {} = .ok bindings ∧
        Target.enumBlocks .rust bindings.enums = groups.map fun group => ⟨group.name, declaredMembers group⟩ := by
  obtain ⟨declarations, hread, hlatest⟩ := Option.bind_eq_some_iff.mp hgroups
  obtain ⟨version, hversion, rfl⟩ := Option.map_eq_some_iff.mp hlatest
  have hspace : '\n' ∉ ({} : Config).names.space.toList := by decide
  have hlayout := enumsLayout_ofVersion hspace (HasWords.mk hnames hmembers)
  refine ⟨Bindings.ofVersion version {}, ?_, hlayout.read_back⟩
  have hok : readDeclarations {} (modeDocument enumerants) = .ok declarations := by
    cases hresult : readDeclarations {} (modeDocument enumerants) with
    | error error =>
      rw [hresult] at hread
      cases hread
    | ok found =>
      rw [hresult] at hread
      cases hread
      rfl
  have hvalid : ({} : Config).validate = .ok () := if_neg (by decide +kernel)
  have hselect : ({} : Config).version.select? (declarations.registry {}) = some version := hversion
  have hgenerated : Bindings.ofRegistry (declarations.registry {}) {} = .ok (Bindings.ofVersion version {}) := by
    rw [Bindings.ofRegistry, hvalid, hselect]
    rfl
  rw [Bindings.ofDocument, Registry.read, ofText_write_content hplain rfl, hok]
  exact congrArg (Except.mapError DocumentError.generation) hgenerated

/-- Names of one namespace, of which one begins with a digit without it, and one has a value that does not fit. -/
def apartNames : List (String × String) :=
  [("GL_2D", "0x0DE1"), ("GL_LINE", "0x1B01"), ("GL_ALL_BITS", "-1"), ("GL_GL_LINE", "7")]

theorem nodup_identifiers_apartNames :
    ∃ bindings declarations, ∃ version : Registry.Version,
      Bindings.ofDocument (String.ofList (modeDocument apartNames).write) {} {} = .ok bindings ∧
        readDeclarations {} (Content.ofText (String.ofList (modeDocument apartNames).write)) = .ok declarations ∧
        ShowsIdentifiers (Content.ofText (String.ofList (modeDocument apartNames).write)) .rust ⟨"gl", "Gl"⟩
          version.groupList bindings.enums ∧
        (∀ group ∈ version.groupList, (identifiers group).Nodup) ∧
        Target.enumBlocks .rust bindings.enums =
          [⟨"Mode", [⟨"_2D", "0x0DE1"⟩, ⟨"LINE", "0x1B01"⟩, ⟨"GL_LINE", "7"⟩]⟩] := by
  have hplain : (modeDocument apartNames).Plain := by decide +kernel
  have hgroups : latestGroups (modeDocument apartNames) = some [⟨"Mode", [⟨"GL_2D", "2D", "0x0DE1"⟩,
      ⟨"GL_LINE", "LINE", "0x1B01"⟩, ⟨"GL_ALL_BITS", "ALL_BITS", "-1"⟩, ⟨"GL_GL_LINE", "GL_LINE", "7"⟩]⟩] := by
    decide +kernel
  have hspace : InNamespace "GL" (modeDocument apartNames) := by
    refine inNamespace_modeDocument ?_
    simp only [apartNames, List.forall_mem_cons]
    exact ⟨⟨"2D", rfl, '2', rfl, by decide⟩, ⟨"LINE", rfl, 'L', rfl, by decide⟩,
      ⟨"ALL_BITS", rfl, 'A', rfl, by decide⟩, ⟨"GL_LINE", rfl, 'G', rfl, by decide⟩, List.forall_mem_nil _⟩
  obtain ⟨bindings, hbindings, hblocks⟩ :=
    exists_ofDocument_modeDocument hplain hgroups (by decide) (by decide)
  obtain ⟨declarations, version, hread, -, hshows⟩ := nodup_identifiers_of_ofDocument hbindings
  refine ⟨bindings, declarations, version, hbindings, hread, hshows, ?_, hblocks.trans (by decide +kernel)⟩
  exact hshows.nodup_of_inNamespace "GL" ((ofText_write_content hplain rfl).symm ▸ hspace)

/-- A block that declares an identifier twice, of a document whose names are different words. The second name is not
in the namespace of the block, and loses all up to its underscore. -/
theorem not_nodup_identifiers_clash :
    IsIdentifier "GL_LINE" ∧ IsIdentifier "EGL_LINE" ∧
      ∃ bindings, Bindings.ofDocument
          (String.ofList (modeDocument [("GL_LINE", "1"), ("EGL_LINE", "2")]).write) {} {} = .ok bindings ∧
        Target.enumBlocks .rust bindings.enums = [⟨"Mode", [⟨"LINE", "1"⟩, ⟨"LINE", "2"⟩]⟩] ∧
        ∃ block ∈ Target.enumBlocks .rust bindings.enums, ¬ (block.members.map (·.identifier)).Nodup := by
  have hgroups : latestGroups (modeDocument [("GL_LINE", "1"), ("EGL_LINE", "2")]) =
      some [⟨"Mode", [⟨"GL_LINE", "LINE", "1"⟩, ⟨"EGL_LINE", "LINE", "2"⟩]⟩] := by decide +kernel
  obtain ⟨bindings, hbindings, hread⟩ :=
    exists_ofDocument_modeDocument (by decide +kernel) hgroups (by decide) (by decide)
  have hblocks : Target.enumBlocks .rust bindings.enums = [⟨"Mode", [⟨"LINE", "1"⟩, ⟨"LINE", "2"⟩]⟩] :=
    hread.trans (by decide +kernel)
  refine ⟨by decide, by decide, bindings, hbindings, hblocks, ?_⟩
  rw [hblocks]
  exact ⟨_, List.mem_singleton_self _, by decide⟩

end Artifact

end RegistryBindings
