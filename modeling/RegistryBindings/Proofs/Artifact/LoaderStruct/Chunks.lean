import RegistryBindings.Proofs.Artifact.LoaderStruct.Lines

/-!
# The chunks of a loader struct

The artifact is a row of chunks: fixed lines, aliases, the slots, and methods. `Reads` says what a chunk adds
to each listing, whatever chunks stand around it, so that each function of the generator has its own lemma
and the artifact is read by putting them together.
-/

namespace RegistryBindings.Artifact.LoaderStruct

open Binding Text

variable {command : BoundCommand} {commands : List BoundCommand} {name : String}

/-! ### Chunks of lines -/

def declarationMarks : List (List Char) :=
  [['p', 'u', 'b', ' ', 't', 'y', 'p', 'e', ' ', 'P', 'F', 'N', '_'], [' ', ' ', ' ', ' ', 'p', '_']]

/-- The beginnings of the lines that the listings are read from. -/
def lineMarks : List (List Char) :=
  [' ', ' ', ' ', ' ', 'p', 'u', 'b', ' '] :: declarationMarks

/-- The beginnings of the lines that are not in the body of a method. -/
def bodyMarks : List (List Char) :=
  [' ', ' ', ' ', ' ', '\x7d'] :: lineMarks

theorem aliasLine?_eq_none {line : String} (h : Avoids declarationMarks line) : aliasLine? line = none := by
  have hmark : dropMark? "pub type PFN_" line = none := h.dropMark?_eq_none _ (.head _)
  simp only [aliasLine?, named?_eq_none hmark, Option.bind_eq_bind, Option.bind_none]

theorem slotLine?_eq_none {line : String} (h : Avoids declarationMarks line) : slotLine? line = none := by
  have hmark : dropMark? "    p_" line = none := h.dropMark?_eq_none _ (.tail _ (.head _))
  exact pairLine?_eq_none hmark

theorem methodHead?_eq_none {line : String} (h : Avoids lineMarks line) : methodHead? line = none :=
  h.dropMark?_eq_none _ (.head _)

theorem closesMethod_eq_false {line : String} (h : Avoids bodyMarks line) : closesMethod line = false :=
  decide_eq_false (ne_of_dropMark?_eq_none (h.dropMark?_eq_none _ (.head _)))

theorem isSignature_eq_false {line : String} (h : Avoids lineMarks line) : isSignature line = false := by
  have hmark : dropMark? "pub type PFN_" line = none := h.of_cons.dropMark?_eq_none _ (.head _)
  rw [isSignature, hmark, methodHead?_eq_none h]
  rfl

/-- What a chunk of lines adds to the listings. The methods in it are whole. -/
structure Reads (chunk : List String) (aliases slots : List (String × String))
    (methods : List (String × List String)) (reached : List String) : Prop where
  aliases_eq : chunk.filterMap aliasLine? = aliases
  slots_eq : chunk.filterMap slotLine? = slots
  methods_yield : Yields methodHead? closesMethod chunk methods
  reached_eq : reachedIn chunk = reached
  not_mem : ∀ line ∈ chunk, '\n' ∉ line.toList

section

variable {chunk chunk' : List String} {aliases aliases' slots slots' : List (String × String)}
  {methods methods' : List (String × List String)} {reached reached' : List String}

theorem reachedIn_append (lines more : List String) :
    reachedIn (lines ++ more) = reachedIn lines ++ reachedIn more := by
  simp [reachedIn]

theorem reachedIn_flatMap {β : Type} {items : List β} {chunk : β → List String} {reached : β → List String}
    (h : ∀ item ∈ items, reachedIn (chunk item) = reached item) :
    reachedIn (items.flatMap chunk) = items.flatMap reached := by
  induction items with
  | nil => rfl
  | cons item items ih =>
    rw [List.flatMap_cons, reachedIn_append, h item List.mem_cons_self, List.flatMap_cons,
      ih fun other hother => h other (List.mem_cons_of_mem item hother)]

theorem Reads.append (h : Reads chunk aliases slots methods reached)
    (h' : Reads chunk' aliases' slots' methods' reached') :
    Reads (chunk ++ chunk') (aliases ++ aliases') (slots ++ slots') (methods ++ methods')
      (reached ++ reached') where
  aliases_eq := by rw [List.filterMap_append, h.aliases_eq, h'.aliases_eq]
  slots_eq := by rw [List.filterMap_append, h.slots_eq, h'.slots_eq]
  methods_yield := h.methods_yield.append h'.methods_yield
  reached_eq := by rw [reachedIn_append, h.reached_eq, h'.reached_eq]
  not_mem line hline := (List.mem_append.mp hline).elim (h.not_mem line) (h'.not_mem line)

theorem flatMap_nil_right {β γ : Type} (items : List β) : (items.flatMap fun _ => ([] : List γ)) = [] :=
  List.flatMap_eq_nil_iff.mpr fun _ _ => rfl

/-- The chunks of all commands, of which each adds its own. -/
theorem Reads.flatMap {chunk : BoundCommand → List String}
    {aliases slots : BoundCommand → List (String × String)}
    {methods : BoundCommand → List (String × List String)} {reached : BoundCommand → List String}
    (h : ∀ command ∈ commands, Reads (chunk command) (aliases command) (slots command) (methods command)
      (reached command)) :
    Reads (commands.flatMap chunk) (commands.flatMap aliases) (commands.flatMap slots)
      (commands.flatMap methods) (commands.flatMap reached) := by
  induction commands with
  | nil => exact ⟨rfl, rfl, fun rest => rfl, rfl, by simp⟩
  | cons command commands ih =>
    simp only [List.flatMap_cons]
    exact (h command List.mem_cons_self).append
      (ih fun other hother => h other (List.mem_cons_of_mem command hother))

def IsSilent (line : String) : Prop :=
  mentions slotMark line.toList = []

theorem isSilent_ofList {line : List Char} (h : mentions slotMark line = []) :
    IsSilent (String.ofList line) := by
  rwa [IsSilent, String.toList_ofList]

theorem isSilent_of_not_mem {line : String} (h : '.' ∉ line.toList) : IsSilent line :=
  mentions_of_not_mem h _

theorem reachedIn_of_isSilent (h : chunk.Forall IsSilent) : reachedIn chunk = [] := by
  rw [List.forall_iff_forall_mem] at h
  rw [reachedIn, List.flatMap_eq_nil_iff]
  exact fun line hline => h line (List.mem_filter.mp hline).1

theorem reachedIn_of_avoids (h : ∀ line ∈ chunk, Avoids lineMarks line) :
    reachedIn chunk = chunk.flatMap fun line => mentions slotMark line.toList := by
  rw [reachedIn, List.filter_eq_self.mpr]
  intro line hline
  rw [isSignature_eq_false (h line hline)]
  rfl

/-- Lines that begin otherwise than those the listings are read from. -/
theorem reads_of_avoids (h : ∀ line ∈ chunk, Avoids lineMarks line) :
    Reads chunk [] [] [] (reachedIn chunk) where
  aliases_eq := List.filterMap_eq_nil_iff.mpr fun line hline => aliasLine?_eq_none (h line hline).of_cons
  slots_eq := List.filterMap_eq_nil_iff.mpr fun line hline => slotLine?_eq_none (h line hline).of_cons
  methods_yield := yields_nil fun line hline => methodHead?_eq_none (h line hline)
  reached_eq := rfl
  not_mem line hline := (h line hline).not_mem

structure Inert (line : String) : Prop where
  avoids : Avoids lineMarks line
  isSilent : IsSilent line

theorem reads_of_inert (h : chunk.Forall Inert) : Reads chunk [] [] [] [] := by
  have hreads := reads_of_avoids fun line hline => (List.forall_iff_forall_mem.mp h line hline).avoids
  rwa [reachedIn_of_isSilent (h.imp fun line hline => hline.isSilent)] at hreads

theorem inert_ofList {line : List Char}
    (h : (lineMarks.all (fun mark => (strip? mark line).isNone) && line.all (· ≠ '\n')) = true)
    (hmentions : mentions slotMark line = []) : Inert (String.ofList line) :=
  ⟨avoids_ofList h, isSilent_ofList hmentions⟩

/-- Fixed text around a text without dots. -/
theorem inert_around {before after : List Char} {text : String} (hdot : '.' ∉ text.toList)
    (hnewline : '\n' ∉ text.toList)
    (hbefore : (lineMarks.all (differ · before) && before.all (· ≠ '\n')) = true)
    (hlacks : lacks slotMark before = true) (hafter : after.all (· ≠ '\n') = true)
    (hmentions : mentions slotMark after = []) :
    Inert (String.ofList before ++ text ++ String.ofList after) := by
  have hend : '\n' ∉ after := fun hmem => of_decide_eq_true (List.all_eq_true.mp hafter _ hmem) rfl
  rw [String.append_assoc]
  refine ⟨avoids_append hbefore (by simp [hnewline, hend]), ?_⟩
  rw [IsSilent]
  calc mentions slotMark (String.ofList before ++ (text ++ String.ofList after)).toList
      = mentions slotMark (text ++ String.ofList after).toList := mentions_skip hlacks _
    _ = mentions slotMark (String.ofList after).toList := by
        rw [String.toList_append, slotMark, mentions_append_of_lacks (lacks_of_not_mem hdot _)]
    _ = [] := by rw [String.toList_ofList, hmentions]

/-- A method: its head, its body, and the line that closes it. -/
theorem reads_method {opening head : String} {body : List String}
    (hhead : methodHead? opening = some head) (hopening : Avoids declarationMarks opening)
    (hsilent : reachedIn [opening] = []) (hbody : ∀ line ∈ body, Avoids bodyMarks line)
    (hreached : reachedIn body = reached) :
    Reads (opening :: (body ++ ["    \x7d"])) [] [] [(head, body)] reached := by
  have hinner := reads_of_avoids fun line hline => (hbody line hline).of_cons
  have hlast : Reads ["    \x7d"] [] [] [] [] := reads_of_inert (inert_ofList rfl rfl)
  refine ⟨?_, ?_, ?_, ?_, ?_⟩
  · rw [List.filterMap_cons_none (aliasLine?_eq_none hopening), List.filterMap_append,
      hinner.aliases_eq, hlast.aliases_eq, List.append_nil]
  · rw [List.filterMap_cons_none (slotLine?_eq_none hopening), List.filterMap_append,
      hinner.slots_eq, hlast.slots_eq, List.append_nil]
  · exact yields_body hhead (fun line hline => methodHead?_eq_none (hbody line hline).of_cons)
      (fun line hline => closesMethod_eq_false (hbody line hline)) (dropMark?_ofList rfl)
      (decide_eq_true rfl)
  · rw [← List.singleton_append, reachedIn_append, reachedIn_append, hsilent, hreached,
      hlast.reached_eq, List.nil_append, List.append_nil]
  · refine List.forall_mem_cons.mpr ⟨hopening.not_mem, fun line hline => ?_⟩
    exact (List.mem_append.mp hline).elim (hinner.not_mem line) (hlast.not_mem line)

end

/-! ### The chunks of the artifact -/

theorem slot_eq (command : BoundCommand) :
    slot command = "    p_" ++ (command.name ++ (": Option<PFN_" ++ (command.name ++ ">,"))) := by
  unfold slot
  simp only [String.append_assoc]

theorem reads_typeAlias (h : IsWritable command) :
    Reads (typeAlias command) [(command.name, signature command)] [] [] [] := by
  -- An alias may hold any text in its types, so it is a signature and no code in it is looked at.
  let line := "pub type PFN_" ++ (command.name ++ (" = unsafe extern \"system\" fn(" ++
    (signature command ++ ";")))
  have hlines : typeAlias command = ["#[allow(non_camel_case_types, non_snake_case)]"] ++ [line] := by
    unfold typeAlias line signature
    simp only [String.append_assoc, List.singleton_append]
  have hline : Reads [line] [(command.name, signature command)] [] [] [] := by
    have hslot : dropMark? "    p_" line = none := dropMark?_append_of_differ rfl _
    have hhead : methodHead? line = none := dropMark?_append_of_differ rfl _
    have hsignature : isSignature line = true := by
      rw [isSignature, dropMark?_append]
      rfl
    refine ⟨?_, ?_, yields_nil (List.forall_mem_singleton.mpr hhead), ?_, ?_⟩
    · rw [List.filterMap_cons_some (aliasLine?_typeAlias h.name), List.filterMap_nil]
    · rw [List.filterMap_cons_none, List.filterMap_nil]
      exact pairLine?_eq_none hslot
    · rw [reachedIn, List.filter_cons_of_neg (by simp [hsignature]), List.filter_nil, List.flatMap_nil]
    · have hname := h.name.not_mem (show isIdentifierChar '\n' = false from rfl)
      have hsignature := h.not_mem_signature
      refine List.forall_mem_singleton.mpr ?_
      simp [line, hname, hsignature]
  rw [hlines]
  have hattribute : Reads ["#[allow(non_camel_case_types, non_snake_case)]"] [] [] [] [] :=
    reads_of_inert (inert_ofList rfl rfl)
  exact hattribute.append hline

theorem reads_slot (h : IsIdentifier command.name) :
    Reads [slot command] [] [(command.name, command.name)] [] [] := by
  have hname := h.not_mem (show isIdentifierChar '\n' = false from rfl)
  have hdot := h.not_mem (show isIdentifierChar '.' = false from rfl)
  have halias : dropMark? "pub type PFN_" (slot command) = none := by
    rw [slot_eq]
    exact dropMark?_append_of_differ rfl _
  have hhead : methodHead? (slot command) = none := by
    rw [slot_eq]
    exact dropMark?_append_of_differ rfl _
  refine ⟨?_, ?_, yields_nil (List.forall_mem_singleton.mpr hhead), ?_, ?_⟩
  · rw [List.filterMap_cons_none, List.filterMap_nil]
    simp only [aliasLine?, named?_eq_none halias, Option.bind_eq_bind, Option.bind_none]
  · rw [List.filterMap_cons_some (slotLine?_slot h), List.filterMap_nil]
  · refine reachedIn_of_isSilent (isSilent_of_not_mem ?_)
    simp [slot_eq, hdot]
  · refine List.forall_mem_singleton.mpr ?_
    simp [slot_eq, hname]

theorem resolver_plain : '.' ∉ resolver.toList ∧ '\n' ∉ resolver.toList := by
  decide

theorem reads_table {names : SharedNames} (hclass : IsIdentifier names.nativeClass)
    (h : ∀ command ∈ commands, IsWritable command) :
    Reads (table names commands) [] (commands.map fun command => (command.name, command.name)) [] [] := by
  have hstart : Reads ["/// Entry point table for `" ++ names.nativeClass ++ "`.",
      "///",
      "/// Every entry point starts unloaded. Loading is not synchronized:",
      "/// callers sharing one table must not run its loaders concurrently.",
      "#[allow(non_snake_case)]",
      "#[derive(Default)]",
      "pub struct " ++ names.nativeClass ++ " \x7b",
      "    get_proc_address: Option<Box<dyn " ++ resolver ++ ">>,"] [] [] [] [] :=
    reads_of_inert
      ⟨inert_around (hclass.not_mem rfl) (hclass.not_mem rfl) rfl rfl rfl rfl, inert_ofList rfl rfl,
        inert_ofList rfl rfl, inert_ofList rfl rfl, inert_ofList rfl rfl, inert_ofList rfl rfl,
        inert_around (hclass.not_mem rfl) (hclass.not_mem rfl) rfl rfl rfl rfl,
        inert_around resolver_plain.1 resolver_plain.2 rfl rfl rfl rfl⟩
  have hslots := Reads.flatMap fun command hcommand => reads_slot (h command hcommand).name
  have hend : Reads ["\x7d", ""] [] [] [] [] := reads_of_inert ⟨inert_ofList rfl rfl, inert_ofList rfl rfl⟩
  have hchunk := (hstart.append hslots).append hend
  simp only [flatMap_nil_right, ← List.map_eq_flatMap, List.append_nil] at hchunk
  exact hchunk

theorem reads_constructor :
    Reads constructor [] [] [("fn new() -> Self \x7b", ["        Self::default()"])] [] := by
  have hstart : Reads ["    /// Creates a table with every entry point unloaded.", "    #[must_use]"]
      [] [] [] [] :=
    reads_of_inert ⟨inert_ofList rfl rfl, inert_ofList rfl rfl⟩
  have hhead : methodHead? "    pub fn new() -> Self \x7b" = some "fn new() -> Self \x7b" :=
    dropMark?_append "    pub " "fn new() -> Self \x7b"
  have hopening : Avoids declarationMarks "    pub fn new() -> Self \x7b" := avoids_ofList rfl
  have hsilent : reachedIn ["    pub fn new() -> Self \x7b"] = [] :=
    reachedIn_of_isSilent (isSilent_ofList rfl)
  have hbody : Avoids bodyMarks "        Self::default()" := avoids_ofList rfl
  have hreached : reachedIn ["        Self::default()"] = [] := reachedIn_of_isSilent (isSilent_ofList rfl)
  have hmethod := reads_method hhead hopening hsilent (List.forall_mem_singleton.mpr hbody) hreached
  exact hstart.append hmethod

theorem IsWritable.not_mem_trampolineHead (h : IsWritable command) :
    '\n' ∉ (trampolineHead command).toList := by
  have hname := h.name.not_mem (show isIdentifierChar '\n' = false from rfl)
  have hsignature : '\n' ∉ (methodSignature command).toList := by
    rw [methodSignature]
    split <;> simp [h.not_mem_signature]
  unfold trampolineHead
  simp [hname, hsignature]

theorem reads_trampoline (h : IsWritable command) :
    Reads (trampoline command) [] [] [(trampolineHead command, [call command])] [command.name] := by
  have hattribute : Reads ["    #[inline]"] [] [] [] [] := reads_of_inert (inert_ofList rfl rfl)
  have hopening : Avoids declarationMarks ("    pub " ++ trampolineHead command) :=
    avoids_append rfl h.not_mem_trampolineHead
  have hsilent : reachedIn ["    pub " ++ trampolineHead command] = [] := by
    have hunsafe : (dropMark? "unsafe extern \"system-unwind\" fn " (trampolineHead command)).isSome = true :=
      Option.isSome_of_eq_some (dropMark?_append _ _)
    have hsignature : isSignature ("    pub " ++ trampolineHead command) = true := by
      rw [isSignature, methodHead?, dropMark?_append, Option.bind_some, hunsafe, Bool.or_true]
    rw [reachedIn, List.filter_cons_of_neg (by simp [hsignature]), List.filter_nil, List.flatMap_nil]
  have hbody : Avoids bodyMarks (call command) := by
    have hname := h.name.not_mem (show isIdentifierChar '\n' = false from rfl)
    have harguments := h.not_mem_arguments (show isIdentifierChar '\n' = false from rfl) (by decide)
      (by decide) (by decide)
    exact avoids_append rfl (by simp [hname, harguments])
  have hreached : reachedIn [call command] = [command.name] := by
    rw [reachedIn_of_avoids (List.forall_mem_singleton.mpr hbody.of_cons), List.flatMap_singleton,
      mentions_call h]
  rw [trampoline_eq]
  exact hattribute.append
    (reads_method (dropMark?_append _ _) hopening hsilent (List.forall_mem_singleton.mpr hbody) hreached)

/-! ### Loaders -/

def loaderHead (method : String) : String :=
  "fn " ++ (method ++ "<F>(&mut self, get_proc_address: F)")

def loaderBody (commands : List String) : List String :=
  ["    where",
    "        F: " ++ resolver ++ " + 'static,",
    "    \x7b",
    "        self.get_proc_address = Some(Box::new(get_proc_address));"] ++
  commands.map fun name => "        " ++ assignment name

theorem loader_eq (method : String) (commands : List String) :
    loader method commands = ("    pub " ++ loaderHead method) :: (loaderBody commands ++ ["    \x7d"]) := by
  have hmark : "    pub fn " = "    pub " ++ "fn " := rfl
  unfold loader loaderHead loaderBody
  simp only [hmark, String.append_assoc, List.cons_append, List.nil_append]

theorem not_mem_assignment (h : IsIdentifier name) : '\n' ∉ (assignment name).toList := by
  have hname := h.not_mem (show isIdentifierChar '\n' = false from rfl)
  unfold assignment
  simp [hname]

theorem avoids_assignment (h : IsIdentifier name) : Avoids bodyMarks ("        " ++ assignment name) :=
  avoids_append rfl (not_mem_assignment h)

theorem avoids_loaderStart :
    ["    where",
      "        F: " ++ resolver ++ " + 'static,",
      "    \x7b",
      "        self.get_proc_address = Some(Box::new(get_proc_address));"].Forall (Avoids bodyMarks) := by
  rw [String.append_assoc]
  exact ⟨avoids_ofList rfl, avoids_append rfl (by simp [resolver_plain.2]), avoids_ofList rfl,
    avoids_ofList rfl⟩

theorem silent_loaderStart :
    ["    where",
      "        F: " ++ resolver ++ " + 'static,",
      "    \x7b",
      "        self.get_proc_address = Some(Box::new(get_proc_address));"].Forall IsSilent :=
  ⟨isSilent_ofList rfl, isSilent_of_not_mem (by simp [resolver_plain.1]), isSilent_ofList rfl,
    isSilent_ofList rfl⟩

theorem reads_loader {method : String} {names : List String}
    (hmethod : ∀ c ∈ method.toList, isIdentifierChar c = true) (hnames : ∀ name ∈ names, IsIdentifier name) :
    Reads (loader method names) [] [] [(loaderHead method, loaderBody names)] names := by
  have hnewline : '\n' ∉ method.toList := fun hmem => Bool.false_ne_true (hmethod _ hmem)
  have hdot : '.' ∉ method.toList := fun hmem => Bool.false_ne_true (hmethod _ hmem)
  have hopening : Avoids declarationMarks ("    pub " ++ loaderHead method) :=
    avoids_append rfl (by unfold loaderHead; simp [hnewline])
  have hsilent : reachedIn ["    pub " ++ loaderHead method] = [] :=
    reachedIn_of_isSilent (isSilent_of_not_mem (by unfold loaderHead; simp [hdot]))
  have hassignments : ∀ line ∈ names.map fun name => "        " ++ assignment name, Avoids bodyMarks line := by
    intro line hline
    obtain ⟨name, hname, rfl⟩ := List.mem_map.mp hline
    exact avoids_assignment (hnames name hname)
  have hbody : ∀ line ∈ loaderBody names, Avoids bodyMarks line := fun line hline =>
    (List.mem_append.mp hline).elim (List.forall_iff_forall_mem.mp avoids_loaderStart line)
      (hassignments line)
  have hreached : reachedIn (loaderBody names) = names := by
    have hassigned : reachedIn (names.map fun name => "        " ++ assignment name) = names := by
      rw [List.map_eq_flatMap]
      refine (reachedIn_flatMap fun name hname => ?_).trans (List.flatMap_singleton' names)
      rw [reachedIn_of_avoids (List.forall_mem_singleton.mpr (avoids_assignment (hnames name hname)).of_cons),
        List.flatMap_singleton]
      exact (mentions_skip rfl _).trans (mentions_assignment (hnames name hname))
    rw [loaderBody, reachedIn_append, hassigned, reachedIn_of_isSilent silent_loaderStart, List.nil_append]
  rw [loader_eq]
  exact reads_method (dropMark?_append _ _) hopening hsilent hbody hreached

def probeLoaderMethod (probe : Probe) : String × List String :=
  (loaderHead (probeMethod probe.name), loaderBody (if probe.present then [probe.name] else []))

theorem isIdentifierChar_probeMethod {probe : String} (h : IsIdentifier probe) :
    ∀ c ∈ (probeMethod probe).toList, isIdentifierChar c = true := by
  have hname := isIdentifierChar_toSnakeCase (isIdentifierChar_withoutApi h.2)
  have hload : ∀ c ∈ "load_".toList, isIdentifierChar c = true := forall_mem_of_all (by decide)
  intro c hc
  rw [probeMethod, String.toList_append, List.mem_append] at hc
  exact hc.elim (hload c) (hname c)

theorem reads_probeLoader {probe : Probe} (h : IsIdentifier probe.name) :
    Reads (probeLoader probe) [] [] [probeLoaderMethod probe] (if probe.present then [probe.name] else []) := by
  have hmethod := isIdentifierChar_probeMethod h
  rw [probeLoader, probeLoaderMethod]
  split
  · have hcomment : Reads ["    /// Stores the resolver and binds only `" ++ probe.name ++ "`."] [] [] [] [] :=
      reads_of_inert (inert_around (h.not_mem rfl) (h.not_mem rfl) rfl rfl rfl rfl)
    exact hcomment.append (reads_loader hmethod (List.forall_mem_singleton.mpr h))
  · have hcomment : Reads ["    /// Stores the resolver without binding anything."] [] [] [] [] :=
      reads_of_inert (inert_ofList rfl rfl)
    exact hcomment.append (reads_loader hmethod (by simp))

theorem reads_fullLoader (h : ∀ command ∈ commands, IsWritable command) :
    Reads (fullLoader commands) [] []
      [(loaderHead "load_all_functions", loaderBody (commands.map (·.name)))] (commands.map (·.name)) := by
  have hcomment : Reads ["    /// Stores the resolver and binds every entry point it resolves.",
      "    ///",
      "    /// Unresolved entry points stay unloaded."] [] [] [] [] :=
    reads_of_inert ⟨inert_ofList rfl rfl, inert_ofList rfl rfl, inert_ofList rfl rfl⟩
  have hnames : ∀ name ∈ commands.map (·.name), IsIdentifier name := by
    intro name hname
    obtain ⟨command, hcommand, rfl⟩ := List.mem_map.mp hname
    exact (h command hcommand).name
  exact hcomment.append (reads_loader (forall_mem_of_all (by decide)) hnames)

/-! ### Matches -/

theorem loadArm_eq (command : BoundCommand) :
    loadArm command =
      ["            \"" ++ (command.name ++ "\" => \x7b"), "                " ++ assignment command.name,
        "                self.p_" ++ (command.name ++ ".is_some()"), "            \x7d"] := by
  unfold loadArm
  simp only [String.append_assoc]

theorem avoids_loadArm (h : IsIdentifier command.name) :
    (loadArm command).Forall (Avoids bodyMarks) := by
  have hname := h.not_mem (show isIdentifierChar '\n' = false from rfl)
  rw [loadArm_eq]
  exact ⟨avoids_append rfl (by simp [hname]), avoids_append rfl (not_mem_assignment h),
    avoids_append rfl (by simp [hname]), avoids_ofList rfl⟩

theorem reachedIn_loadArm (h : IsIdentifier command.name) :
    reachedIn (loadArm command) = [command.name, command.name] := by
  have havoids := List.forall_iff_forall_mem.mp (avoids_loadArm h)
  have hdot := h.not_mem (show isIdentifierChar '.' = false from rfl)
  have hhead : mentions slotMark ("            \"" ++ (command.name ++ "\" => \x7b")).toList = [] :=
    mentions_of_not_mem (by simp [hdot]) _
  have hassignment : mentions slotMark ("                " ++ assignment command.name).toList =
      [command.name] :=
    (mentions_skip rfl _).trans (mentions_assignment h)
  have hclosing : mentions slotMark "            \x7d".toList = [] := isSilent_ofList rfl
  rw [reachedIn_of_avoids fun line hline => (havoids line hline).of_cons, loadArm_eq]
  simp only [List.flatMap_cons, hhead, hassignment, mentions_test h, hclosing, List.flatMap_nil]
  rfl

def matchBody (arms : List String) : List String :=
  "        match name \x7b" :: (arms ++ ["            _ => false,", "        \x7d"])

theorem reads_match {opening head : String} {arms reached : List String}
    (hhead : methodHead? opening = some head) (hopening : Avoids declarationMarks opening)
    (hsilent : IsSilent opening) (harms : ∀ line ∈ arms, Avoids bodyMarks line)
    (hreached : reachedIn arms = reached) :
    Reads (opening :: (matchBody arms ++ ["    \x7d"])) [] [] [(head, matchBody arms)] reached := by
  have hmatch : Avoids bodyMarks "        match name \x7b" := avoids_ofList rfl
  have hother : ["            _ => false,", "        \x7d"].Forall (Avoids bodyMarks) :=
    ⟨avoids_ofList rfl, avoids_ofList rfl⟩
  have hbody : ∀ line ∈ matchBody arms, Avoids bodyMarks line :=
    List.forall_mem_cons.mpr
      ⟨hmatch, List.forall_mem_append.mpr ⟨harms, List.forall_iff_forall_mem.mp hother⟩⟩
  have hstart : reachedIn ["        match name \x7b"] = [] := reachedIn_of_isSilent (isSilent_ofList rfl)
  have hend : reachedIn ["            _ => false,", "        \x7d"] = [] :=
    reachedIn_of_isSilent ⟨isSilent_ofList rfl, isSilent_ofList rfl⟩
  have hinside : reachedIn (matchBody arms) = reached := by
    rw [matchBody, ← List.singleton_append, reachedIn_append, reachedIn_append, hreached, hstart, hend,
      List.nil_append, List.append_nil]
  exact reads_method hhead hopening (reachedIn_of_isSilent hsilent) hbody hinside

def loadHead : String :=
  "fn load(&mut self, name: &str) -> bool \x7b"

theorem reads_singleLoader (h : ∀ command ∈ commands, IsWritable command) :
    Reads (singleLoader commands) [] [] [(loadHead, matchBody (commands.flatMap loadArm))]
      (commands.flatMap fun command => [command.name, command.name]) := by
  have hcomment : Reads ["    /// Re-resolves one entry point with the stored resolver.",
      "    ///",
      "    /// Returns whether the entry point is bound afterwards."] [] [] [] [] :=
    reads_of_inert ⟨inert_ofList rfl rfl, inert_ofList rfl rfl, inert_ofList rfl rfl⟩
  have hhead : methodHead? "    pub fn load(&mut self, name: &str) -> bool \x7b" = some loadHead :=
    dropMark?_append "    pub " loadHead
  have harms : ∀ line ∈ commands.flatMap loadArm, Avoids bodyMarks line := by
    intro line hline
    obtain ⟨command, hcommand, harm⟩ := List.mem_flatMap.mp hline
    exact List.forall_iff_forall_mem.mp (avoids_loadArm (h command hcommand).name) line harm
  have hreached := reachedIn_flatMap fun command hcommand => reachedIn_loadArm (h command hcommand).name
  have hmethod :=
    hcomment.append (reads_match hhead (avoids_ofList rfl) (isSilent_ofList rfl) harms hreached)
  simpa only [singleLoader, matchBody, List.cons_append, List.nil_append, List.append_assoc] using hmethod

def queryHead : String :=
  "fn is_loaded(&self, name: &str) -> bool \x7b"

theorem avoids_loadedArm (h : IsIdentifier command.name) : Avoids bodyMarks (loadedArm command) := by
  have hname := h.not_mem (show isIdentifierChar '\n' = false from rfl)
  unfold loadedArm
  simp only [String.append_assoc]
  exact avoids_append rfl (by simp [hname])

theorem reads_loadedQuery (h : ∀ command ∈ commands, IsWritable command) :
    Reads (loadedQuery commands) [] [] [(queryHead, matchBody (commands.map loadedArm))]
      (commands.map (·.name)) := by
  have hcomment : Reads ["    /// Returns whether the named entry point is bound.",
      "    #[must_use]"] [] [] [] [] :=
    reads_of_inert ⟨inert_ofList rfl rfl, inert_ofList rfl rfl⟩
  have hhead : methodHead? "    pub fn is_loaded(&self, name: &str) -> bool \x7b" = some queryHead :=
    dropMark?_append "    pub " queryHead
  have harms : ∀ line ∈ commands.map loadedArm, Avoids bodyMarks line := by
    intro line hline
    obtain ⟨command, hcommand, rfl⟩ := List.mem_map.mp hline
    exact avoids_loadedArm (h command hcommand).name
  have hreached : reachedIn (commands.map loadedArm) = commands.map (·.name) := by
    rw [List.map_eq_flatMap, List.map_eq_flatMap]
    refine reachedIn_flatMap fun command hcommand => ?_
    have hname := (h command hcommand).name
    rw [reachedIn_of_avoids (List.forall_mem_singleton.mpr (avoids_loadedArm hname).of_cons),
      List.flatMap_singleton, mentions_loadedArm hname]
  have hmethod :=
    hcomment.append (reads_match hhead (avoids_ofList rfl) (isSilent_ofList rfl) harms hreached)
  simpa only [loadedQuery, matchBody, List.cons_append, List.nil_append, List.append_assoc] using hmethod

theorem reads_resolveMethod : Reads resolveMethod [] [] [] [] :=
  reads_of_inert ⟨inert_ofList rfl rfl, inert_ofList rfl rfl, inert_ofList rfl rfl, inert_ofList rfl rfl,
    inert_ofList rfl rfl, inert_ofList rfl rfl, inert_ofList rfl rfl, inert_ofList rfl rfl⟩

theorem reads_missingFunction : Reads missingFunction [] [] [] [] :=
  reads_of_inert ⟨inert_ofList rfl rfl, inert_ofList rfl rfl, inert_ofList rfl rfl, inert_ofList rfl rfl,
    inert_ofList rfl rfl⟩

/-! ### The whole artifact -/

def methodBodies (commands : List BoundCommand) (probe : Probe) : List (String × List String) :=
  ("fn new() -> Self \x7b", ["        Self::default()"]) ::
    (commands.map (fun command => (trampolineHead command, [call command])) ++
      [probeLoaderMethod probe,
        (loaderHead "load_all_functions", loaderBody (commands.map (·.name))),
        (loadHead, matchBody (commands.flatMap loadArm)),
        (queryHead, matchBody (commands.map loadedArm))])

def methodReaches (commands : List BoundCommand) (probe : Probe) : List String :=
  let names := commands.map (·.name)
  names ++ (if probe.present then [probe.name] else []) ++ names ++
    names.flatMap (fun name => [name, name]) ++ names

theorem reads_methods {names : SharedNames} {probe : Probe} (hclass : IsIdentifier names.nativeClass)
    (hprobe : IsIdentifier probe.name) (h : ∀ command ∈ commands, IsWritable command) :
    Reads (methods names commands probe) [] [] (methodBodies commands probe)
      (methodReaches commands probe) := by
  have hstart : Reads ["#[allow(",
      "    non_snake_case,",
      "    dead_code,",
      "    unused_unsafe,",
      "    improper_ctypes_definitions,",
      "    clippy::too_many_arguments,",
      "    clippy::missing_safety_doc",
      ")]",
      "impl " ++ names.nativeClass ++ " \x7b"] [] [] [] [] :=
    reads_of_inert ⟨inert_ofList rfl rfl, inert_ofList rfl rfl, inert_ofList rfl rfl, inert_ofList rfl rfl,
      inert_ofList rfl rfl, inert_ofList rfl rfl, inert_ofList rfl rfl, inert_ofList rfl rfl,
      inert_around (hclass.not_mem rfl) (hclass.not_mem rfl) rfl rfl rfl rfl⟩
  have hblank : Reads [""] [] [] [] [] := reads_of_inert (inert_ofList rfl rfl)
  have hend : Reads ["\x7d", ""] [] [] [] [] := reads_of_inert ⟨inert_ofList rfl rfl, inert_ofList rfl rfl⟩
  have htrampolines := Reads.flatMap fun command hcommand =>
    hblank.append (reads_trampoline (h command hcommand))
  have hchunk := ((((((hstart.append reads_constructor).append htrampolines).append
    (hblank.append (reads_probeLoader hprobe))).append (hblank.append (reads_fullLoader h))).append
      (hblank.append (reads_singleLoader h))).append (hblank.append (reads_loadedQuery h))).append
        ((hblank.append reads_resolveMethod).append hend)
  simp only [flatMap_nil_right, List.append_nil, List.nil_append, ← List.map_eq_flatMap] at hchunk
  unfold methods methodBodies methodReaches
  simpa only [List.append_assoc, List.cons_append, List.nil_append, List.flatMap_map] using hchunk

theorem reads_commands {names : SharedNames} {probe : Probe} (hspace : IsIdentifier names.space)
    (hclass : IsIdentifier names.nativeClass) (hprobe : IsIdentifier probe.name)
    (h : ∀ command ∈ commands, IsWritable command) :
    Reads (LoaderStruct.commands names commands probe)
      (commands.map fun command => (command.name, signature command))
      (commands.map fun command => (command.name, command.name))
      (methodBodies commands probe) (methodReaches commands probe) := by
  have hstart : Reads [header,
      "// Must be included in the same module as the enums artifact declaring `" ++ names.space ++ "`.",
      "",
      "#[allow(unused_imports)]",
      "use self::" ++ names.space ++ "::*;",
      ""] [] [] [] [] :=
    reads_of_inert ⟨inert_ofList rfl rfl,
      inert_around (hspace.not_mem rfl) (hspace.not_mem rfl) rfl rfl rfl rfl, inert_ofList rfl rfl,
      inert_ofList rfl rfl, inert_around (hspace.not_mem rfl) (hspace.not_mem rfl) rfl rfl rfl rfl,
      inert_ofList rfl rfl⟩
  have haliases := Reads.flatMap fun command hcommand => reads_typeAlias (h command hcommand)
  have hblank : Reads (if commands.isEmpty then [] else [""]) [] [] [] [] := by
    split
    · exact reads_of_inert trivial
    · exact reads_of_inert (inert_ofList rfl rfl)
  have hchunk := ((((hstart.append haliases).append hblank).append (reads_table hclass h)).append
    (reads_methods hclass hprobe h)).append reads_missingFunction
  simp only [flatMap_nil_right, List.append_nil, List.nil_append, ← List.map_eq_flatMap] at hchunk
  exact hchunk

end RegistryBindings.Artifact.LoaderStruct
