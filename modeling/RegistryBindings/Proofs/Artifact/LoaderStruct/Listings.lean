import RegistryBindings.Artifact.Bindings
import RegistryBindings.Proofs.Artifact.LoaderStruct.Chunks

/-!
# The listings of a loader struct

What the readers find in a whole artifact. Six walks over the commands, each with its own piece of text, list
the same commands in the same order, and every piece uses the slot, the key and the alias of its own command.
The narrow loader is the one place where another name comes in, and that name is a command of the version.
-/

namespace RegistryBindings.Artifact.LoaderStruct

open Binding Text

variable {command : BoundCommand} {commands : List BoundCommand}

/-! ### The methods, read one by one -/

theorem trampoline?_trampoline (h : IsWritable command) :
    trampoline? (trampolineHead command, [call command]) =
      some ⟨command.name, methodSignature command,
        [(command.name, command.name, command.parameters.map (·.name))]⟩ := by
  have hname : named? "unsafe extern \"system-unwind\" fn " (trampolineHead command) =
      some (command.name, "(&self" ++ (methodSignature command ++ " \x7b")) :=
    named?_append _ h.name.2 (endsWord_append rfl _)
  simp only [trampoline?, hname, enclosed?_append, List.filterMap_cons_some (callLine?_call h),
    List.filterMap_nil, Option.bind_eq_bind, Option.bind_some, Option.pure_def]

theorem trampoline?_eq_none {head : String} {body : List String}
    (h : dropMark? "unsafe extern \"system-unwind\" fn " head = none) : trampoline? (head, body) = none := by
  simp only [trampoline?, named?_eq_none h, Option.bind_eq_bind, Option.bind_none]

theorem loader?_loader {method : String} {names : List String}
    (hmethod : ∀ c ∈ method.toList, isIdentifierChar c = true) (hnames : ∀ name ∈ names, IsIdentifier name) :
    loader? (loaderHead method, loaderBody names) = some (method, names.map fun name => (name, name)) := by
  have hname : named? "fn " (loaderHead method) = some (method, "<F>(&mut self, get_proc_address: F)") :=
    named?_append _ hmethod (endsWord_ofList rfl)
  have hstart : ["    where",
      "        F: " ++ resolver ++ " + 'static,",
      "    \x7b",
      "        self.get_proc_address = Some(Box::new(get_proc_address));"].filterMap
        (assignmentLine? "        self.p_") = [] := by
    rw [String.append_assoc]
    refine List.filterMap_eq_nil_iff.mpr (List.forall_iff_forall_mem.mp ?_)
    exact ⟨pairLine?_eq_none (dropMark?_ofList rfl),
      pairLine?_eq_none (dropMark?_append_of_differ rfl _),
      pairLine?_eq_none (dropMark?_ofList rfl), pairLine?_eq_none (dropMark?_ofList rfl)⟩
  have hassignments : (names.map fun name => "        " ++ assignment name).filterMap
      (assignmentLine? "        self.p_") = names.map fun name => (name, name) := by
    have hmark : "        self.p_" = "        " ++ "self.p_" := rfl
    rw [hmark]
    exact filterMap_map_eq_map fun name hname => assignmentLine?_assignment _ (hnames name hname)
  simp only [loader?, hname, loaderBody, List.filterMap_append, hstart, hassignments, List.nil_append,
    Option.bind_eq_bind, Option.bind_some, if_true]

theorem loader?_eq_none {head name rest : String} {body : List String} (hhead : head = "fn " ++ (name ++ rest))
    (hname : ∀ c ∈ name.toList, isIdentifierChar c = true) (hend : EndsWord rest)
    (hrest : rest ≠ "<F>(&mut self, get_proc_address: F)") : loader? (head, body) = none := by
  rw [hhead]
  simp only [loader?, named?_append _ hname hend, hrest, Option.bind_eq_bind, Option.bind_some, if_false]

theorem loader?_trampoline {body : List String} : loader? (trampolineHead command, body) = none := by
  have hmark : dropMark? "fn " (trampolineHead command) = none := dropMark?_append_of_differ rfl _
  simp only [loader?, named?_eq_none hmark, Option.bind_eq_bind, Option.bind_none]

theorem filterMap_trampoline? {probe : Probe} (h : ∀ command ∈ commands, IsWritable command) :
    (methodBodies commands probe).filterMap trampoline? =
      commands.map fun command => ⟨command.name, methodSignature command,
        [(command.name, command.name, command.parameters.map (·.name))]⟩ := by
  have hloader (method : String) (body : List String) : trampoline? (loaderHead method, body) = none :=
    trampoline?_eq_none (dropMark?_append_of_differ rfl _)
  have htrampolines : (commands.map fun command => (trampolineHead command, [call command])).filterMap
      trampoline? = commands.map fun command => ⟨command.name, methodSignature command,
        [(command.name, command.name, command.parameters.map (·.name))]⟩ :=
    filterMap_map_eq_map fun command hcommand => trampoline?_trampoline (h command hcommand)
  have hnew : trampoline? ("fn new() -> Self \x7b", ["        Self::default()"]) = none :=
    trampoline?_eq_none (dropMark?_ofList rfl)
  have hload : trampoline? (loadHead, matchBody (commands.flatMap loadArm)) = none :=
    trampoline?_eq_none (dropMark?_ofList rfl)
  have hquery : trampoline? (queryHead, matchBody (commands.map loadedArm)) = none :=
    trampoline?_eq_none (dropMark?_ofList rfl)
  rw [methodBodies, List.filterMap_cons_none hnew, List.filterMap_append, htrampolines, probeLoaderMethod,
    List.filterMap_cons_none (hloader _ _), List.filterMap_cons_none (hloader _ _),
    List.filterMap_cons_none hload, List.filterMap_cons_none hquery, List.filterMap_nil, List.append_nil]

theorem filterMap_loader? {probe : Probe} (hprobe : IsIdentifier probe.name)
    (h : ∀ command ∈ commands, IsWritable command) :
    (methodBodies commands probe).filterMap loader? =
      [(probeMethod probe.name, if probe.present then [(probe.name, probe.name)] else []),
        ("load_all_functions", commands.map fun command => (command.name, command.name))] := by
  have hnew : loader? ("fn new() -> Self \x7b", ["        Self::default()"]) = none := by
    have hhead : "fn new() -> Self \x7b" = "fn " ++ ("new" ++ "() -> Self \x7b") := rfl
    exact loader?_eq_none hhead (forall_mem_of_all (by decide)) (endsWord_ofList rfl) (by decide)
  have htrampolines : (commands.map fun command => (trampolineHead command, [call command])).filterMap
      loader? = [] := by
    rw [List.filterMap_map]
    exact List.filterMap_eq_nil_iff.mpr fun command _ => loader?_trampoline
  have hnarrow : loader? (probeLoaderMethod probe) =
      some (probeMethod probe.name, if probe.present then [(probe.name, probe.name)] else []) := by
    have hmethod := isIdentifierChar_probeMethod hprobe
    rw [probeLoaderMethod]
    split
    · exact loader?_loader hmethod (List.forall_mem_singleton.mpr hprobe)
    · exact loader?_loader hmethod (by simp)
  have hfull : loader? (loaderHead "load_all_functions", loaderBody (commands.map (·.name))) =
      some ("load_all_functions", commands.map fun command => (command.name, command.name)) := by
    have hnames : ∀ name ∈ commands.map (·.name), IsIdentifier name := by
      intro name hname
      obtain ⟨command, hcommand, rfl⟩ := List.mem_map.mp hname
      exact (h command hcommand).name
    rw [loader?_loader (forall_mem_of_all (by decide)) hnames, List.map_map]
    rfl
  have hload : loader? (loadHead, matchBody (commands.flatMap loadArm)) = none := by
    have hhead : loadHead = "fn " ++ ("load" ++ "(&mut self, name: &str) -> bool \x7b") := rfl
    exact loader?_eq_none hhead (forall_mem_of_all (by decide)) (endsWord_ofList rfl) (by decide)
  have hquery : loader? (queryHead, matchBody (commands.map loadedArm)) = none := by
    have hhead : queryHead = "fn " ++ ("is_loaded" ++ "(&self, name: &str) -> bool \x7b") := rfl
    exact loader?_eq_none hhead (forall_mem_of_all (by decide)) (endsWord_ofList rfl) (by decide)
  rw [methodBodies, List.filterMap_cons_none hnew, List.filterMap_append, htrampolines, List.nil_append,
    List.filterMap_cons_some hnarrow, List.filterMap_cons_some hfull, List.filterMap_cons_none hload,
    List.filterMap_cons_none hquery, List.filterMap_nil]

theorem bodyOf_cons_of_ne {head other : String} (h : other ≠ head) (body : List String)
    (methods : List (String × List String)) :
    bodyOf head ((other, body) :: methods) = bodyOf head methods := by
  rw [bodyOf, List.filter_cons_of_neg (by simpa using h), bodyOf]

theorem bodyOf_cons_self (head : String) (body : List String) (methods : List (String × List String)) :
    bodyOf head ((head, body) :: methods) = body ++ bodyOf head methods := by
  rw [bodyOf, List.filter_cons_of_pos (by simp), List.flatMap_cons, bodyOf]

theorem bodyOf_trampolines {head : String} (h : ∀ command ∈ commands, trampolineHead command ≠ head)
    (methods : List (String × List String)) :
    bodyOf head (commands.map (fun command => (trampolineHead command, [call command])) ++ methods) =
      bodyOf head methods := by
  induction commands with
  | nil => rfl
  | cons command commands ih =>
    rw [List.map_cons, List.cons_append, bodyOf_cons_of_ne (h command List.mem_cons_self)]
    exact ih fun other hother => h other (List.mem_cons_of_mem command hother)

theorem probeHead_eq (probe : String) :
    loaderHead (probeMethod probe) =
      "fn load_" ++ (toSnakeCase (withoutApi probe) ++ "<F>(&mut self, get_proc_address: F)") := by
  have hmark : "fn load_" = "fn " ++ "load_" := rfl
  unfold loaderHead probeMethod
  simp only [hmark, String.append_assoc]

theorem bodyOf_loadHead (commands : List BoundCommand) (probe : Probe) :
    bodyOf loadHead (methodBodies commands probe) = matchBody (commands.flatMap loadArm) := by
  have hnew : "fn new() -> Self \x7b" ≠ loadHead := by decide
  have htrampoline : ∀ command ∈ commands, trampolineHead command ≠ loadHead :=
    fun command _ => append_ne_of_differ rfl _
  have hnarrow : loaderHead (probeMethod probe.name) ≠ loadHead := by
    rw [probeHead_eq]
    exact append_ne_of_differ rfl _
  have hfull : loaderHead "load_all_functions" ≠ loadHead := by decide
  have hquery : queryHead ≠ loadHead := by decide
  rw [methodBodies, bodyOf_cons_of_ne hnew, bodyOf_trampolines htrampoline, probeLoaderMethod,
    bodyOf_cons_of_ne hnarrow, bodyOf_cons_of_ne hfull, bodyOf_cons_self, bodyOf_cons_of_ne hquery]
  exact List.append_nil _

theorem bodyOf_queryHead (commands : List BoundCommand) (probe : Probe) :
    bodyOf queryHead (methodBodies commands probe) = matchBody (commands.map loadedArm) := by
  have hnew : "fn new() -> Self \x7b" ≠ queryHead := by decide
  have htrampoline : ∀ command ∈ commands, trampolineHead command ≠ queryHead :=
    fun command _ => append_ne_of_differ rfl _
  have hnarrow : loaderHead (probeMethod probe.name) ≠ queryHead := by
    rw [probeHead_eq]
    exact append_ne_of_differ rfl _
  have hfull : loaderHead "load_all_functions" ≠ queryHead := by decide
  have hload : loadHead ≠ queryHead := by decide
  rw [methodBodies, bodyOf_cons_of_ne hnew, bodyOf_trampolines htrampoline, probeLoaderMethod,
    bodyOf_cons_of_ne hnarrow, bodyOf_cons_of_ne hfull, bodyOf_cons_of_ne hload, bodyOf_cons_self]
  exact List.append_nil _

/-! ### The arms of the two matches -/

theorem yields_loadArm (h : IsIdentifier command.name) :
    Yields armHead? closesArm (loadArm command)
      [(command.name, ["                " ++ assignment command.name,
        "                self.p_" ++ (command.name ++ ".is_some()")])] := by
  have hbody : ["                " ++ assignment command.name,
      "                self.p_" ++ (command.name ++ ".is_some()")].Forall fun line =>
        armHead? line = none ∧ closesArm line = false :=
    ⟨⟨wordLine?_eq_none (dropMark?_append_of_differ rfl _), decide_eq_false (append_ne_of_differ rfl _)⟩,
      wordLine?_eq_none (dropMark?_append_of_differ rfl _), decide_eq_false (append_ne_of_differ rfl _)⟩
  rw [List.forall_iff_forall_mem] at hbody
  have hclosing : armHead? "            \x7d" = none := wordLine?_eq_none (dropMark?_ofList rfl)
  rw [loadArm_eq]
  exact yields_body (armHead?_loadArm h) (fun line hline => (hbody line hline).1)
    (fun line hline => (hbody line hline).2) hclosing (decide_eq_true rfl)

theorem bodies_loadArms (h : ∀ command ∈ commands, IsWritable command) :
    bodies armHead? closesArm (matchBody (commands.flatMap loadArm)) =
      commands.map fun command => (command.name, ["                " ++ assignment command.name,
        "                self.p_" ++ (command.name ++ ".is_some()")]) := by
  have hstart : Yields armHead? closesArm ["        match name \x7b"] [] :=
    yields_nil (List.forall_mem_singleton.mpr (wordLine?_eq_none (dropMark?_ofList rfl)))
  have harms := Yields.flatMap fun command hcommand => yields_loadArm (h command hcommand).name
  have hother : ["            _ => false,", "        \x7d"].Forall (armHead? · = none) :=
    ⟨wordLine?_eq_none (dropMark?_ofList rfl), wordLine?_eq_none (dropMark?_ofList rfl)⟩
  have hend : Yields armHead? closesArm ["            _ => false,", "        \x7d"] [] :=
    yields_nil (List.forall_iff_forall_mem.mp hother)
  have hall := (hstart.append (harms.append hend)).bodies_eq
  simpa only [matchBody, List.singleton_append, List.nil_append, List.append_nil, ← List.map_eq_flatMap]
    using hall

theorem filterMap_testArm? (h : ∀ command ∈ commands, IsWritable command) :
    (matchBody (commands.map loadedArm)).filterMap testArm? =
      commands.map fun command => (command.name, command.name) := by
  have hfixed {line : List Char} (hline : (strip? [' ', ' ', ' ', ' ', ' ', ' ', ' ', ' ', ' ', ' ', ' ',
      ' ', '"'] line).isNone = true) : testArm? (String.ofList line) = none := by
    have hmark : dropMark? "            \"" (String.ofList line) = none := dropMark?_ofList hline
    exact pairLine?_eq_none hmark
  have hmatch : testArm? "        match name \x7b" = none := hfixed rfl
  have hother : testArm? "            _ => false," = none := hfixed rfl
  have hclosing : testArm? "        \x7d" = none := hfixed rfl
  have harms : (commands.map loadedArm).filterMap testArm? =
      commands.map fun command => (command.name, command.name) :=
    filterMap_map_eq_map fun command hcommand => testArm?_loadedArm (h command hcommand).name
  rw [matchBody, List.filterMap_cons_none hmatch, List.filterMap_append, harms,
    List.filterMap_cons_none hother, List.filterMap_cons_none hclosing, List.filterMap_nil, List.append_nil]

/-! ### The listings -/

/-- The listings of the commands: each of the six is the commands in their order, each with its own slot, key
and alias, and the narrow loader binds the probe if it is there. -/
def Listings.ofCommands (commands : List BoundCommand) (probe : Probe) : Listings where
  aliases := commands.map fun command => (command.name, signature command)
  slots := commands.map fun command => (command.name, command.name)
  trampolines := commands.map fun command =>
    ⟨command.name, methodSignature command,
      [(command.name, command.name, command.parameters.map (·.name))]⟩
  loaders :=
    [(probeMethod probe.name, if probe.present then [(probe.name, probe.name)] else []),
      ("load_all_functions", commands.map fun command => (command.name, command.name))]
  loadArms := commands.map fun command => (command.name, [(command.name, command.name)], [command.name])
  testArms := commands.map fun command => (command.name, command.name)
  reached := methodReaches commands probe

structure AreWritable (names : SharedNames) (commands : List BoundCommand) (probe : Probe) : Prop where
  space : IsIdentifier names.space
  nativeClass : IsIdentifier names.nativeClass
  probe : IsIdentifier probe.name
  commands : ∀ command ∈ commands, IsWritable command

theorem ofText_commands {names : SharedNames} {probe : Probe} (h : AreWritable names commands probe) :
    Listings.ofText (unlines (LoaderStruct.commands names commands probe)) =
      Listings.ofCommands commands probe := by
  have hreads := reads_commands h.space h.nativeClass h.probe h.commands
  have hload := bodyOf_loadHead commands probe
  have hquery := bodyOf_queryHead commands probe
  unfold loadHead at hload
  unfold queryHead at hquery
  simp only [Listings.ofText, Listings.ofCommands, lines_unlines hreads.not_mem, hreads.aliases_eq,
    hreads.slots_eq, hreads.methods_yield.bodies_eq, hreads.reached_eq, filterMap_trampoline? h.commands,
    filterMap_loader? h.probe h.commands, hload, hquery, bodies_loadArms h.commands,
    filterMap_testArm? h.commands]
  congr 1
  rw [List.map_map]
  refine List.map_congr_left fun command hcommand => ?_
  have hname := (h.commands command hcommand).name
  have hassignment : assignmentLine? "                self.p_" ("                " ++ assignment command.name) =
      some (command.name, command.name) :=
    assignmentLine?_assignment "                " hname
  simp only [Function.comp_apply, List.filterMap_cons, List.filterMap_nil, hassignment,
    assignmentLine?_test hname, testLine?_assignment hname, testLine?_test hname]

theorem mem_names_of_reached {commands : List BoundCommand} {probe : Probe}
    (hprobe : probe.present = true → probe.name ∈ commands.map (·.name)) :
    ∀ slot ∈ methodReaches commands probe, slot ∈ commands.map (·.name) := by
  intro slot hslot
  simp only [methodReaches, List.mem_append, List.mem_flatMap, List.mem_cons, List.not_mem_nil,
    or_false, or_self] at hslot
  rcases hslot with (((hname | hnarrow) | hname) | ⟨name, hname, rfl⟩) | hname
  · exact hname
  · split at hnarrow
    · next hpresent =>
      rw [List.mem_singleton] at hnarrow
      exact hnarrow ▸ hprobe hpresent
    · cases hnarrow
  · exact hname
  · exact hname
  · exact hname

/-- The probe of a version is one of its commands, if it is there. -/
theorem probe_mem_ofVersion {version : Registry.Version} {reserved : ReservedWords} {probe : String}
    (h : (Interface.ofVersion version reserved probe).probe.present = true) :
    probe ∈ (Interface.ofVersion version reserved probe).commands.map (·.name) := by
  obtain ⟨command, hcommand⟩ := Option.isSome_iff_exists.mp h
  have hfound := List.find?_some hcommand
  have hname : command.name = probe := of_decide_eq_true hfound
  refine List.mem_map.mpr ⟨BoundCommand.ofCommand version reserved command, ?_, hname⟩
  exact List.mem_map_of_mem (List.mem_of_find?_eq_some hcommand)

/-- The artifact of any commands lists them in six places in the same way. In the artifact of a version all
slots that code reaches are in the table, and the types of all slots are declared. -/
theorem ofText_commands_agree :
    (∀ names commands probe, AreWritable names commands probe →
      Listings.ofText (unlines (LoaderStruct.commands names commands probe)) =
        Listings.ofCommands commands probe) ∧
    ∀ (version : Registry.Version) (config : Config), config.target = .rust →
      AreWritable config.names (Interface.ofVersion version config.reserved config.probe).commands
        (Interface.ofVersion version config.reserved config.probe).probe →
      ∀ found, Listings.ofText (Bindings.ofVersion version config).commands = found →
        (∀ slot ∈ found.reached, slot ∈ found.slots.map (·.1)) ∧
          ∀ slot ∈ found.slots, slot.2 ∈ found.aliases.map (·.1) := by
  refine ⟨fun names commands probe => ofText_commands, ?_⟩
  rintro version config htarget h found rfl
  rw [Bindings.commands_ofVersion, htarget, Target.commands, ofText_commands h]
  constructor
  · intro slot hslot
    have hname := mem_names_of_reached probe_mem_ofVersion slot hslot
    simpa only [Listings.ofCommands, List.map_map, Function.comp_def] using hname
  · intro slot hslot
    obtain ⟨command, hcommand, rfl⟩ := List.mem_map.mp hslot
    exact List.mem_map.mpr ⟨(command.name, signature command), List.mem_map_of_mem hcommand, rfl⟩

def smallVersion : Registry.Version :=
  ({ api := "gl", name := "GL_VERSION_1_0", number := "1.0",
     commands := [⟨"glGetString", ⟨"const GLubyte *", none⟩, [⟨"type", ⟨"GLenum", some "StringName"⟩⟩]⟩,
       ⟨"glFlush", ⟨"void", none⟩, []⟩] } : Registry.Version).addGroup
    ⟨"StringName", [⟨"GL_VENDOR", "VENDOR", "0x1F00"⟩]⟩

theorem areWritable_small :
    AreWritable ({} : Config).names
      (Interface.ofVersion smallVersion ({} : Config).reserved "glGetString").commands
      (Interface.ofVersion smallVersion ({} : Config).reserved "glGetString").probe := by
  have hcommands : (Interface.ofVersion smallVersion ({} : Config).reserved "glGetString").commands =
      [⟨"glGetString", .pointer .uint8 .constant 1, [⟨"r#type", .enum "StringName"⟩]⟩,
        ⟨"glFlush", .scalar .void, []⟩] := by
    decide +kernel
  have hgetString : IsWritable
      ⟨"glGetString", .pointer .uint8 .constant 1, [⟨"r#type", .enum "StringName"⟩]⟩ :=
    ⟨by decide, List.forall_mem_singleton.mpr (.inr ⟨"type", by decide, rfl⟩), by decide⟩
  have hflush : IsWritable ⟨"glFlush", .scalar .void, []⟩ := ⟨by decide, by simp, by decide⟩
  refine ⟨by decide, by decide, by decide, ?_⟩
  rw [hcommands]
  exact List.forall_mem_cons.mpr ⟨hgetString, List.forall_mem_singleton.mpr hflush⟩

theorem ofText_commands_small :
    (Listings.ofText (Bindings.ofVersion smallVersion {}).commands).aliases =
        [("glGetString", "r#type: StringName) -> *const u8"), ("glFlush", ")")] ∧
      ∀ slot ∈ (Listings.ofText (Bindings.ofVersion smallVersion {}).commands).reached,
        slot ∈ (Listings.ofText (Bindings.ofVersion smallVersion {}).commands).slots.map (·.1) := by
  have hlistings := ofText_commands_agree.1 _ _ _ areWritable_small
  refine ⟨?_, (ofText_commands_agree.2 smallVersion {} rfl areWritable_small _ rfl).1⟩
  rw [Bindings.commands_ofVersion, Target.commands, hlistings]
  decide +kernel

end RegistryBindings.Artifact.LoaderStruct
