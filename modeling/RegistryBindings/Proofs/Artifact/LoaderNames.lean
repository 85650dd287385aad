import RegistryBindings.Artifact.Bindings
import RegistryBindings.Proofs.Artifact.Lines
import RegistryBindings.Proofs.Artifact.LoaderStruct.Chunks
import RegistryBindings.Proofs.Binding.Identifier

/-!
# The name of the narrow loader

Each language has methods that every commands artifact declares, whatever is bound in it. They are found by reading
artifacts, and the narrow loader is named after its probe, so that it could take the name of one of them. One check of
the configuration, on the name in snake case, prevents that in both languages: in Rust it refuses no probe without
need, and in Beef, where the loader's name is not in snake case, a name that it lets pass is not taken either.
-/

namespace RegistryBindings.Artifact

open Binding Text

theorem StaticExtension.isIdentifierChar_probeMethod {probe : String} (h : IsIdentifier probe) :
    ∀ c ∈ (probeMethod probe).toList, isIdentifierChar c = true := by
  have hload : ∀ c ∈ "Load".toList, isIdentifierChar c = true := forall_mem_of_all (by decide)
  intro c hc
  rw [probeMethod, String.toList_append, List.mem_append] at hc
  exact hc.elim (hload c) (isIdentifierChar_withoutApi h.2 c)

namespace Target

/-! ### The methods of an artifact -/

/-- What stands before the name of a method. In Beef these are the methods that return nothing, as loaders do. -/
def methodMarks : Target → List (List Char)
  | rust =>
    [[' ', ' ', ' ', ' ', 'p', 'u', 'b', ' ', 'f', 'n', ' '],
      [' ', ' ', ' ', ' ', 'p', 'u', 'b', ' ', 'u', 'n', 's', 'a', 'f', 'e', ' ', 'e', 'x', 't', 'e', 'r', 'n', ' ',
        '"', 's', 'y', 's', 't', 'e', 'm', '-', 'u', 'n', 'w', 'i', 'n', 'd', '"', ' ', 'f', 'n', ' '],
      [' ', ' ', ' ', ' ', 'f', 'n', ' ']]
  | beef =>
    [['\t', 'p', 'u', 'b', 'l', 'i', 'c', ' ', 's', 't', 'a', 't', 'i', 'c', ' ', 'v', 'o', 'i', 'd', ' '],
      ['\t', 'p', 'r', 'i', 'v', 'a', 't', 'e', ' ', 's', 't', 'a', 't', 'i', 'c', ' ', 'v', 'o', 'i', 'd', ' ']]

def methodName? (target : Target) (line : String) : Option String :=
  target.methodMarks.findSome? fun mark => (named? (String.ofList mark) line).map (·.1)

def methodNames (target : Target) (text : String) : List String :=
  (lines text).filterMap target.methodName?

/-- Every commands artifact of the language declares the method. -/
def IsFixedMethod (target : Target) (method : String) : Prop :=
  ∀ version config, config.target = target → method ∈ target.methodNames (Bindings.ofVersion version config).commands

def narrowLoader : Target → String → String
  | rust => LoaderStruct.probeMethod
  | beef => StaticExtension.probeMethod

def declared? (target : Target) (line : List Char) : Option (List Char) :=
  target.methodMarks.findSome? fun mark => (strip? mark line).map (·.takeWhile isIdentifierChar)

theorem methodName?_ofList (target : Target) (line : List Char) :
    target.methodName? (String.ofList line) = (target.declared? line).map String.ofList := by
  rw [methodName?, declared?, List.map_findSome?]
  congr 1
  funext mark
  simp only [named?, dropMark?, String.toList_ofList, Option.map_map, Function.comp_def]

variable {target : Target}

theorem methodName?_eq_none {line : String} (h : Avoids target.methodMarks line) : target.methodName? line = none := by
  rw [methodName?, List.findSome?_eq_none_iff]
  intro mark hmark
  rw [named?_eq_none (h.dropMark?_eq_none mark hmark), Option.map_none]

/-- The method of a line that begins with the first mark. -/
theorem methodName?_append {mark : List Char} {marks : List (List Char)} (hmarks : target.methodMarks = mark :: marks)
    {method rest : String} (hmethod : ∀ c ∈ method.toList, isIdentifierChar c = true) (hrest : EndsWord rest) :
    target.methodName? (String.ofList mark ++ (method ++ rest)) = some method := by
  rw [methodName?, hmarks, List.findSome?_cons, named?_append (String.ofList mark) hmethod hrest]
  rfl

def loaderMarks : Target → String × String
  | rust => ("    pub fn ", "<F>(&mut self, get_proc_address: F)")
  | beef => ("\tpublic static void ", "(function void*(StringView) getProcAddress)")

def loaderLine (target : Target) (method : String) : String :=
  target.loaderMarks.1 ++ (method ++ target.loaderMarks.2)

theorem methodName?_loaderLine (target : Target) {method : String}
    (h : ∀ c ∈ method.toList, isIdentifierChar c = true) :
    target.methodName? (target.loaderLine method) = some method := by
  cases target with
  | rust => exact methodName?_append rfl h (endsWord_ofList rfl)
  | beef => exact methodName?_append rfl h (endsWord_ofList rfl)

theorem not_mem_newline_loaderLine (target : Target) {method : String}
    (h : ∀ c ∈ method.toList, isIdentifierChar c = true) : '\n' ∉ (target.loaderLine method).toList := by
  have hmethod : '\n' ∉ method.toList := fun hmem => absurd (h '\n' hmem) (by decide)
  cases target <;> simp [loaderLine, loaderMarks, hmethod]

/-! ### The methods of every artifact -/

/-- The methods that every artifact declares, each with the line that declares it. -/
def fixedLines : Target → List (String × String)
  | rust =>
    [("new", "    pub fn new() -> Self \x7b"),
      ("load", "    pub fn load(&mut self, name: &str) -> bool \x7b"),
      ("load_all_functions", "    pub fn load_all_functions<F>(&mut self, get_proc_address: F)"),
      ("is_loaded", "    pub fn is_loaded(&self, name: &str) -> bool \x7b"),
      ("load_function", "    fn load_function<T: Copy>(&mut self, name: &str) -> Option<T> \x7b")]
  | beef =>
    [("LoadAllFunctions", "\tpublic static void LoadAllFunctions(function void*(StringView) getProcAddress)"),
      ("LoadFunction", "\tprivate static void LoadFunction<T>(StringView name, out T field)")]

def fixedMethods (target : Target) : List String :=
  target.fixedLines.map (·.1)

theorem methodName?_fixedLines : ∀ line ∈ target.fixedLines, target.methodName? line.2 = some line.1 := by
  cases target with
  | rust =>
    simp only [fixedLines, List.forall_mem_cons]
    exact ⟨methodName?_ofList _ _, methodName?_ofList _ _, methodName?_ofList _ _, methodName?_ofList _ _,
      methodName?_ofList _ _, List.forall_mem_nil _⟩
  | beef =>
    simp only [fixedLines, List.forall_mem_cons]
    exact ⟨methodName?_ofList _ _, methodName?_ofList _ _, List.forall_mem_nil _⟩

theorem not_mem_newline_fixedLines : ∀ line ∈ target.fixedLines, '\n' ∉ line.2.toList := by
  have hplain {line : List Char} (h : '\n' ∉ line) : '\n' ∉ (String.ofList line).toList := by
    rwa [String.toList_ofList]
  cases target with
  | rust =>
    simp only [fixedLines, List.forall_mem_cons]
    exact ⟨hplain (by decide), hplain (by decide), hplain (by decide), hplain (by decide), hplain (by decide),
      List.forall_mem_nil _⟩
  | beef =>
    simp only [fixedLines, List.forall_mem_cons]
    exact ⟨hplain (by decide), hplain (by decide), List.forall_mem_nil _⟩

theorem mem_commands_of_mem_fixedLines (names : SharedNames) (commands : List BoundCommand) (probe : Probe) :
    ∀ line ∈ target.fixedLines, line.2 ∈ target.commands names commands probe := by
  cases target with
  | rust =>
    simp [fixedLines, Target.commands, LoaderStruct.commands, LoaderStruct.methods, LoaderStruct.constructor,
      LoaderStruct.fullLoader, LoaderStruct.loader, LoaderStruct.singleLoader, LoaderStruct.loadedQuery,
      LoaderStruct.resolveMethod]
  | beef =>
    simp [fixedLines, Target.commands, StaticExtension.commands, StaticExtension.fullLoader,
      StaticExtension.loaderStart, StaticExtension.resolveMethod]

theorem isFixedMethod_of_mem {method : String} (h : method ∈ target.fixedMethods) : target.IsFixedMethod method := by
  rintro version config rfl
  obtain ⟨line, hfixed, rfl⟩ := List.mem_map.mp h
  rw [methodNames, Bindings.commands_ofVersion, List.mem_filterMap]
  exact ⟨line.2,
    mem_lines_unlines (mem_commands_of_mem_fixedLines _ _ _ line hfixed) (not_mem_newline_fixedLines line hfixed),
    methodName?_fixedLines line hfixed⟩

theorem isIdentifierChar_narrowLoader (target : Target) {probe : String} (h : IsIdentifier probe) :
    ∀ c ∈ (target.narrowLoader probe).toList, isIdentifierChar c = true := by
  cases target with
  | rust => exact LoaderStruct.isIdentifierChar_probeMethod h
  | beef => exact StaticExtension.isIdentifierChar_probeMethod h

theorem loaderLine_mem_commands (target : Target) (names : SharedNames) (commands : List BoundCommand)
    (probe : Probe) : target.loaderLine (target.narrowLoader probe.name) ∈ target.commands names commands probe := by
  cases target with
  | rust =>
    have hmem : rust.loaderLine (rust.narrowLoader probe.name) ∈ LoaderStruct.probeLoader probe := by
      rw [LoaderStruct.probeLoader]
      split <;> simp [loaderLine, loaderMarks, narrowLoader, LoaderStruct.loader, String.append_assoc]
    simp only [Target.commands, LoaderStruct.commands, LoaderStruct.methods, List.mem_append, hmem, true_or, or_true]
  | beef =>
    have hmem : beef.loaderLine (beef.narrowLoader probe.name) ∈ StaticExtension.probeLoader probe := by
      simp [loaderLine, loaderMarks, narrowLoader, StaticExtension.probeLoader, StaticExtension.loaderStart,
        String.append_assoc]
    simp only [Target.commands, StaticExtension.commands, List.mem_append, hmem, true_or, or_true]

/-- An artifact declares its narrow loader as well, whether it has the probe or not. -/
theorem narrowLoader_mem_methodNames (version : Registry.Version) {config : Config} (h : IsIdentifier config.probe) :
    config.target.narrowLoader config.probe ∈
      config.target.methodNames (Bindings.ofVersion version config).commands := by
  have hname := isIdentifierChar_narrowLoader config.target h
  rw [methodNames, Bindings.commands_ofVersion, List.mem_filterMap]
  exact ⟨_, mem_lines_unlines (loaderLine_mem_commands _ _ _ _) (not_mem_newline_loaderLine _ hname),
    methodName?_loaderLine _ hname⟩

/-! ### The methods of an artifact that binds nothing -/

/-- One line, which declares one of the methods or none. -/
structure Allows (target : Target) (methods : List String) (line : String) : Prop where
  not_mem : '\n' ∉ line.toList
  mem_of_methodName? : ∀ method ∈ target.methodName? line, method ∈ methods

variable {methods : List String}

theorem methodNames_subset {given : List String} (h : ∀ line ∈ given, target.Allows methods line) :
    target.methodNames (unlines given) ⊆ methods := by
  intro method hmethod
  rw [methodNames, lines_unlines fun line hline => (h line hline).not_mem] at hmethod
  obtain ⟨line, hline, hname⟩ := List.mem_filterMap.mp hmethod
  exact (h line hline).mem_of_methodName? method hname

theorem allows_of_avoids {line : String} (h : Avoids target.methodMarks line) : target.Allows methods line where
  not_mem := h.not_mem
  mem_of_methodName? := by simp [methodName?_eq_none h]

theorem allows_of_methodName? {line method : String} (h : target.methodName? line = some method)
    (hline : '\n' ∉ line.toList) (hmethod : method ∈ methods) : target.Allows methods line where
  not_mem := hline
  mem_of_methodName? := by simpa [h] using hmethod

theorem allows_fixedLines (h : target.fixedMethods ⊆ methods) :
    ∀ line ∈ target.fixedLines, target.Allows methods line.2 :=
  fun line hline => allows_of_methodName? (methodName?_fixedLines line hline) (not_mem_newline_fixedLines line hline)
    (h (List.mem_map_of_mem hline))

theorem allows_loaderLine (target : Target) {method : String} (h : ∀ c ∈ method.toList, isIdentifierChar c = true)
    (hmem : method ∈ methods) : target.Allows methods (target.loaderLine method) :=
  allows_of_methodName? (methodName?_loaderLine target h) (not_mem_newline_loaderLine target h) hmem

theorem allows_rust_commands {names : SharedNames} {probe : String} (hspace : '\n' ∉ names.space.toList)
    (hclass : '\n' ∉ names.nativeClass.toList) (hprobe : IsIdentifier probe) :
    ∀ line ∈ rust.commands names [] ⟨probe, false⟩,
      rust.Allows (rust.narrowLoader probe :: rust.fixedMethods) line := by
  have hfixed := allows_fixedLines (List.subset_cons_self (rust.narrowLoader probe) rust.fixedMethods)
  simp only [fixedLines, List.forall_mem_cons] at hfixed
  obtain ⟨hnew, hload, -, hquery, hresolve, -⟩ := hfixed
  have hnarrow : rust.Allows (rust.narrowLoader probe :: rust.fixedMethods)
      ("    pub fn " ++ (LoaderStruct.probeMethod probe ++ "<F>(&mut self, get_proc_address: F)")) :=
    allows_loaderLine rust (isIdentifierChar_narrowLoader rust hprobe) List.mem_cons_self
  have hfull : rust.Allows (rust.narrowLoader probe :: rust.fixedMethods)
      ("    pub fn " ++ ("load_all_functions" ++ "<F>(&mut self, get_proc_address: F)")) :=
    allows_loaderLine rust (forall_mem_of_all (by decide)) (by simp [fixedMethods, fixedLines])
  simp only [Target.commands, LoaderStruct.commands, LoaderStruct.header, LoaderStruct.table, LoaderStruct.methods,
    LoaderStruct.constructor, LoaderStruct.probeLoader, LoaderStruct.fullLoader, LoaderStruct.loader,
    LoaderStruct.singleLoader, LoaderStruct.loadedQuery, LoaderStruct.resolveMethod, LoaderStruct.missingFunction,
    String.append_assoc, List.map_nil, List.flatMap_nil, List.append_nil, List.forall_mem_append,
    List.forall_mem_cons, Bool.false_eq_true, if_false, List.isEmpty_nil, if_true]
  -- All lines but the six above begin with none of the marks.
  and_intros <;> first
    | exact allows_of_avoids (avoids_ofList rfl)
    | exact allows_of_avoids (avoids_append rfl (by simp [hspace, hclass, LoaderStruct.resolver_plain.2]))
    | exact List.forall_mem_nil _
    | assumption

theorem allows_beef_commands {names : SharedNames} {probe : String} (hspace : '\n' ∉ names.space.toList)
    (hclass : '\n' ∉ names.nativeClass.toList) (hprobe : IsIdentifier probe) :
    ∀ line ∈ beef.commands names [] ⟨probe, false⟩,
      beef.Allows (beef.narrowLoader probe :: beef.fixedMethods) line := by
  have hfixed := allows_fixedLines (List.subset_cons_self (beef.narrowLoader probe) beef.fixedMethods)
  simp only [fixedLines, List.forall_mem_cons] at hfixed
  obtain ⟨-, hresolve, -⟩ := hfixed
  have hnarrow : beef.Allows (beef.narrowLoader probe :: beef.fixedMethods)
      ("\tpublic static void " ++
        (StaticExtension.probeMethod probe ++ "(function void*(StringView) getProcAddress)")) :=
    allows_loaderLine beef (isIdentifierChar_narrowLoader beef hprobe) List.mem_cons_self
  have hfull : beef.Allows (beef.narrowLoader probe :: beef.fixedMethods)
      ("\tpublic static void " ++ ("LoadAllFunctions" ++ "(function void*(StringView) getProcAddress)")) :=
    allows_loaderLine beef (forall_mem_of_all (by decide)) (by simp [fixedMethods, fixedLines])
  simp only [Target.commands, StaticExtension.commands, StaticExtension.probeLoader, StaticExtension.fullLoader,
    StaticExtension.loaderStart, StaticExtension.resolveMethod, String.append_assoc, List.map_nil, List.flatMap_nil,
    List.append_nil, List.forall_mem_append, List.forall_mem_cons, Bool.false_eq_true, if_false]
  and_intros <;> first
    | exact allows_of_avoids (avoids_ofList rfl)
    | exact allows_of_avoids (avoids_append rfl (by simp [hspace, hclass]))
    | exact List.forall_mem_nil _
    | assumption

def bareVersion : Registry.Version where
  api := "gl"
  name := "GL_VERSION_1_0"
  number := "1.0"

theorem eq_narrowLoader_or_mem {method probe : String} (h : target.IsFixedMethod method) (hprobe : IsIdentifier probe) :
    method = target.narrowLoader probe ∨ method ∈ target.fixedMethods := by
  have hmem := h bareVersion { target := target, probe := probe } rfl
  have hallows : ∀ line ∈ target.commands ⟨"gl", "Gl"⟩ [] ⟨probe, false⟩,
      target.Allows (target.narrowLoader probe :: target.fixedMethods) line := by
    cases target with
    | rust => exact allows_rust_commands (by decide) (by decide) hprobe
    | beef => exact allows_beef_commands (by decide) (by decide) hprobe
  exact List.mem_cons.mp (methodNames_subset hallows hmem)

theorem isFixedMethod_iff {method : String} : target.IsFixedMethod method ↔ method ∈ target.fixedMethods := by
  refine ⟨fun h => ?_, isFixedMethod_of_mem⟩
  -- One artifact also has a loader of its own, which the artifact of another probe does not have.
  rcases eq_narrowLoader_or_mem h (show IsIdentifier "glClear" by decide) with hclear | hmem
  · rcases eq_narrowLoader_or_mem h (show IsIdentifier "glFlush" by decide) with hflush | hmem
    · have hne : target.narrowLoader "glClear" ≠ target.narrowLoader "glFlush" := by
        cases target <;> decide
      exact absurd (hclear.symm.trans hflush) hne
    · exact hmem
  · exact hmem

end Target

/-! ### The check of the configuration -/

namespace Config

theorem validate_eq_ok_iff {config : Config} : config.validate = .ok () ↔ config.loaderName ∉ takenLoaderNames := by
  rw [validate]
  split
  · next htaken => simpa using htaken
  · next hfree => simpa using hfree

/-- In Rust the words that are taken are those of the two fixed methods whose names begin as the loader's does. -/
theorem narrowLoader_rust_mem_iff {config : Config} :
    Target.rust.narrowLoader config.probe ∈ Target.rust.fixedMethods ↔ config.loaderName ∈ takenLoaderNames := by
  have hname : Target.rust.narrowLoader config.probe = "load_" ++ config.loaderName := rfl
  have hends : "load_" ++ config.loaderName ∈ Target.rust.fixedMethods ↔
      config.loaderName = "all_functions" ∨ config.loaderName = "function" := by
    simp [Target.fixedMethods, Target.fixedLines, ← String.toList_inj]
  rw [hname, hends, takenLoaderNames, List.mem_pair, or_comm]

/-- In Beef the name is taken as it is written, and only one spelling of each word that is taken matters. -/
theorem loaderName_mem_of_narrowLoader_beef_mem {config : Config}
    (h : Target.beef.narrowLoader config.probe ∈ Target.beef.fixedMethods) :
    config.loaderName ∈ takenLoaderNames := by
  have hname : Target.beef.narrowLoader config.probe = "Load" ++ withoutApi config.probe := rfl
  have hrest : withoutApi config.probe = "AllFunctions" ∨ withoutApi config.probe = "Function" := by
    simpa [hname, Target.fixedMethods, Target.fixedLines, ← String.toList_inj] using h
  rw [loaderName]
  rcases hrest with heq | heq
  · rw [heq]
    decide
  · rw [heq]
    decide

/-- The check lets a probe pass exactly if its loader in Rust has a name that no method of every artifact has. The
name in Beef is free then, too. In both languages it is the name that the artifact of the probe declares. -/
theorem validate_eq_ok_iff_not_isFixedMethod :
    (∀ method, Target.rust.IsFixedMethod method ↔
      method ∈ ["new", "load", "load_all_functions", "is_loaded", "load_function"]) ∧
    (∀ method, Target.beef.IsFixedMethod method ↔ method ∈ ["LoadAllFunctions", "LoadFunction"]) ∧
    (∀ (version : Registry.Version) (config : Config), IsIdentifier config.probe →
      config.target.narrowLoader config.probe ∈
        config.target.methodNames (Bindings.ofVersion version config).commands) ∧
    ∀ config : Config,
      (config.validate = .ok () ↔ ¬ Target.rust.IsFixedMethod (Target.rust.narrowLoader config.probe)) ∧
      (config.validate = .ok () → ¬ Target.beef.IsFixedMethod (Target.beef.narrowLoader config.probe)) := by
  refine ⟨fun method => Target.isFixedMethod_iff, fun method => Target.isFixedMethod_iff,
    fun version _ => Target.narrowLoader_mem_methodNames version, fun config => ⟨?_, ?_⟩⟩
  · rw [validate_eq_ok_iff, Target.isFixedMethod_iff, narrowLoader_rust_mem_iff]
  · rw [validate_eq_ok_iff, Target.isFixedMethod_iff]
    exact mt loaderName_mem_of_narrowLoader_beef_mem

theorem validate_eq_ok_iff_not_isFixedMethod_underscore :
    let near : Config := { probe := "glAll_Functions" }
    let taken : Config := { probe := "glAllFunctions" }
    near.validate = .ok () ∧
      "load_all__functions" ∈ Target.rust.methodNames (Bindings.ofVersion Target.bareVersion near).commands ∧
      ¬ Target.rust.IsFixedMethod "load_all__functions" ∧ ¬ Target.beef.IsFixedMethod "LoadAll_Functions" ∧
        taken.validate = .error (.probeTaken "glAllFunctions" "all_functions") ∧
          Target.rust.IsFixedMethod "load_all_functions" := by
  intro near taken
  obtain ⟨hrust, -, hdeclared, hconfig⟩ := validate_eq_ok_iff_not_isFixedMethod
  have hnear : near.validate = .ok () := by decide
  have hloader : Target.rust.narrowLoader near.probe = "load_all__functions" := by decide
  have hstatic : Target.beef.narrowLoader near.probe = "LoadAll_Functions" := by decide
  exact ⟨hnear, hloader ▸ hdeclared Target.bareVersion near (by decide), hloader ▸ (hconfig near).1.mp hnear,
    hstatic ▸ (hconfig near).2 hnear, by decide, (hrust _).mpr (by decide)⟩

end Config

end RegistryBindings.Artifact
