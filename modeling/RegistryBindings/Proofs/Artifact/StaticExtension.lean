import RegistryBindings.Proofs.Artifact.Signature

/-!
# The listings of a static extension

The commands artifact of Beef names its commands in four places: the aliases of their types, the fields, the
methods, and the assignments of the full loader. Each is read back from its lines. As in a loader struct the
artifact is a row of chunks, and `Adds` says what a chunk adds to each listing.
-/

namespace RegistryBindings.Artifact.StaticExtension

open Binding Text

/-! ### Reading the lines -/

def typeLine? (line : String) : Option Signature := do
  let (held, rest) ← named? "\tprivate typealias " line
  let (returned, parameters) ← cut? '(' (← enclosed? " = function " ");" rest)
  return signatureOf (← dropEnd? "_t" held) returned parameters

def fieldLine? (line : String) : Option (String × String) := do
  let (held, rest) ← named? "\tprivate static " line
  let (slot, rest) ← named? " p_" rest
  if rest = ";" then return (slot, ← dropEnd? "_t" held) else none

def methodLine? (line : String) : Option Method := do
  let (declared, rest) ← cut? '(' (← enclosed? "\tpublic static " ");" line)
  let (returned, name) ← cutLast? ' ' declared
  let (parameters, rest) ← cut? ')' rest
  let (slot, rest) ← named? " => p_" rest
  let arguments ← dropMark? "(" rest
  return ⟨signatureOf name returned parameters, slot, (commaItems arguments).map (unmarked "@")⟩

def loaderHead? (line : String) : Option String :=
  enclosed? "\tpublic static void " "(function void*(StringView) getProcAddress)" line

def closesLoader (line : String) : Bool :=
  line = "\t\x7d"

def assignmentLine? (line : String) : Option (String × String) :=
  (pairLine? "\t\tLoadFunction(\"" "\", out p_" ");" line).map Prod.swap

/-- What the lines of a static extension say of commands, place by place. -/
structure Listings where
  types : List Signature
  /-- The fields with the commands whose aliases are their types. -/
  fields : List (String × String)
  methods : List Method
  /-- What each loader assigns to which field. -/
  loaders : List (String × List (String × String))
deriving DecidableEq, Repr

def Listings.ofText (text : String) : Listings :=
  let found := lines text
  { types := found.filterMap typeLine?
    fields := found.filterMap fieldLine?
    methods := found.filterMap methodLine?
    loaders := (bodies loaderHead? closesLoader found).map fun (name, body) =>
      (name, body.filterMap assignmentLine?) }

/-! ### The lines of an entry point -/

variable {version : Registry.Version} {reserved : ReservedWords} {command : Registry.Command}

def parameterText (command : BoundCommand) : String :=
  commaSeparated (command.parameters.map typedParameter)

def argumentText (command : BoundCommand) : String :=
  commaSeparated (command.parameters.map (·.name))

def typeLine (command : BoundCommand) : String :=
  "\tprivate typealias " ++ ((command.name ++ "_t") ++ (" = function " ++
    ((spell command.returnType ++ (String.singleton '(' ++ parameterText command)) ++ ");")))

def fieldLine (command : BoundCommand) : String :=
  "\tprivate static " ++ ((command.name ++ "_t") ++ (" p_" ++ (command.name ++ ";")))

def conventionLine (nativeClass : String) : String :=
  "\t[CallingConvention(" ++ (nativeClass ++ ".CallConv)]")

def methodLine (command : BoundCommand) : String :=
  "\tpublic static " ++ (((spell command.returnType ++ (String.singleton ' ' ++ command.name)) ++
    (String.singleton '(' ++ (parameterText command ++ (String.singleton ')' ++
      (" => p_" ++ (command.name ++ ("(" ++ argumentText command))))))) ++ ");")

theorem entryPoint_eq (names : SharedNames) (command : BoundCommand) :
    entryPoint names command =
      [typeLine command, fieldLine command, conventionLine names.nativeClass, methodLine command] := by
  have htype : "_t = function " = "_t" ++ " = function " := rfl
  have hfield : "_t p_" = "_t" ++ " p_" := rfl
  have hopening : "(" = String.singleton '(' := rfl
  have hspace : " " = String.singleton ' ' := rfl
  have hclosing : ") => p_" = String.singleton ')' ++ " => p_" := rfl
  unfold entryPoint typeLine fieldLine conventionLine methodLine parameterText argumentText
  simp only [htype, hfield, hopening, hspace, hclosing, String.append_assoc]

/-- The name of a command's alias is a word. -/
theorem isWord_alias {name : String} (h : IsIdentifier name) :
    ∀ c ∈ (name ++ "_t").toList, isIdentifierChar c = true := by
  have hmark : ∀ c ∈ "_t".toList, isIdentifierChar c = true := forall_mem_of_all (by decide)
  intro c hc
  rw [String.toList_append, List.mem_append] at hc
  exact hc.elim (h.2 c) (hmark c)

theorem not_mem_parameterText (h : IsLegible version command) (hmark : reserved.mark = "@") {c : Char}
    (hc : c ∈ ['\n', '(', ')']) :
    c ∉ (parameterText (BoundCommand.ofCommand version reserved command)).toList := by
  have hplain : ∀ c ∈ ['\n', '(', ')'], c ∈ ['\n', ',', '(', ')'] ∧ c ≠ ',' ∧ c ≠ ' ' :=
    forall_mem_of_all (by decide)
  obtain ⟨hmember, hcomma, hspace⟩ := hplain c hc
  exact not_mem_commaSeparated hcomma hspace fun item hitem =>
    not_mem_typedParameter h hmark item hitem c hmember

theorem typeLine?_typeLine (h : IsLegible version command) (hmark : reserved.mark = "@") :
    typeLine? (typeLine (.ofCommand version reserved command)) =
      some (Signature.ofCommand version command) := by
  have hheld : named? "\tprivate typealias " (typeLine (.ofCommand version reserved command)) =
      some (command.name ++ "_t", " = function " ++ ((spell (.ofTypeRef version command.returnType) ++
        (String.singleton '(' ++ parameterText (.ofCommand version reserved command))) ++ ");")) :=
    named?_append _ (isWord_alias h.name) (endsWord_append rfl _)
  have hparen := not_mem_spell (h.types command.returnType List.mem_cons_self) '(' (by decide)
  have hsignature := signatureOf_ofCommand h hmark
  simp only [typeLine?, hheld, dropEnd?_append, enclosed?_append, cut?_append hparen, Option.bind_eq_bind,
    Option.bind_some, Option.pure_def, parameterText, hsignature]

theorem fieldLine?_fieldLine (h : IsIdentifier command.name) :
    fieldLine? (fieldLine (.ofCommand version reserved command)) = some (command.name, command.name) := by
  have hheld : named? "\tprivate static " (fieldLine (.ofCommand version reserved command)) =
      some (command.name ++ "_t", " p_" ++ (command.name ++ ";")) :=
    named?_append _ (isWord_alias h) (endsWord_append rfl _)
  have hslot : named? " p_" (" p_" ++ (command.name ++ ";")) = some (command.name, ";") :=
    named?_append _ h.2 (endsWord_ofList rfl)
  simp only [fieldLine?, hheld, hslot, dropEnd?_append, Option.bind_eq_bind, Option.bind_some,
    Option.pure_def, if_true]

theorem commaItems_argumentText (h : IsLegible version command) (hmark : reserved.mark = "@") :
    (commaItems (argumentText (.ofCommand version reserved command))).map (unmarked "@") =
      command.parameters.map (·.name) := by
  have hitems : commaItems (argumentText (.ofCommand version reserved command)) =
      command.parameters.map fun source => reserved.escape source.name := by
    have hnames : (BoundCommand.ofCommand version reserved command).parameters.map (·.name) =
        command.parameters.map fun source => reserved.escape source.name :=
      List.map_map
    rw [argumentText, hnames]
    refine commaItems_commaSeparated (List.forall_mem_map.mpr fun source hsource => ?_)
      (List.forall_mem_map.mpr fun source hsource => ?_)
    · exact escape_ne_empty (h.parameters source hsource)
    · exact not_mem_escape (h.parameters source hsource) hmark (by decide) (by decide)
  rw [hitems, List.map_map]
  exact List.map_congr_left fun source hsource => unmarked_atEscape (h.parameters source hsource) hmark

theorem methodLine?_methodLine (h : IsLegible version command) (hmark : reserved.mark = "@") :
    methodLine? (methodLine (.ofCommand version reserved command)) =
      some (Method.ofCommand version command) := by
  have hreturned := not_mem_spell (h.types command.returnType List.mem_cons_self) '(' (by decide)
  have hname := h.name.not_mem (show isIdentifierChar '(' = false from rfl)
  have hspace := h.name.not_mem (show isIdentifierChar ' ' = false from rfl)
  have hdeclared : '(' ∉ (spell (.ofTypeRef version command.returnType) ++
      (String.singleton ' ' ++ command.name)).toList := by
    simp [hreturned, hname]
  have hclosing := not_mem_parameterText h hmark (show ')' ∈ ['\n', '(', ')'] by decide)
  have hslot : named? " => p_" (" => p_" ++ (command.name ++
      ("(" ++ argumentText (.ofCommand version reserved command)))) =
        some (command.name, "(" ++ argumentText (.ofCommand version reserved command)) :=
    named?_append _ h.name.2 (endsWord_append rfl _)
  have hline : enclosed? "\tpublic static " ");" (methodLine (.ofCommand version reserved command)) =
      some ((spell (.ofTypeRef version command.returnType) ++ (String.singleton ' ' ++ command.name)) ++
        (String.singleton '(' ++ (parameterText (.ofCommand version reserved command) ++
          (String.singleton ')' ++ (" => p_" ++ (command.name ++
            ("(" ++ argumentText (.ofCommand version reserved command)))))))) :=
    enclosed?_append _ _ _
  have hsignature := signatureOf_ofCommand h hmark
  have harguments := commaItems_argumentText h hmark
  rw [methodLine?, hline]
  simp only [cut?_append hdeclared, cutLast?_append hspace, cut?_append hclosing, hslot, dropMark?_append,
    Option.bind_eq_bind, Option.bind_some, Option.pure_def, harguments]
  rw [parameterText, hsignature]
  rfl

structure IsOneLine (command : BoundCommand) : Prop where
  name : '\n' ∉ command.name.toList
  returnType : '\n' ∉ (spell command.returnType).toList
  parameters : '\n' ∉ (parameterText command).toList
  arguments : '\n' ∉ (argumentText command).toList

theorem isOneLine_ofCommand (h : IsLegible version command) (hmark : reserved.mark = "@") :
    IsOneLine (.ofCommand version reserved command) where
  name := h.name.not_mem rfl
  returnType := not_mem_spell (h.types command.returnType List.mem_cons_self) '\n' (by decide)
  parameters := not_mem_parameterText h hmark (by decide)
  arguments := by
    refine not_mem_commaSeparated (by decide) (by decide) fun name hname => ?_
    obtain ⟨parameter, hparameter, rfl⟩ := List.mem_map.mp hname
    obtain ⟨source, hsource, rfl⟩ := List.mem_map.mp hparameter
    exact not_mem_escape (h.parameters source hsource) hmark (by decide) (by decide)

/-! ### Chunks of lines -/

/-- The beginnings of the lines that declare an alias, a field or a method. -/
def lineMarks : List (List Char) :=
  [['\t', 'p', 'r', 'i', 'v', 'a', 't', 'e', ' ', 't', 'y', 'p', 'e', 'a', 'l', 'i', 'a', 's', ' '],
    ['\t', 'p', 'r', 'i', 'v', 'a', 't', 'e', ' ', 's', 't', 'a', 't', 'i', 'c', ' '],
    ['\t', 'p', 'u', 'b', 'l', 'i', 'c', ' ', 's', 't', 'a', 't', 'i', 'c', ' ']]

/-- The beginnings of the lines that are not in the body of a loader. -/
def bodyMarks : List (List Char) :=
  ['\t', '\x7d'] :: lineMarks

theorem typeLine?_eq_none {line : String} (h : dropMark? "\tprivate typealias " line = none) :
    typeLine? line = none := by
  simp only [typeLine?, named?_eq_none h, Option.bind_eq_bind, Option.bind_none]

theorem fieldLine?_eq_none {line : String} (h : dropMark? "\tprivate static " line = none) :
    fieldLine? line = none := by
  simp only [fieldLine?, named?_eq_none h, Option.bind_eq_bind, Option.bind_none]

theorem methodLine?_eq_none {line : String} (h : enclosed? "\tpublic static " ");" line = none) :
    methodLine? line = none := by
  simp only [methodLine?, h, Option.bind_eq_bind, Option.bind_none]

theorem loaderHead?_eq_none {line : String} (h : dropMark? "\tpublic static " line = none) :
    loaderHead? line = none := by
  have hmark : "\tpublic static void " = "\tpublic static " ++ "void " := rfl
  rw [loaderHead?, hmark]
  exact enclosed?_of_dropMark? (dropMark?_append_eq_none h "void ")

/-- What a chunk of lines adds to the listings. The loaders in it are whole. -/
structure Adds (chunk : List String) (types : List Signature) (fields : List (String × String))
    (methods : List Method) (loaders : List (String × List String)) : Prop where
  types_eq : chunk.filterMap typeLine? = types
  fields_eq : chunk.filterMap fieldLine? = fields
  methods_eq : chunk.filterMap methodLine? = methods
  loaders_yield : Yields loaderHead? closesLoader chunk loaders
  not_mem : ∀ line ∈ chunk, '\n' ∉ line.toList

section

variable {chunk chunk' : List String} {types types' : List Signature} {fields fields' : List (String × String)}
  {methods methods' : List Method} {loaders loaders' : List (String × List String)} {line : String}

theorem Adds.append (h : Adds chunk types fields methods loaders)
    (h' : Adds chunk' types' fields' methods' loaders') :
    Adds (chunk ++ chunk') (types ++ types') (fields ++ fields') (methods ++ methods')
      (loaders ++ loaders') where
  types_eq := by rw [List.filterMap_append, h.types_eq, h'.types_eq]
  fields_eq := by rw [List.filterMap_append, h.fields_eq, h'.fields_eq]
  methods_eq := by rw [List.filterMap_append, h.methods_eq, h'.methods_eq]
  loaders_yield := h.loaders_yield.append h'.loaders_yield
  not_mem line hline := (List.mem_append.mp hline).elim (h.not_mem line) (h'.not_mem line)

/-- One line, and what each reader finds in it. -/
theorem adds_line (htype : typeLine? line = none) (hfield : fieldLine? line = none)
    (hmethod : methodLine? line = none) (hhead : loaderHead? line = none) (hline : '\n' ∉ line.toList) :
    Adds [line] [] [] [] [] where
  types_eq := List.filterMap_cons_none htype
  fields_eq := List.filterMap_cons_none hfield
  methods_eq := List.filterMap_cons_none hmethod
  loaders_yield := yields_nil (List.forall_mem_singleton.mpr hhead)
  not_mem := List.forall_mem_singleton.mpr hline

/-- Lines that begin otherwise than those the listings are read from. -/
theorem adds_of_avoids (h : ∀ line ∈ chunk, Avoids lineMarks line) : Adds chunk [] [] [] [] where
  types_eq := List.filterMap_eq_nil_iff.mpr fun line hline =>
    typeLine?_eq_none ((h line hline).dropMark?_eq_none _ (.head _))
  fields_eq := List.filterMap_eq_nil_iff.mpr fun line hline =>
    fieldLine?_eq_none ((h line hline).dropMark?_eq_none _ (.tail _ (.head _)))
  methods_eq := List.filterMap_eq_nil_iff.mpr fun line hline =>
    methodLine?_eq_none
      (enclosed?_of_dropMark? ((h line hline).dropMark?_eq_none _ (.tail _ (.tail _ (.head _)))))
  loaders_yield := yields_nil fun line hline =>
    loaderHead?_eq_none ((h line hline).dropMark?_eq_none _ (.tail _ (.tail _ (.head _))))
  not_mem line hline := (h line hline).not_mem

end

/-! ### The chunks of the artifact -/

variable {commands : List Registry.Command}

theorem adds_typeLine (h : IsLegible version command) (hmark : reserved.mark = "@") :
    Adds [typeLine (.ofCommand version reserved command)] [.ofCommand version command] [] [] [] where
  types_eq := by rw [List.filterMap_cons_some (typeLine?_typeLine h hmark), List.filterMap_nil]
  fields_eq := List.filterMap_cons_none (fieldLine?_eq_none (dropMark?_append_of_differ rfl _))
  methods_eq := List.filterMap_cons_none
    (methodLine?_eq_none (enclosed?_of_dropMark? (dropMark?_append_of_differ rfl _)))
  loaders_yield := yields_nil
    (List.forall_mem_singleton.mpr (loaderHead?_eq_none (dropMark?_append_of_differ rfl _)))
  not_mem := by
    have hone := isOneLine_ofCommand h hmark
    refine List.forall_mem_singleton.mpr ?_
    unfold typeLine
    simp [hone.name, hone.returnType, hone.parameters]

theorem adds_fieldLine (h : IsIdentifier command.name) :
    Adds [fieldLine (.ofCommand version reserved command)] [] [(command.name, command.name)] [] [] where
  types_eq := List.filterMap_cons_none (typeLine?_eq_none (dropMark?_append_of_differ rfl _))
  fields_eq := by rw [List.filterMap_cons_some (fieldLine?_fieldLine h), List.filterMap_nil]
  methods_eq := List.filterMap_cons_none
    (methodLine?_eq_none (enclosed?_of_dropMark? (dropMark?_append_of_differ rfl _)))
  loaders_yield := yields_nil
    (List.forall_mem_singleton.mpr (loaderHead?_eq_none (dropMark?_append_of_differ rfl _)))
  not_mem := by
    have hname := h.not_mem (show isIdentifierChar '\n' = false from rfl)
    refine List.forall_mem_singleton.mpr ?_
    unfold fieldLine
    simp [BoundCommand.ofCommand, hname]

theorem loaderHead?_methodLine (command : BoundCommand) : loaderHead? (methodLine command) = none := by
  -- A method that returns nothing begins like a loader, so only the end of the line tells them apart.
  refine enclosed?_of_dropEnd? ?_
  unfold methodLine
  simp only [← String.append_assoc]
  exact dropEnd?_append_of_differ rfl _

theorem adds_methodLine (h : IsLegible version command) (hmark : reserved.mark = "@") :
    Adds [methodLine (.ofCommand version reserved command)] [] [] [.ofCommand version command] [] where
  types_eq := List.filterMap_cons_none (typeLine?_eq_none (dropMark?_append_of_differ rfl _))
  fields_eq := List.filterMap_cons_none (fieldLine?_eq_none (dropMark?_append_of_differ rfl _))
  methods_eq := by rw [List.filterMap_cons_some (methodLine?_methodLine h hmark), List.filterMap_nil]
  loaders_yield := yields_nil (List.forall_mem_singleton.mpr (loaderHead?_methodLine _))
  not_mem := by
    have hone := isOneLine_ofCommand h hmark
    refine List.forall_mem_singleton.mpr ?_
    unfold methodLine
    simp [hone.name, hone.returnType, hone.parameters, hone.arguments]

theorem adds_entryPoint {names : SharedNames} (hclass : '\n' ∉ names.nativeClass.toList)
    (h : IsLegible version command) (hmark : reserved.mark = "@") :
    Adds (entryPoint names (.ofCommand version reserved command)) [.ofCommand version command]
      [(command.name, command.name)] [.ofCommand version command] [] := by
  have hconvention : Avoids lineMarks (conventionLine names.nativeClass) :=
    avoids_append rfl (by simp [hclass])
  have hattribute : Adds [conventionLine names.nativeClass] [] [] [] [] :=
    adds_of_avoids (List.forall_mem_singleton.mpr hconvention)
  rw [entryPoint_eq]
  exact (adds_typeLine h hmark).append
    ((adds_fieldLine h.name).append (hattribute.append (adds_methodLine h hmark)))

def loaderLines : List String :=
  ["\t\x7b", "\t\ts_getProcAddress = getProcAddress;"]

def loaderHead (method : String) : String :=
  "\tpublic static void " ++ (method ++ "(function void*(StringView) getProcAddress)")

theorem loaderStart_eq (method : String) : loaderStart method = loaderHead method :: loaderLines := by
  unfold loaderStart loaderHead loaderLines
  rw [String.append_assoc]

theorem methodLine?_loaderHead (method : String) : methodLine? (loaderHead method) = none := by
  refine methodLine?_eq_none (enclosed?_of_dropEnd? ?_)
  unfold loaderHead
  rw [← String.append_assoc]
  exact dropEnd?_append_of_differ rfl _

theorem adds_loader {method : String} {body : List String} (hmethod : '\n' ∉ method.toList)
    (hbody : ∀ line ∈ body, Avoids bodyMarks line) :
    Adds (loaderStart method ++ body ++ ["\t\x7d"]) [] [] [] [(method, loaderLines ++ body)] := by
  have hlines : ∀ line ∈ loaderLines ++ body, Avoids bodyMarks line := by
    have hfixed : loaderLines.Forall (Avoids bodyMarks) := ⟨avoids_ofList rfl, avoids_ofList rfl⟩
    intro line hline
    rw [List.mem_append] at hline
    exact hline.elim (List.forall_iff_forall_mem.mp hfixed line) (hbody line)
  have hinner := adds_of_avoids fun line hline => (hlines line hline).of_cons
  have hlast : Adds ["\t\x7d"] [] [] [] [] :=
    adds_of_avoids (List.forall_mem_singleton.mpr (avoids_ofList rfl))
  have htype : typeLine? (loaderHead method) = none := typeLine?_eq_none (dropMark?_append_of_differ rfl _)
  have hfield : fieldLine? (loaderHead method) = none :=
    fieldLine?_eq_none (dropMark?_append_of_differ rfl _)
  have hchunk : loaderStart method ++ body ++ ["\t\x7d"] =
      loaderHead method :: ((loaderLines ++ body) ++ ["\t\x7d"]) := by
    rw [loaderStart_eq, List.cons_append, List.cons_append]
  rw [hchunk]
  refine ⟨?_, ?_, ?_, ?_, List.forall_mem_cons.mpr ⟨?_, (hinner.append hlast).not_mem⟩⟩
  · rw [List.filterMap_cons_none htype, (hinner.append hlast).types_eq, List.append_nil]
  · rw [List.filterMap_cons_none hfield, (hinner.append hlast).fields_eq, List.append_nil]
  · rw [List.filterMap_cons_none (methodLine?_loaderHead method), (hinner.append hlast).methods_eq,
      List.append_nil]
  · have hhead : loaderHead? (loaderHead method) = some method := enclosed?_append _ _ _
    refine yields_body hhead (fun line hline => ?_) (fun line hline => ?_) ?_ (decide_eq_true rfl)
    · exact loaderHead?_eq_none ((hlines line hline).of_cons.dropMark?_eq_none _ (.tail _ (.tail _ (.head _))))
    · exact decide_eq_false (ne_of_dropMark?_eq_none ((hlines line hline).dropMark?_eq_none _ (.head _)))
    · exact loaderHead?_eq_none (dropMark?_ofList rfl)
  · unfold loaderHead
    simp [hmethod]

theorem avoids_assignment {name : String} (h : IsIdentifier name) : Avoids bodyMarks (assignment name) := by
  have hname := h.not_mem (show isIdentifierChar '\n' = false from rfl)
  unfold assignment
  simp only [String.append_assoc]
  exact avoids_append rfl (by simp [hname])

theorem assignmentLine?_assignment {name : String} (h : IsIdentifier name) :
    assignmentLine? (assignment name) = some (name, name) := by
  have hpair : pairLine? "\t\tLoadFunction(\"" "\", out p_" ");" (assignment name) = some (name, name) := by
    unfold assignment
    simp only [String.append_assoc]
    exact pairLine?_append _ h (endsWord_append rfl _) h (endsWord_ofList rfl)
  rw [assignmentLine?, hpair]
  rfl

theorem assignmentLine?_eq_none {line : String} (h : dropMark? "\t\tLoadFunction(\"" line = none) :
    assignmentLine? line = none := by
  rw [assignmentLine?, pairLine?_eq_none h, Option.map_none]

theorem filterMap_loaderLines (body : List String) :
    (loaderLines ++ body).filterMap assignmentLine? = body.filterMap assignmentLine? := by
  have hopening : assignmentLine? "\t\x7b" = none := assignmentLine?_eq_none (dropMark?_ofList rfl)
  have hresolver : assignmentLine? "\t\ts_getProcAddress = getProcAddress;" = none :=
    assignmentLine?_eq_none (dropMark?_ofList rfl)
  rw [loaderLines, List.cons_append, List.filterMap_cons_none hopening, List.cons_append,
    List.filterMap_cons_none hresolver, List.nil_append]

variable {names : SharedNames} {probe : Probe}

def probeAssignments (probe : Probe) : List String :=
  if probe.present then [assignment probe.name] else []

theorem adds_probeLoader (h : IsIdentifier probe.name) :
    Adds (probeLoader probe) [] [] [] [(probeMethod probe.name, loaderLines ++ probeAssignments probe)] := by
  have hmethod : '\n' ∉ (probeMethod probe.name).toList := by
    have hname : '\n' ∉ (withoutApi probe.name).toList :=
      fun hmem => absurd (isIdentifierChar_withoutApi h.2 '\n' hmem) (by decide)
    simp [probeMethod, hname]
  refine adds_loader hmethod fun line hline => ?_
  split at hline
  · exact List.mem_singleton.mp hline ▸ avoids_assignment h
  · cases hline

def fullAssignments (commands : List Registry.Command) : List String :=
  "" :: commands.map fun command => assignment command.name

theorem adds_fullLoader (reserved : ReservedWords)
    (h : ∀ command ∈ commands, IsLegible version command) :
    Adds (fullLoader (commands.map (.ofCommand version reserved))) [] [] []
      [("LoadAllFunctions", loaderLines ++ fullAssignments commands)] := by
  have hchunk : fullLoader (commands.map (.ofCommand version reserved)) =
      loaderStart "LoadAllFunctions" ++ fullAssignments commands ++ ["\t\x7d"] := by
    rw [fullLoader, fullAssignments, List.map_map, List.append_assoc _ [""]]
    rfl
  have hbody : ∀ line ∈ fullAssignments commands, Avoids bodyMarks line := by
    refine List.forall_mem_cons.mpr ⟨avoids_ofList rfl, List.forall_mem_map.mpr fun command hcommand => ?_⟩
    exact avoids_assignment (h command hcommand).name
  rw [hchunk]
  exact adds_loader (by decide) hbody

theorem adds_resolveMethod : Adds resolveMethod [] [] [] [] := by
  have hhead : Adds ["\tprivate static void LoadFunction<T>(StringView name, out T field)"] [] [] [] [] :=
    adds_line (typeLine?_eq_none (dropMark?_ofList rfl)) (by decide +kernel)
      (methodLine?_eq_none (enclosed?_of_dropMark? (dropMark?_ofList rfl)))
      (loaderHead?_eq_none (dropMark?_ofList rfl)) (by decide)
  have hbody : (resolveMethod.drop 1).Forall (Avoids lineMarks) :=
    ⟨avoids_ofList rfl, avoids_ofList rfl, avoids_ofList rfl, avoids_ofList rfl, avoids_ofList rfl,
      avoids_ofList rfl, avoids_ofList rfl, avoids_ofList rfl, avoids_ofList rfl, avoids_ofList rfl,
      avoids_ofList rfl⟩
  exact hhead.append (adds_of_avoids (List.forall_iff_forall_mem.mp hbody))

theorem adds_entryPoints (hclass : '\n' ∉ names.nativeClass.toList)
    (h : ∀ command ∈ commands, IsLegible version command) (hmark : reserved.mark = "@") :
    Adds ((commands.map (.ofCommand version reserved)).flatMap fun command => "" :: entryPoint names command)
      (commands.map (.ofCommand version)) (commands.map fun command => (command.name, command.name))
      (commands.map (.ofCommand version)) [] := by
  induction commands with
  | nil => exact adds_of_avoids (by simp)
  | cons command commands ih =>
    have hblank : Adds [""] [] [] [] [] :=
      adds_of_avoids (List.forall_mem_singleton.mpr (avoids_ofList rfl))
    have hcommand := hblank.append (adds_entryPoint hclass (h command List.mem_cons_self) hmark)
    exact hcommand.append (ih fun other hother => h other (List.mem_cons_of_mem command hother))

theorem adds_prologue (hspace : '\n' ∉ names.space.toList) (hclass : '\n' ∉ names.nativeClass.toList) :
    Adds ["using System;", "namespace " ++ names.space ++ ";", "extension " ++ names.nativeClass, "\x7b",
      "\tprivate static function void*(StringView) s_getProcAddress;", "",
      "\tprivate const CallingConventionAttribute.Kind CallConv = .Stdcall;"] [] [] [] [] := by
  have hstart : ["using System;", "namespace " ++ names.space ++ ";", "extension " ++ names.nativeClass,
      "\x7b"].Forall (Avoids lineMarks) := by
    have hnamespace : Avoids lineMarks ("namespace " ++ names.space ++ ";") := by
      rw [String.append_assoc]
      exact avoids_append rfl (by simp [hspace])
    exact ⟨avoids_ofList rfl, hnamespace, avoids_append rfl hclass, avoids_ofList rfl⟩
  have hresolver : Adds ["\tprivate static function void*(StringView) s_getProcAddress;"] [] [] [] [] :=
    adds_line (typeLine?_eq_none (dropMark?_ofList rfl)) (by decide +kernel)
      (methodLine?_eq_none (enclosed?_of_dropMark? (dropMark?_ofList rfl)))
      (loaderHead?_eq_none (dropMark?_ofList rfl)) (by decide)
  have hend : ["", "\tprivate const CallingConventionAttribute.Kind CallConv = .Stdcall;"].Forall
      (Avoids lineMarks) :=
    ⟨avoids_ofList rfl, avoids_ofList rfl⟩
  exact (adds_of_avoids (List.forall_iff_forall_mem.mp hstart)).append
    (hresolver.append (adds_of_avoids (List.forall_iff_forall_mem.mp hend)))

theorem adds_commands (hspace : '\n' ∉ names.space.toList) (hclass : '\n' ∉ names.nativeClass.toList)
    (hprobe : IsIdentifier probe.name) (h : ∀ command ∈ commands, IsLegible version command)
    (hmark : reserved.mark = "@") :
    Adds (StaticExtension.commands names (commands.map (.ofCommand version reserved)) probe)
      (commands.map (.ofCommand version)) (commands.map fun command => (command.name, command.name))
      (commands.map (.ofCommand version))
      [(probeMethod probe.name, loaderLines ++ probeAssignments probe),
        ("LoadAllFunctions", loaderLines ++ fullAssignments commands)] := by
  have hblank : Adds [""] [] [] [] [] :=
    adds_of_avoids (List.forall_mem_singleton.mpr (avoids_ofList rfl))
  have hend : Adds ["\x7d"] [] [] [] [] :=
    adds_of_avoids (List.forall_mem_singleton.mpr (avoids_ofList rfl))
  have hentries := (adds_prologue hspace hclass).append (adds_entryPoints hclass h hmark)
  have hnarrow := (hentries.append hblank).append (adds_probeLoader hprobe)
  have hfull := (hnarrow.append hblank).append (adds_fullLoader reserved h)
  have hall := ((hfull.append hblank).append adds_resolveMethod).append hend
  simp only [List.nil_append, List.append_nil, List.singleton_append] at hall
  exact hall

/-! ### The listings -/

/-- The listings of the commands: all three are the commands in their order, and so are the assignments of
the full loader. -/
def Listings.ofCommands (version : Registry.Version) (commands : List Registry.Command) (probe : Probe) :
    Listings where
  types := commands.map (.ofCommand version)
  fields := commands.map fun command => (command.name, command.name)
  methods := commands.map (.ofCommand version)
  loaders :=
    [(probeMethod probe.name, if probe.present then [(probe.name, probe.name)] else []),
      ("LoadAllFunctions", commands.map fun command => (command.name, command.name))]

theorem filterMap_probeAssignments (h : IsIdentifier probe.name) :
    (probeAssignments probe).filterMap assignmentLine? =
      if probe.present then [(probe.name, probe.name)] else [] := by
  rw [probeAssignments]
  split
  · rw [List.filterMap_cons_some (assignmentLine?_assignment h), List.filterMap_nil]
  · rfl

theorem filterMap_fullAssignments (h : ∀ command ∈ commands, IsLegible version command) :
    (fullAssignments commands).filterMap assignmentLine? =
      commands.map fun command => (command.name, command.name) := by
  have hblank : assignmentLine? "" = none := assignmentLine?_eq_none (dropMark?_ofList rfl)
  rw [fullAssignments, List.filterMap_cons_none hblank]
  exact filterMap_map_eq_map fun command hcommand => assignmentLine?_assignment (h command hcommand).name

theorem ofText_commands (hspace : '\n' ∉ names.space.toList) (hclass : '\n' ∉ names.nativeClass.toList)
    (hprobe : IsIdentifier probe.name) (h : ∀ command ∈ commands, IsLegible version command)
    (hmark : reserved.mark = "@") :
    Listings.ofText
        (unlines (StaticExtension.commands names (commands.map (.ofCommand version reserved)) probe)) =
      Listings.ofCommands version commands probe := by
  have hadds := adds_commands hspace hclass hprobe h hmark
  simp only [Listings.ofText, Listings.ofCommands, lines_unlines hadds.not_mem, hadds.types_eq,
    hadds.fields_eq, hadds.methods_eq, hadds.loaders_yield.bodies_eq, List.map_cons, List.map_nil,
    filterMap_loaderLines, filterMap_probeAssignments hprobe, filterMap_fullAssignments h]

end RegistryBindings.Artifact.StaticExtension
