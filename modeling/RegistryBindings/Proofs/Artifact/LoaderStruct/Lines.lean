import RegistryBindings.Artifact.LoaderStruct
import RegistryBindings.Proofs.Artifact.Lines
import RegistryBindings.Proofs.Binding.Identifier
import RegistryBindings.Proofs.Text.Marks

/-!
# The listings of a loader struct

The commands artifact names its commands in six places, each written by a walk of its own: the aliases, the
slots of the table, the methods, the assignments of the full loader, and the arms of the two matches. The
readers here find these places again in the text, and what they find is the same commands every time.

A line is read by what it begins with, and nothing that is put into a line begins another one. The artifact
is a row of chunks, and `Reads` says what a chunk adds to each listing, so that every part is read on its
own. Types may be any text without a newline: they stand in aliases and in the heads of methods only, and
there a signature is taken whole.
-/

namespace RegistryBindings.Artifact.LoaderStruct

open Binding Text

/-! ### Reading the lines -/

/-- The alias of a command's type: its name, and its signature after the opening parenthesis. -/
def aliasLine? (line : String) : Option (String × String) := do
  let (name, rest) ← named? "pub type PFN_" line
  return (name, ← enclosed? " = unsafe extern \"system\" fn(" ";" rest)

def slotLine? (line : String) : Option (String × String) :=
  pairLine? "    p_" ": Option<PFN_" ">," line

/-- A call through a slot: the slot, the key that is reported when it is empty, and the arguments. -/
def callLine? (line : String) : Option (String × String × List String) := do
  let (slot, rest) ← named? "        unsafe \x7b (self.p_" line
  let (key, rest) ← named? ".unwrap_or_else(|| missing_fn(\"" rest
  return (slot, key, commaItems (← enclosed? "\")))(" ") \x7d" rest))

def assignmentLine? (mark line : String) : Option (String × String) :=
  pairLine? mark " = self.load_function(\"" "\");" line

def methodHead? (line : String) : Option String :=
  dropMark? "    pub " line

def closesMethod (line : String) : Bool :=
  line = "    \x7d"

structure Trampoline where
  name : String
  /-- What follows the receiver. -/
  signature : String
  calls : List (String × String × List String)
deriving DecidableEq, Repr

def trampoline? (method : String × List String) : Option Trampoline := do
  let (name, rest) ← named? "unsafe extern \"system-unwind\" fn " method.1
  return ⟨name, ← enclosed? "(&self" " \x7b" rest, method.2.filterMap callLine?⟩

/-- A method that takes a resolver: its name, and the slots that it assigns with their keys. -/
def loader? (method : String × List String) : Option (String × List (String × String)) := do
  let (name, rest) ← named? "fn " method.1
  if rest = "<F>(&mut self, get_proc_address: F)" then
    some (name, method.2.filterMap (assignmentLine? "        self.p_"))
  else none

def bodyOf (head : String) (methods : List (String × List String)) : List String :=
  (methods.filter (·.1 = head)).flatMap (·.2)

def armHead? (line : String) : Option String :=
  wordLine? "            \"" "\" => \x7b" line

def closesArm (line : String) : Bool :=
  line = "            \x7d"

def testLine? (line : String) : Option String :=
  wordLine? "                self.p_" ".is_some()" line

def testArm? (line : String) : Option (String × String) :=
  pairLine? "            \"" "\" => self.p_" ".is_some()," line

def slotMark : List Char :=
  ['.', 'p', '_']

/-- A line that declares the type of a command. Types may hold any text, but no code. -/
def isSignature (line : String) : Bool :=
  (dropMark? "pub type PFN_" line).isSome ||
    ((methodHead? line).bind (dropMark? "unsafe extern \"system-unwind\" fn ")).isSome

/-- Every slot that the code of the lines reaches, in order. -/
def reachedIn (lines : List String) : List String :=
  (lines.filter (!isSignature ·)).flatMap fun line => mentions slotMark line.toList

/-- What the lines of a loader struct say of commands, place by place. -/
structure Listings where
  aliases : List (String × String)
  /-- The slots of the table with their aliases. -/
  slots : List (String × String)
  trampolines : List Trampoline
  /-- The loaders with the slots they assign and the keys they resolve. -/
  loaders : List (String × List (String × String))
  /-- The arms of the loader of one command: the key, the slots assigned with their keys, and the slots
  tested. -/
  loadArms : List (String × List (String × String) × List String)
  /-- The arms of the query for one command: the key and the slot tested. -/
  testArms : List (String × String)
  reached : List String
deriving DecidableEq, Repr

def Listings.ofText (text : String) : Listings :=
  let found := lines text
  let methods := bodies methodHead? closesMethod found
  { aliases := found.filterMap aliasLine?
    slots := found.filterMap slotLine?
    trampolines := methods.filterMap trampoline?
    loaders := methods.filterMap loader?
    loadArms :=
      (bodies armHead? closesArm (bodyOf "fn load(&mut self, name: &str) -> bool \x7b" methods)).map
        fun (key, body) =>
          (key, body.filterMap (assignmentLine? "                self.p_"), body.filterMap testLine?)
    testArms := (bodyOf "fn is_loaded(&self, name: &str) -> bool \x7b" methods).filterMap testArm?
    reached := reachedIn found }

/-! ### Commands that can be written -/

/-- A name for a parameter: an identifier, or a reserved word behind its mark. -/
def IsParameterName (name : String) : Prop :=
  IsIdentifier name ∨ ∃ word, IsIdentifier word ∧ name = "r#" ++ word

theorem IsParameterName.ne_empty {name : String} (h : IsParameterName name) : name ≠ "" := by
  rcases h with hname | ⟨word, -, rfl⟩
  · exact fun hempty => hname.ne_nil (String.toList_eq_nil_iff.mpr hempty)
  · simp

theorem IsParameterName.not_mem {name : String} (h : IsParameterName name) {c : Char}
    (hc : isIdentifierChar c = false) (hmark : c ≠ '#') : c ∉ name.toList := by
  rcases h with hname | ⟨word, hword, rfl⟩
  · exact hname.not_mem hc
  · have hr : c ≠ 'r' := by
      rintro rfl
      cases hc
    simp [hr, hmark, hword.not_mem hc]

/-- A command whose names are words and whose types are spelled on one line. -/
structure IsWritable (command : BoundCommand) : Prop where
  name : IsIdentifier command.name
  parameters : ∀ parameter ∈ command.parameters, IsParameterName parameter.name
  types : ∀ type ∈ command.returnType :: command.parameters.map (·.type), '\n' ∉ (spell type).toList

def signature (command : BoundCommand) : String :=
  commaSeparated (command.parameters.map typedParameter) ++ ")" ++ returnSuffix command

def methodSignature (command : BoundCommand) : String :=
  (if command.parameters = [] then "" else ", ") ++ signature command

variable {command : BoundCommand} {commands : List BoundCommand}

theorem IsWritable.not_mem_signature (h : IsWritable command) : '\n' ∉ (signature command).toList := by
  have hparameters : ∀ item ∈ command.parameters.map typedParameter, '\n' ∉ item.toList := by
    intro item hitem
    obtain ⟨parameter, hparameter, rfl⟩ := List.mem_map.mp hitem
    have hname := (h.parameters parameter hparameter).not_mem (show isIdentifierChar '\n' = false from rfl)
    have htype := h.types parameter.type (List.mem_cons_of_mem _ (List.mem_map_of_mem hparameter))
    simp [typedParameter, hname, htype]
  have hlist := not_mem_commaSeparated (by decide) (by decide) hparameters
  have hsuffix : '\n' ∉ (returnSuffix command).toList := by
    have hreturned := h.types command.returnType List.mem_cons_self
    rw [returnSuffix]
    split <;> simp [hreturned]
  simp [signature, hlist, hsuffix]

theorem IsWritable.not_mem_arguments (h : IsWritable command) {c : Char}
    (hc : isIdentifierChar c = false) (hmark : c ≠ '#') (hcomma : c ≠ ',') (hspace : c ≠ ' ') :
    c ∉ (commaSeparated (command.parameters.map (·.name))).toList := by
  refine not_mem_commaSeparated hcomma hspace fun name hname => ?_
  obtain ⟨parameter, hparameter, rfl⟩ := List.mem_map.mp hname
  exact (h.parameters parameter hparameter).not_mem hc hmark

/-! ### Lines with names in them -/

theorem aliasLine?_typeAlias (h : IsIdentifier command.name) :
    aliasLine? ("pub type PFN_" ++ (command.name ++ (" = unsafe extern \"system\" fn(" ++
      (signature command ++ ";")))) = some (command.name, signature command) := by
  have hname : named? "pub type PFN_" ("pub type PFN_" ++ (command.name ++
      (" = unsafe extern \"system\" fn(" ++ (signature command ++ ";")))) =
        some (command.name, " = unsafe extern \"system\" fn(" ++ (signature command ++ ";")) :=
    named?_append _ h.2 (endsWord_append rfl _)
  simp only [aliasLine?, hname, enclosed?_append, Option.bind_eq_bind, Option.bind_some, Option.pure_def]

theorem slotLine?_slot (h : IsIdentifier command.name) :
    slotLine? (slot command) = some (command.name, command.name) := by
  unfold slot
  simp only [String.append_assoc]
  exact pairLine?_append _ h (endsWord_append rfl _) h (endsWord_ofList rfl)

def trampolineHead (command : BoundCommand) : String :=
  "unsafe extern \"system-unwind\" fn " ++ (command.name ++ ("(&self" ++ (methodSignature command ++ " \x7b")))

def call (command : BoundCommand) : String :=
  "        unsafe \x7b (self.p_" ++ (command.name ++ (".unwrap_or_else(|| missing_fn(\"" ++
    (command.name ++ ("\")))(" ++ (commaSeparated (command.parameters.map (·.name)) ++ ") \x7d")))))

/-- Behind the receiver, parameters need one more comma. -/
theorem commaSeparated_receiver (command : BoundCommand) (rest : String) :
    commaSeparated ("&self" :: command.parameters.map typedParameter) ++
        (")" ++ (returnSuffix command ++ rest)) =
      "&self" ++ (methodSignature command ++ rest) := by
  rw [commaSeparated_cons, methodSignature, signature]
  by_cases hnil : command.parameters = []
  · simp [hnil, commaSeparated, String.append_assoc]
  · simp [hnil, String.append_assoc]

theorem trampoline_eq (command : BoundCommand) :
    trampoline command =
      ["    #[inline]", "    pub " ++ trampolineHead command, call command, "    \x7d"] := by
  have hmark : "    pub unsafe extern \"system-unwind\" fn " =
      "    pub " ++ "unsafe extern \"system-unwind\" fn " := rfl
  have hopening : "(&self" = "(" ++ "&self" := rfl
  unfold trampoline trampolineHead call
  simp only [hmark, hopening, String.append_assoc, commaSeparated_receiver]

theorem callLine?_call (h : IsWritable command) :
    callLine? (call command) =
      some (command.name, command.name, command.parameters.map (·.name)) := by
  have hslot : named? "        unsafe \x7b (self.p_" (call command) = some (command.name,
      ".unwrap_or_else(|| missing_fn(\"" ++ (command.name ++ ("\")))(" ++
        (commaSeparated (command.parameters.map (·.name)) ++ ") \x7d")))) :=
    named?_append _ h.name.2 (endsWord_append rfl _)
  have hkey : named? ".unwrap_or_else(|| missing_fn(\"" (".unwrap_or_else(|| missing_fn(\"" ++
      (command.name ++ ("\")))(" ++ (commaSeparated (command.parameters.map (·.name)) ++ ") \x7d")))) =
        some (command.name, "\")))(" ++ (commaSeparated (command.parameters.map (·.name)) ++ ") \x7d")) :=
    named?_append _ h.name.2 (endsWord_append rfl _)
  have hitems : commaItems (commaSeparated (command.parameters.map (·.name))) =
      command.parameters.map (·.name) := by
    refine commaItems_commaSeparated (fun name hname => ?_) (fun name hname => ?_)
    · obtain ⟨parameter, hparameter, rfl⟩ := List.mem_map.mp hname
      exact (h.parameters parameter hparameter).ne_empty
    · obtain ⟨parameter, hparameter, rfl⟩ := List.mem_map.mp hname
      exact (h.parameters parameter hparameter).not_mem (by decide) (by decide)
  simp only [callLine?, hslot, hkey, enclosed?_append, hitems, Option.bind_eq_bind, Option.bind_some,
    Option.pure_def]

theorem mentions_call (h : IsWritable command) :
    mentions slotMark (call command).toList = [command.name] := by
  have hname := h.name.not_mem (show isIdentifierChar '.' = false from rfl)
  have harguments := h.not_mem_arguments (show isIdentifierChar '.' = false from rfl) (by decide)
    (by decide) (by decide)
  have hrest : '.' ∉ (command.name ++ ("\")))(" ++
      (commaSeparated (command.parameters.map (·.name)) ++ ") \x7d"))).toList := by
    simp [hname, harguments]
  calc mentions slotMark (call command).toList
      = command.name :: mentions slotMark (".unwrap_or_else(|| missing_fn(\"" ++ (command.name ++ ("\")))(" ++
          (commaSeparated (command.parameters.map (·.name)) ++ ") \x7d")))).toList :=
        mentions_word (by decide) rfl rfl h.name.2 (endsWord_append rfl _)
    _ = command.name :: mentions slotMark (command.name ++ ("\")))(" ++
          (commaSeparated (command.parameters.map (·.name)) ++ ") \x7d"))).toList :=
        congrArg _ (mentions_skip rfl _)
    _ = [command.name] := by rw [slotMark, mentions_of_not_mem hrest]

variable {name : String}

/-- Spaces are the only thing before an assignment. -/
theorem assignment_eq (indentation name : String) :
    indentation ++ assignment name =
      (indentation ++ "self.p_") ++ (name ++ (" = self.load_function(\"" ++ (name ++ "\");"))) := by
  unfold assignment
  simp only [String.append_assoc]

theorem assignmentLine?_assignment (indentation : String) (h : IsIdentifier name) :
    assignmentLine? (indentation ++ "self.p_") (indentation ++ assignment name) = some (name, name) := by
  rw [assignment_eq]
  exact pairLine?_append _ h (endsWord_append rfl _) h (endsWord_ofList rfl)

theorem mentions_assignment (h : IsIdentifier name) :
    mentions slotMark (assignment name).toList = [name] := by
  have hname := h.not_mem (show isIdentifierChar '.' = false from rfl)
  calc mentions slotMark (assignment name).toList
      = mentions slotMark ("self.p_" ++ (name ++ (" = self.load_function(\"" ++ (name ++ "\");")))).toList := by
        unfold assignment
        simp only [String.append_assoc]
    _ = name :: mentions slotMark (" = self.load_function(\"" ++ (name ++ "\");")).toList :=
        mentions_word (by decide) rfl rfl h.2 (endsWord_append rfl _)
    _ = name :: mentions slotMark (name ++ "\");").toList := congrArg _ (mentions_skip rfl _)
    _ = [name] := by rw [slotMark, mentions_of_not_mem (by simp [hname])]

theorem armHead?_loadArm (h : IsIdentifier name) :
    armHead? ("            \"" ++ (name ++ "\" => \x7b")) = some name :=
  wordLine?_append _ h (endsWord_ofList rfl)

theorem testLine?_test (h : IsIdentifier name) :
    testLine? ("                self.p_" ++ (name ++ ".is_some()")) = some name :=
  wordLine?_append _ h (endsWord_ofList rfl)

theorem assignmentLine?_test (h : IsIdentifier name) :
    assignmentLine? "                self.p_" ("                self.p_" ++ (name ++ ".is_some()")) =
      none :=
  pairLine?_of_dropMark? h (endsWord_ofList rfl) (dropMark?_ofList rfl)

theorem testLine?_assignment (h : IsIdentifier name) :
    testLine? ("                " ++ assignment name) = none := by
  have hmark : "                self.p_" = "                " ++ "self.p_" := rfl
  rw [testLine?, assignment_eq, hmark]
  exact wordLine?_of_ne h (endsWord_append rfl _) (append_ne_of_differ rfl _)

theorem mentions_test (h : IsIdentifier name) :
    mentions slotMark ("                self.p_" ++ (name ++ ".is_some()")).toList = [name] :=
  mentions_word (by decide) rfl rfl h.2 (endsWord_ofList rfl)

theorem testArm?_loadedArm (h : IsIdentifier command.name) :
    testArm? (loadedArm command) = some (command.name, command.name) := by
  unfold loadedArm
  simp only [String.append_assoc]
  exact pairLine?_append _ h (endsWord_append rfl _) h (endsWord_ofList rfl)

theorem mentions_loadedArm (h : IsIdentifier command.name) :
    mentions slotMark (loadedArm command).toList = [command.name] := by
  calc mentions slotMark (loadedArm command).toList
      = mentions slotMark ("            \"" ++ (command.name ++ ("\" => self.p_" ++
          (command.name ++ ".is_some(),")))).toList := by
        unfold loadedArm
        simp only [String.append_assoc]
    _ = mentions slotMark (command.name ++ ("\" => self.p_" ++ (command.name ++ ".is_some(),"))).toList :=
        mentions_skip rfl _
    _ = mentions slotMark ("\" => self.p_" ++ (command.name ++ ".is_some(),")).toList :=
        mentions_skip_word rfl h.2 _
    _ = [command.name] := mentions_word (by decide) rfl rfl h.2 (endsWord_ofList rfl)

end RegistryBindings.Artifact.LoaderStruct
