import RegistryBindings.Registry.ShortName

/-!
# What a short name is

A short name is an end of the name: all of it, or what follows one of its underscores. If the name begins with the
namespace, and something follows, it is that; otherwise it is what follows the first underscore, if anything does.
It is empty only if the name is.
-/

namespace RegistryBindings.Registry

open Text

theorem afterNamespace?_eq_some_iff {mark : String} {name rest : List Char} :
    afterNamespace? mark name = some rest ↔ rest ≠ [] ∧ name = mark.toList ++ '_' :: rest := by
  have hstrip {more : List Char} :
      strip? (mark.toList ++ ['_']) name = some more ↔ name = mark.toList ++ '_' :: more := by
    rw [strip?_eq_some_iff, List.append_assoc, List.singleton_append]
  unfold afterNamespace?
  split
  · next c found hfound =>
    rw [hstrip] at hfound
    constructor
    · intro h
      cases h
      exact ⟨List.cons_ne_nil _ _, hfound⟩
    · rintro ⟨-, hname⟩
      rw [hfound, List.append_cancel_left_eq, List.cons.injEq] at hname
      rw [hname.2]
  · next hnone =>
    constructor
    · intro h
      cases h
    · rintro ⟨hne, hname⟩
      obtain ⟨c, more, rfl⟩ := List.exists_cons_of_ne_nil hne
      exact absurd (hstrip.mpr hname) (hnone c more)

/-- A name that begins with the namespace and an underscore loses both. -/
theorem shortName_of_namespace (mark : String) {rest : String} (h : rest ≠ "") :
    shortName (some mark) (mark ++ "_" ++ rest) = rest := by
  have hne : rest.toList ≠ [] := fun hnil => h (String.toList_eq_nil_iff.mp hnil)
  have hafter : afterNamespace? mark (mark ++ "_" ++ rest).toList = some rest.toList := by
    refine afterNamespace?_eq_some_iff.mpr ⟨hne, ?_⟩
    simp
  rw [shortName, Option.bind_some, hafter]
  exact String.ofList_toList

/-- Any other name loses what stands before its first underscore, and the underscore. -/
theorem shortName_of_first {namespace? : Option String} {before rest : String} (hbefore : '_' ∉ before.toList)
    (hrest : rest ≠ "")
    (h : ∀ mark ∈ namespace?, ∀ more, more ≠ "" → before ++ "_" ++ rest ≠ mark ++ "_" ++ more) :
    shortName namespace? (before ++ "_" ++ rest) = rest := by
  have hnamespace : (namespace?.bind fun mark => afterNamespace? mark (before ++ "_" ++ rest).toList) = none := by
    rw [Option.bind_eq_none_iff]
    intro mark hmark
    rw [Option.eq_none_iff_forall_ne_some]
    intro more hmore
    obtain ⟨hne, hname⟩ := afterNamespace?_eq_some_iff.mp hmore
    refine h mark hmark (String.ofList more) (by simpa using hne) ?_
    apply String.toList_injective
    simpa using hname
  have hkeep : ∀ c ∈ before.toList, decide (c ≠ '_') = true :=
    fun c hc => decide_eq_true fun heq => hbefore (heq ▸ hc)
  have hdrop : (before ++ "_" ++ rest).toList.dropWhile (· ≠ '_') = '_' :: rest.toList := by
    rw [String.append_assoc, String.toList_append, List.dropWhile_append_of_pos hkeep]
    simp
  obtain ⟨c, more, hmore⟩ :=
    List.exists_cons_of_ne_nil fun hnil => hrest (String.toList_eq_nil_iff.mp hnil)
  rw [shortName, hnamespace]
  simp only [hdrop, hmore]
  rw [← hmore, String.ofList_toList]

/-- A short name is the name, or what follows an underscore in it. -/
theorem shortName_eq_or (namespace? : Option String) (name : String) :
    shortName namespace? name = name ∨
      ∃ before, name = before ++ "_" ++ shortName namespace? name ∧ shortName namespace? name ≠ "" := by
  rw [shortName]
  split
  · next rest hrest =>
    obtain ⟨mark, -, hafter⟩ := Option.bind_eq_some_iff.mp hrest
    obtain ⟨hne, hname⟩ := afterNamespace?_eq_some_iff.mp hafter
    refine .inr ⟨mark, ?_, by simpa using hne⟩
    apply String.toList_injective
    simpa using hname
  · split
    · next d c rest hrest =>
      have hunderscore : d = '_' := by
        have hhead := List.head?_dropWhile_not (· ≠ '_') name.toList
        rw [hrest] at hhead
        simpa using hhead
      have hname := List.takeWhile_append_dropWhile (p := (· ≠ '_')) (l := name.toList)
      refine .inr ⟨String.ofList (name.toList.takeWhile (· ≠ '_')), ?_, by simp⟩
      apply String.toList_injective
      rw [hrest, hunderscore] at hname
      simpa using hname.symm
    · exact .inl rfl

theorem shortName_ne_empty {name : String} (h : name ≠ "") (namespace? : Option String) :
    shortName namespace? name ≠ "" := by
  rcases shortName_eq_or namespace? name with heq | ⟨before, -, hne⟩
  · rwa [heq]
  · exact hne

/-- The second name is the first one without the namespace. -/
structure IsShortening (namespace? : Option String) (name short : String) : Prop where
  ne_empty : short ≠ ""
  isSuffix : short.toList <:+ name.toList
  whole_or_behind : short = name ∨ ∃ before, name = before ++ "_" ++ short
  behind_namespace : ∀ mark ∈ namespace?, ∀ rest, rest ≠ "" → name = mark ++ "_" ++ rest → short = rest
  behind_first : (∀ mark ∈ namespace?, ∀ rest, rest ≠ "" → name ≠ mark ++ "_" ++ rest) →
    ∀ before rest, '_' ∉ before.toList → rest ≠ "" → name = before ++ "_" ++ rest → short = rest

theorem isShortening_shortName {name : String} (h : name ≠ "") (namespace? : Option String) :
    IsShortening namespace? name (shortName namespace? name) where
  ne_empty := shortName_ne_empty h namespace?
  isSuffix := by
    rcases shortName_eq_or namespace? name with heq | ⟨before, hname, -⟩
    · exact ⟨[], by rw [heq, List.nil_append]⟩
    · refine ⟨before.toList ++ ['_'], ?_⟩
      rw [List.append_assoc, List.singleton_append]
      simpa using (congrArg String.toList hname).symm
  whole_or_behind := (shortName_eq_or namespace? name).imp_right fun ⟨before, hname, _⟩ => ⟨before, hname⟩
  behind_namespace := by
    rintro mark hmark rest hrest rfl
    rw [Option.mem_def.mp hmark]
    exact shortName_of_namespace mark hrest
  behind_first := by
    rintro hnamespace before rest hbefore hrest rfl
    exact shortName_of_first hbefore hrest hnamespace

def behindNamespace? (mark? : Option String) (name : List Char) : Option (List Char) :=
  mark?.bind fun mark => if mark.toList ++ ['_'] <+: name then some (name.drop (mark.toList.length + 1)) else none

/-- What follows the namespace, or else what follows the first underscore, or else the name: the first of these that
is not empty. -/
def firstRest (namespace? : Option String) (name : String) : String :=
  let rests := (behindNamespace? namespace? name.toList).toList ++
    [(name.toList.dropWhile (· ≠ '_')).tail, name.toList]
  String.ofList ((rests.find? (· ≠ [])).getD [])

theorem strip?_eq_ite (mark text : List Char) :
    strip? mark text = if mark <+: text then some (text.drop mark.length) else none := by
  split
  · next h =>
    obtain ⟨rest, rfl⟩ := h
    rw [strip?_append, List.drop_left]
  · next h =>
    rw [Option.eq_none_iff_forall_ne_some]
    exact fun rest hrest => h ⟨rest, (strip?_eq_some_iff.mp hrest).symm⟩

theorem afterNamespace?_eq_find? (namespace? : Option String) (name : List Char) :
    (namespace?.bind fun mark => afterNamespace? mark name) =
      (behindNamespace? namespace? name).toList.find? (· ≠ []) := by
  cases namespace? with
  | none => rfl
  | some mark =>
    rw [Option.bind_some, afterNamespace?, strip?_eq_ite, List.length_append, List.length_singleton,
      behindNamespace?, Option.bind_some]
    cases (if mark.toList ++ ['_'] <+: name then some (name.drop (mark.toList.length + 1)) else none) with
    | none => rfl
    | some rest => cases rest <;> rfl

theorem shortName_eq_firstRest (namespace? : Option String) (name : String) :
    shortName namespace? name = firstRest namespace? name := by
  rw [shortName, afterNamespace?_eq_find?, firstRest]
  simp only [List.find?_append]
  cases (behindNamespace? namespace? name.toList).toList.find? (· ≠ []) with
  | some rest => rfl
  | none =>
    have hname : String.ofList (([name.toList].find? (· ≠ [])).getD []) = name := by
      by_cases hnil : name.toList = []
      · simp [String.toList_eq_nil_iff.mp hnil]
      · simp [hnil, String.ofList_toList]
    rcases name.toList.dropWhile (· ≠ '_') with _ | ⟨d, _ | ⟨c, rest⟩⟩
    · exact hname.symm
    · exact hname.symm
    · rfl

theorem mem_of_mem_shortName {namespace? : Option String} {name : String} {c : Char}
    (h : c ∈ (shortName namespace? name).toList) : c ∈ name.toList := by
  rcases shortName_eq_or namespace? name with heq | ⟨before, hname, -⟩
  · rwa [heq] at h
  · rw [hname, String.toList_append]
    exact List.mem_append_right _ h

end RegistryBindings.Registry
