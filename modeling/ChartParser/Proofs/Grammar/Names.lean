import ChartParser.Proofs.Grammar.WellFormed

namespace ChartParser

/-- Names are added behind the known ones, each once, in the order of their first use. -/
theorem toList_addNames (known : Array String) (names : List String) :
    (addNames known names).toList =
      known.toList ++ (names.removeAll known.toList).eraseDups :=
  toList_foldl_pushNew known names

theorem toList_addNames_empty (names : List String) :
    (addNames #[] names).toList = names.eraseDups :=
  toList_foldl_pushNew_empty names

def Entry.declaration? {α : Type} : Entry α → Option (Declaration α)
  | production declaration => some declaration
  | tokenClass _ => none

def Entry.tokenClass? {α : Type} : Entry α → Option TokenClass
  | production _ => none
  | tokenClass declared => some declared

namespace Draft

variable {α : Type} {draft : Draft α} {start : String} {entries : List (Entry α)}

private theorem declarations_foldl (entries : List (Entry α)) (draft : Draft α) :
    (entries.foldl enter draft).declarations.toList =
      draft.declarations.toList ++ entries.filterMap Entry.declaration? := by
  induction entries generalizing draft with
  | nil => simp
  | cons entry rest ih =>
    rw [List.foldl_cons, ih]
    cases entry with
    | production declaration => simp [enter, declare, Entry.declaration?]
    | tokenClass declared =>
      simp only [enter, declareClass, List.filterMap_cons, Entry.declaration?]
      split <;> rfl

theorem declarations_ofEntries (start : String) (entries : List (Entry α)) :
    (ofEntries start entries).declarations.toList = entries.filterMap Entry.declaration? := by
  rw [ofEntries, declarations_foldl]
  simp [empty]

private theorem repeated_of_foldl {entries : List (Entry α)} {draft : Draft α}
    (once : (entries.foldl enter draft).repeated = none) : draft.repeated = none := by
  induction entries generalizing draft with
  | nil => exact once
  | cons entry rest ih =>
    have entered := ih once
    cases entry with
    | production declaration => exact entered
    | tokenClass declared =>
      simp only [enter, declareClass] at entered
      split at entered
      · exact (Option.or_eq_none_iff.mp entered).1
      · exact entered

/-- As long as no name is declared again, every class is put behind those before it. -/
private theorem classes_foldl {entries : List (Entry α)} {draft : Draft α}
    (distinct : (draft.classes.toList.map (·.name)).Nodup)
    (once : (entries.foldl enter draft).repeated = none) :
    (entries.foldl enter draft).classes.toList =
        draft.classes.toList ++ entries.filterMap Entry.tokenClass? ∧
      ((entries.foldl enter draft).classes.toList.map (·.name)).Nodup := by
  induction entries generalizing draft with
  | nil => exact ⟨(List.append_nil _).symm, distinct⟩
  | cons entry rest ih =>
    rw [List.foldl_cons] at once ⊢
    cases entry with
    | production declaration => exact @ih (draft.declare declaration) distinct once
    | tokenClass declared =>
      have entered := repeated_of_foldl once
      cases found : draft.classes.findIdx? (·.name == declared.name) with
      | some place => simp [enter, declareClass, found] at entered
      | none =>
        have absent : ∀ known ∈ draft.classes, known.name ≠ declared.name := by
          simpa using found
        have pushed : draft.enter (.tokenClass declared) =
            { draft with classes := draft.classes.push declared } := by
          simp [enter, declareClass, found]
        rw [pushed] at once ⊢
        obtain ⟨classes, names⟩ := ih (by
          simpa [List.nodup_append] using And.intro distinct absent) once
        exact ⟨by simpa [Entry.tokenClass?] using classes, names⟩

theorem classes_ofEntries (once : (ofEntries start entries).repeated = none) :
    (ofEntries start entries).classes.toList = entries.filterMap Entry.tokenClass? ∧
      ((ofEntries start entries).classes.toList.map (·.name)).Nodup := by
  rw [ofEntries] at once ⊢
  simpa [empty] using classes_foldl (by simp [empty]) once

theorem classes_of_fault (sane : draft.fault? = none) : draft.repeated = none ∧
    ∀ declared ∈ draft.classes, declared.name ∉ draft.ruleNames := by
  unfold fault? at sane
  split at sane
  · cases sane
  · split at sane
    · cases sane
    · split at sane
      · cases sane
      · rename_i once
        exact ⟨once, by simpa using sane⟩

theorem fault_of_build {range : IndexRange} {grammar : Grammar α}
    (built : draft.build range = .ok grammar) : draft.fault? = none := by
  unfold build at built
  split at built
  · cases built
  · assumption

variable (draft) in
/-- The names in productions that are no rule, each as often as it is used. -/
def usedTokens : List String :=
  (draft.declarations.toList.flatMap (·.symbols)).filter fun name => !draft.ruleNames.contains name

theorem toList_ruleNames (draft : Draft α) :
    draft.ruleNames.toList = (draft.declarations.toList.map (·.name)).eraseDups :=
  toList_addNames_empty _

/-- The used names are collected first, and then the names of the classes. -/
theorem tokenNames_eq (draft : Draft α) : draft.tokenNames =
    addNames (addNames #[] draft.usedTokens) (draft.classes.toList.map (·.name)) := by
  rw [tokenNames, usedTokens, List.filter_flatMap]
  simp only [addNames, List.foldl_flatMap]

theorem toList_tokenNames (draft : Draft α) : draft.tokenNames.toList =
    draft.usedTokens.eraseDups ++
      ((draft.classes.toList.map (·.name)).removeAll draft.usedTokens).eraseDups := by
  rw [tokenNames_eq, toList_addNames, toList_addNames_empty]
  simp [List.removeAll]

theorem mem_tokenNames {name : String} : name ∈ draft.tokenNames ↔
    name ∈ draft.usedTokens ∨ ∃ declared ∈ draft.classes, declared.name = name := by
  rw [tokenNames_eq, mem_addNames, mem_addNames]
  simp

end Draft

end ChartParser
