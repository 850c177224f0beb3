import ChartParser.Proofs.Grammar.Names
import ChartParser.Proofs.IndexStorage

namespace ChartParser

/-- The name repeats one of those before it, and none of those repeats another. -/
def FirstRepetition (names : List String) (name : String) : Prop :=
  ∃ before after, names = before ++ name :: after ∧ before.Nodup ∧ name ∈ before

/-- The name is among the wanted ones, and none of those before it is. -/
def FirstAmong (wanted names : List String) (name : String) : Prop :=
  name ∈ wanted ∧ ∃ before after, names = before ++ name :: after ∧
    ∀ earlier ∈ before, earlier ∉ wanted

/-- One more name is the first repetition if there was none, and it is among the names so far. -/
theorem firstRepetition_append {names : List String} {last name : String} :
    FirstRepetition (names ++ [last]) name ↔
      FirstRepetition names name ∨ names.Nodup ∧ last ∈ names ∧ name = last := by
  constructor
  · rintro ⟨before, after, whole, distinct, repeated⟩
    rcases List.eq_nil_or_concat' after with rfl | ⟨between, other, rfl⟩
    · obtain ⟨rfl, same⟩ := List.append_inj' whole rfl
      obtain rfl := List.head_eq_of_cons_eq same
      exact .inr ⟨distinct, repeated, rfl⟩
    · rw [← List.cons_append, ← List.append_assoc] at whole
      exact .inl ⟨before, between, (List.append_inj' whole rfl).1, distinct, repeated⟩
  · rintro (⟨before, after, rfl, distinct, repeated⟩ | ⟨distinct, repeated, rfl⟩)
    · exact ⟨before, after ++ [last], by simp, distinct, repeated⟩
    · exact ⟨names, [], rfl, distinct, repeated⟩

namespace Draft

variable {α : Type} {draft : Draft α} {start name : String} {entries : List (Entry α)}
  {range : IndexRange}

section Checks

variable {rules classes : List String} {repeated : Option String}

/-- The checks in their order, on the names of the rules and of the classes and on the first class
name that was declared again. -/
def firstFault (start : String) (rules classes : List String) (repeated : Option String) :
    Option DraftError :=
  if rules = [] then some .noRules
  else if start ∉ rules then some (.invalidStart start)
  else match repeated with
    | some name => some (.duplicateClass name)
    | none => (classes.find? (· ∈ rules)).map .classIsRule

theorem firstFault_eq_noRules :
    firstFault start rules classes repeated = some .noRules ↔ rules = [] := by
  unfold firstFault
  by_cases bare : rules = []
  · simp [bare]
  · by_cases begins : start ∈ rules <;> cases repeated <;> simp [bare, begins]

theorem firstFault_eq_invalidStart :
    firstFault start rules classes repeated = some (.invalidStart name) ↔
      rules ≠ [] ∧ start ∉ rules ∧ name = start := by
  unfold firstFault
  by_cases bare : rules = []
  · simp [bare]
  · by_cases begins : start ∈ rules <;> cases repeated <;> simp [bare, begins, @eq_comm _ start]

theorem firstFault_eq_duplicateClass :
    firstFault start rules classes repeated = some (.duplicateClass name) ↔
      start ∈ rules ∧ repeated = some name := by
  unfold firstFault
  by_cases begins : start ∈ rules
  · cases repeated <;> simp [begins, List.ne_nil_of_mem begins]
  · by_cases bare : rules = [] <;> simp [bare, begins]

theorem firstFault_eq_classIsRule :
    firstFault start rules classes repeated = some (.classIsRule name) ↔
      start ∈ rules ∧ repeated = none ∧ FirstAmong rules classes name := by
  unfold firstFault
  by_cases begins : start ∈ rules
  · cases repeated <;>
      simp [begins, List.ne_nil_of_mem begins, FirstAmong, List.find?_eq_some_iff_append]
  · by_cases bare : rules = [] <;> simp [bare, begins]

theorem firstFault_eq_none :
    firstFault start rules classes repeated = none ↔
      start ∈ rules ∧ repeated = none ∧ ∀ name ∈ classes, name ∉ rules := by
  unfold firstFault
  by_cases begins : start ∈ rules
  · cases repeated <;> simp [begins, List.ne_nil_of_mem begins]
  · by_cases bare : rules = [] <;> simp [bare, begins]

end Checks

section Order

theorem declare_declareClass (draft : Draft α) (declaration : Declaration α)
    (declared : TokenClass) : (draft.declareClass declared).declare declaration =
      (draft.declare declaration).declareClass declared := by
  simp only [declareClass, declare]
  cases draft.classes.findIdx? (·.name == declared.name) <;> rfl

theorem foldl_enter (entries : List (Entry α)) (draft : Draft α) : entries.foldl enter draft =
    (entries.filterMap Entry.tokenClass?).foldl declareClass
      ((entries.filterMap Entry.declaration?).foldl declare draft) := by
  have commute (declarations : List (Declaration α)) (draft : Draft α) (declared : TokenClass) :
      declarations.foldl declare (draft.declareClass declared) =
        (declarations.foldl declare draft).declareClass declared := by
    induction declarations generalizing draft with
    | nil => rfl
    | cons declaration rest ih => rw [List.foldl_cons, declare_declareClass, ih, List.foldl_cons]
  induction entries generalizing draft with
  | nil => rfl
  | cons entry rest ih =>
    rw [List.foldl_cons, ih]
    cases entry with
    | production declaration => rfl
    | tokenClass declared =>
      simp only [enter, List.filterMap_cons, Entry.tokenClass?, Entry.declaration?, commute,
        List.foldl_cons]

end Order

section Repetitions

/-- What a draft knows of the class names that have been declared so far: all of them, each kept
once, and the first repetition among them. -/
structure Knows (draft : Draft α) (names : List String) : Prop where
  listed : ∀ name, name ∈ draft.classes.map (·.name) ↔ name ∈ names
  repeated : ∀ name, draft.repeated = some name ↔ FirstRepetition names name
  distinct : draft.repeated = none ↔ names.Nodup

theorem knows_nothing (bare : draft.classes = #[]) (once : draft.repeated = none) :
    draft.Knows [] where
  listed := by simp [bare]
  repeated name := by simp [once, FirstRepetition]
  distinct := by simp [once]

/-- Declaring a class adds its name to what is known. A name that is declared again keeps its place,
and is the first repetition unless there is one already. -/
theorem Knows.declareClass {names : List String} (knows : draft.Knows names)
    (declared : TokenClass) : (draft.declareClass declared).Knows (names ++ [declared.name]) := by
  unfold Draft.declareClass
  cases found : draft.classes.findIdx? (·.name == declared.name) with
  | some place =>
    obtain ⟨inside, same, -⟩ := Array.findIdx?_eq_some_iff_getElem.mp found
    have member : declared.name ∈ names :=
      (knows.listed _).mp (Array.mem_map.mpr ⟨_, Array.getElem_mem inside, beq_iff_eq.mp same⟩)
    have kept : (draft.classes.setIfInBounds place declared).map (·.name) =
        draft.classes.map (·.name) := by
      refine Array.ext_getElem? fun other => ?_
      simp only [Array.getElem?_map, Array.getElem?_setIfInBounds]
      split
      · subst_vars
        simp [inside, beq_iff_eq.mp same]
      · rfl
    refine ⟨fun name => ?_, fun name => ?_, ?_⟩
    · rw [kept, knows.listed]
      simp only [List.mem_append, List.mem_singleton]
      exact ⟨.inl, fun either => either.elim id fun same => same ▸ member⟩
    · rw [firstRepetition_append, ← knows.repeated, ← knows.distinct, Option.or_eq_some_iff]
      simp [member, eq_comm]
    · rw [Option.or_eq_none_iff]
      simp [List.nodup_append, member]
  | none =>
    have absent : declared.name ∉ names := by
      rw [← knows.listed]
      simpa using found
    refine ⟨fun name => ?_, fun name => ?_, ?_⟩
    · simp [knows.listed]
    · rw [firstRepetition_append, ← knows.repeated]
      simp [absent]
    · rw [knows.distinct, List.nodup_append_comm]
      simp [absent]

theorem Knows.foldl {names : List String} (knows : draft.Knows names)
    (classes : List TokenClass) :
    (classes.foldl Draft.declareClass draft).Knows (names ++ classes.map (·.name)) := by
  induction classes generalizing draft names with
  | nil => simpa using knows
  | cons declared rest ih => simpa using ih (knows.declareClass declared)

theorem knows_ofEntries (start : String) (entries : List (Entry α)) :
    (ofEntries start entries).Knows ((entries.filterMap Entry.tokenClass?).map (·.name)) := by
  have productions (declarations : List (Declaration α)) (draft : Draft α)
      (knows : draft.Knows []) : (declarations.foldl declare draft).Knows [] := by
    induction declarations generalizing draft with
    | nil => exact knows
    | cons declaration rest ih => exact ih _ ⟨knows.listed, knows.repeated, knows.distinct⟩
  rw [ofEntries, foldl_enter]
  exact (productions _ _ (knows_nothing rfl rfl)).foldl _

end Repetitions

section Faults

theorem overflow_kind {error : DraftError} (found : draft.overflow? range = some error) :
    error ∈ [.tooManyRules, .tooManyTokens, .tooManyProductions, .productionTooLong] := by
  unfold overflow? at found
  repeat' split at found
  all_goals cases found
  all_goals simp

theorem build_eq_error_iff {error : DraftError}
    (kind : error ∉ [.tooManyRules, .tooManyTokens, .tooManyProductions, .productionTooLong]) :
    draft.build range = .error error ↔ draft.fault? = some error := by
  unfold build
  cases fault : draft.fault? with
  | some found => simp
  | none =>
    cases overflow : draft.overflow? range with
    | none => simp
    | some found =>
      have apart : found ≠ error := fun same => kind (same ▸ overflow_kind overflow)
      simpa using apart

theorem build_ok_iff : (∃ grammar, draft.build range = .ok grammar) ↔
    draft.fault? = none ∧ draft.Fits range := by
  constructor
  · rintro ⟨grammar, built⟩
    exact ⟨fault_of_build built, (of_build built).2⟩
  · rintro ⟨sane, fits⟩
    exact ⟨_, build_eq_number sane (overflow_eq_none_iff.mpr fits)⟩

theorem start_ofEntries (start : String) (entries : List (Entry α)) :
    (ofEntries start entries).start = start := by
  have kept (draft : Draft α) : (entries.foldl enter draft).start = draft.start := by
    induction entries generalizing draft with
    | nil => rfl
    | cons entry rest ih =>
      rw [List.foldl_cons, ih]
      cases entry with
      | production declaration => rfl
      | tokenClass declared =>
        simp only [enter, Draft.declareClass]
        split <;> rfl
  exact kept (empty start)

/-- A draft is checked by the names of its rules and of its classes. -/
theorem fault_ofEntries (start : String) (entries : List (Entry α)) :
    (ofEntries start entries).fault? =
      firstFault start ((entries.filterMap Entry.declaration?).map (·.name))
        ((entries.filterMap Entry.tokenClass?).map (·.name))
        (ofEntries start entries).repeated := by
  set rules := (entries.filterMap Entry.declaration?).map (·.name) with named
  set classes := (entries.filterMap Entry.tokenClass?).map (·.name) with listed
  have declared := declarations_ofEntries start entries
  have isRule (name : String) :
      (ofEntries start entries).ruleNames.contains name = decide (name ∈ rules) := by
    rw [Bool.eq_iff_iff, Array.contains_iff_mem, decide_eq_true_eq, ← Array.mem_toList_iff,
      toList_ruleNames, declared, List.mem_eraseDups]
  have none : (ofEntries start entries).declarations.isEmpty = decide (rules = []) := by
    rw [Bool.eq_iff_iff, decide_eq_true_eq, List.map_eq_nil_iff, ← declared]
    simp
  unfold firstFault
  rw [fault?, none, start_ofEntries, isRule]
  simp only [decide_eq_true_eq, Bool.not_eq_true', decide_eq_false_iff_not]
  congr 2
  cases once : (ofEntries start entries).repeated with
  | some name => rfl
  | none =>
    have kept := (classes_ofEntries once).1
    simp only [isRule]
    rw [← Array.find?_toList, kept, List.find?_map, Option.map_map]
    rfl

end Faults

/-- Declarations are checked exactly and in order. They are refused without any production, or else
if the start rule is none of the declared ones, or else for the first class name in the order of the
calls that is declared again, or else for the first class in the order of declaration that is a
rule. Otherwise no fault is found, and a grammar is built if the index range can hold its numbers.
The outcome depends on the sequence of productions and on that of classes only, and not on how the
calls that declared them were mixed. -/
theorem build_validates (start : String) (entries : List (Entry α)) (range : IndexRange) :
    let rules := (entries.filterMap Entry.declaration?).map (·.name)
    let classes := (entries.filterMap Entry.tokenClass?).map (·.name)
    let draft := ofEntries start entries
    (draft.build range = .error .noRules ↔ rules = []) ∧
    (∀ name, draft.build range = .error (.invalidStart name) ↔
      rules ≠ [] ∧ start ∉ rules ∧ name = start) ∧
    (∀ name, draft.build range = .error (.duplicateClass name) ↔
      start ∈ rules ∧ FirstRepetition classes name) ∧
    (∀ name, draft.build range = .error (.classIsRule name) ↔
      start ∈ rules ∧ classes.Nodup ∧ FirstAmong rules classes name) ∧
    (draft.fault? = none ↔
      start ∈ rules ∧ classes.Nodup ∧ ∀ name ∈ classes, name ∉ rules) ∧
    ((∃ grammar, draft.build range = .ok grammar) ↔ draft.fault? = none ∧ draft.Fits range) ∧
    ∀ others : List (Entry α),
      others.filterMap Entry.declaration? = entries.filterMap Entry.declaration? →
      others.filterMap Entry.tokenClass? = entries.filterMap Entry.tokenClass? →
      (ofEntries start others).build range = draft.build range := by
  intro rules classes draft
  have fault : draft.fault? = firstFault start rules classes draft.repeated :=
    fault_ofEntries start entries
  have knows : draft.Knows classes := knows_ofEntries start entries
  have others (others : List (Entry α))
      (productions : others.filterMap Entry.declaration? = entries.filterMap Entry.declaration?)
      (declared : others.filterMap Entry.tokenClass? = entries.filterMap Entry.tokenClass?) :
      (ofEntries start others).build range = draft.build range := by
    have same : ofEntries start others = draft := by
      rw [ofEntries, foldl_enter, productions, declared, ← foldl_enter]
      rfl
    rw [same]
  refine ⟨?_, fun name => ?_, fun name => ?_, fun name => ?_, ?_, build_ok_iff, others⟩
  · rw [build_eq_error_iff (by simp), fault, firstFault_eq_noRules]
  · rw [build_eq_error_iff (by simp), fault, firstFault_eq_invalidStart]
  · rw [build_eq_error_iff (by simp), fault, firstFault_eq_duplicateClass, knows.repeated]
  · rw [build_eq_error_iff (by simp), fault, firstFault_eq_classIsRule, knows.distinct]
  · rw [fault, firstFault_eq_none, knows.distinct]

/-- Declarations with several faults: two classes are declared again, and one of them is a rule. -/
def mixed : List (Entry Unit) :=
  let letter (name : String) : Entry Unit := .tokenClass ⟨name, fun lexeme => lexeme == name⟩
  [letter "b", .production ⟨"a", ["b"], none, none⟩, letter "a", letter "a",
    .production ⟨"S", ["a"], none, none⟩, letter "b"]

/-- The class that is declared again first is reported, and it would be if all productions had been
declared before the classes. -/
theorem build_validates_mixed (range : IndexRange) :
    (ofEntries "S" mixed).build range = .error (.duplicateClass "a") ∧
    (ofEntries "S" (mixed.filter (·.declaration?.isSome) ++
      mixed.filter (·.tokenClass?.isSome))).build range = .error (.duplicateClass "a") := by
  obtain ⟨-, -, duplicate, -, -, -, others⟩ := build_validates "S" mixed range
  have first : (ofEntries "S" mixed).build range = .error (.duplicateClass "a") :=
    (duplicate "a").mpr ⟨by decide, ["b", "a"], ["b"], by decide, by decide, by decide⟩
  exact ⟨first, (others (mixed.filter (·.declaration?.isSome) ++
    mixed.filter (·.tokenClass?.isSome)) rfl rfl).trans first⟩

end Draft

end ChartParser
