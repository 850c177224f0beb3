import ChartParser.Grammar.Draft
import ChartParser.Proofs.Accumulation

/-! What the numbering of a draft makes sure of: no index is truncated, a rule lists exactly its
own productions, and a lexeme names at most one exact token. -/
namespace ChartParser

/-- Everything that parsing relies on in a grammar. -/
structure Grammar.WellFormed {α : Type} (grammar : Grammar α) : Prop where
  symbols_fit : ∀ production, (grammar.symbols production).size ≤ grammar.range.max
  mem_productionsOf : ∀ {rule production}, production ∈ grammar.productionsOf rule ↔
    production < grammar.productions.size ∧ grammar.ruleOf production = rule
  ruleOf_lt : ∀ {production}, production < grammar.productions.size →
    grammar.ruleOf production < grammar.rules.size
  lexemeToken_iff : ∀ {lexeme token}, grammar.lexemeToken? lexeme = some token ↔
    grammar.isClass token = false ∧ grammar.tokenMatches token lexeme = true

namespace Grammar.WellFormed

variable {α : Type} {grammar : Grammar α}

theorem length_eq (valid : grammar.WellFormed) (production : Nat) :
    grammar.length production = (grammar.symbols production).size :=
  IndexRange.store_of_le (valid.symbols_fit production)

theorem isComplete_iff (valid : grammar.WellFormed) (position : Position) :
    grammar.isComplete position = true ↔
      (grammar.symbols position.production).size ≤ position.dot := by
  simp [isComplete, valid.length_eq]

theorem advance_eq (valid : grammar.WellFormed) {position : Position}
    (short : position.dot < (grammar.symbols position.production).size) :
    grammar.advance position = ⟨position.production, position.dot + 1⟩ := by
  have incomplete : ¬ grammar.isComplete position = true := by
    rw [valid.isComplete_iff]
    omega
  have fits := valid.symbols_fit position.production
  rw [advance, if_neg incomplete, IndexRange.store_of_le (by omega)]

end Grammar.WellFormed

theorem mem_addNames {known : Array String} {names : List String} {name : String} :
    name ∈ addNames known names ↔ name ∈ known ∨ name ∈ names :=
  mem_foldl_pushNew

theorem nodup_addNames {known : Array String} (distinct : known.toList.Nodup)
    (names : List String) : (addNames known names).toList.Nodup :=
  nodup_foldl_pushNew distinct names

namespace Draft

variable {α : Type} {draft : Draft α} {range : IndexRange}

theorem nodup_ruleNames (draft : Draft α) : draft.ruleNames.toList.Nodup :=
  nodup_addNames (by simp) _

theorem mem_ruleNames {name : String} :
    name ∈ draft.ruleNames ↔ ∃ declaration ∈ draft.declarations, declaration.name = name := by
  simp [ruleNames, mem_addNames]

theorem nodup_tokenNames (draft : Draft α) : draft.tokenNames.toList.Nodup := by
  have used (declarations : List (Declaration α)) (known : Array String)
      (distinct : known.toList.Nodup) : (declarations.foldl (fun known declaration =>
        addNames known (declaration.symbols.filter fun name => !draft.ruleNames.contains name))
        known).toList.Nodup := by
    induction declarations generalizing known with
    | nil => exact distinct
    | cons declaration rest ih => exact ih _ (nodup_addNames distinct _)
  exact nodup_addNames (used _ _ (by simp)) _

theorem findIdx_iff {names : Array String} (distinct : names.toList.Nodup) {name : String}
    {place : Nat} : names.findIdx? (· == name) = some place ↔ names[place]? = some name := by
  rw [Array.findIdx?_eq_some_iff_getElem, Array.getElem?_eq_some_iff]
  refine exists_congr fun inside => ?_
  constructor
  · intro found
    exact beq_iff_eq.mp found.1
  · intro value
    refine ⟨by simpa using value, fun other before same => ?_⟩
    have twice : names.toList[other]? = names.toList[place]? := by
      simpa [inside, Nat.lt_trans before inside, value] using same
    have places := (List.getElem?_inj (by simpa using inside) distinct).mp twice.symm
    omega

/-- In a list without repetitions that fits the range, a name is found under its number only. -/
theorem numberOf_eq_iff {names : Array String} (distinct : names.toList.Nodup)
    (fits : names.size ≤ range.max) {name : String} (member : name ∈ names) (number : Nat) :
    numberOf range names name = number ↔ names[number]? = some name := by
  obtain ⟨place, at'⟩ := Array.mem_iff_getElem?.mp member
  have inside := (Array.getElem?_eq_some_iff.mp at').1
  have found := (findIdx_iff distinct).mpr at'
  rw [numberOf, found, Option.getD_some, IndexRange.store_of_le (by omega),
    ← findIdx_iff distinct, found, Option.some.injEq]

/-- The numbers that an index range holds when nothing overflows. -/
structure Fits (draft : Draft α) (range : IndexRange) : Prop where
  rules : draft.ruleNames.size ≤ range.max
  tokens : draft.tokenNames.size ≤ range.max
  productions : draft.declarations.size ≤ range.max
  symbols : ∀ declaration ∈ draft.declarations, declaration.symbols.length ≤ range.max

theorem fits_of_overflow (none : draft.overflow? range = none) : draft.Fits range := by
  unfold overflow? at none
  split at none
  · cases none
  · split at none
    · cases none
    · split at none
      · cases none
      · split at none
        · cases none
        · rename_i rules tokens productions symbols
          refine ⟨Nat.le_of_not_lt rules, Nat.le_of_not_lt tokens, Nat.le_of_not_lt productions, ?_⟩
          intro declaration member
          apply Nat.le_of_not_lt
          intro exceeds
          exact symbols (Array.any_eq_true'.mpr ⟨declaration, member, by simpa using exceeds⟩)

theorem of_build {grammar : Grammar α} (built : draft.build range = .ok grammar) :
    grammar = draft.number range ∧ draft.Fits range := by
  unfold build at built
  split at built
  · cases built
  · split at built
    · cases built
    · rename_i fits
      exact ⟨(Except.ok.inj built).symm, fits_of_overflow fits⟩

theorem build_eq_number (sane : draft.fault? = none) (fits : draft.overflow? range = none) :
    draft.build range = .ok (draft.number range) := by
  rw [build, sane, fits]

@[simp] theorem number_range (draft : Draft α) (range : IndexRange) :
    (draft.number range).range = range := rfl

theorem symbols_number (draft : Draft α) (range : IndexRange) (production : Nat) :
    (draft.number range).symbols production = match draft.declarations[production]? with
      | some declaration =>
        (declaration.symbols.map (resolve range draft.ruleNames draft.tokenNames)).toArray
      | none => #[] := by
  simp only [Grammar.symbols, number, Array.getElem?_mapIdx]
  cases draft.declarations[production]? <;> rfl

theorem action_number (draft : Draft α) (range : IndexRange) (production : Nat) :
    (draft.number range).action? production =
      draft.declarations[production]?.bind (·.action) := by
  simp only [Grammar.action?, number, Array.getElem?_mapIdx]
  cases draft.declarations[production]? <;> rfl

theorem ruleOf_number (found : draft.declarations[production]? = some declaration) :
    (draft.number range).ruleOf production = numberOf range draft.ruleNames declaration.name := by
  simp [Grammar.ruleOf, number, Array.getElem?_mapIdx, found]

theorem ruleOf_number_iff (fits : draft.Fits range)
    (found : draft.declarations[production]? = some declaration) (rule : Nat) :
    (draft.number range).ruleOf production = rule ↔
      draft.ruleNames[rule]? = some declaration.name := by
  rw [ruleOf_number found]
  exact numberOf_eq_iff draft.nodup_ruleNames fits.rules
    (mem_ruleNames.mpr ⟨declaration, Array.mem_of_getElem? found, rfl⟩) rule

theorem productions_number (draft : Draft α) (range : IndexRange) :
    (draft.number range).productions.size = draft.declarations.size := by
  simp [number]

private theorem mem_productionsOf_number (fits : draft.Fits range) {rule production : Nat} :
    production ∈ (draft.number range).productionsOf rule ↔
      ∃ declaration, draft.declarations[production]? = some declaration ∧
        draft.ruleNames[rule]? = some declaration.name := by
  simp only [Grammar.productionsOf, number, Array.getElem?_map]
  cases named : draft.ruleNames[rule]? with
  | none => simp
  | some name =>
    simp only [Option.map_some, List.mem_toArray, List.mem_map, List.mem_filter, beq_iff_eq,
      List.mem_zipIdx_iff_getElem?, Array.getElem?_toList, Option.some.injEq, Prod.exists]
    constructor
    · intro listed
      obtain ⟨declaration, place, ⟨found, same⟩, stored⟩ := listed
      have inside := (Array.getElem?_eq_some_iff.mp found).1
      have kept := fits.productions
      rw [IndexRange.store_of_le (by omega)] at stored
      exact ⟨declaration, stored ▸ found, same.symm⟩
    · intro declared
      obtain ⟨declaration, found, same⟩ := declared
      have inside := (Array.getElem?_eq_some_iff.mp found).1
      have kept := fits.productions
      exact ⟨declaration, production, ⟨found, same.symm⟩, IndexRange.store_of_le (by omega)⟩

private theorem lexemeToken_number (fits : draft.Fits range) {lexeme : String} {token : Nat} :
    (draft.number range).lexemeToken? lexeme = some token ↔
      (draft.number range).isClass token = false ∧
        (draft.number range).tokenMatches token lexeme = true := by
  have kept := fits.tokens
  have named {place : Nat} {token : Token}
      (found : (draft.number range).tokens[place]? = some token) :
      draft.tokenNames[place]? = some token.name := by
    simp only [number, Array.getElem?_map, Option.map_eq_some_iff] at found
    obtain ⟨name, at', rfl⟩ := found
    exact at'
  rw [Grammar.lexemeToken?, Option.map_eq_some_iff]
  constructor
  · intro located
    obtain ⟨place, found, stored⟩ := located
    obtain ⟨inside, plain, _⟩ := Array.findIdx?_eq_some_iff_getElem.mp found
    have at' := Array.getElem?_eq_getElem inside
    have bound := (Array.getElem?_eq_some_iff.mp (named at')).1
    have same : place = token := by rw [← stored, number_range, IndexRange.store_of_le (by omega)]
    subst same
    simp only [Bool.and_eq_true, Bool.not_eq_true', Token.isClass, Option.isSome_eq_false_iff,
      Option.isNone_iff_eq_none, beq_iff_eq] at plain
    simp [Grammar.isClass, Grammar.tokenMatches, at', Token.isClass, Token.recognizes, plain]
  · intro named
    obtain ⟨plain, matched⟩ := named
    unfold Grammar.tokenMatches at matched
    split at matched
    · rename_i entry at'
      simp only [Grammar.isClass, at', Token.isClass, Option.isSome_eq_false_iff,
        Option.isNone_iff_eq_none] at plain
      have name : entry.name = lexeme := by simpa [Token.recognizes, plain] using matched
      have fitting : (!entry.isClass && entry.name == lexeme) = true := by
        simp [Token.isClass, plain, name]
      obtain ⟨place, found⟩ : ∃ place, (draft.number range).tokens.findIdx?
          (fun token => !token.isClass && token.name == lexeme) = some place := by
        apply Option.isSome_iff_exists.mp
        rw [Array.findIdx?_isSome]
        exact Array.any_eq_true'.mpr ⟨entry, Array.mem_of_getElem? at', fitting⟩
      obtain ⟨inside, other, _⟩ := Array.findIdx?_eq_some_iff_getElem.mp found
      have here := named (Array.getElem?_eq_getElem inside)
      have there := named at'
      simp only [Bool.and_eq_true, beq_iff_eq] at other
      rw [other.2, ← name] at here
      have bound := (Array.getElem?_eq_some_iff.mp here).1
      have number := numberOf_eq_iff draft.nodup_tokenNames kept (Array.mem_of_getElem? here)
      have same := (number place).mpr here
      have same' := (number token).mpr there
      refine ⟨place, found, ?_⟩
      rw [number_range, IndexRange.store_of_le (by omega), ← same, same']
    · cases matched

/-- Building a grammar makes sure of everything that parsing relies on. -/
theorem build_wellFormed {grammar : Grammar α} (built : draft.build range = .ok grammar) :
    grammar.WellFormed := by
  obtain ⟨rfl, fits⟩ := of_build built
  constructor
  · intro production
    rw [symbols_number]
    cases found : draft.declarations[production]? with
    | none => exact Nat.zero_le _
    | some declaration => simpa using fits.symbols declaration (Array.mem_of_getElem? found)
  · intro rule production
    rw [mem_productionsOf_number fits, productions_number]
    constructor
    · intro declared
      obtain ⟨declaration, found, same⟩ := declared
      exact ⟨(Array.getElem?_eq_some_iff.mp found).1, (ruleOf_number_iff fits found rule).mpr same⟩
    · intro known
      obtain ⟨inside, same⟩ := known
      have found := Array.getElem?_eq_getElem inside
      exact ⟨_, found, (ruleOf_number_iff fits found rule).mp same⟩
  · intro production inside
    rw [productions_number] at inside
    have found := Array.getElem?_eq_getElem inside
    have named := (ruleOf_number_iff fits found _).mp rfl
    simpa [number] using (Array.getElem?_eq_some_iff.mp named).1
  · exact lexemeToken_number fits

end Draft

end ChartParser
