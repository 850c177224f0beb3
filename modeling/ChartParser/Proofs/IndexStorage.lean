import ChartParser.Proofs.Grammar.Widening

namespace ChartParser

namespace Draft

variable {α : Type} {draft : Draft α} {range wider : IndexRange}

inductive Complaint (draft : Draft α) (range : IndexRange) : String → Prop
  | rules (many : range.max < draft.ruleNames.size) :
      Complaint draft range "StorageT is not big enough to store this grammar's rules."
  | tokens (rules : draft.ruleNames.size ≤ range.max) (many : range.max < draft.tokenNames.size) :
      Complaint draft range "StorageT is not big enough to store this grammar's tokens."
  | productions (rules : draft.ruleNames.size ≤ range.max)
      (tokens : draft.tokenNames.size ≤ range.max) (many : range.max < draft.declarations.size) :
      Complaint draft range "StorageT is not big enough to store this grammar's productions."
  | symbols (rules : draft.ruleNames.size ≤ range.max) (tokens : draft.tokenNames.size ≤ range.max)
      (productions : draft.declarations.size ≤ range.max)
      (long : ∃ declaration ∈ draft.declarations, range.max < declaration.symbols.length) :
      Complaint draft range
        "StorageT is not big enough to store the symbols of at least one of this grammar's productions."

theorem Fits.mono (fits : draft.Fits range) (larger : range.max ≤ wider.max) : draft.Fits wider :=
  ⟨Nat.le_trans fits.rules larger, Nat.le_trans fits.tokens larger,
    Nat.le_trans fits.productions larger,
    fun declaration member => Nat.le_trans (fits.symbols declaration member) larger⟩

private theorem any_long : (draft.declarations.any
    fun declaration => range.max < declaration.symbols.length) = true ↔
      ∃ declaration ∈ draft.declarations, range.max < declaration.symbols.length := by
  rw [Array.any_eq_true']
  simp only [decide_eq_true_eq]

theorem overflow_eq_none_iff : draft.overflow? range = none ↔ draft.Fits range := by
  refine ⟨fits_of_overflow, fun fits => ?_⟩
  rw [overflow?, if_neg (Nat.not_lt_of_le fits.rules), if_neg (Nat.not_lt_of_le fits.tokens),
    if_neg (Nat.not_lt_of_le fits.productions), if_neg]
  rw [any_long]
  intro long
  obtain ⟨declaration, member, exceeds⟩ := long
  exact absurd (fits.symbols declaration member) (Nat.not_le_of_lt exceeds)

theorem complaint_of_overflow {error : DraftError}
    (found : draft.overflow? range = some error) : draft.Complaint range error.message := by
  unfold overflow? at found
  split at found
  · cases found
    exact .rules ‹_›
  · split at found
    · cases found
      exact .tokens (Nat.le_of_not_lt ‹_›) ‹_›
    · split at found
      · cases found
        exact .productions (Nat.le_of_not_lt ‹_›) (Nat.le_of_not_lt ‹_›) ‹_›
      · split at found
        · rename_i rules tokens productions long
          cases found
          exact .symbols (Nat.le_of_not_lt rules) (Nat.le_of_not_lt tokens)
            (Nat.le_of_not_lt productions) (any_long.mp long)
        · cases found

theorem Complaint.overflow {text : String} (complaint : draft.Complaint range text) :
    ∃ error, draft.overflow? range = some error ∧ error.message = text := by
  unfold overflow?
  cases complaint with
  | rules many => exact ⟨_, if_pos many, rfl⟩
  | tokens rules many =>
    rw [if_neg (Nat.not_lt_of_le rules)]
    exact ⟨_, if_pos many, rfl⟩
  | productions rules tokens many =>
    rw [if_neg (Nat.not_lt_of_le rules), if_neg (Nat.not_lt_of_le tokens)]
    exact ⟨_, if_pos many, rfl⟩
  | symbols rules tokens productions long =>
    rw [if_neg (Nat.not_lt_of_le rules), if_neg (Nat.not_lt_of_le tokens),
      if_neg (Nat.not_lt_of_le productions)]
    exact ⟨_, if_pos (any_long.mpr long), rfl⟩

/-- Declarations without a fault are refused with the complaint that applies. -/
theorem build_error_iff (sane : draft.fault? = none) (text : String) :
    (∃ error, draft.build range = .error error ∧ error.message = text) ↔
      draft.Complaint range text := by
  rw [build, sane]
  constructor
  · intro refused
    obtain ⟨error, refused, rfl⟩ := refused
    cases found : draft.overflow? range with
    | none => simp [found] at refused
    | some overflow =>
      simp only [found, Except.error.injEq] at refused
      exact refused ▸ complaint_of_overflow found
  · intro complaint
    obtain ⟨error, found, same⟩ := complaint.overflow
    exact ⟨error, by rw [found], same⟩

section Numbers

theorem numberOf_eq {names : Array String} (fits : names.size ≤ range.max) (name : String) :
    numberOf range names name = (names.findIdx? (· == name)).getD 0 := by
  refine IndexRange.store_of_le ?_
  cases found : names.findIdx? (· == name) with
  | none => exact Nat.zero_le _
  | some place =>
    have inside := (Array.findIdx?_eq_some_iff_getElem.mp found).1
    rw [Option.getD_some]
    omega

theorem Fits.within (fits : draft.Fits range) : (draft.number range).Within range := by
  refine ⟨by simpa [number] using fits.rules, by simpa [number] using fits.tokens, ?_, ?_⟩
  · rw [productions_number]
    exact fits.productions
  · intro production
    rw [symbols_number]
    cases found : draft.declarations[production]? with
    | none => exact Nat.zero_le _
    | some declaration => simpa using fits.symbols declaration (Array.mem_of_getElem? found)

theorem number_keptIn (fits : draft.Fits range) (fits' : draft.Fits wider) :
    draft.number wider = (draft.number range).keptIn wider := by
  have places (name : String) :
      ((draft.declarations.toList.zipIdx.filter (·.1.name == name)).map
        fun entry => wider.store entry.2) =
      ((draft.declarations.toList.zipIdx.filter (·.1.name == name)).map
        fun entry => range.store entry.2) := by
    refine List.map_congr_left fun entry member => ?_
    obtain ⟨-, inside, -⟩ := List.mem_zipIdx (List.mem_filter.mp member).1
    rw [Nat.zero_add, Array.length_toList] at inside
    have narrow := fits.productions
    have wide := fits'.productions
    rw [IndexRange.store_of_le (by omega), IndexRange.store_of_le (by omega)]
  have symbols : resolve wider draft.ruleNames draft.tokenNames =
      resolve range draft.ruleNames draft.tokenNames := by
    funext name
    simp only [resolve, numberOf_eq fits.rules, numberOf_eq fits.tokens, numberOf_eq fits'.rules,
      numberOf_eq fits'.tokens]
  simp only [number, Grammar.keptIn, places, symbols, numberOf_eq fits.rules,
    numberOf_eq fits'.rules]

end Numbers

/-- The range in which index numbers are kept does not show. Declarations without a fault are
refused exactly if it cannot hold the number of rules, of tokens or of productions or the length of
a production, with a complaint about the first of these. Otherwise no number wraps around: all
counts and lengths are those of the declarations, and a dot goes through all places of its
production. In every wider range the grammar is the same, and so is every parse. -/
theorem index_storage (sane : draft.fault? = none) (range : IndexRange) :
    (∀ text, (∃ error, draft.build range = .error error ∧ error.message = text) ↔
      draft.Complaint range text) ∧
    ((∃ grammar, draft.build range = .ok grammar) ↔ draft.Fits range) ∧
    ∀ grammar, draft.build range = .ok grammar →
      grammar.ruleCount = draft.ruleNames.size ∧
      grammar.tokenCount = draft.tokenNames.size ∧
      grammar.productionCount = draft.declarations.size ∧
      (∀ production declaration, draft.declarations[production]? = some declaration →
        grammar.length production = declaration.symbols.length) ∧
      (∀ production count, grammar.advance^[count] (.startOf production) =
        ⟨production, min count (grammar.length production)⟩) ∧
      ∀ wider : IndexRange, range.max ≤ wider.max →
        draft.build wider = .ok (grammar.keptIn wider) ∧
        (∀ position, (grammar.keptIn wider).advance position = grammar.advance position) ∧
        (∀ name, (grammar.keptIn wider).ruleNumber? name = grammar.ruleNumber? name ∧
          (grammar.keptIn wider).tokenNumber? name = grammar.tokenNumber? name) ∧
        ∀ start input, (grammar.keptIn wider).parse start input = grammar.parse start input := by
  refine ⟨build_error_iff sane, ⟨?_, ?_⟩, ?_⟩
  · rintro ⟨grammar, built⟩
    exact (of_build built).2
  · intro fits
    exact ⟨_, build_eq_number sane (overflow_eq_none_iff.mpr fits)⟩
  · intro grammar built
    obtain ⟨rfl, fits⟩ := of_build built
    have within := fits.within
    refine ⟨?_, ?_, ?_, ?_, ?_, ?_⟩
    · rw [within.ruleCount_eq]
      simp [number]
    · rw [within.tokenCount_eq]
      simp [number]
    · rw [within.productionCount_eq, productions_number]
    · intro production declaration found
      rw [within.length_eq, symbols_number, found]
      simp
    · exact within.iterate_advance
    · intro wider larger
      have fits' := fits.mono larger
      have same := number_keptIn fits fits'
      have within' : (draft.number range).Within wider :=
        Grammar.within_keptIn.mp (same ▸ fits'.within)
      refine ⟨?_, Grammar.advance_keptIn within within', fun name =>
        ⟨Grammar.ruleNumber_keptIn within within' name,
          Grammar.tokenNumber_keptIn within within' name⟩,
        Grammar.parse_keptIn within within'⟩
      rw [build_eq_number sane (overflow_eq_none_iff.mpr fits'), same]

def rows (length : Nat) : Draft Unit :=
  .ofEntries "row" [.production ⟨"row", List.replicate length "x", none, none⟩]

theorem declaration_rows (length : Nat) : (rows length).declarations[0]? =
    some ⟨"row", List.replicate length "x", none, none⟩ := rfl

/-- A row of 255 lexemes is parsed with numbers of 8 bits as with numbers of 64 bits, and a row of
256 is refused. -/
theorem index_storage_rows :
    (∃ grammar, (rows 255).build .bits8 = .ok grammar ∧
      (rows 255).build .bits64 = .ok (grammar.keptIn .bits64) ∧
      grammar.advance^[255] (.startOf 0) = ⟨0, 255⟩ ∧
      ∀ input, (grammar.keptIn .bits64).parse 0 input = grammar.parse 0 input) ∧
    ∃ error, (rows 256).build .bits8 = .error error ∧ error.message =
      "StorageT is not big enough to store the symbols of at least one of this grammar's productions." := by
  have sane : (rows 255).fault? = none ∧ (rows 256).fault? = none := by decide +kernel
  constructor
  · obtain ⟨-, builds, each⟩ := index_storage sane.1 .bits8
    obtain ⟨grammar, built⟩ := builds.mpr (overflow_eq_none_iff.mp (by decide +kernel))
    obtain ⟨-, -, -, lengths, dots, wider⟩ := each grammar built
    obtain ⟨wide, -, -, parses⟩ := wider .bits64 (by decide)
    refine ⟨grammar, built, wide, ?_, parses 0⟩
    rw [dots, lengths 0 _ (declaration_rows 255), List.length_replicate, Nat.min_self]
  · refine ((index_storage sane.2 .bits8).1 _).mpr ?_
    refine .symbols (by decide +kernel) (by decide +kernel) (by decide +kernel)
      ⟨_, Array.mem_of_getElem? (declaration_rows 256), ?_⟩
    rw [List.length_replicate]
    decide

end Draft

end ChartParser
