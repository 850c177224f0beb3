import ChartParser.Proofs.Grammar.Names

namespace ChartParser

namespace Grammar

variable {α : Type}

/-- The name of a symbol, if there is a rule or a token of its number. -/
def name? (grammar : Grammar α) : Symbol → Option String
  | .rule number => grammar.rules[number]?.map (·.name)
  | .token number => grammar.tokens[number]?.map (·.name)

/-- A grammar that says what these declarations say. -/
structure Transcribes (grammar : Grammar α) (declarations : List (Declaration α))
    (classes : List TokenClass) : Prop where
  /-- There is one production for each declaration, with as many symbols. -/
  productions : grammar.productions.size = declarations.length
  length : ∀ {production declaration}, declarations[production]? = some declaration →
    grammar.length production = declaration.symbols.length
  /-- The symbols of a production have the declared names. -/
  symbols : ∀ {production declaration}, declarations[production]? = some declaration →
    (grammar.symbols production).toList.map grammar.name? = declaration.symbols.map some
  /-- A name is a rule if it is declared anywhere, be it later on. -/
  isRule : ∀ {production declaration} {place : Nat} {name},
    declarations[production]? = some declaration → declaration.symbols[place]? = some name →
      ((∃ rule, (grammar.symbols production)[place]? = some (Symbol.rule rule)) ↔
        ∃ other ∈ declarations, other.name = name)
  /-- Rules are numbered in the order of their first declaration. -/
  ruleNames : grammar.rules.toList.map (·.name) = (declarations.map (·.name)).eraseDups
  /-- Tokens are numbered in the order of their first use, and then in the order of declaration. -/
  tokenNames : grammar.tokens.toList.map (·.name) =
    ((declarations.flatMap (·.symbols)).filter (· ∉ declarations.map (·.name))).eraseDups ++
      (classes.map (·.name)).filter (· ∉ declarations.flatMap (·.symbols))
  ruleNumber : ∀ {name rule},
    grammar.ruleNumber? name = some rule ↔ grammar.name? (.rule rule) = some name
  tokenNumber : ∀ {name token},
    grammar.tokenNumber? name = some token ↔ grammar.name? (.token token) = some name
  /-- Each rule has some of the productions, no two rules share one, and all belong to a rule. -/
  nonempty : ∀ rule < grammar.rules.size, ∃ production, production ∈ grammar.productionsOf rule
  partition : ∀ production < grammar.productions.size,
    ∃! rule, production ∈ grammar.productionsOf rule
  ascending : ∀ rule, (grammar.productionsOf rule).toList.Pairwise (· < ·)
  /-- A rule has the productions that are declared under its name. -/
  mem_productionsOf : ∀ {rule production}, production ∈ grammar.productionsOf rule ↔
    production < grammar.productions.size ∧ grammar.ruleOf production = rule
  ruleOf : ∀ {production declaration rule}, declarations[production]? = some declaration →
    (grammar.ruleOf production = rule ↔ grammar.name? (.rule rule) = some declaration.name)
  /-- The token classes are the tokens that are declared so, and a class accepts what it was
  declared to accept. -/
  isClass : ∀ token ∈ grammar.tokens,
    token.isClass = true ↔ ∃ declared ∈ classes, declared.name = token.name
  accepts : ∀ token ∈ grammar.tokens, ∀ accepts,
    token.accepts = some accepts ↔ ⟨token.name, accepts⟩ ∈ classes

end Grammar

namespace Draft

variable {α : Type} {draft : Draft α} {range : IndexRange}

theorem name_rule_number (draft : Draft α) (range : IndexRange) (rule : Nat) :
    (draft.number range).name? (.rule rule) = draft.ruleNames[rule]? := by
  simp [Grammar.name?, number, Function.comp_def]

theorem name_token_number (draft : Draft α) (range : IndexRange) (token : Nat) :
    (draft.number range).name? (.token token) = draft.tokenNames[token]? := by
  simp [Grammar.name?, number, Function.comp_def]

theorem mem_tokenNames_of_symbol {declaration : Declaration α} {name : String}
    (member : declaration ∈ draft.declarations) (symbol : name ∈ declaration.symbols)
    (plain : name ∉ draft.ruleNames) : name ∈ draft.tokenNames := by
  refine mem_tokenNames.mpr (.inl ?_)
  simp only [usedTokens, List.mem_filter, List.mem_flatMap, Array.mem_toList_iff]
  exact ⟨⟨declaration, member, symbol⟩, by simpa using plain⟩

theorem name_resolve (fits : draft.Fits range) {declaration : Declaration α} {name : String}
    (member : declaration ∈ draft.declarations) (symbol : name ∈ declaration.symbols) :
    (draft.number range).name? (resolve range draft.ruleNames draft.tokenNames name) =
      some name := by
  unfold resolve
  split
  · rename_i rule
    rw [name_rule_number]
    exact (numberOf_eq_iff draft.nodup_ruleNames fits.rules (by simpa using rule) _).mp rfl
  · rename_i plain
    rw [name_token_number]
    have listed := mem_tokenNames_of_symbol member symbol (by simpa using plain)
    exact (numberOf_eq_iff draft.nodup_tokenNames fits.tokens listed _).mp rfl

theorem names_symbols_number (fits : draft.Fits range) {production : Nat}
    {declaration : Declaration α} (declared : draft.declarations[production]? = some declaration) :
    ((draft.number range).symbols production).toList.map (draft.number range).name? =
      declaration.symbols.map some := by
  rw [symbols_number, declared, List.map_map]
  exact List.map_congr_left fun name symbol =>
    name_resolve fits (Array.mem_of_getElem? declared) symbol

theorem resolve_isRule {rules tokens : Array String} {name : String} :
    (∃ rule, resolve range rules tokens name = .rule rule) ↔ name ∈ rules := by
  unfold resolve
  split <;> simp_all

/-- In a list without repetitions that fits the range, a name has a number if it is in the list,
and then it is found there. -/
theorem findIdx_store_iff {names : Array String} (distinct : names.toList.Nodup)
    (fits : names.size ≤ range.max) {name : String} {number : Nat} :
    (names.findIdx? (· == name)).map range.store = some number ↔ names[number]? = some name := by
  constructor
  · intro stored
    obtain ⟨place, found, rfl⟩ := Option.map_eq_some_iff.mp stored
    have at' := (findIdx_iff distinct).mp found
    have inside := (Array.getElem?_eq_some_iff.mp at').1
    rwa [IndexRange.store_of_le (by omega)]
  · intro at'
    have inside := (Array.getElem?_eq_some_iff.mp at').1
    rw [(findIdx_iff distinct).mpr at', Option.map_some, IndexRange.store_of_le (by omega)]

theorem ruleNumber_number (fits : draft.Fits range) {name : String} {rule : Nat} :
    (draft.number range).ruleNumber? name = some rule ↔ draft.ruleNames[rule]? = some name := by
  rw [← findIdx_store_iff draft.nodup_ruleNames fits.rules]
  simp [Grammar.ruleNumber?, number, Array.findIdx?_map, Function.comp_def]

theorem tokenNumber_number (fits : draft.Fits range) {name : String} {token : Nat} :
    (draft.number range).tokenNumber? name = some token ↔ draft.tokenNames[token]? = some name := by
  rw [← findIdx_store_iff draft.nodup_tokenNames fits.tokens]
  simp [Grammar.tokenNumber?, number, Array.findIdx?_map, Function.comp_def]

theorem exists_production_of_rule (fits : draft.Fits range) {rule : Nat}
    (inside : rule < (draft.number range).rules.size) :
    ∃ production < (draft.number range).productions.size,
      (draft.number range).ruleOf production = rule := by
  obtain ⟨name, named⟩ : ∃ name, draft.ruleNames[rule]? = some name :=
    ⟨_, Array.getElem?_eq_getElem (by simpa [number] using inside)⟩
  obtain ⟨declaration, member, rfl⟩ := mem_ruleNames.mp (Array.mem_of_getElem? named)
  obtain ⟨production, declared⟩ := Array.mem_iff_getElem?.mp member
  refine ⟨production, ?_, (ruleOf_number_iff fits declared rule).mpr named⟩
  rw [productions_number]
  exact (Array.getElem?_eq_some_iff.mp declared).1

theorem ascending_productionsOf (fits : draft.Fits range) (rule : Nat) :
    ((draft.number range).productionsOf rule).toList.Pairwise (· < ·) := by
  simp only [Grammar.productionsOf, number, Array.getElem?_map]
  cases draft.ruleNames[rule]? with
  | none => exact .nil
  | some name =>
    have places : draft.declarations.toList.zipIdx.Pairwise (·.2 < ·.2) := by
      rw [← List.pairwise_map, List.zipIdx_map_snd]
      exact List.pairwise_lt_range'
    simp only [Option.map_some, List.pairwise_map]
    refine (places.filter _).imp_of_mem fun {first second} member member' before => ?_
    have inside := (List.mem_zipIdx (List.mem_filter.mp member).1).2.1
    have inside' := (List.mem_zipIdx (List.mem_filter.mp member').1).2.1
    have kept := fits.productions
    rw [Nat.zero_add, Array.length_toList] at inside inside'
    rwa [IndexRange.store_of_le (by omega), IndexRange.store_of_le (by omega)]

theorem mem_tokens_number {token : Token} (member : token ∈ (draft.number range).tokens) :
    token.accepts = (draft.classes.find? (·.name == token.name)).map (·.accepts) := by
  simp only [number, Array.mem_map] at member
  obtain ⟨name, -, rfl⟩ := member
  rfl

theorem accepts_number (distinct : (draft.classes.toList.map (·.name)).Nodup) {token : Token}
    (member : token ∈ (draft.number range).tokens) (accepts : String → Bool) :
    token.accepts = some accepts ↔ ⟨token.name, accepts⟩ ∈ draft.classes := by
  rw [mem_tokens_number member, Option.map_eq_some_iff]
  constructor
  · intro found
    obtain ⟨declared, found, rfl⟩ := found
    have same : declared.name = token.name := by simpa using Array.find?_some found
    rw [← same]
    exact Array.mem_of_find?_eq_some found
  · intro declared
    cases found : draft.classes.find? (·.name == token.name) with
    | none =>
      have other := Array.find?_eq_none.mp found _ declared
      simp at other
    | some other =>
      have same : other.name = token.name := by simpa using Array.find?_some found
      have only : other = ⟨token.name, accepts⟩ := List.inj_on_of_nodup_map distinct
        (by simpa using Array.mem_of_find?_eq_some found) (by simpa using declared) same
      exact ⟨other, rfl, by rw [only]⟩

theorem isClass_number {token : Token} (member : token ∈ (draft.number range).tokens) :
    token.isClass = true ↔ ∃ declared ∈ draft.classes, declared.name = token.name := by
  rw [Token.isClass, mem_tokens_number member]
  simp

theorem toList_tokenNames_of_classes (distinct : (draft.classes.toList.map (·.name)).Nodup)
    (apart : ∀ declared ∈ draft.classes, declared.name ∉ draft.ruleNames) :
    draft.tokenNames.toList =
      ((draft.declarations.toList.flatMap (·.symbols)).filter
        (· ∉ draft.declarations.toList.map (·.name))).eraseDups ++
      (draft.classes.toList.map (·.name)).filter
        (· ∉ draft.declarations.toList.flatMap (·.symbols)) := by
  have used : draft.usedTokens = (draft.declarations.toList.flatMap (·.symbols)).filter
      (· ∉ draft.declarations.toList.map (·.name)) :=
    List.filter_congr fun name _ => by
      rw [Bool.eq_iff_iff]
      simp [mem_ruleNames]
  have unused : (draft.classes.toList.map (·.name)).removeAll draft.usedTokens =
      (draft.classes.toList.map (·.name)).filter
        (· ∉ draft.declarations.toList.flatMap (·.symbols)) := by
    refine List.filter_congr fun name member => ?_
    obtain ⟨declared, known, rfl⟩ := List.mem_map.mp member
    have plain := apart declared (Array.mem_toList_iff.mp known)
    rw [Bool.eq_iff_iff]
    simp [usedTokens, plain]
  rw [toList_tokenNames, unused, eraseDups_of_nodup (distinct.filter _), used]

/-- A grammar that was built says what its draft says. -/
theorem transcribes_of_build {grammar : Grammar α} (built : draft.build range = .ok grammar)
    (distinct : (draft.classes.toList.map (·.name)).Nodup) :
    grammar.Transcribes draft.declarations.toList draft.classes.toList := by
  have valid := build_wellFormed built
  have apart := (classes_of_fault (fault_of_build built)).2
  obtain ⟨rfl, fits⟩ := of_build built
  constructor
  case productions => simp [productions_number]
  case length =>
    intro production declaration declared
    rw [Array.getElem?_toList] at declared
    rw [valid.length_eq, symbols_number, declared]
    simp
  case symbols =>
    intro production declaration declared
    rw [Array.getElem?_toList] at declared
    exact names_symbols_number fits declared
  case isRule =>
    intro production declaration place name declared symbol
    rw [Array.getElem?_toList] at declared
    rw [symbols_number, declared]
    simp only [List.getElem?_toArray, List.getElem?_map, symbol, Option.map_some,
      Option.some.injEq, resolve_isRule, mem_ruleNames, Array.mem_toList_iff]
  case ruleNames =>
    rw [← toList_ruleNames]
    simp [number, Function.comp_def]
  case tokenNames =>
    rw [← toList_tokenNames_of_classes distinct apart]
    simp [number, Function.comp_def]
  case ruleNumber =>
    intro name rule
    rw [name_rule_number, ruleNumber_number fits]
  case tokenNumber =>
    intro name token
    rw [name_token_number, tokenNumber_number fits]
  case nonempty =>
    intro rule inside
    obtain ⟨production, belongs⟩ := exists_production_of_rule fits inside
    exact ⟨production, valid.mem_productionsOf.mpr belongs⟩
  case partition =>
    intro production inside
    refine ⟨(draft.number range).ruleOf production, valid.mem_productionsOf.mpr ⟨inside, rfl⟩, ?_⟩
    intro rule listed
    exact (valid.mem_productionsOf.mp listed).2.symm
  case ascending => exact ascending_productionsOf fits
  case mem_productionsOf => exact valid.mem_productionsOf
  case ruleOf =>
    intro production declaration rule declared
    rw [Array.getElem?_toList] at declared
    rw [name_rule_number]
    exact ruleOf_number_iff fits declared rule
  case isClass =>
    intro token member
    simpa using isClass_number member
  case accepts =>
    intro token member accepts
    simpa using accepts_number distinct member accepts

/-- Building a grammar loses nothing. All productions and token classes that were declared can be
read off it again, however rules, tokens and classes were mixed. -/
theorem build_transcribes {start : String} {entries : List (Entry α)} {grammar : Grammar α}
    (built : (ofEntries start entries).build range = .ok grammar) :
    grammar.Transcribes (entries.filterMap Entry.declaration?)
      (entries.filterMap Entry.tokenClass?) := by
  obtain ⟨classes, distinct⟩ :=
    classes_ofEntries (classes_of_fault (fault_of_build built)).1
  have kept := transcribes_of_build built distinct
  rwa [declarations_ofEntries, classes] at kept

/-- Pairs in brackets, with their two classes declared in between. -/
def pairs : List (Entry Unit) :=
  [.production ⟨"pair", ["(", "item", "item", ")"], none, none⟩,
    .tokenClass ⟨"space", (· == " ")⟩,
    .production ⟨"item", ["word"], none, none⟩,
    .tokenClass ⟨"word", (· != " ")⟩,
    .production ⟨"pair", [], none, none⟩]

/-- Of the names in pairs, an item is a rule although it is declared later, and a space is a token
although no production uses it. -/
theorem build_transcribes_pairs : ∃ grammar, (ofEntries "pair" pairs).build .bits8 = .ok grammar ∧
    grammar.rules.toList.map (·.name) = ["pair", "item"] ∧
    grammar.tokens.toList.map (·.name) = ["(", ")", "word", "space"] ∧
    (grammar.symbols 0).toList.map grammar.name? =
      [some "(", some "item", some "item", some ")"] ∧
    (∃ rule, (grammar.symbols 0)[1]? = some (.rule rule)) ∧
    (∀ rule, 2 ∈ grammar.productionsOf rule ↔ grammar.name? (.rule rule) = some "pair") ∧
    ∀ token ∈ grammar.tokens, token.isClass = true ↔ token.name = "space" ∨ token.name = "word" := by
  obtain ⟨grammar, built⟩ : ∃ grammar, (ofEntries "pair" pairs).build .bits8 = .ok grammar :=
    ⟨_, build_eq_number (by decide +kernel) (by decide +kernel)⟩
  have kept := build_transcribes built
  have count : grammar.productions.size = 3 := kept.productions
  have first : (pairs.filterMap Entry.declaration?)[0]? =
      some ⟨"pair", ["(", "item", "item", ")"], none, none⟩ := rfl
  have last : (pairs.filterMap Entry.declaration?)[2]? = some ⟨"pair", [], none, none⟩ := rfl
  have item : ["(", "item", "item", ")"][1]? = some "item" := rfl
  refine ⟨grammar, built, kept.ruleNames, ?_, kept.symbols first, ?_, ?_, ?_⟩
  · rw [kept.tokenNames]
    decide +kernel
  · exact (kept.isRule first item).mpr ⟨_, .tail _ (.head _), rfl⟩
  · intro rule
    rw [kept.mem_productionsOf, kept.ruleOf last, count]
    exact and_iff_right (by decide)
  · intro token member
    rw [kept.isClass token member]
    simp [pairs, Entry.tokenClass?, eq_comm]

end Draft

end ChartParser
