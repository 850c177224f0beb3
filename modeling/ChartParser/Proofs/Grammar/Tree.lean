import ChartParser.Proofs.Grammar.WellFormed
import Mathlib.Computability.ContextFreeGrammar

namespace ChartParser

/-- A lexeme, by its offset in the input, or a production with one tree for each of its symbols. -/
inductive Tree where
  | lexeme (offset : Nat)
  | rule (production : Nat) (children : List Tree)

/-- The symbol in a context-free grammar over the token numbers. -/
def Symbol.atom (symbol : Symbol) :=
  match symbol with
  | .rule index => @Symbol.nonterminal Nat Nat index
  | .token index => Symbol.terminal index

theorem Symbol.atom_injective : Function.Injective Symbol.atom := by
  intro first second same
  cases first <;> cases second <;> simp_all [atom]

/-- The trees match the symbols one by one, and together the lexemes from `start` to `stop`. -/
inductive Spells {α : Type} (grammar : Grammar α) (input : Array String) :
    List Tree → List Symbol → Nat → Nat → Prop
  | nil : Spells grammar input [] [] offset offset
  | lexeme (read : input[start]? = some lexeme)
      (matched : grammar.tokenMatches token lexeme = true)
      (rest : Spells grammar input trees symbols (start + 1) stop) :
      Spells grammar input (.lexeme start :: trees) (.token token :: symbols) start stop
  | rule (known : production < grammar.productions.size)
      (inner : Spells grammar input children (grammar.symbols production).toList start middle)
      (rest : Spells grammar input trees symbols middle stop) :
      Spells grammar input (.rule production children :: trees)
        (.rule (grammar.ruleOf production) :: symbols) start stop

/-- A parse tree of a rule over the whole input. -/
def IsParseTree {α : Type} (grammar : Grammar α) (input : Array String) (rule : Nat)
    (tree : Tree) : Prop :=
  Spells grammar input [tree] [.rule rule] 0 input.size

namespace Spells

variable {α : Type} {grammar : Grammar α} {input : Array String}
  {trees others : List Tree} {symbols more : List Symbol} {start middle stop : Nat}

theorem start_le (spelled : Spells grammar input trees symbols start stop) : start ≤ stop := by
  induction spelled with
  | nil => exact Nat.le_refl _
  | lexeme _ _ _ later => omega
  | rule _ _ _ first later => omega

theorem length_eq (spelled : Spells grammar input trees symbols start stop) :
    trees.length = symbols.length := by
  induction spelled with
  | nil => rfl
  | lexeme _ _ _ ih => simp [ih]
  | rule _ _ _ _ ih => simp [ih]

/-- The same trees match equally many lexemes, whatever symbols they are matched as. -/
theorem width_eq (spelled : Spells grammar input trees symbols start stop) {first last : Nat}
    (again : Spells grammar input trees more first last) : start + last = first + stop := by
  induction spelled generalizing more first last with
  | nil =>
    cases again
    exact Nat.add_comm _ _
  | lexeme _ _ _ ih =>
    cases again with
    | lexeme _ _ rest =>
      have further := ih rest
      omega
  | rule _ _ _ below beside =>
    cases again with
    | rule _ inner rest =>
      have inside := below inner
      have further := beside rest
      omega

theorem append (spelled : Spells grammar input trees symbols start middle)
    (further : Spells grammar input others more middle stop) :
    Spells grammar input (trees ++ others) (symbols ++ more) start stop := by
  induction spelled with
  | nil => exact further
  | lexeme read matched _ ih => exact .lexeme read matched (ih further)
  | rule known inner _ _ ih => exact .rule known inner (ih further)

theorem split (spelled : Spells grammar input trees (symbols ++ more) start stop) :
    ∃ first second middle, trees = first ++ second ∧
      Spells grammar input first symbols start middle ∧
      Spells grammar input second more middle stop := by
  induction symbols generalizing trees start with
  | nil => exact ⟨[], trees, start, rfl, .nil, spelled⟩
  | cons symbol symbols ih =>
    cases spelled with
    | lexeme read matched rest =>
      obtain ⟨first, second, middle, rfl, spelled, further⟩ := ih rest
      exact ⟨_ :: first, second, middle, rfl, .lexeme read matched spelled, further⟩
    | rule known inner rest =>
      obtain ⟨first, second, middle, rfl, spelled, further⟩ := ih rest
      exact ⟨_ :: first, second, middle, rfl, .rule known inner spelled, further⟩

end Spells

namespace Grammar

variable {α : Type}

/-- The productions, as the rules of a context-free grammar over the token numbers. -/
def contextFreeRules (grammar : Grammar α) : Finset (ContextFreeRule Nat Nat) :=
  (grammar.productions.toList.map fun production =>
    ContextFreeRule.mk production.rule (production.symbols.toList.map Symbol.atom)).toFinset

/-- The context-free grammar that starts from a rule. -/
def contextFree (grammar : Grammar α) (rule : Nat) : ContextFreeGrammar Nat :=
  ⟨Nat, rule, grammar.contextFreeRules⟩

/-- A rule derives the lexemes if it derives a string of tokens that match them one by one. -/
def Derives (grammar : Grammar α) (rule : Nat) (lexemes : List String) : Prop :=
  ∃ tokens ∈ (grammar.contextFree rule).language,
    List.Forall₂ (fun token lexeme => grammar.tokenMatches token lexeme = true) tokens lexemes

theorem mem_contextFreeRules {grammar : Grammar α} {rule : ContextFreeRule Nat Nat} :
    rule ∈ grammar.contextFreeRules ↔ ∃ production < grammar.productions.size,
      rule = ⟨grammar.ruleOf production,
        (grammar.symbols production).toList.map Symbol.atom⟩ := by
  simp only [contextFreeRules, List.mem_toFinset, List.mem_map, Array.mem_toList_iff]
  constructor
  · intro listed
    obtain ⟨entry, member, rfl⟩ := listed
    obtain ⟨production, inside, rfl⟩ := Array.mem_iff_getElem.mp member
    exact ⟨production, inside, by simp [ruleOf, Grammar.symbols, inside]⟩
  · intro owned
    obtain ⟨production, inside, rfl⟩ := owned
    exact ⟨grammar.productions[production], Array.getElem_mem inside,
      by simp [ruleOf, Grammar.symbols, inside]⟩

theorem produces_symbols (grammar : Grammar α) {production : Nat}
    (known : production < grammar.productions.size) (initial : Nat) :
    (grammar.contextFree initial).Produces [.nonterminal (grammar.ruleOf production)]
      ((grammar.symbols production).toList.map Symbol.atom) :=
  ⟨_, mem_contextFreeRules.mpr ⟨production, known, rfl⟩, .input_output⟩

/-- A step of a derivation rewrites one rule to the symbols of one of its productions. -/
theorem exists_production_of_produces {grammar : Grammar α} {initial : Nat}
    {symbols : List Symbol} {last}
    (produced : (grammar.contextFree initial).Produces (symbols.map Symbol.atom) last) :
    ∃ production < grammar.productions.size, ∃ front back : List Symbol,
      symbols = front ++ [.rule (grammar.ruleOf production)] ++ back ∧
      last = (front ++ (grammar.symbols production).toList ++ back).map Symbol.atom := by
  obtain ⟨rule, member, rewritten⟩ := produced
  obtain ⟨production, known, rfl⟩ := mem_contextFreeRules.mp member
  obtain ⟨before, after, source, rfl⟩ := rewritten.exists_parts
  obtain ⟨opening, back, rfl, opened, rfl⟩ := List.map_eq_append_iff.mp source
  obtain ⟨front, replaced, rfl, rfl, single⟩ := List.map_eq_append_iff.mp opened
  have same : replaced = [.rule (grammar.ruleOf production)] :=
    List.map_injective_iff.mpr Symbol.atom_injective single
  refine ⟨production, known, front, back, by rw [same], ?_⟩
  rw [List.map_append, List.map_append]
  rfl

end Grammar

section Agreement

variable {α : Type} {grammar : Grammar α} {input : Array String}

/-- The lexemes that trees match can be derived from the symbols that they match. -/
theorem Spells.derives {trees : List Tree} {symbols : List Symbol} {start stop : Nat}
    (spelled : Spells grammar input trees symbols start stop) (initial : Nat) :
    ∃ tokens lexemes, input.toList.drop start = lexemes ++ input.toList.drop stop ∧
      List.Forall₂ (fun token lexeme => grammar.tokenMatches token lexeme = true) tokens lexemes ∧
      (grammar.contextFree initial).Derives (symbols.map Symbol.atom)
        (tokens.map Symbol.terminal) := by
  induction spelled with
  | nil => exact ⟨[], [], rfl, .nil, Relation.ReflTransGen.refl⟩
  | @lexeme start lexeme token trees symbols stop read matched _ ih =>
    obtain ⟨tokens, lexemes, same, pairs, derived⟩ := ih
    obtain ⟨inside, value⟩ := Array.getElem?_eq_some_iff.mp read
    refine ⟨token :: tokens, lexeme :: lexemes, ?_, .cons matched pairs, ?_⟩
    · rw [List.drop_eq_getElem_cons (by simpa using inside), same]
      simp [value]
    · exact derived.append_left [Symbol.terminal token]
  | @rule production children start middle trees symbols stop known _ _ below later =>
    obtain ⟨tokens, lexemes, same, pairs, derived⟩ := below
    obtain ⟨further, others, same', pairs', derived'⟩ := later
    refine ⟨tokens ++ further, lexemes ++ others, ?_, List.rel_append pairs pairs', ?_⟩
    · rw [same, same', List.append_assoc]
    · have rewritten := grammar.produces_symbols known initial
      have first := (rewritten.trans_derives derived).append_right (symbols.map Symbol.atom)
      have second := derived'.append_left (tokens.map Symbol.terminal)
      rw [List.map_append]
      exact first.trans second

theorem Spells.derives_nil {trees : List Tree} {symbols : List Symbol} {offset : Nat}
    (spelled : Spells grammar input trees symbols offset offset) (initial : Nat) :
    (grammar.contextFree initial).Derives (symbols.map Symbol.atom) [] := by
  obtain ⟨tokens, lexemes, same, pairs, derived⟩ := spelled.derives initial
  obtain rfl := List.self_eq_append_left.mp same
  obtain rfl := List.forall₂_nil_right_iff.mp pairs
  exact derived

theorem spells_tokens {tokens : List Nat} {lexemes behind : List String}
    (pairs : List.Forall₂ (fun token lexeme => grammar.tokenMatches token lexeme = true)
      tokens lexemes) (start : Nat) (same : input.toList.drop start = lexemes ++ behind) :
    ∃ trees, Spells grammar input trees (tokens.map Symbol.token) start
      (start + lexemes.length) := by
  induction pairs generalizing start with
  | nil => exact ⟨[], .nil⟩
  | @cons token lexeme tokens lexemes matched _ ih =>
    have read : input[start]? = some lexeme := by
      have head := congrArg List.head? same
      simpa [List.head?_drop] using head
    have rest : input.toList.drop (start + 1) = lexemes ++ behind := by
      rw [List.drop_add_one_eq_tail_drop, same, List.cons_append, List.tail_cons]
    obtain ⟨trees, spelled⟩ := ih (start + 1) rest
    rw [Nat.add_assoc, Nat.add_comm 1] at spelled
    exact ⟨.lexeme start :: trees, .lexeme read matched spelled⟩

/-- What holds of a string of symbols holds of all strings that it can be derived from, if it is
kept when the symbols of a production are put back into its rule. -/
theorem Grammar.derives_backwards (holds : List Symbol → Prop)
    (step : ∀ {production} (front back : List Symbol), production < grammar.productions.size →
      holds (front ++ (grammar.symbols production).toList ++ back) →
      holds (front ++ [.rule (grammar.ruleOf production)] ++ back))
    {initial : Nat} {form last} (derived : (grammar.contextFree initial).Derives form last)
    {symbols others : List Symbol} (source : symbols.map Symbol.atom = form)
    (target : others.map Symbol.atom = last) (reached : holds others) : holds symbols := by
  induction derived using Relation.ReflTransGen.head_induction_on generalizing symbols with
  | refl => rwa [List.map_injective_iff.mpr Symbol.atom_injective (source.trans target.symm)]
  | head produced _ ih =>
    obtain rfl := source
    obtain ⟨production, known, front, back, rfl, rfl⟩ :=
      Grammar.exists_production_of_produces produced
    exact step front back known (ih rfl)

/-- What can be derived has parse trees: every step backwards joins the trees of a production's
symbols to one tree. -/
private theorem spells_of_derives {tokens : List Nat} {initial start stop : Nat}
    {form}
    (leaves : ∃ trees, Spells grammar input trees (tokens.map Symbol.token) start stop)
    (derived : (grammar.contextFree initial).Derives form (tokens.map Symbol.terminal))
    {symbols : List Symbol} (source : symbols.map Symbol.atom = form) :
    ∃ trees, Spells grammar input trees symbols start stop := by
  have plain : (tokens.map Symbol.token).map Symbol.atom = tokens.map Symbol.terminal := by
    simp [Symbol.atom]
  refine Grammar.derives_backwards (fun symbols => ∃ trees,
    Spells grammar input trees symbols start stop) ?_ derived source plain leaves
  intro production front back known spelled
  obtain ⟨trees, spelled⟩ := spelled
  obtain ⟨opening, closing, middle, -, spelled, behind⟩ := spelled.split
  obtain ⟨ahead, children, inner, -, before, below⟩ := spelled.split
  exact ⟨_, (before.append (.rule known below .nil)).append behind⟩

theorem derives_iff_exists_tree {rule : Nat} :
    grammar.Derives rule input.toList ↔ ∃ tree, IsParseTree grammar input rule tree := by
  constructor
  · intro derives
    obtain ⟨tokens, derived, pairs⟩ := derives
    have leaves := spells_tokens pairs 0 (List.append_nil _).symm
    have single : [Symbol.rule rule].map Symbol.atom = [.nonterminal rule] := rfl
    obtain ⟨trees, spelled⟩ := spells_of_derives leaves derived single
    obtain ⟨tree, rfl⟩ := List.length_eq_one_iff.mp spelled.length_eq
    exact ⟨tree, by simpa [IsParseTree] using spelled⟩
  · intro parsed
    obtain ⟨tree, spelled⟩ := parsed
    obtain ⟨tokens, lexemes, same, pairs, derived⟩ := spelled.derives rule
    have whole : input.toList = lexemes := by
      rwa [List.drop_zero, List.drop_of_length_le (by simp), List.append_nil] at same
    exact ⟨tokens, derived, whole ▸ pairs⟩

end Agreement

end ChartParser
