import ChartParser.Proofs.Grammar.Tree

namespace ChartParser

namespace Grammar

variable {α : Type}

def SententialForm (grammar : Grammar α) (rule : Nat) (form : List Symbol) : Prop :=
  (grammar.contextFree rule).Derives [.nonterminal rule] (form.map Symbol.atom)

/-- Some sentential form of the rule begins with tokens that match the lexemes one by one. -/
def Viable (grammar : Grammar α) (rule : Nat) (lexemes : List String) : Prop :=
  ∃ tokens rest, grammar.SententialForm rule (tokens.map Symbol.token ++ rest) ∧
    List.Forall₂ (fun token lexeme => grammar.tokenMatches token lexeme = true) tokens lexemes

/-- Some sentential form of the rule begins with tokens that match the lexemes one by one, and goes
on with the symbols. -/
def Expects (grammar : Grammar α) (rule : Nat) (lexemes : List String) (symbols : List Symbol) :
    Prop :=
  ∃ tokens rest, grammar.SententialForm rule (tokens.map Symbol.token ++ symbols ++ rest) ∧
    List.Forall₂ (fun token lexeme => grammar.tokenMatches token lexeme = true) tokens lexemes

variable {grammar : Grammar α} {rule : Nat} {lexemes : List String} {symbols more : List Symbol}

theorem SententialForm.replace {front middle others back : List Symbol}
    (derived : grammar.SententialForm rule (front ++ middle ++ back))
    (inner : (grammar.contextFree rule).Derives (middle.map Symbol.atom)
      (others.map Symbol.atom)) : grammar.SententialForm rule (front ++ others ++ back) := by
  have around := (inner.append_left (front.map Symbol.atom)).append_right (back.map Symbol.atom)
  have whole (middle : List Symbol) : front.map Symbol.atom ++ middle.map Symbol.atom ++
      back.map Symbol.atom = (front ++ middle ++ back).map Symbol.atom := by simp
  exact derived.trans (cast (congrArg₂ _ (whole middle) (whole others)) around)

theorem expects_rule (grammar : Grammar α) (rule : Nat) : grammar.Expects rule [] [.rule rule] :=
  ⟨[], [], Relation.ReflTransGen.refl, .nil⟩

theorem Expects.viable (expects : grammar.Expects rule lexemes symbols) :
    grammar.Viable rule lexemes := by
  obtain ⟨tokens, rest, derived, pairs⟩ := expects
  rw [List.append_assoc] at derived
  exact ⟨tokens, _, derived, pairs⟩

theorem Expects.front (expects : grammar.Expects rule lexemes (symbols ++ more)) :
    grammar.Expects rule lexemes symbols := by
  obtain ⟨tokens, rest, derived, pairs⟩ := expects
  rw [← List.append_assoc, List.append_assoc] at derived
  exact ⟨tokens, _, derived, pairs⟩

theorem Expects.expand {production : Nat} (known : production < grammar.productions.size)
    (expects : grammar.Expects rule lexemes [.rule (grammar.ruleOf production)]) :
    grammar.Expects rule lexemes (grammar.symbols production).toList := by
  obtain ⟨tokens, rest, derived, pairs⟩ := expects
  have rewritten : (grammar.contextFree rule).Produces [.nonterminal (grammar.ruleOf production)]
      ((grammar.symbols production).toList.map Symbol.atom) :=
    ⟨_, mem_contextFreeRules.mpr ⟨production, known, rfl⟩, .input_output⟩
  exact ⟨tokens, rest, derived.replace rewritten.single, pairs⟩

theorem Expects.spells {input : Array String} {trees : List Tree} {start stop : Nat}
    (spelled : Spells grammar input trees symbols start stop)
    (expects : grammar.Expects rule (input.toList.take start) (symbols ++ more)) :
    grammar.Expects rule (input.toList.take stop) more := by
  obtain ⟨tokens, rest, derived, pairs⟩ := expects
  rw [← List.append_assoc, List.append_assoc] at derived
  obtain ⟨others, lexemes, same, pairs', inner⟩ := spelled.derives rule
  have whole : input.toList.take stop ++ input.toList.drop stop =
      input.toList.take start ++ lexemes ++ input.toList.drop stop := by
    rw [List.take_append_drop, List.append_assoc, ← same, List.take_append_drop]
  have read := List.append_cancel_right whole
  have plain : others.map Symbol.terminal = (others.map Symbol.token).map Symbol.atom := by
    simp [Symbol.atom]
  refine ⟨tokens ++ others, rest, ?_, read ▸ List.rel_append pairs pairs'⟩
  rw [List.map_append, List.append_assoc]
  exact derived.replace (cast (congrArg _ plain) inner)

end Grammar

/-- The symbols can be expanded to begin with tokens that match the lexemes from `start` up to the
last one, and that one, too. -/
inductive Consumes {α : Type} (grammar : Grammar α) (input : Array String) (last : Nat) :
    List Symbol → Nat → Prop
  | here (read : input[last]? = some lexeme) (matched : grammar.tokenMatches token lexeme = true) :
      Consumes grammar input last (.token token :: symbols) last
  | inside (known : production < grammar.productions.size)
      (inner : Consumes grammar input last (grammar.symbols production).toList start) :
      Consumes grammar input last (.rule (grammar.ruleOf production) :: symbols) start
  | behind (spelled : Spells grammar input [tree] [symbol] start middle) (before : middle ≤ last)
      (rest : Consumes grammar input last symbols middle) :
      Consumes grammar input last (symbol :: symbols) start

section Consumes

variable {α : Type} {grammar : Grammar α} {input : Array String} {last start middle stop : Nat}
  {symbols more : List Symbol} {trees : List Tree}

theorem Consumes.start_le (consumes : Consumes grammar input last symbols start) :
    start ≤ last := by
  induction consumes with
  | here => exact Nat.le_refl _
  | inside _ _ ih => exact ih
  | behind spelled before => exact spelled.start_le.trans before

theorem Consumes.front (consumes : Consumes grammar input last symbols start) :
    Consumes grammar input last (symbols ++ more) start := by
  induction consumes with
  | here read matched => exact .here read matched
  | inside known inner => exact .inside known inner
  | behind spelled before _ ih => exact .behind spelled before ih

theorem Consumes.after (spelled : Spells grammar input trees symbols start middle)
    (consumes : Consumes grammar input last more middle) :
    Consumes grammar input last (symbols ++ more) start := by
  induction spelled with
  | nil => exact consumes
  | lexeme read matched rest ih =>
    exact .behind (.lexeme read matched .nil) (rest.start_le.trans consumes.start_le) (ih consumes)
  | rule known inner rest _ ih =>
    exact .behind (.rule known inner .nil) (rest.start_le.trans consumes.start_le) (ih consumes)

/-- The last lexeme is read by the first symbols or by those behind them. -/
theorem Consumes.split (consumes : Consumes grammar input last (symbols ++ more) start) :
    Consumes grammar input last symbols start ∨
      ∃ trees middle, Spells grammar input trees symbols start middle ∧
        Consumes grammar input last more middle := by
  induction symbols generalizing start with
  | nil => exact .inr ⟨[], start, .nil, consumes⟩
  | cons symbol symbols ih =>
    cases consumes with
    | here read matched => exact .inl (.here read matched)
    | inside known inner => exact .inl (.inside known inner)
    | behind spelled before rest =>
      rcases ih rest with consumes | ⟨trees, middle, further, consumes⟩
      · exact .inl (.behind spelled before consumes)
      · exact .inr ⟨_, middle, spelled.append further, consumes⟩

theorem Spells.consumes (spelled : Spells grammar input trees symbols start stop)
    (here : start ≤ last) (beyond : last < stop) : Consumes grammar input last symbols start := by
  induction spelled with
  | nil => omega
  | @lexeme start lexeme token trees symbols stop read matched rest ih =>
    rcases Nat.eq_or_lt_of_le here with rfl | before
    · exact .here read matched
    · exact .behind (.lexeme read matched .nil) before (ih before beyond)
  | @rule production children start middle trees symbols stop known inner rest below later =>
    rcases Nat.lt_or_ge last middle with within | before
    · exact .inside known (below here within)
    · exact .behind (.rule known inner .nil) before (later before beyond)

/-- If some sentential form begins with tokens that match the lexemes up to the last one, its rule
can be expanded to read them. -/
theorem Grammar.Viable.consumes {rule : Nat} (inside : last < input.size)
    (viable : grammar.Viable rule (input.toList.take (last + 1))) :
    Consumes grammar input last [.rule rule] 0 := by
  obtain ⟨tokens, rest, derived, pairs⟩ := viable
  obtain ⟨trees, spelled⟩ := spells_tokens pairs 0 (List.take_append_drop _ _).symm
  have size : (input.toList.take (last + 1)).length = last + 1 := by
    rw [List.length_take, Array.length_toList]
    omega
  rw [size, Nat.zero_add] at spelled
  have read : Consumes grammar input last (tokens.map Symbol.token ++ rest) 0 :=
    (spelled.consumes (Nat.zero_le last) (Nat.lt_succ_self last)).front
  have source : [Symbol.rule rule].map Symbol.atom = [.nonterminal rule] := rfl
  refine Grammar.derives_backwards (fun symbols => Consumes grammar input last symbols 0) ?_
    derived source rfl read
  intro production front back known consumes
  rw [List.append_assoc] at consumes ⊢
  rcases consumes.split with consumes | ⟨trees, middle, spelled, consumes⟩
  · exact consumes.front
  · apply Consumes.after spelled
    rcases consumes.split with consumes | ⟨children, stop, below, consumes⟩
    · exact .inside known consumes
    · exact Consumes.after (.rule known below .nil) consumes

end Consumes

end ChartParser
