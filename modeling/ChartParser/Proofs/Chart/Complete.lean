import ChartParser.Proofs.Chart.Enter
import ChartParser.Proofs.Chart.Scan

/-! A filled chart misses no parse tree: whatever begins at an item that waits is followed through
the chart, up to the lexemes behind its last set. -/
namespace ChartParser.Chart

variable {α : Type} {grammar : Grammar α} {input : Array String} {chart : Chart}

/-- The symbols of a production in front of the dot have been matched by these trees, and an item
of the chart stands for that. -/
inductive Reached {α : Type} (chart : Chart) (grammar : Grammar α) (production : Nat) :
    Nat → Nat → Nat → List Tree → Prop
  | opening (inhabited : 0 < (grammar.symbols production).size)
      (held : chart.Holds ref (.dotted (.startOf production)) start) :
      Reached chart grammar production 0 start ref.set []
  | dotted (short : dot < (grammar.symbols production).size) (advanced : 0 < dot)
      (held : chart.Holds ref (.dotted ⟨production, dot⟩) start)
      (unfolds : chart.Unfolds [ref] trees) :
      Reached chart grammar production dot start ref.set trees
  | whole (held : chart.Holds ref (.rule (grammar.ruleOf production)) start)
      (unfolds : chart.Unfolds [ref] [.rule production trees]) :
      Reached chart grammar production (grammar.symbols production).size start ref.set trees

/-- An item in this set waits for a token that matches the next lexeme. -/
def AwaitsLexeme {α : Type} (chart : Chart) (grammar : Grammar α) (input : Array String)
    (offset : Nat) : Prop :=
  ∃ ref position start token lexeme, ref.set = offset ∧ chart.Holds ref (.dotted position) start ∧
    grammar.next? position = some (.token token) ∧ input[offset]? = some lexeme ∧
    grammar.tokenMatches token lexeme = true

theorem Begun.reached {production offset : Nat} (begun : chart.Begun grammar production offset) :
    chart.Reached grammar production 0 offset offset [] := by
  cases begun with
  | opening inhabited here held =>
    have reached := Reached.opening inhabited held
    rwa [here] at reached
  | empty bare here held member =>
    have reached := Reached.whole held (.rule held member .nil .nil)
    simpa [bare, here] using reached

theorem Reached.waiting {production dot start stop : Nat} {trees : List Tree}
    (reached : chart.Reached grammar production dot start stop trees)
    (short : dot < (grammar.symbols production).size) :
    ∃ ref, ref.set = stop ∧ chart.Holds ref (.dotted ⟨production, dot⟩) start ∧
      (dot = 0 → trees = []) ∧ (0 < dot → chart.Unfolds [ref] trees) := by
  cases reached with
  | opening _ held => exact ⟨_, rfl, held, fun _ => rfl, fun more => absurd more (Nat.lt_irrefl _)⟩
  | dotted _ advanced held unfolds =>
    exact ⟨_, rfl, held, fun none => absurd none (Nat.ne_of_gt advanced), fun _ => unfolds⟩
  | whole => exact absurd short (Nat.lt_irrefl _)

theorem Reached.matched {production start stop : Nat} {trees : List Tree}
    (reached : chart.Reached grammar production (grammar.symbols production).size start stop
      trees) :
    ∃ ref, ref.set = stop ∧ chart.Holds ref (.rule (grammar.ruleOf production)) start ∧
      chart.Unfolds [ref] [.rule production trees] := by
  generalize sized : (grammar.symbols production).size = size at reached
  cases reached with
  | opening inhabited => omega
  | dotted short => omega
  | whole held unfolds => exact ⟨_, rfl, held, unfolds⟩

/-- The left part of a recorded derivation stands for what the waiting item stands for. -/
theorem LeftPart.unfolds (sound : chart.Sound grammar input) {waiting : ItemRef}
    {position : Position} {start : Nat} {part : Option ItemRef} {trees : List Tree}
    (held : chart.Holds waiting (.dotted position) start)
    (left : chart.LeftPart grammar input waiting position start part)
    (outset : position.dot = 0 → trees = [])
    (unfolds : 0 < position.dot → chart.Unfolds [waiting] trees) :
    chart.Unfolds part.toList trees := by
  cases left with
  | nothing dot =>
    rw [outset dot]
    exact .nil
  | first dot symbol covers same =>
    obtain ⟨ref, opening, sole, same', symbol', covers'⟩ := sound.sole_first dot held
    obtain rfl := Option.some.inj (symbol.symm.trans symbol')
    obtain rfl := sound.covers_unique covers covers' (same.trans same'.symm)
    obtain ⟨derivation, member, children, inner, rfl⟩ :=
      (unfolds (dot ▸ Nat.one_pos)).unwrap held (by simp)
    rw [sole, Array.mem_singleton] at member
    rw [member] at inner
    exact inner
  | waiting dot => exact unfolds (Nat.lt_of_lt_of_le Nat.two_pos dot)

/-- What has been matched before a symbol, and an item that has matched the symbol, make what has
been matched behind it. -/
theorem Reached.step (sound : chart.Sound grammar input)
    {production dot start middle : Nat} {trees more : List Tree} {symbol : Symbol}
    {completed : ItemRef} (reached : chart.Reached grammar production dot start middle trees)
    (next : (grammar.symbols production)[dot]? = some symbol)
    (handled : chart.Handled grammar input completed)
    (covers : chart.Covers grammar input completed symbol middle)
    (unfolds : chart.Unfolds [completed] more) :
    chart.Reached grammar production (dot + 1) start completed.set (trees ++ more) := by
  have short := (Array.getElem?_eq_some_iff.mp next).1
  obtain ⟨waiting, rfl, held, outset, before⟩ := reached.waiting short
  obtain ⟨ref, part, here, held', left, member⟩ := handled.joins held next covers
  have inner : chart.Unfolds (part.toList ++ [completed]) (trees ++ more) :=
    (left.unfolds sound held outset before).append unfolds
  rw [← here]
  obtain ⟨last, tag⟩ | ⟨further, tag⟩ := tagBehind_cases grammar ⟨production, dot⟩
  · rw [tag] at held'
    simp only at last
    rw [last]
    exact .whole held' (.rule held' member inner .nil)
  · rw [tag] at held'
    have unfolded := Unfolds.wrap held' (by simp) member inner
    exact .dotted (Nat.lt_of_le_of_ne short further) (Nat.succ_pos _) held' unfolded

private theorem next_of_drop {production dot : Nat} {symbol : Symbol} {others : List Symbol}
    (rest : (grammar.symbols production).toList.drop dot = symbol :: others) :
    (grammar.symbols production)[dot]? = some symbol ∧
      (grammar.symbols production).toList.drop (dot + 1) = others := by
  constructor
  · have head := congrArg List.head? rest
    simpa [List.head?_drop] using head
  · rw [List.drop_add_one_eq_tail_drop, rest, List.tail_cons]

theorem Reached.spells {first : Nat} (filled : chart.Filled grammar first input)
    {trees : List Tree} {symbols more : List Symbol} {middle stop : Nat}
    (spelled : Spells grammar input trees symbols middle stop) (inside : stop < chart.sets.size)
    {production dot start : Nat} {before : List Tree}
    (reached : chart.Reached grammar production dot start middle before)
    (rest : (grammar.symbols production).toList.drop dot = symbols ++ more) :
    chart.Reached grammar production (dot + symbols.length) start stop (before ++ trees) := by
  -- inside a production the trees before are what has been matched, and the others are what is left
  induction spelled generalizing production dot start before more with
  | nil => rwa [List.append_nil]
  | @lexeme middle lexeme token trees symbols stop read matched further ih =>
    obtain ⟨symbol, rest⟩ := next_of_drop rest
    obtain ⟨completed, same, held⟩ :=
      filled.lexemes (Nat.lt_of_le_of_lt further.start_le inside)
    have covers : chart.Covers grammar input completed (.token token) middle :=
      .token held same read matched
    have stepped := reached.step filled.sound symbol (filled.handled held) covers
      (.lexeme held .nil)
    rw [same] at stepped
    have result := ih inside stepped rest
    rwa [List.append_assoc, Nat.add_right_comm] at result
  | @rule inner children middle _ trees symbols stop known below further ihBelow ihFurther =>
    obtain ⟨symbol, rest⟩ := next_of_drop rest
    have short := (Array.getElem?_eq_some_iff.mp symbol).1
    obtain ⟨waiting, same, held, -⟩ := reached.waiting short
    have predicted := (filled.handled held).predicts held symbol
    rw [same] at predicted
    have opened := (predicted inner known rfl).reached
    have whole := ihBelow (Nat.lt_of_le_of_lt further.start_le inside) opened
      (List.append_nil _).symm
    rw [Nat.zero_add, Array.length_toList] at whole
    obtain ⟨completed, rfl, held', unfolds⟩ := whole.matched
    have stepped := reached.step filled.sound symbol (filled.handled held') (.rule held') unfolds
    have result := ihFurther inside stepped rest
    rwa [List.append_assoc, Nat.add_right_comm] at result

/-- If the symbols behind what has been matched of a production can be expanded to read a lexeme,
an item waits for it. -/
theorem Reached.consumes {first : Nat} (filled : chart.Filled grammar first input) {last : Nat}
    (inside : last < chart.sets.size) {symbols : List Symbol} {middle : Nat}
    (consumes : Consumes grammar input last symbols middle) {production dot start : Nat}
    {before : List Tree} (reached : chart.Reached grammar production dot start middle before)
    (rest : (grammar.symbols production).toList.drop dot = symbols) :
    chart.AwaitsLexeme grammar input last := by
  induction consumes generalizing production dot start before with
  | @here lexeme token symbols read matched =>
    obtain ⟨symbol, rest⟩ := next_of_drop rest
    obtain ⟨waiting, same, held, -⟩ :=
      reached.waiting (Array.getElem?_eq_some_iff.mp symbol).1
    exact ⟨waiting, _, _, token, lexeme, same, held, symbol, read, matched⟩
  | @inside inner middle symbols known _ ih =>
    obtain ⟨symbol, rest⟩ := next_of_drop rest
    obtain ⟨waiting, same, held, -⟩ :=
      reached.waiting (Array.getElem?_eq_some_iff.mp symbol).1
    have predicted := (filled.handled held).predicts held symbol
    rw [same] at predicted
    exact ih (predicted inner known rfl).reached List.drop_zero
  | @behind tree symbol start middle symbols spelled within _ ih =>
    have here : (grammar.symbols production).toList.drop dot = [symbol] ++ symbols := rest
    have stepped := reached.spells filled spelled (Nat.lt_of_le_of_lt within inside) here
    exact ih stepped (next_of_drop rest).2

/-- Every tree for the start rule is one that the chart has reached. -/
theorem Filled.reaches {start : Nat} (filled : chart.Filled grammar start input)
    (inside : input.size < chart.sets.size) {tree : Tree}
    (parses : IsParseTree grammar input start tree) :
    ∃ root, root.set = input.size ∧ chart.Holds root (.rule start) 0 ∧
      chart.Unfolds [root] [tree] := by
  cases parses with
  | @rule production children _ _ _ _ _ known inner rest =>
    cases rest
    have reached := (filled.begun production known rfl).reached
    have whole := reached.spells filled inner inside (List.append_nil _).symm
    rw [Nat.zero_add, Array.length_toList] at whole
    exact whole.matched

theorem Filled.awaits {start : Nat} (filled : chart.Filled grammar start input) {last : Nat}
    (inside : last < chart.sets.size) (consumes : Consumes grammar input last [.rule start] 0) :
    chart.AwaitsLexeme grammar input last := by
  cases consumes with
  | inside known inner =>
    exact (filled.begun _ known rfl).reached.consumes filled inside inner List.drop_zero
  | behind spelled before rest => cases rest

end ChartParser.Chart
