import ChartParser.Proofs.Forest.Nodes
import ChartParser.Proofs.Grammar.Loops

/-! Going down from a node to its children and theirs. A child with the same span has matched what
its node derives, since its siblings match nothing, so that a node below itself stands for a rule
that derives itself. -/
namespace ChartParser.Chart

open Relation

variable {α : Type} {grammar : Grammar α} {input : Array String} {chart : Chart}

theorem Sound.covers_derives_nil (sound : chart.Sound grammar input) {ref : ItemRef}
    {symbol : Symbol} {offset : Nat} (covers : chart.Covers grammar input ref symbol offset)
    (here : ref.set = offset) (initial : Nat) :
    (grammar.contextFree initial).Derives [symbol.atom] [] := by
  obtain ⟨trees, unfolds⟩ := sound.grounded_covers covers
  have spelled := unfolds.spells_single sound (.symbol covers)
  rw [here] at spelled
  exact spelled.derives_nil initial

theorem Sound.waiting_derives_nil (sound : chart.Sound grammar input) {waiting : ItemRef}
    {position : Position} {offset : Nat} (held : chart.Holds waiting (.dotted position) offset)
    (here : waiting.set = offset) (initial : Nat) : (grammar.contextFree initial).Derives
      (((grammar.symbols position.production).toList.take position.dot).map Symbol.atom) [] := by
  by_cases dot : position.dot = 0
  · rw [dot]
    exact ContextFreeGrammar.Derives.refl _
  · obtain ⟨trees, unfolds⟩ := sound.grounded held dot
    have spelled := unfolds.spells_single sound (.dotted held dot)
    rw [here] at spelled
    exact spelled.derives_nil initial

theorem Sound.child_within (sound : chart.Sound grammar input) {ref child : ItemRef}
    {tag other : Tag} {start first : Nat} (held : chart.Holds ref tag start)
    (below : chart.Child ref child) (held' : chart.Holds child other first) :
    start ≤ first ∧ child.set ≤ ref.set := by
  obtain ⟨derivation, member, listed⟩ := below
  have split := sound.derived held member
  generalize stopped : ref.set = stop at split
  cases split with
  | empty => cases listed
  | step waits next covers left =>
    have later := sound.covers_ordered covers
    obtain ⟨tag', held'', -⟩ := Sound.advanced_of_covers covers
    rcases List.mem_append.mp listed with before | last
    · cases left with
      | nothing => cases before
      | first dot symbol opens same =>
        obtain rfl := List.mem_singleton.mp before
        obtain ⟨tag'', begins, -⟩ := Sound.advanced_of_covers opens
        obtain ⟨-, rfl⟩ := held'.unique begins
        omega
      | waiting dot =>
        obtain rfl := List.mem_singleton.mp before
        obtain ⟨-, rfl⟩ := held'.unique waits
        omega
    · obtain rfl := List.mem_singleton.mp last
      obtain ⟨-, rfl⟩ := held'.unique held''
      cases sound.placed waits with
      | dotted _ _ ordered => omega

/-- A child that has matched the beginning of a production is what the dot has moved on from. -/
theorem Splits.tag_dotted {tag : Tag} {start stop : Nat} {derivation : Derivation}
    (split : chart.Splits grammar input tag start stop derivation) {child : ItemRef}
    {position : Position} {first : Nat} (listed : child ∈ derivation.children)
    (held : chart.Holds child (.dotted position) first) : tag = grammar.tagBehind position := by
  have covers_nothing {symbol : Symbol} {start : Nat}
      (covers : chart.Covers grammar input child symbol start) : False := by
    cases covers with
    | rule held' => cases (held.unique held').1
    | token held' => cases (held.unique held').1
  cases split with
  | empty => cases listed
  | step waits next covers left =>
    rcases List.mem_append.mp listed with before | last
    · cases left with
      | nothing => cases before
      | first dot symbol opens same =>
        obtain rfl := List.mem_singleton.mp before
        exact (covers_nothing opens).elim
      | waiting dot =>
        obtain rfl := List.mem_singleton.mp before
        obtain ⟨tags, -⟩ := waits.unique held
        rw [Tag.dotted.inj tags]
    · obtain rfl := List.mem_singleton.mp last
      exact (covers_nothing covers).elim

/-- A child with the same span as its node has matched symbols that can be derived from those that
the node has matched: whatever stands beside it matches nothing. -/
theorem Splits.child_derives (sound : chart.Sound grammar input) {tag other : Tag}
    {start stop : Nat} {derivation : Derivation}
    (split : chart.Splits grammar input tag start stop derivation) {child : ItemRef}
    (listed : child ∈ derivation.children) (held : chart.Holds child other start)
    (same : child.set = stop) (initial : Nat) :
    ∃ symbols, chart.Matches grammar input child symbols start ∧
      (grammar.contextFree initial).Derives
        ((grammar.matchedBy derivation.production tag).map Symbol.atom)
        (symbols.map Symbol.atom) := by
  cases split with
  | empty => cases listed
  | @step waiting position start symbol completed part waits next covers left =>
    have parts := (congrArg (List.map Symbol.atom) (matchedBy_tagBehind next)).trans
      List.map_append
    have joined : (grammar.contextFree initial).Derives
        ((grammar.matchedBy position.production (grammar.tagBehind position)).map Symbol.atom)
        (((grammar.symbols position.production).toList.take position.dot).map Symbol.atom ++
          [symbol.atom]) := parts ▸ ReflTransGen.refl
    rcases List.mem_append.mp listed with before | last
    · cases left with
      | nothing => cases before
      | @first opening ref dot opens begins ends =>
        obtain rfl := List.mem_singleton.mp before
        have nothing := sound.covers_derives_nil covers (same.symm.trans ends) initial
        have take : (grammar.symbols position.production).toList.take position.dot = [opening] := by
          rw [dot, List.take_one, List.head?_eq_getElem?]
          simpa using opens
        rw [take] at joined
        exact ⟨_, .symbol begins, joined.trans (nothing.append_left _)⟩
      | waiting dot =>
        obtain rfl := List.mem_singleton.mp before
        have nothing := sound.covers_derives_nil covers same.symm initial
        have derived := nothing.append_left
          (((grammar.symbols position.production).toList.take position.dot).map Symbol.atom)
        rw [List.append_nil] at derived
        exact ⟨_, .dotted waits (by omega), joined.trans derived⟩
    · obtain rfl := List.mem_singleton.mp last
      obtain ⟨tag', begins, -⟩ := Sound.advanced_of_covers covers
      obtain ⟨-, here⟩ := begins.unique held
      have nothing := sound.waiting_derives_nil waits here initial
      exact ⟨_, .symbol (here ▸ covers), joined.trans (nothing.append_right _)⟩

section Descend

variable (sound : chart.Sound grammar input)
include sound

theorem Sound.child_produces {ref child : ItemRef} {index start : Nat} {other : Tag}
    (held : chart.Holds ref (.rule index) start) (below : chart.Child ref child)
    (held' : chart.Holds child other start) (same : child.set = ref.set) (initial : Nat) :
    ∃ symbols, chart.Matches grammar input child symbols start ∧
      TransGen (grammar.contextFree initial).Produces [.nonterminal index]
        (symbols.map Symbol.atom) := by
  obtain ⟨derivation, member, listed⟩ := below
  have split := sound.derived held member
  obtain ⟨known, rfl⟩ := split.production sound
  obtain ⟨symbols, matched, derived⟩ := split.child_derives sound listed held' same initial
  exact ⟨symbols, matched, .head' (grammar.produces_symbols known initial) derived⟩

theorem Sound.child_derives {ref child : ItemRef} {start : Nat} {symbols : List Symbol}
    {other : Tag} (matched : chart.Matches grammar input ref symbols start)
    (below : chart.Child ref child) (held' : chart.Holds child other start)
    (same : child.set = ref.set) (initial : Nat) :
    ∃ symbols', chart.Matches grammar input child symbols' start ∧
      (grammar.contextFree initial).Derives (symbols.map Symbol.atom)
        (symbols'.map Symbol.atom) := by
  cases matched with
  | symbol covers =>
    cases covers with
    | rule held =>
      obtain ⟨symbols, matched, derived⟩ := sound.child_produces held below held' same initial
      exact ⟨symbols, matched, derived.to_reflTransGen⟩
    | token held =>
      obtain ⟨derivation, member, -⟩ := below
      rw [sound.derivations_lexeme held] at member
      exact absurd member (Array.not_mem_empty _)
  | dotted held =>
    obtain ⟨derivation, member, listed⟩ := below
    have split := sound.derived held member
    have derived := split.child_derives sound listed held' same initial
    rwa [Grammar.matchedBy, (split.production sound).2] at derived

theorem Sound.descendant_within {ref node : ItemRef} {tag other : Tag} {start first : Nat}
    (held : chart.Holds ref tag start) (reached : ReflTransGen chart.Child ref node)
    (held' : chart.Holds node other first) : start ≤ first ∧ node.set ≤ ref.set := by
  induction reached using ReflTransGen.head_induction_on generalizing tag start with
  | refl =>
    obtain ⟨-, rfl⟩ := held.unique held'
    exact ⟨Nat.le_refl _, Nat.le_refl _⟩
  | head below _ ih =>
    obtain ⟨tag', middle, inside, -⟩ := sound.child below
    have near := sound.child_within held below inside
    have far := ih inside
    exact ⟨near.1.trans far.1, far.2.trans near.2⟩

theorem Sound.descendant_derives {ref node : ItemRef} {index start : Nat} {symbols : List Symbol}
    (matched : chart.Matches grammar input ref symbols start)
    (reached : ReflTransGen chart.Child ref node)
    (held : chart.Holds node (.rule index) start) (same : node.set = ref.set) (initial : Nat) :
    (grammar.contextFree initial).Derives (symbols.map Symbol.atom) [.nonterminal index] := by
  induction reached using ReflTransGen.head_induction_on generalizing symbols with
  | refl =>
    obtain ⟨rfl, -⟩ := matched.rule_inv held
    exact ReflTransGen.refl
  | head below reached ih =>
    obtain ⟨tag, held'⟩ := matched.holds
    obtain ⟨other, first, inside, -⟩ := sound.child below
    -- the spans of the children between the node and its descendant are all the same
    have near := sound.child_within held' below inside
    have far := sound.descendant_within inside reached held
    obtain rfl : start = first := Nat.le_antisymm near.1 far.1
    have ends := Nat.le_antisymm near.2 (same ▸ far.2)
    obtain ⟨symbols', matched', derived⟩ := sound.child_derives matched below inside ends initial
    exact derived.trans (ih matched' (same.trans ends.symm))

/-- Every cycle goes through a rule: between two rules a dot moves on, and lexemes have no
children. -/
theorem Sound.exists_rule_cycle {ref : ItemRef} (cycle : TransGen chart.Child ref ref) :
    ∃ node index start, chart.Holds node (.rule index) start ∧ TransGen chart.Child node node := by
  have step {ref : ItemRef} (cycle : TransGen chart.Child ref ref) :
      ∃ child, chart.Child ref child ∧ TransGen chart.Child child child := by
    obtain ⟨child, below, rest⟩ := TransGen.head'_iff.mp cycle
    exact ⟨child, below, .tail' rest below⟩
  have backwards {dot : Nat} {ref : ItemRef} {position : Position} {start : Nat}
      (held : chart.Holds ref (.dotted position) start) (here : position.dot = dot)
      (cycle : TransGen chart.Child ref ref) : ∃ node index start,
        chart.Holds node (.rule index) start ∧ TransGen chart.Child node node := by
    induction dot using Nat.strong_induction_on generalizing ref position start with
    | h dot ih =>
      obtain ⟨child, ⟨derivation, member, listed⟩, again⟩ := step cycle
      obtain ⟨tag, first, held', -⟩ := sound.child ⟨derivation, member, listed⟩
      cases tag with
      | rule index => exact ⟨child, index, first, held', again⟩
      | lexeme offset =>
        obtain ⟨below, ⟨derivation, member, -⟩, -⟩ := step again
        rw [sound.derivations_lexeme held'] at member
        exact absurd member (Array.not_mem_empty _)
      | dotted before =>
        have moved := tagBehind_eq_dotted
          ((sound.derived held member).tag_dotted listed held').symm
        exact ih before.dot (by rw [← here, moved]; exact Nat.lt_succ_self _) held' rfl again
  obtain ⟨child, below, again⟩ := step cycle
  obtain ⟨tag, start, held, -⟩ := sound.child below
  cases tag with
  | rule index => exact ⟨child, index, start, held, again⟩
  | dotted position => exact backwards held rfl again
  | lexeme offset =>
    obtain ⟨below, ⟨derivation, member, -⟩, -⟩ := step again
    rw [sound.derivations_lexeme held] at member
    exact absurd member (Array.not_mem_empty _)

theorem Sound.acyclic (free : grammar.LoopFree) (ref : ItemRef) :
    ¬ TransGen chart.Child ref ref := by
  intro cycle
  obtain ⟨node, index, start, held, cycle⟩ := sound.exists_rule_cycle cycle
  obtain ⟨child, below, reached⟩ := TransGen.head'_iff.mp cycle
  obtain ⟨tag, first, inside, -⟩ := sound.child below
  have near := sound.child_within held below inside
  have far := sound.descendant_within inside reached held
  obtain rfl : start = first := Nat.le_antisymm near.1 far.1
  have ends := Nat.le_antisymm near.2 far.2
  obtain ⟨symbols, matched, produced⟩ := sound.child_produces held below inside ends index
  exact free index (produced.trans_left
    (sound.descendant_derives matched reached held ends.symm index))

end Descend

end ChartParser.Chart
