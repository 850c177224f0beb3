import ChartParser.Proofs.Chart.Sound
import ChartParser.Proofs.Grammar.Prefix

/-! What a filled chart owes to its items: the predictions of those that wait for a rule, and the
joins of those that have matched a symbol with those that wait for it. -/
namespace ChartParser

def Tag.owner? {α : Type} (grammar : Grammar α) : Tag → Option Nat
  | .dotted position => some (grammar.ruleOf position.production)
  | .rule index => some index
  | .lexeme _ => none

namespace Chart

/-- The production has been begun at the offset. An empty one has been matched there. -/
inductive Begun {α : Type} (chart : Chart) (grammar : Grammar α) (production : Nat) (offset : Nat) :
    Prop
  | opening (inhabited : 0 < (grammar.symbols production).size) (here : ref.set = offset)
      (held : chart.Holds ref (.dotted (.startOf production)) offset) :
      Begun chart grammar production offset
  | empty (bare : grammar.symbols production = #[]) (here : ref.set = offset)
      (held : chart.Holds ref (.rule (grammar.ruleOf production)) offset)
      (member : ⟨none, none, production⟩ ∈ chart.derivations ref) :
      Begun chart grammar production offset

/-- All productions of the rule have been begun at the offset. -/
def Predicted {α : Type} (chart : Chart) (grammar : Grammar α) (rule offset : Nat) : Prop :=
  ∀ production < grammar.productions.size, grammar.ruleOf production = rule →
    chart.Begun grammar production offset

/-- Wherever an item of a rule starts, the rule has been predicted. -/
def Rooted {α : Type} (chart : Chart) (grammar : Grammar α) : Prop :=
  ∀ {ref tag start rule}, chart.Holds ref tag start → tag.owner? grammar = some rule →
    chart.Predicted grammar rule start

/-- Wherever an item of a rule starts, the rule is expected, if the input is parsed as the goal. -/
def Expecting {α : Type} (chart : Chart) (grammar : Grammar α) (goal : Nat)
    (input : Array String) : Prop :=
  ∀ {ref tag start rule}, chart.Holds ref tag start → tag.owner? grammar = some rule →
    grammar.Expects goal (input.toList.take start) [.rule rule]

/-- The dot of a waiting item has been moved over the symbol that the completed item has matched,
and it is recorded that these two were used. -/
def Joined {α : Type} (chart : Chart) (grammar : Grammar α) (input : Array String)
    (waiting : ItemRef) (position : Position) (start : Nat) (completed : ItemRef) : Prop :=
  ∃ ref part, ref.set = completed.set ∧ chart.Holds ref (grammar.tagBehind position) start ∧
    chart.LeftPart grammar input waiting position start part ∧
    ⟨part, some completed, position.production⟩ ∈ chart.derivations ref

/-- Everything that follows from an item with those before it is in the chart. -/
structure Handled {α : Type} (chart : Chart) (grammar : Grammar α) (input : Array String)
    (ref : ItemRef) : Prop where
  joins : ∀ {waiting position start symbol}, chart.Holds waiting (.dotted position) start →
    grammar.next? position = some symbol → chart.Covers grammar input ref symbol waiting.set →
    chart.Joined grammar input waiting position start ref
  predicts : ∀ {position start index}, chart.Holds ref (.dotted position) start →
    grammar.next? position = some (.rule index) → chart.Predicted grammar index ref.set

variable {α : Type} {grammar : Grammar α} {input : Array String} {chart larger : Chart}

theorem Begun.mono (more : chart.Extends larger) {production offset : Nat}
    (begun : chart.Begun grammar production offset) : larger.Begun grammar production offset := by
  cases begun with
  | opening inhabited here held => exact .opening inhabited here (more.holds held)
  | empty bare here held member =>
    exact .empty bare here (more.holds held) (more.derivations member)

theorem Predicted.mono (more : chart.Extends larger) {rule offset : Nat}
    (predicted : chart.Predicted grammar rule offset) : larger.Predicted grammar rule offset :=
  fun production known same => (predicted production known same).mono more

theorem Joined.mono (more : chart.Extends larger) {waiting completed : ItemRef}
    {position : Position} {start : Nat}
    (joined : chart.Joined grammar input waiting position start completed) :
    larger.Joined grammar input waiting position start completed := by
  obtain ⟨ref, part, here, held, left, member⟩ := joined
  exact ⟨ref, part, here, more.holds held, left.mono more.holds, more.derivations member⟩

theorem Expecting.rest {goal : Nat} (sound : chart.Sound grammar input)
    (expecting : chart.Expecting grammar goal input) {ref : ItemRef} {position : Position}
    {start : Nat} (held : chart.Holds ref (.dotted position) start) :
    grammar.Expects goal (input.toList.take ref.set)
      ((grammar.symbols position.production).toList.drop position.dot) := by
  cases sound.placed held with
  | dotted known _ _ fresh =>
    have expects := (expecting held rfl).expand known
    by_cases dot : position.dot = 0
    · rwa [dot, List.drop_zero, ← fresh dot]
    · obtain ⟨trees, unfolds⟩ := sound.grounded held dot
      have spelled := unfolds.spells_single sound (.dotted held dot)
      rw [← List.take_append_drop position.dot (grammar.symbols position.production).toList]
        at expects
      exact expects.spells spelled

theorem Expecting.next {goal : Nat} (sound : chart.Sound grammar input)
    (expecting : chart.Expecting grammar goal input) {ref : ItemRef} {position : Position}
    {start : Nat} {symbol : Symbol} (held : chart.Holds ref (.dotted position) start)
    (next : grammar.next? position = some symbol) :
    grammar.Expects goal (input.toList.take ref.set) [symbol] := by
  obtain ⟨inside, value⟩ := Array.getElem?_eq_some_iff.mp next
  have rest := expecting.rest sound held
  rw [List.drop_eq_getElem_cons (by simpa using inside), Array.getElem_toList, value] at rest
  exact rest.front

theorem Expecting.viable {goal : Nat} (sound : chart.Sound grammar input)
    (expecting : chart.Expecting grammar goal input) {ref : ItemRef} {tag : Tag} {start : Nat}
    (held : chart.Holds ref tag start) (plain : ∀ offset, tag ≠ .lexeme offset) :
    grammar.Viable goal (input.toList.take ref.set) := by
  cases tag with
  | lexeme offset => exact absurd rfl (plain offset)
  | dotted position => exact (expecting.rest sound held).viable
  | rule index =>
    obtain ⟨trees, unfolds⟩ := sound.grounded held trivial
    have spelled := unfolds.spells_single sound (.symbol (.rule held))
    have expects : grammar.Expects goal (input.toList.take start) ([.rule index] ++ []) :=
      expecting held rfl
    exact (expects.spells spelled).viable

/-- The sets up to that of the reference hold the same items in both charts. -/
structure SameUpTo (chart larger : Chart) (offset : Nat) : Prop where
  more : chart.Extends larger
  back : ∀ {ref tag start}, ref.set ≤ offset → larger.Holds ref tag start →
    chart.Holds ref tag start

theorem SameUpTo.covers {offset : Nat} (same : chart.SameUpTo larger offset) {ref : ItemRef}
    {symbol : Symbol} {start : Nat} (inside : ref.set ≤ offset)
    (covers : larger.Covers grammar input ref symbol start) :
    chart.Covers grammar input ref symbol start := by
  cases covers with
  | rule held => exact .rule (same.back inside held)
  | token held next read matched => exact .token (same.back inside held) next read matched

/-- What has been handled stays handled as long as no item is added to its set or to one before. -/
theorem Handled.mono {ref : ItemRef} (same : chart.SameUpTo larger ref.set)
    (sound : chart.Sound grammar input) (handled : chart.Handled grammar input ref) :
    larger.Handled grammar input ref := by
  constructor
  · intro waiting position start symbol held next covers
    have covers := same.covers (Nat.le_refl _) covers
    have held := same.back (sound.covers_ordered covers) held
    exact (handled.joins held next covers).mono same.more
  · intro position start index held next
    exact (handled.predicts (same.back (Nat.le_refl _) held) next).mono same.more

end Chart

end ChartParser
