import ChartParser.Proofs.Grammar.Tree

namespace ChartParser

open Relation

variable {α : Type} {grammar : Grammar α}

/-- No rule derives the string of that rule alone in one or more steps. -/
def Grammar.LoopFree (grammar : Grammar α) : Prop :=
  ∀ rule, ¬ TransGen (grammar.contextFree rule).Produces [.nonterminal rule] [.nonterminal rule]

def Symbol.isToken : Symbol → Bool
  | rule _ => false
  | token _ => true

def Symbol.ranksBelow (rank : Nat → Nat) (bound : Nat) : Symbol → Bool
  | rule index => rank index < bound
  | token _ => false

/-- There is a token among the symbols, or all of them are rules that rank below the bound. -/
def Ranked (rank : Nat → Nat) (bound : Nat) (symbols : List Symbol) : Prop :=
  (∃ symbol ∈ symbols, symbol.isToken = true) ∨
    ∀ symbol ∈ symbols, symbol.ranksBelow rank bound = true

instance (rank : Nat → Nat) (bound : Nat) (symbols : List Symbol) :
    Decidable (Ranked rank bound symbols) :=
  inferInstanceAs (Decidable (_ ∨ _))

/-- Every production has a token or only rules that rank below its own. -/
def Grammar.Falls (grammar : Grammar α) (rank : Nat → Nat) : Prop :=
  ∀ production < grammar.productions.size,
    Ranked rank (rank (grammar.ruleOf production)) (grammar.symbols production).toList

instance (grammar : Grammar α) (rank : Nat → Nat) : Decidable (grammar.Falls rank) :=
  inferInstanceAs (Decidable (∀ production < grammar.productions.size, _))

namespace Grammar.Falls

variable {rank : Nat → Nat} (falls : grammar.Falls rank)
include falls

/-- A rule is rewritten to a token among others, or to rules that rank below it. -/
private theorem first {initial rule : Nat} {last}
    (produced : (grammar.contextFree initial).Produces ([.rule rule].map Symbol.atom) last) :
    ∃ symbols : List Symbol, symbols.map Symbol.atom = last ∧ Ranked rank (rank rule) symbols := by
  obtain ⟨production, known, front, back, same, rfl⟩ :=
    Grammar.exists_production_of_produces produced
  refine ⟨_, rfl, ?_⟩
  cases front with
  | cons symbol front => simp at same
  | nil =>
    obtain ⟨head, rfl⟩ := List.cons.inj same
    cases head
    rw [List.nil_append, List.append_nil]
    exact falls production known

/-- A token is never lost, and without one the ranks stay below the bound. -/
private theorem step {initial bound : Nat} {symbols : List Symbol} {last}
    (before : Ranked rank bound symbols)
    (produced : (grammar.contextFree initial).Produces (symbols.map Symbol.atom) last) :
    ∃ others : List Symbol, others.map Symbol.atom = last ∧ Ranked rank bound others := by
  obtain ⟨production, known, front, back, rfl, rfl⟩ :=
    Grammar.exists_production_of_produces produced
  refine ⟨_, rfl, ?_⟩
  simp only [Ranked, List.mem_append, List.mem_singleton] at before ⊢
  obtain ⟨symbol, (ahead | rfl) | behind, plain⟩ | below := before
  · exact .inl ⟨symbol, .inl (.inl ahead), plain⟩
  · cases plain
  · exact .inl ⟨symbol, .inr behind, plain⟩
  · have owner : rank (grammar.ruleOf production) < bound :=
      of_decide_eq_true (below _ (.inl (.inr rfl)))
    refine (falls production known).imp (fun found => ?_) fun less symbol listed => ?_
    · obtain ⟨symbol, member, plain⟩ := found
      exact ⟨symbol, .inl (.inr member), plain⟩
    · obtain (ahead | within) | behind := listed
      · exact below symbol (.inl (.inl ahead))
      · have lower := less symbol within
        cases symbol with
        | token token => cases lower
        | rule index => exact decide_eq_true ((of_decide_eq_true lower).trans owner)
      · exact below symbol (.inr behind)

theorem loopFree : grammar.LoopFree := by
  intro rule loop
  have ranked {form} (derived : TransGen (grammar.contextFree rule).Produces
      [.nonterminal rule] form) :
      ∃ symbols : List Symbol, symbols.map Symbol.atom = form ∧
        Ranked rank (rank rule) symbols := by
    induction derived with
    | single produced => exact falls.first produced
    | tail _ produced ih =>
      obtain ⟨symbols, rfl, ranked⟩ := ih
      exact falls.step ranked produced
  obtain ⟨symbols, same, ranked⟩ := ranked loop
  obtain rfl : symbols = [.rule rule] := List.map_injective_iff.mpr Symbol.atom_injective same
  obtain ⟨symbol, listed, plain⟩ | below := ranked
  · obtain rfl := List.mem_singleton.mp listed
    cases plain
  · exact Nat.lt_irrefl _ (of_decide_eq_true (below _ (List.mem_singleton_self _)))

end Grammar.Falls

end ChartParser
