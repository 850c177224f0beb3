import ChartParser.Grammar.Basic

namespace ChartParser

/-- When one production wins over another. These need not be orders. -/
inductive Preference where
  | priority
  | lowPriority
  | late
  | early
  | long
  | never
  | always
  | pairs (winners : List (Nat × Nat))

namespace Preference

def prefers {α : Type} (grammar : Grammar α) (preference : Preference) (first second : Nat) :
    Bool :=
  match preference with
  | priority => grammar.higherPriority first second
  | lowPriority => grammar.higherPriority second first
  | late => second < first
  | early => first < second
  | long => grammar.length second < grammar.length first
  | never => false
  | always => true
  | pairs winners => winners.contains (first, second)

end Preference

end ChartParser
