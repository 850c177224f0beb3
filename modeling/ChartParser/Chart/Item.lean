import ChartParser.Accumulation
import ChartParser.Grammar.Basic

namespace ChartParser

/-- Names an item by the set it is in, which is the offset its span ends at, and its place there. -/
structure ItemRef where
  set : Nat
  place : Nat
  deriving DecidableEq

/-- What an item has matched: the lexeme at an offset, the symbols before a dot, or a whole rule,
whichever of its productions it took. -/
inductive Tag where
  | lexeme (offset : Nat)
  | dotted (position : Position)
  | rule (index : Nat)
  deriving DecidableEq

/-- One way to build an item of a production: `right` has matched the symbol before the dot and
`left` the symbols before that one. A trivial left part is left out. -/
structure Derivation where
  left : Option ItemRef
  right : Option ItemRef
  production : Nat
  deriving DecidableEq

/-- The ways to build an item, in the order of their discovery. Most items have one, lexemes have
none, and only several are kept in an array, once each. -/
inductive Derivations where
  | none
  | one (derivation : Derivation)
  | many (derivations : Array Derivation) (several : 2 ≤ derivations.size)

/-- An item matches the input from `start` to the offset of its set. -/
structure Item where
  tag : Tag
  start : Nat
  ways : Derivations

inductive Multiplicity where
  | none
  | one
  | many
  deriving DecidableEq

namespace Tag

/-- Numbers that tell the tags apart. -/
def key : Tag → List Nat
  | lexeme offset => [0, offset]
  | dotted position => [1, position.production, position.dot]
  | rule index => [2, index]

theorem key_injective {first second : Tag} (same : first.key = second.key) : first = second := by
  cases first <;> cases second <;> simp_all [key]
  rename_i first second
  cases first
  cases second
  simp_all

end Tag

namespace Derivation

/-- The items that the derivation is built of, from left to right. -/
def children (derivation : Derivation) : List ItemRef :=
  derivation.left.toList ++ derivation.right.toList

end Derivation

namespace Derivations

def toArray : Derivations → Array Derivation
  | none => #[]
  | one derivation => #[derivation]
  | many derivations _ => derivations

def sole? : Derivations → Option Derivation
  | one derivation => some derivation
  | _ => .none

/-- Adds a derivation behind the others, unless it is one of them. -/
def add : Derivations → Derivation → Derivations
  | none, derivation => one derivation
  | one known, derivation =>
    if known = derivation then one known else many #[known, derivation] (Nat.le_refl 2)
  | many known several, derivation =>
    many (pushNew known derivation) (Nat.le_trans several (size_le_size_pushNew known derivation))

/-- Leaves this derivation only. -/
def collapse (_ : Derivations) (derivation : Derivation) : Derivations := one derivation

theorem toArray_add (ways : Derivations) (derivation : Derivation) :
    (ways.add derivation).toArray = pushNew ways.toArray derivation := by
  cases ways with
  | none => exact (pushNew_absent (Array.not_mem_empty derivation)).symm
  | one known =>
    by_cases same : known = derivation
    · have present : derivation ∈ #[known] := by simp [same]
      rw [add, if_pos same]
      exact (pushNew_found present).symm
    · have absent : derivation ∉ #[known] := by simpa using Ne.symm same
      rw [add, if_neg same]
      exact (pushNew_absent absent).symm
  | many known several => rfl

theorem toArray_collapse (ways : Derivations) (derivation : Derivation) :
    (ways.collapse derivation).toArray = #[derivation] := rfl

theorem sole_eq_some_iff {ways : Derivations} {derivation : Derivation} :
    ways.sole? = some derivation ↔ ways.toArray = #[derivation] := by
  cases ways with
  | none => simp [sole?, toArray]
  | one known => simp [sole?, toArray]
  | many known several =>
    refine ⟨nofun, fun single => ?_⟩
    rw [toArray] at single
    rw [single] at several
    exact absurd several (by simp)

/-- Each of the three forms has its number of derivations. -/
theorem form_iff (ways : Derivations) :
    (ways = none ↔ ways.toArray.size = 0) ∧
    ((∃ derivation, ways = one derivation) ↔ ways.toArray.size = 1) ∧
    ((∃ derivations several, ways = many derivations several) ↔ 2 ≤ ways.toArray.size) := by
  cases ways with
  | none => simp [toArray]
  | one known => simp [toArray]
  | many known several =>
    have nonzero : known.size ≠ 0 := by omega
    have apart : known.size ≠ 1 := by omega
    simp [toArray, several, nonzero, apart]

end Derivations

namespace Item

def derivations (item : Item) : Array Derivation := item.ways.toArray

def sole? (item : Item) : Option Derivation := item.ways.sole?

def multiplicity (item : Item) : Multiplicity :=
  match item.ways with
  | .none => .none
  | .one _ => .one
  | .many .. => .many

end Item

end ChartParser
