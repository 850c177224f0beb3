/-! Index numbers are kept in unsigned types of a fixed size. A range stands for such a type. -/
namespace ChartParser

/-- The unsigned numbers `0 … max`. -/
structure IndexRange where
  max : Nat
  deriving DecidableEq

namespace IndexRange

/-- What is kept of a number: it wraps around past the largest one of the range. -/
def store (range : IndexRange) (number : Nat) : Nat := number % (range.max + 1)

theorem store_of_le {range : IndexRange} {number : Nat} (fits : number ≤ range.max) :
    range.store number = number :=
  Nat.mod_eq_of_lt (Nat.lt_succ_of_le fits)

theorem store_le (range : IndexRange) (number : Nat) : range.store number ≤ range.max :=
  Nat.le_of_lt_succ (Nat.mod_lt _ (Nat.succ_pos _))

def bits8 : IndexRange := ⟨255⟩
def bits16 : IndexRange := ⟨65535⟩
def bits32 : IndexRange := ⟨4294967295⟩
def bits64 : IndexRange := ⟨18446744073709551615⟩

end IndexRange

end ChartParser
