import ChartParser.Chart.Basic

/-! Which of two derivations of a node is better. Their productions are compared first, and then,
as long as nothing is decided, their children from left to right. -/
namespace ChartParser

/-- How a preference decides between two productions. `gt` stands for the first one. -/
def comparePreference (prefer : Nat → Nat → Bool) (first second : Nat) : Ordering :=
  if first = second then .eq
  else if prefer first second then .gt
  else if prefer second first then .lt
  else .eq

namespace Chart

variable (chart : Chart)

/-- The derivations to compare for two children: they have to be different nodes with exactly one
derivation each. -/
def comparedPair (first second : Option ItemRef) : Option (Derivation × Derivation) :=
  match first, second with
  | some first, some second =>
    if first = second then none
    else match chart.sole? first, chart.sole? second with
      | some first, some second => some (first, second)
      | _, _ => none
  | _, _ => none

/-- The pairs of children of two derivations that are to be compared, the left one first. -/
def comparedPairs (first second : Derivation) : List (Derivation × Derivation) :=
  (chart.comparedPair first.left second.left).toList ++
    (chart.comparedPair first.right second.right).toList

theorem length_comparedPairs_le (first second : Derivation) :
    (chart.comparedPairs first second).length ≤ 2 := by
  have atMostOne {β : Type} (pair : Option β) : pair.toList.length ≤ 1 := by
    cases pair <;> simp
  rw [comparedPairs, List.length_append]
  exact Nat.add_le_add (atMostOne _) (atMostOne _)

/-- Twice as much as a pair one level further down, and one more. -/
def weight : Nat → Nat
  | 0 => 1
  | depth + 1 => 2 * weight depth + 1

theorem weight_pos (depth : Nat) : 0 < weight depth := by
  cases depth with
  | zero => exact Nat.one_pos
  | succ depth => exact Nat.succ_pos _

/-- Two pairs weigh less than one of the level above. -/
private theorem foldr_weight_lt {depth : Nat} {β : Type} {pairs : List β}
    (few : pairs.length ≤ 2) (pending : Nat) :
    (pairs.map fun pair => (depth, pair)).foldr (fun entry others => weight entry.1 + others)
      pending < weight (depth + 1) + pending := by
  match pairs, few with
  | [], _ => exact Nat.lt_add_of_pos_left (weight_pos _)
  | [_], _ => simp [weight]; omega
  | [_, _], _ => simp [weight]; omega

/-- Compares the pairs of a list until one of them is decided. An undecided pair is replaced by
those of its children. Every pair has a number that limits how far down that goes. -/
def comparePending (prefer : Nat → Nat → Bool) (pending : List (Nat × Derivation × Derivation)) :
    Ordering :=
  match pending with
  | [] => .eq
  | (depth, first, second) :: pending =>
    match comparePreference prefer first.production second.production with
    | .eq =>
      match depth with
      | 0 => comparePending prefer pending
      | depth + 1 =>
        comparePending prefer
          ((chart.comparedPairs first second).map (fun pair => (depth, pair)) ++ pending)
    | decided => decided
termination_by pending.foldr (fun entry others => weight entry.1 + others) 0
decreasing_by
  · simp [weight]
  · rw [List.foldr_append, List.foldr_cons]
    exact foldr_weight_lt (chart.length_comparedPairs_le first second) _

/-- Compares two derivations of a node, no deeper than there are items. -/
def compare (prefer : Nat → Nat → Bool) (depth : Nat) (first second : Derivation) : Ordering :=
  chart.comparePending prefer [(depth, first, second)]

end Chart

end ChartParser
