import ChartParser.Proofs.Forest.Choices
import ChartParser.Proofs.Traversal.Free

namespace ChartParser

namespace Resolution

variable (prefer : Nat → Nat → Bool) (depth : Nat)

/-- Resolves children from left to right, up to one that fails. -/
def resolveChildren (resolve : ItemRef → Resolution → Resolution × Bool) :
    List ItemRef → Resolution → Resolution × Bool
  | [], resolution => (resolution, true)
  | child :: children, resolution =>
    match resolve child resolution with
    | (resolution, false) => (resolution, false)
    | (resolution, true) => resolveChildren resolve children resolution

/-- The better one of a derivation and the best so far, which is kept unless it loses. -/
def contend (resolution : Resolution) (derivation : Derivation) : Option Derivation → Derivation
  | none => derivation
  | some best =>
    if resolution.chart.compare prefer depth derivation best = .gt then derivation else best

/-- Resolves the children of the derivations in order. Those derivations of which all children could
be resolved contend for being the best. -/
def resolveDerivations (resolve : ItemRef → Resolution → Resolution × Bool) :
    List Derivation → Option Derivation → Resolution → Resolution × Option Derivation
  | [], best, resolution => (resolution, best)
  | derivation :: derivations, best, resolution =>
    match resolveChildren resolve derivation.children resolution with
    | (resolution, false) => resolveDerivations resolve derivations best resolution
    | (resolution, true) => resolveDerivations resolve derivations
        (some (resolution.contend prefer depth derivation best)) resolution

section Agreement

variable {prefer : Nat → Nat → Bool} {depth : Nat} {active : Marks} {resolution : Resolution}
  {visit : ItemRef → Resolution → Except Empty (Resolution × Option Unit)}
  {resolve : ItemRef → Resolution → Resolution × Bool}

/-- The same nodes can be marked as being resolved and as resolved, but none is marked as both. -/
structure Aside (active : Marks) (resolution : Resolution) : Prop where
  flags : ∀ ref, (resolution.resolved.flag? ref).isSome = (active.flag? ref).isSome
  apart : ∀ {ref}, active.contains ref = true → resolution.resolved.contains ref = false

theorem Aside.isFree {ref : ItemRef} (aside : Aside active resolution)
    (done : resolution.resolved.contains ref = true) : active.isFree ref = true := by
  rw [Marks.isFree_iff, ← aside.flags]
  constructor
  · rw [Marks.contains, beq_iff_eq] at done
    rw [done]
    rfl
  · refine Bool.eq_false_iff.mpr fun open' => ?_
    rw [aside.apart open'] at done
    cases done

theorem Aside.insert {ref : ItemRef} (known : (active.flag? ref).isSome = true)
    (unresolved : resolution.resolved.contains ref = false) (aside : Aside active resolution) :
    Aside (active.insert ref) resolution where
  flags other := (aside.flags other).trans (Marks.isSome_flag_write _ _ _ _).symm
  apart open' := by
    rcases (Marks.contains_insert_iff known _).mp open' with rfl | before
    · exact unresolved
    · exact aside.apart before

/-- Below the nodes that are being resolved, the search does what recursion does. -/
def Accords (active : Marks)
    (visit : ItemRef → Resolution → Except Empty (Resolution × Option Unit))
    (resolve : ItemRef → Resolution → Resolution × Bool) : Prop :=
  ∀ ref resolution, Aside active resolution → ∃ next success,
    resolve ref resolution = (next, success) ∧
    visit ref resolution = .ok (next, if success then some () else none) ∧ Aside active next

theorem Accords.children (accords : Accords active visit resolve) (children : List ItemRef)
    (aside : Aside active resolution) : ∃ next results,
      resolveChildren resolve children resolution = (next, Option.isSome results) ∧
      Traversal.visitChildren visit children resolution = .ok (next, results) ∧
      Aside active next := by
  induction children generalizing resolution with
  | nil => exact ⟨resolution, some [], rfl, rfl, aside⟩
  | cons child children ih =>
    obtain ⟨middle, success, resolved, visited, aside⟩ := accords child resolution aside
    cases success with
    | false =>
      refine ⟨middle, none, ?_, ?_, aside⟩
      · simp only [resolveChildren, resolved, Option.isSome_none]
      · simp only [Traversal.visitChildren, visited, bind, Except.bind]
        rfl
    | true =>
      obtain ⟨next, results, resolved', visited', aside⟩ := ih aside
      refine ⟨next, results.map (() :: ·), ?_, ?_, aside⟩
      · simp only [resolveChildren, resolved, resolved', Option.isSome_map]
      · simp only [Traversal.visitChildren, visited, bind, Except.bind]
        simp only [if_true, visited']

theorem accept_eq (resolution : Resolution) (prefer : Nat → Nat → Bool) (depth : Nat)
    (contest : Contest) (derivation : Derivation) :
    resolution.accept prefer depth contest derivation =
      ⟨contest.several, some (resolution.contend prefer depth derivation contest.best)⟩ := by
  obtain ⟨several, best⟩ := contest
  cases best with
  | none => rfl
  | some best =>
    simp only [accept, contend]
    split <;> rfl

theorem Accords.derivations (accords : Accords active visit resolve)
    (prefer : Nat → Nat → Bool) (depth : Nat) (ref : ItemRef)
    (derivations : List Derivation) (several : Bool) (best : Option Derivation)
    (aside : Aside active resolution) : ∃ next best',
      resolveDerivations prefer depth resolve derivations best resolution = (next, best') ∧
      (traversal prefer depth).visitAlternatives visit ref
        (derivations.map fun derivation => (derivation, derivation.children)) ⟨several, best⟩
        resolution = .ok (next, ⟨several, best'⟩) ∧
      Aside active next := by
  induction derivations generalizing best resolution with
  | nil => exact ⟨resolution, best, rfl, rfl, aside⟩
  | cons derivation derivations ih =>
    obtain ⟨middle, results, resolved, visited, aside⟩ := accords.children derivation.children aside
    cases results with
    | none =>
      obtain ⟨next, best', resolved', visited', aside⟩ := ih best aside
      refine ⟨next, best', ?_, ?_, aside⟩
      · simp only [resolveDerivations, resolved, Option.isSome_none, resolved']
      · simp only [List.map_cons, Traversal.visitAlternatives, visited, bind, Except.bind]
        exact visited'
    | some results =>
      obtain ⟨next, best', resolved', visited', aside⟩ :=
        ih (some (middle.contend prefer depth derivation best)) aside
      refine ⟨next, best', ?_, ?_, aside⟩
      · simp only [resolveDerivations, resolved, Option.isSome_some, resolved']
      · rw [← accept_eq middle prefer depth ⟨several, best⟩] at visited'
        simp only [List.map_cons, Traversal.visitAlternatives, visited, bind, Except.bind]
        exact visited'

end Agreement

end Resolution

namespace Forest

open Resolution

/-- Two ways round in a circle: the root leads back to itself through the item of the second rule,
and so does the item of the third rule. That one can also be either of two lexemes. -/
def knot : Forest where
  chart :=
    { sets := #[⟨#[
          ⟨.rule 0, 0, .many #[⟨none, some ⟨0, 1⟩, 0⟩, ⟨some ⟨0, 2⟩, some ⟨0, 3⟩, 1⟩] (by decide)⟩,
          ⟨.rule 1, 0, .one ⟨none, some ⟨0, 0⟩, 2⟩⟩,
          ⟨.rule 2, 0, .many #[⟨none, some ⟨0, 1⟩, 3⟩, ⟨none, some ⟨0, 3⟩, 4⟩,
            ⟨none, some ⟨0, 4⟩, 5⟩] (by decide)⟩,
          ⟨.lexeme 0, 0, .none⟩, ⟨.lexeme 1, 0, .none⟩], ∅, ∅, #[]⟩] }
  root := ⟨0, 0⟩

theorem closed_knot : knot.chart.Closed := Chart.closed_of_refs (by decide +kernel)

end Forest

end ChartParser
