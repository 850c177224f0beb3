import ChartParser.Proofs.Forest.Resolve
import ChartParser.Proofs.Traversal.Invariant

namespace ChartParser

namespace Resolution

variable {chart : Chart} {within : ItemRef → Prop}

/-- Resolving nodes within a part of a chart chooses among their derivations, and leaves the other
nodes as they are. -/
def chooses (chart : Chart) (within : ItemRef → Prop) :
    Traversal.Contract Resolution ItemRef Derivation Contest Unit Empty where
  asked := within
  offered ref derivation children :=
    derivation ∈ chart.derivations ref ∧ children = derivation.children
  held ref contest := ∀ best ∈ contest.best, best ∈ chart.derivations ref
  given _ _ := True
  state resolution := ∀ ref, (resolution.chart.derivations ref).toList ⊆
    (chart.derivations ref).toList ∧
      (¬ within ref → resolution.chart.derivations ref = chart.derivations ref)
  stop _ := False

private theorem mem_derivations_collapse {ref other : ItemRef} {best derivation : Derivation}
    (member : derivation ∈ (chart.collapse ref best).derivations other) :
    derivation = best ∧ other = ref ∨ derivation ∈ chart.derivations other := by
  by_cases same : other = ref
  · subst same
    obtain ⟨tag, start, held⟩ := Chart.exists_holds member
    have present := Chart.holds_iff_item.mp ⟨tag, start, held⟩
    rw [Chart.item_collapse, Option.isSome_map] at present
    obtain ⟨tag, start, held⟩ := Chart.holds_iff_item.mpr present
    rw [Chart.derivations_collapse_same held, Array.mem_singleton] at member
    exact .inl ⟨member, rfl⟩
  · rw [Chart.derivations_collapse_other same] at member
    exact .inr member

private theorem chooses_leave {ref : ItemRef} (inside : within ref) {contest : Contest}
    {resolution : Resolution} (listed : ∀ best ∈ contest.best, best ∈ chart.derivations ref)
    (valid : (chooses chart within).state resolution) :
    (chooses chart within).Leads ((chooses chart within).Gives ref)
      (.ok (resolution.leave ref contest)) := by
  unfold leave
  cases won : contest.best with
  | none => exact ⟨valid, nofun⟩
  | some best =>
    refine ⟨?_, fun _ _ => trivial⟩
    cases several : contest.several with
    | false =>
      simp only [Bool.false_eq_true, if_false]
      exact valid
    | true =>
      simp only [if_true]
      refine fun other => ⟨fun derivation member => ?_, fun outside => ?_⟩
      · rw [Array.mem_toList_iff] at member
        rcases mem_derivations_collapse member with ⟨rfl, rfl⟩ | before
        · exact Array.mem_toList_iff.mpr (listed _ won)
        · exact (valid other).1 (Array.mem_toList_iff.mpr before)
      · have apart : other ≠ ref := fun same => outside (same ▸ inside)
        exact (Chart.derivations_collapse_other apart best).trans ((valid other).2 outside)

theorem keeps_chooses (closed : ∀ {ref child}, within ref → chart.Child ref child → within child)
    (prefer : Nat → Nat → Bool) (depth : Nat) :
    (traversal prefer depth).Keeps (chooses chart within) where
  children inside offered other listed := by
    obtain ⟨member, rfl⟩ := offered
    exact closed inside ⟨_, member, listed⟩
  enter {ref resolution} _ valid := by
    change (chooses chart within).Leads ((chooses chart within).Arrives ref)
      (.ok (resolution.enter ref))
    unfold enter
    split
    · exact ⟨valid, fun _ _ => trivial⟩
    · dsimp only
      split
      · exact ⟨valid, fun _ _ => trivial⟩
      · refine ⟨valid, nofun, ?_⟩
        intro entry listed
        obtain ⟨derivation, member, rfl⟩ := List.mem_map.mp listed
        exact ⟨Array.mem_toList_iff.mp ((valid ref).1 member), rfl⟩
  accept {_ contest derivation _ _ resolution} _ listed offered _ valid := by
    refine ⟨valid, ?_⟩
    intro best won
    rw [(accept_best resolution prefer contest derivation depth).1] at won
    rcases challenge_mem won with rfl | before
    · exact offered.1
    · exact listed best before
  leave inside listed valid := chooses_leave inside listed valid

theorem keeps_chooses_items (closed : chart.Closed) (prefer : Nat → Nat → Bool) (depth : Nat) :
    (traversal prefer depth).Keeps (chooses chart fun ref => (chart.item? ref).isSome = true) :=
  keeps_chooses (fun _ below => closed below) prefer depth

theorem chooses_start (chart : Chart) (within : ItemRef → Prop) :
    (chooses chart within).state ⟨chart, chart.marks, 0⟩ :=
  fun _ => ⟨List.Subset.refl _, fun _ => rfl⟩

end Resolution

namespace Forest

open Relation Resolution

theorem traverse_eq_resolve (forest : Forest) (prefer : Nat → Nat → Bool) :
    (traversal prefer forest.itemCount).traverse forest.itemCount forest.chart.marks forest.root
      ⟨forest.chart, forest.chart.marks, 0⟩ =
        .ok ((forest.resolve prefer).1, if (forest.resolve prefer).2 then some () else none) := by
  rcases ended : (traversal prefer forest.itemCount).traverse forest.itemCount forest.chart.marks
    forest.root ⟨forest.chart, forest.chart.marks, 0⟩ with stop | ⟨resolution, result⟩
  · exact stop.elim
  · have resolved : forest.resolve prefer = (resolution, result.isSome) := by
      unfold resolve
      dsimp only
      rw [ended]
    rw [resolved]
    cases result <;> rfl

/-- Only nodes below the root are changed by disambiguating a forest. -/
theorem reaches_of_changed (forest : Forest) (prefer : Nat → Nat → Bool) {ref : ItemRef}
    (changed : (forest.resolve prefer).1.chart.derivations ref ≠ forest.chart.derivations ref) :
    ReflTransGen forest.chart.Child forest.root ref := by
  by_contra outside
  have keeps : (traversal prefer forest.itemCount).Keeps
      (chooses forest.chart (ReflTransGen forest.chart.Child forest.root)) :=
    keeps_chooses (fun reached below => reached.tail below) prefer forest.itemCount
  have leads := keeps.traverse forest.itemCount forest.chart.marks
    ⟨forest.chart, forest.chart.marks, 0⟩ .refl (chooses_start _ _)
  rw [forest.traverse_eq_resolve prefer] at leads
  exact changed ((leads.1 ref).2 outside)

end Forest

end ChartParser
