import ChartParser.Proofs.Disambiguation
import ChartParser.Proofs.Traversal.Invariant

namespace ChartParser

namespace Resolution

variable {chart : Chart}

/-- Where no node has several derivations, no contest is held and the chart stays as it is. -/
def unchanged (chart : Chart) :
    Traversal.Contract Resolution ItemRef Derivation Contest Unit Empty where
  asked := chart.Narrow
  offered ref derivation children :=
    derivation ∈ chart.derivations ref ∧ children = derivation.children
  held _ contest := contest.several = false
  given _ _ := True
  state resolution := resolution.chart = chart ∧ resolution.collapsed = 0
  stop _ := False

private theorem unchanged_enter {ref : ItemRef} {resolution : Resolution}
    (narrow : chart.Narrow ref) (valid : (unchanged chart).state resolution) :
    (unchanged chart).Leads ((unchanged chart).Arrives ref) (.ok (resolution.enter ref)) := by
  obtain ⟨same, zero⟩ := valid
  simp only [enter]
  split
  · exact ⟨⟨same, zero⟩, fun _ _ => trivial⟩
  · split
    · exact ⟨⟨same, zero⟩, fun _ _ => trivial⟩
    · refine ⟨⟨same, zero⟩, ?_, ?_⟩
      · rw [same]
        exact decide_eq_false (Nat.not_lt_of_le (narrow ref .refl))
      · intro entry listed
        obtain ⟨derivation, member, rfl⟩ := List.mem_map.mp listed
        rw [same, Array.mem_toList_iff] at member
        exact ⟨member, rfl⟩

private theorem unchanged_leave (ref : ItemRef) {contest : Contest} {resolution : Resolution}
    (single : contest.several = false) (valid : (unchanged chart).state resolution) :
    (unchanged chart).Leads ((unchanged chart).Gives ref)
      (.ok (resolution.leave ref contest)) := by
  unfold leave
  cases contest.best with
  | none => exact ⟨valid, nofun⟩
  | some best =>
    simp only [single, Bool.false_eq_true, if_false]
    exact ⟨valid, fun _ _ => trivial⟩

theorem keeps_unchanged (chart : Chart) (prefer : Nat → Nat → Bool) (depth : Nat) :
    (traversal prefer depth).Keeps (unchanged chart) where
  children narrow offered other listed := by
    obtain ⟨member, rfl⟩ := offered
    exact narrow.child ⟨_, member, listed⟩
  enter narrow valid := unchanged_enter narrow valid
  accept {_ contest derivation _ _ resolution} _ single _ _ valid :=
    ⟨valid, (accept_best resolution prefer contest derivation depth).2.trans single⟩
  leave _ single valid := unchanged_leave _ single valid

end Resolution

namespace Forest

variable {α : Type} {grammar : Grammar α} {input : Array String} {start : Nat} {forest : Forest}

theorem disambiguate_narrow (narrow : forest.chart.Narrow forest.root)
    (prefer : Nat → Nat → Bool) : forest.disambiguate prefer = (forest, .disambiguated 0) := by
  have kept := (Resolution.keeps_unchanged forest.chart prefer forest.itemCount).traverse
    forest.itemCount forest.chart.marks ⟨forest.chart, forest.chart.marks, 0⟩ narrow ⟨rfl, rfl⟩
  simp only [disambiguate, resolve]
  generalize (Resolution.traversal prefer forest.itemCount).traverse forest.itemCount
    forest.chart.marks forest.root ⟨forest.chart, forest.chart.marks, 0⟩ = searched at kept ⊢
  obtain stop | outcome := searched
  · exact stop.elim
  · obtain ⟨⟨same, zero⟩, -⟩ := kept
    simp only [same, zero]

/-- Disambiguation is final: after it, no preference changes any item of the chart, reachable or
not, and no node is reduced again. -/
theorem disambiguate_final {draft : Draft α} {range : IndexRange}
    (built : draft.build range = .ok grammar)
    (success : (grammar.parse start input).2 = .ok forest) (prefer wanted : Nat → Nat → Bool) :
    let after := (forest.disambiguate prefer).1
    after.disambiguate wanted = (after, .disambiguated 0) := by
  have parsed := Grammar.parsed_of_parse (Draft.build_wellFormed built) success
  exact disambiguate_narrow (parsed.single_left prefer).1 wanted

/-- The first preference decides for all that follow, even for the opposite one. -/
theorem disambiguate_sums_again :
    ∃ forest, ((Draft.sums.number .bits8).parse 0 #["x", "+", "x", "+", "x"]).2 = .ok forest ∧
      1 < (forest.chart.derivations forest.root).size ∧
      ∀ prefer : Nat → Nat → Bool,
        (forest.disambiguate prefer).1.disambiguate (fun first second => prefer second first) =
          ((forest.disambiguate prefer).1, .disambiguated 0) := by
  obtain ⟨forest, success, several, -⟩ := Draft.parse_sums
  exact ⟨forest, success, several, fun prefer => disambiguate_final Draft.build_sums success _ _⟩

end Forest

end ChartParser
