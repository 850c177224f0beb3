import ChartParser.Proofs.Chart.Descent
import ChartParser.Proofs.Forest.Choices
import ChartParser.Proofs.Forest.Tasks
import ChartParser.Proofs.Traversal.Pruning

namespace ChartParser

open Relation

theorem Visitor.respects_uniform {α σ ο δ ε : Type} (visitor : Visitor σ ο δ ε)
    (grammar : Grammar α) (input : Array String) (forest : Forest) :
    visitor.Respects grammar input forest (fun _ => True) (fun _ => True)
      (.uniform (fun _ => True) fun _ => True) := by
  have leads {τ : Type} (computation : Except ε (σ × τ)) :
      Ends (fun _ => True) (fun outcome => True ∧ True) computation :=
    .of_forall (fun _ => trivial) (fun _ => ⟨trivial, trivial⟩) computation
  exact ⟨fun _ _ _ _ _ => leads _, fun _ _ _ _ _ => leads _, fun _ _ _ _ _ _ => trivial,
    fun _ _ _ => leads _, fun _ _ _ _ => leads _⟩

namespace Forest

variable {α : Type} {grammar : Grammar α} {input : Array String} {start : Nat} {forest : Forest}

def Resolves (forest : Forest) (prefer : Nat → Nat → Bool)
    (config : Traversal.Config Resolution ItemRef Derivation Contest Unit) : Prop :=
  (Resolution.traversal prefer forest.itemCount).Reaches forest.chart.marks forest.root
    ⟨forest.chart, forest.chart.marks, 0⟩ forest.itemCount config

theorem roomy (forest : Forest) (path : List ItemRef) (distinct : path.Nodup)
    (flagged : ∀ ref ∈ path, (forest.chart.marks.flag? ref).isSome = true) :
    path.length ≤ forest.itemCount := by
  refine Chart.length_le_itemCount distinct fun ref listed => ?_
  have some := flagged ref listed
  rwa [Chart.isSome_flag_marks] at some

/-- A walk of a forest without cycles leaves out no child. -/
theorem Sound.walks_not_prunes (sound : forest.Sound grammar start input)
    (acyclic : ∀ ref, ¬ TransGen forest.chart.Child ref ref) {σ ο δ ε : Type}
    {visitor : Visitor σ ο δ ε} {state : σ} {config : WalkConfig σ ο δ}
    (walks : forest.Walks grammar visitor state config) :
    (visitor.traversal grammar forest.chart).prunes config = false := by
  have keeps := (visitor.respects_uniform grammar input forest).keeps sound.chart
  refine keeps.not_prunes (visitor.marking grammar forest.chart) Chart.contains_marks
    ?_ acyclic ?_ forest.roomy (asked_root _ _ _ sound.root) trivial trivial walks
  · intro child derivation children offered other listed
    obtain ⟨member, tag, first, -, rfl⟩ := offered
    exact Chart.child_of_walkChildren member listed
  · intro child asked
    obtain ⟨tag, first, held, -⟩ := asked.1.advanced
    exact (Chart.isSome_flag_marks _).trans (Chart.holds_iff_item.mp ⟨tag, first, held⟩)

/-- A disambiguation of a forest without cycles rejects no child as one that is being resolved. -/
theorem Sound.resolves_not_prunes (sound : forest.Sound grammar start input)
    (acyclic : ∀ ref, ¬ TransGen forest.chart.Child ref ref) {prefer : Nat → Nat → Bool}
    {config : Traversal.Config Resolution ItemRef Derivation Contest Unit}
    (resolves : forest.Resolves prefer config) :
    (Resolution.traversal prefer forest.itemCount).prunes config = false := by
  have keeps := Resolution.keeps_chooses_items sound.chart.closed prefer forest.itemCount
  have known := Chart.holds_iff_item.mp ⟨_, _, sound.root⟩
  refine keeps.not_prunes (Resolution.marking forest.chart prefer) Chart.contains_marks
    ?_ acyclic ?_ forest.roomy known (Resolution.chooses_start _ _) (fun _ => rfl) resolves
  · intro ref derivation children offered other listed
    obtain ⟨member, rfl⟩ := offered
    exact ⟨derivation, member, listed⟩
  · intro ref known
    exact (Chart.isSome_flag_marks ref).trans known

/-- Only grammars with loops give forests with cycles. Where no rule derives itself in one or more
steps, no item of a chart is its own descendant, before and after any disambiguations. So no walk
leaves out a child, whatever the visitor, and no disambiguation rejects a derivation for closing a
cycle. -/
theorem acyclic_of_loopFree {draft : Draft α} {range : IndexRange}
    (built : draft.build range = .ok grammar) (free : grammar.LoopFree)
    (success : (grammar.parse start input).2 = .ok forest)
    (preferences : List (Nat → Nat → Bool)) :
    let after := forest.disambiguateAll preferences
    (∀ ref, ¬ TransGen after.chart.Child ref ref) ∧
    (∀ {σ ο δ ε : Type} (visitor : Visitor σ ο δ ε) (state : σ) (config : WalkConfig σ ο δ),
      after.Walks grammar visitor state config →
        (visitor.traversal grammar after.chart).prunes config = false) ∧
    ∀ prefer config, after.Resolves prefer config →
      (Resolution.traversal prefer after.itemCount).prunes config = false := by
  have parsed := Grammar.parsed_of_parse (Draft.build_wellFormed built) success
  have sound := parsed.sound.disambiguateAll preferences
  have acyclic := sound.chart.acyclic free
  exact ⟨acyclic, fun _ _ _ walks => sound.walks_not_prunes acyclic walks,
    fun _ _ resolves => sound.resolves_not_prunes acyclic resolves⟩

end Forest

/-- Words with gaps around them. A gap may be empty, so that a word has the span of its line. -/
def Draft.spaced : Draft Unit :=
  .ofEntries "line" [.production ⟨"line", ["gap", "word", "gap"], none, none⟩,
    .production ⟨"gap", [], none, none⟩, .production ⟨"gap", ["_", "gap"], none, none⟩,
    .production ⟨"word", ["x"], none, none⟩, .production ⟨"word", ["x", "line"], none, none⟩]

theorem Draft.build_spaced : Draft.spaced.build .bits8 = .ok (Draft.spaced.number .bits8) :=
  Draft.build_eq_number (by decide +kernel) (by decide +kernel)

/-- The forest of a line of words has no cycle, although a word can span all of its line. -/
theorem Forest.acyclic_spaced :
    (Draft.spaced.number .bits8).LoopFree ∧
    ∃ forest, ((Draft.spaced.number .bits8).parse 0 #["x", "_", "x"]).2 = .ok forest ∧
      ∀ preferences, let after := forest.disambiguateAll preferences
        (∀ ref, ¬ TransGen after.chart.Child ref ref) ∧
        ∀ prefer config, after.Resolves prefer config →
          (Resolution.traversal prefer after.itemCount).prunes config = false := by
  have falls : (Draft.spaced.number .bits8).Falls fun rule => if rule = 0 then 1 else 0 := by
    decide +kernel
  obtain ⟨forest, success⟩ := Grammar.exists_forest_iff.mpr (show
    ((Draft.spaced.number .bits8).parse 0 #["x", "_", "x"]).2.toOption.isSome = true by
      decide +kernel)
  refine ⟨falls.loopFree, forest, success, fun preferences => ?_⟩
  obtain ⟨acyclic, -, resolves⟩ :=
    Forest.acyclic_of_loopFree Draft.build_spaced falls.loopFree success preferences
  exact ⟨acyclic, resolves⟩

end ChartParser
