import ChartParser.Proofs.Acyclicity
import ChartParser.Proofs.Forest.Underway
import ChartParser.Proofs.Forest.Worklist
import ChartParser.Proofs.RecursiveResolution
import ChartParser.Proofs.Traversal.Loop

namespace ChartParser

namespace Visitor

variable {α σ ο δ ε : Type} (visitor : Visitor σ ο δ ε)

/-- A walk stays within the items of the chart, whatever the visitor makes of them. -/
def stays (chart : Chart) (σ ο δ ε : Type) :
    Traversal.Contract σ WalkChild Derivation (WalkNode ο δ) (Walked ο) ε where
  asked child := (chart.item? child.ref).isSome = true
  offered _ _ children := ∀ other ∈ children, (chart.item? other.ref).isSome = true
  held _ _ := True
  given _ _ := True
  state _ := True
  stop _ := True

theorem keeps_stays (grammar : Grammar α) {chart : Chart} (closed : chart.Closed) :
    (visitor.traversal grammar chart).Keeps (stays chart σ ο δ ε) where
  children _ offered := offered
  enter {child state} known _ := by
    change (stays chart σ ο δ ε).Leads ((stays chart σ ο δ ε).Arrives child)
      (visitor.enter grammar chart child state)
    obtain ⟨item, found⟩ := Option.isSome_iff_exists.mp known
    by_cases lexeme : ∃ offset, item.tag = .lexeme offset
    · obtain ⟨offset, tagged⟩ := lexeme
      cases token : child.token with
      | none =>
        simp only [enter, found, tagged, token]
        exact ⟨trivial, fun _ _ => trivial⟩
      | some token' =>
        rw [visitor.enter_lexeme grammar found tagged token]
        exact (Ends.of_forall (fun _ => trivial) (fun _ => trivial) _).bind
          fun _ (_ : True) => ⟨trivial, fun _ _ => trivial⟩
    · have plain : ∀ offset, item.tag ≠ .lexeme offset := fun offset same => lexeme ⟨offset, same⟩
      by_cases bare : item.derivations = #[]
      · have shape : item.shape = item.tag.shape := by simp [item.shape_eq, bare]
        cases tagged : item.tag with
        | lexeme offset => exact absurd tagged (plain offset)
        | dotted position =>
          simp only [enter, found, tagged, shape, bare]
          exact ⟨trivial, fun _ _ => trivial⟩
        | rule index =>
          simp only [enter, found, tagged, shape, bare]
          exact ⟨trivial, fun _ _ => trivial⟩
      · rw [visitor.enter_opened grammar found plain bare]
        refine ⟨trivial, trivial, fun entry listed other below => ?_⟩
        obtain ⟨derivation, member, rfl⟩ := List.mem_map.mp listed
        have member : derivation ∈ chart.derivations child.ref := by
          rw [Chart.derivations_of_item found]
          exact Array.mem_toList_iff.mp member
        exact closed (Chart.child_of_walkChildren member below)
  accept _ _ _ _ _ := .of_forall (fun _ => trivial) (fun _ => ⟨trivial, trivial⟩) _
  leave _ _ _ := .of_forall (fun _ => trivial) (fun _ => ⟨trivial, fun _ _ => trivial⟩) _

end Visitor

namespace Resolution

/-- The next step of the resolution compares a derivation with the best one so far. -/
def Compares (config : Traversal.Config Resolution ItemRef Derivation Contest Unit)
    (derivation best : Derivation) : Prop :=
  ∃ frame ∈ config.stack.head?,
    frame.pending = [] ∧ frame.current = some derivation ∧ frame.held.best = some best

instance (config : Traversal.Config Resolution ItemRef Derivation Contest Unit)
    (derivation best : Derivation) : Decidable (Compares config derivation best) :=
  inferInstanceAs (Decidable (∃ frame ∈ config.stack.head?, _))

variable {chart : Chart} {root : ItemRef}
  {config : Traversal.Config Resolution ItemRef Derivation Contest Unit}
  {derivation best : Derivation}

theorem Compares.built (compares : Compares config derivation best)
    (underway : Underway chart root config) :
    config.state.Built derivation ∧ config.state.Built best := by
  obtain ⟨frame, innermost, done, searched, won⟩ := compares
  obtain ⟨-, -, nested⟩ := underway
  obtain ⟨around, stacked⟩ := List.head?_eq_some_iff.mp innermost
  rw [stacked] at nested
  exact ⟨(tracks_open_built nested.1 searched done).2, (nested.1.held.2 best won).2⟩

/-- A step that compares nothing does not depend on the preference, nor on the limit of the
comparisons. -/
theorem step_eq_of_not_compares (prefer other : Nat → Nat → Bool) (depth limit : Nat)
    (idle : ∀ derivation best, ¬ Compares config derivation best) :
    (traversal prefer depth).step config = (traversal other limit).step config := by
  obtain ⟨room, stack, marks, resolution⟩ := config
  cases stack with
  | nil => rfl
  | cons frame around =>
    obtain ⟨ref, contest, alternative, results, pending, rest⟩ := frame
    cases pending with
    | cons child pending => rfl
    | nil =>
      cases alternative with
      | none => rfl
      | some derivation =>
        cases won : contest.best with
        | none => simp only [Traversal.step, traversal, accept, won]
        | some best => exact absurd ⟨_, rfl, rfl, rfl, won⟩ (idle derivation best)

end Resolution

namespace Forest

open Resolution

/-- Disambiguating and walking a forest come to an end, for every chart of which the derivations are
built of its items, with cycles of any shape, every root, every preference and every visitor.
Without any limit on the number of open nodes, the loop that resolves the chart ends, although
nodes that have failed are entered again. It ends with what the search with a limit leaves. At all
of its comparisons, the two derivations are built of resolved nodes, and below these no node has
several derivations or is its own descendant. So a worklist without a limit on its depth empties
whatever is preferred, and with the same verdict. The loop that walks the chart ends, too. -/
theorem loops_end {forest : Forest} (closed : forest.chart.Closed)
    (known : (forest.chart.item? forest.root).isSome = true) :
    (∀ prefer, (traversal prefer forest.itemCount).Concludes forest.chart.marks forest.root
      ⟨forest.chart, forest.chart.marks, 0⟩
      (.ok ((forest.resolve prefer).1, if (forest.resolve prefer).2 then some () else none))) ∧
    (∀ prefer config, forest.Resolves prefer config →
      (∀ derivation best, Compares config derivation best →
        (config.state.Built derivation ∧ config.state.Built best) ∧
        (∀ child ∈ derivation.children ++ best.children,
          config.state.chart.Narrow child ∧ config.state.chart.Acyclic child) ∧
        ∀ wanted, config.state.chart.Decides wanted [(derivation, best)]
          (config.state.chart.compare wanted forest.itemCount derivation best)) ∧
      ((∀ derivation best, ¬ Compares config derivation best) → ∀ other limit,
        (traversal other limit).step config =
          (traversal prefer forest.itemCount).step config)) ∧
    ∀ {α σ ο δ ε : Type} (grammar : Grammar α) (visitor : Visitor σ ο δ ε) (state : σ),
      (visitor.traversal grammar forest.chart).Concludes forest.chart.marks ⟨forest.root, none⟩
        state ((visitor.traversal grammar forest.chart).traverse forest.itemCount
          forest.chart.marks ⟨forest.root, none⟩ state) := by
  have flagged {ref : ItemRef} (known : (forest.chart.item? ref).isSome = true) :
      (forest.chart.marks.flag? ref).isSome = true := (Chart.isSome_flag_marks ref).trans known
  refine ⟨fun prefer => ?_, fun prefer config resolves => ⟨?_, ?_⟩, fun grammar visitor state => ?_⟩
  · have keeps := keeps_chooses_items closed prefer forest.itemCount
    rw [← forest.traverse_eq_resolve prefer]
    exact keeps.concludes (marking forest.chart prefer) Chart.contains_marks flagged forest.roomy
      known (chooses_start _ _) fun _ => rfl
  · intro derivation best compares
    have underway := Underway.reaches closed known resolves
    obtain ⟨here, there⟩ := compares.built underway
    refine ⟨⟨here, there⟩, fun child listed => ?_, underway.settling.decides here there⟩
    have done : config.state.resolved.contains child = true := by
      rcases List.mem_append.mp listed with listed | listed
      · exact here child listed
      · exact there child listed
    have settled := underway.settling.settled done
    refine ⟨settled.narrow, fun node reached => ?_⟩
    obtain ⟨height, settled⟩ := settled.reach reached
    exact settled.not_descends
  · intro idle other limit
    exact step_eq_of_not_compares other prefer limit forest.itemCount idle
  · exact (visitor.keeps_stays grammar closed).concludes (visitor.marking grammar forest.chart)
      Chart.contains_marks flagged forest.roomy known trivial trivial

/-- In the knot, the two lexemes are compared after the item of the second rule has failed twice. -/
theorem loops_end_knot :
    knot.chart.Closed ∧ (knot.chart.item? knot.root).isSome = true ∧
    (traversal (· < ·) knot.itemCount).Concludes knot.chart.marks knot.root
      ⟨knot.chart, knot.chart.marks, 0⟩
      (.ok ((knot.resolve (· < ·)).1, if (knot.resolve (· < ·)).2 then some () else none)) ∧
    ∃ config, knot.Resolves (· < ·) config ∧
      Compares config ⟨none, some ⟨0, 4⟩, 5⟩ ⟨none, some ⟨0, 3⟩, 4⟩ ∧
      config.state.chart.Decides (· < ·)
        [(⟨none, some ⟨0, 4⟩, 5⟩, ⟨none, some ⟨0, 3⟩, 4⟩)] .lt := by
  have known : (knot.chart.item? knot.root).isSome = true := rfl
  obtain ⟨concludes, comparisons, -⟩ := loops_end closed_knot known
  have entered : (traversal (· < ·) knot.itemCount).enter knot.root
      ⟨knot.chart, knot.chart.marks, 0⟩ = .ok (⟨knot.chart, knot.chart.marks, 0⟩, .opened
        ((knot.chart.derivations knot.root).toList.map fun derivation =>
          (derivation, derivation.children)) ⟨true, none⟩) := by
    have closed : knot.chart.marks.contains knot.root = false := Chart.contains_marks knot.root
    simp only [traversal, enter, closed]
    rfl
  have started : knot.Resolves (· < ·) _ := .start entered
  obtain ⟨config, found, compares⟩ : ∃ config ∈ (traversal (· < ·) knot.itemCount).after 17
      ⟨4, [.start knot.root ((knot.chart.derivations knot.root).toList.map fun derivation =>
        (derivation, derivation.children)) ⟨true, none⟩], knot.chart.marks.insert knot.root,
        ⟨knot.chart, knot.chart.marks, 0⟩⟩,
      Compares config ⟨none, some ⟨0, 4⟩, 5⟩ ⟨none, some ⟨0, 3⟩, 4⟩ := by
    decide +kernel
  have resolves : knot.Resolves (· < ·) config := started.after found
  have decides := ((comparisons (· < ·) config resolves).1 _ _ compares).2.2 (· < ·)
  rw [Chart.compare, Chart.comparePending_cons] at decides
  exact ⟨closed_knot, known, concludes _, config, resolves, compares, decides⟩

end Forest

end ChartParser
