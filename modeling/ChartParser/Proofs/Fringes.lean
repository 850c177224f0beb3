import ChartParser.Proofs.Forest.Tasks
import ChartParser.Proofs.Traversal.Projection

namespace ChartParser

variable {α σ ο δ ε : Type}

def Chart.Spans (chart : Chart) (ref : ItemRef) (offsets : List Nat) : Prop :=
  ∃ tag first, chart.Holds ref tag first ∧ first ≤ ref.set ∧
    offsets = List.range' first (ref.set - first)

/-- The offsets of the lexemes beneath a completed node, given those beneath its children. -/
def SymbolNode.fringe (below : List Nat) : SymbolNode → List Nat
  | .lexeme offset _ => [offset]
  | .rule _ _ => below

theorem Chart.Spans.unique {chart : Chart} {ref : ItemRef} {offsets others : List Nat}
    (spans : chart.Spans ref offsets) (again : chart.Spans ref others) : offsets = others := by
  obtain ⟨tag, first, held, -, rfl⟩ := spans
  obtain ⟨tag', first', held', -, rfl⟩ := again
  obtain ⟨-, rfl⟩ := held.unique held'
  rfl

/-- The visitor with the offsets of the lexemes beneath everything that it makes. Those of an
ambiguous node are the offsets beneath its first alternative. -/
def Visitor.fringed (visitor : Visitor σ ο δ ε) : Visitor σ (ο × List Nat) (δ × List Nat) ε where
  choices ref tag alternatives state := do
    let (state, value) ← visitor.choices ref tag (alternatives.map Prod.fst) state
    .ok (state, value, alternatives.head?.elim [] Prod.snd)
  derivation children state := do
    let (state, made) ← visitor.derivation (children.map Prod.fst) state
    .ok (state, made, children.flatMap Prod.snd)
  symbol node made state := do
    let (state, value) ← visitor.symbol node made.1 state
    .ok (state, value, node.fringe made.2)

/-- The values, or spliced values, without their fringes. -/
def Walked.plain : Walked (ο × List Nat) → Walked ο
  | .node value => .node value.1
  | .spliced values => .spliced (values.map Prod.fst)

def WalkNode.plain (node : WalkNode (ο × List Nat) (δ × List Nat)) : WalkNode ο δ where
  tag := node.tag
  shape := node.shape
  only := node.only.map fun only => (only.1, only.2.map Prod.fst)
  alternatives := node.alternatives.map Prod.fst

def Task.plain : Task (ο × List Nat) (δ × List Nat) → Task ο δ
  | .complete ref index production values =>
    .complete ref index production (values.map Prod.fst)
  | .alternative ref derivation values => .alternative ref derivation (values.map Prod.fst)
  | .choices ref tag alternatives => .choices ref tag (alternatives.map Prod.fst)

/-- What comes with the task has the fringe that the node spans. -/
def Task.Fringed (chart : Chart) : Task (ο × List Nat) (δ × List Nat) → Prop
  | .complete ref _ _ values => chart.Spans ref (values.flatMap Prod.snd)
  | .alternative ref _ values => chart.Spans ref (values.flatMap Prod.snd)
  | .choices ref _ alternatives =>
    ∃ offsets, chart.Spans ref offsets ∧ ∀ made ∈ alternatives, made.2 = offsets

section Plain

open Traversal

variable (visitor : Visitor σ ο δ ε)

theorem flatMap_values_plain (results : List (Walked (ο × List Nat))) :
    (results.map Walked.plain).flatMap Walked.values =
      (results.flatMap Walked.values).map Prod.fst := by
  rw [List.flatMap_map, List.map_flatMap]
  congr 1
  funext result
  cases result <;> rfl

namespace Visitor

private theorem fringed_enter (grammar : Grammar α) (chart : Chart) (child : WalkChild)
    (state : σ) : visitor.enter grammar chart child state =
      forget (Arrival.map WalkNode.plain Walked.plain)
        (visitor.fringed.enter grammar chart child state) := by
  unfold enter
  cases chart.item? child.ref with
  | none => rfl
  | some item =>
    simp only
    split
    · rfl
    · simp only [fringed, List.map_nil, bind, Except.bind]
      cases visitor.derivation [] state with
      | error stop => rfl
      | ok outcome =>
        simp only
        cases visitor.symbol _ outcome.2 outcome.1 <;> rfl
    · split
      · cases item.shape <;> rfl
      · simp [forget, Except.map, Arrival.map, WalkNode.plain]

private theorem fringed_accept (node : WalkNode (ο × List Nat) (δ × List Nat))
    (derivation : Derivation) (results : List (Walked (ο × List Nat))) (state : σ) :
    visitor.accept node.plain derivation (results.map Walked.plain) state =
      forget WalkNode.plain (visitor.fringed.accept node derivation results state) := by
  obtain ⟨tag, shape, only, alternatives⟩ := node
  simp only [accept, flatMap_values_plain]
  cases shape with
  | ambiguous =>
    simp only [WalkNode.plain, fringed, bind, Except.bind]
    cases visitor.derivation ((results.flatMap Walked.values).map Prod.fst) state with
    | error stop => rfl
    | ok outcome => simp [forget, Except.map, WalkNode.plain]
  | intermediate => rfl
  | complete => rfl

private theorem fringed_leave (ref : ItemRef) (node : WalkNode (ο × List Nat) (δ × List Nat))
    (state : σ) : visitor.leave ref node.plain state =
      forget (Option.map Walked.plain) (visitor.fringed.leave ref node state) := by
  obtain ⟨tag, shape, only, alternatives⟩ := node
  cases shape with
  | ambiguous =>
    have empty : (alternatives.map Prod.fst).isEmpty = alternatives.isEmpty := by
      simp [Array.isEmpty]
    simp only [leave, WalkNode.plain, empty]
    split
    · rfl
    · simp only [fringed, Array.toList_map, bind, Except.bind]
      cases visitor.choices ref tag (alternatives.toList.map Prod.fst) state <;> rfl
  | intermediate => cases only <;> rfl
  | complete =>
    cases tag with
    | lexeme offset => rfl
    | dotted position => rfl
    | rule index =>
      cases only with
      | none => rfl
      | some only =>
        simp only [leave, WalkNode.plain, Option.map_some, fringed, bind, Except.bind]
        cases visitor.derivation (only.2.map Prod.fst) state with
        | error stop => rfl
        | ok outcome =>
          simp only
          cases visitor.symbol (.rule index only.1) outcome.2 outcome.1 <;> rfl

theorem fringed_projects (grammar : Grammar α) (chart : Chart) :
    (visitor.fringed.traversal grammar chart).Projects (visitor.traversal grammar chart)
      WalkNode.plain Walked.plain where
  node := rfl
  enter child state := visitor.fringed_enter grammar chart child state
  accept _ node derivation results state := visitor.fringed_accept node derivation results state
  leave child node state := visitor.fringed_leave child.ref node state

end Visitor

theorem Awaits.of_plain {config : WalkConfig σ (ο × List Nat) (δ × List Nat)} {task : Task ο δ}
    (awaits : Awaits (config.map WalkNode.plain Walked.plain) task) :
    ∃ whole, Awaits config whole ∧ whole.plain = task := by
  obtain ⟨room, stack, marks, state⟩ := config
  cases stack with
  | nil => cases awaits
  | cons frame around =>
    obtain ⟨child, node, current, results, pending, rest⟩ := frame
    change Awaits ⟨room, ⟨child, node.plain, current, results.map Walked.plain, pending, rest⟩ ::
      around.map (Frame.map WalkNode.plain Walked.plain), marks, state⟩ task at awaits
    cases awaits with
    | complete shape tag only =>
      obtain ⟨entry, kept, same⟩ := Option.map_eq_some_iff.mp only
      cases same
      exact ⟨_, .complete shape tag kept, rfl⟩
    | alternative shape =>
      rw [flatMap_values_plain]
      exact ⟨_, .alternative shape, rfl⟩
    | choices shape some =>
      have left : node.alternatives ≠ #[] := by
        intro empty
        simp [WalkNode.plain, empty] at some
      refine ⟨_, .choices shape left, ?_⟩
      simp [Task.plain, WalkNode.plain]

end Plain

section Spans

variable {grammar : Grammar α} {input : Array String} {chart : Chart}

def Reading.fringes (chart : Chart) : Reading (ο × List Nat) (δ × List Nat) where
  node child value := chart.Spans child.ref value.2
  spliced ref values := chart.Spans ref (values.flatMap Prod.snd)
  alternative ref _ made := chart.Spans ref made.2

/-- Together the values have the fringe from one offset to another. -/
def FringeBetween (values : List (ο × List Nat)) (_ : List Symbol) (start stop : Nat) : Prop :=
  start ≤ stop ∧ values.flatMap Prod.snd = List.range' start (stop - start)

theorem FringeBetween.adjoins : Chart.Adjoins (FringeBetween (ο := ο)) where
  nil offset := ⟨Nat.le_refl _, by simp⟩
  append := by
    rintro part further - - start middle stop ⟨ordered, here⟩ ⟨ordered', there⟩
    refine ⟨ordered.trans ordered', ?_⟩
    have joined := List.range'_append_1 (s := start) (m := middle - start) (n := stop - middle)
    rw [Nat.add_sub_cancel' ordered] at joined
    rw [List.flatMap_append, here, there, joined]
    congr 1
    omega

variable (grammar input) in
theorem Chart.Spans.fits {ref : ItemRef} {values : List (ο × List Nat)}
    (spans : chart.Spans ref (values.flatMap Prod.snd)) :
    chart.Fits grammar input FringeBetween ref values := by
  intro symbols first matched
  obtain ⟨tag, start, held, ordered, same⟩ := spans
  obtain ⟨tag', held'⟩ := matched.holds
  obtain ⟨-, rfl⟩ := held.unique held'
  exact ⟨ordered, same⟩

theorem Reading.Values.spans (sound : chart.Sound grammar input) {ref : ItemRef} {tag : Tag}
    {start : Nat} (held : chart.Holds ref tag start) {derivation : Derivation}
    (member : derivation ∈ chart.derivations ref) {values : List (ο × List Nat)}
    (stand : (Reading.fringes (δ := δ) chart).Values chart (grammar.walkChildren tag derivation)
      values) : chart.Spans ref (values.flatMap Prod.snd) := by
  obtain ⟨parts, rfl, below⟩ := stand.parts
    (fun ref part => chart.Spans ref (part.flatMap Prod.snd))
    (fun child value spans => by simpa [Reading.fringes] using spans)
    (fun ref values spans => spans)
  have fits := below.imp fun child part spans => spans.fits grammar input
  exact ⟨tag, start, held, (sound.derived held member).assemble FringeBetween.adjoins sound fits⟩

private theorem ends_fringe {τ : Type} {computation : Except ε (σ × τ)} {offsets : List Nat}
    {expected : τ × List Nat → Prop} (spans : ∀ value, expected (value, offsets)) :
    Ends (fun _ => True) (fun outcome => True ∧ expected outcome.2)
      (computation >>= fun (state, value) => .ok (state, value, offsets)) := by
  cases computation with
  | error stop => trivial
  | ok outcome => exact ⟨trivial, spans outcome.2⟩

private theorem fringed_node (visitor : Visitor σ ο δ ε) (node : SymbolNode)
    (values : List (ο × List Nat)) (state : σ) :
    (visitor.fringed.derivation values state >>= fun (state, made) =>
      visitor.fringed.symbol node made state) =
        (visitor.derivation (values.map Prod.fst) state >>= fun (state, made) =>
          visitor.symbol node made state) >>= fun (state, value) =>
            .ok (state, value, node.fringe (values.flatMap Prod.snd)) := by
  simp only [Visitor.fringed, bind, Except.bind]
  cases visitor.derivation (values.map Prod.fst) state <;> rfl

theorem Chart.Spans.lexeme (sound : chart.Sound grammar input) {ref : ItemRef}
    {offset start : Nat} (held : chart.Holds ref (.lexeme offset) start) :
    chart.Spans ref [offset] := by
  have placed := sound.placed held
  generalize ended : ref.set = stop at placed
  cases placed
  refine ⟨_, _, held, by omega, ?_⟩
  rw [ended, Nat.add_sub_cancel_left, List.range'_one]

theorem Task.fringed_of_justifies (sound : chart.Sound grammar input)
    {task : Task (ο × List Nat) (δ × List Nat)}
    (justified : (Reading.fringes chart).Justifies grammar chart task) : task.Fringed chart := by
  cases justified with
  | complete held sole values => exact values.spans sound held (by simp [sole])
  | alternative held _ member values => exact values.spans sound held member
  | choices held _ some stand =>
    obtain ⟨made, others, rfl⟩ := List.exists_cons_of_ne_nil some
    obtain ⟨derivation, -, spans⟩ := stand made List.mem_cons_self
    refine ⟨made.2, spans, fun other member => ?_⟩
    obtain ⟨derivation', -, spans'⟩ := stand other member
    exact spans'.unique spans

/-- All fringes that come up in a walk are those of the spans of the nodes. -/
theorem Visitor.fringed_respects {forest : Forest} (sound : forest.chart.Sound grammar input)
    (visitor : Visitor σ ο δ ε) : visitor.fringed.Respects grammar input forest (fun _ => True)
      (fun _ => True) (.fringes forest.chart) where
  lexeme _ held _ _ _ := by
    rw [fringed_node]
    exact ends_fringe fun _ => .lexeme sound held
  complete _ _ justified _ _ := by
    rw [fringed_node]
    exact ends_fringe fun _ => Task.fringed_of_justifies sound justified
  dotted held _ sole values := values.spans sound held (by simp [sole])
  alternative _ justified _ := ends_fringe fun _ => Task.fringed_of_justifies sound justified
  choices _ _ justified _ := by
    obtain ⟨offsets, spans, same⟩ := Task.fringed_of_justifies sound justified
    cases justified with
    | choices held several some =>
      obtain ⟨made, others, rfl⟩ := List.exists_cons_of_ne_nil some
      rw [← same made List.mem_cons_self] at spans
      exact ends_fringe fun _ => spans

end Spans

namespace Forest

variable {grammar : Grammar α} {input : Array String} {start : Nat} {forest : Forest}

theorem walk_eq_plain (forest : Forest) (grammar : Grammar α) (visitor : Visitor σ ο δ ε)
    (state : σ) : forest.walk grammar visitor state =
      Traversal.forget (Option.map Prod.fst) (forest.walk grammar visitor.fringed state) := by
  have projected := (visitor.fringed_projects grammar forest.chart).traverse forest.itemCount
    forest.chart.marks ⟨forest.root, none⟩ state
  unfold walk
  rw [projected]
  cases (visitor.fringed.traversal grammar forest.chart).traverse forest.itemCount
    forest.chart.marks ⟨forest.root, none⟩ state with
  | error stop => rfl
  | ok outcome =>
    obtain ⟨next, none | walked⟩ := outcome
    · rfl
    · cases walked <;> rfl

theorem Sound.walk_fringed (sound : forest.Sound grammar start input)
    (whole : forest.root.set = input.size) (visitor : Visitor σ ο δ ε) (state : σ) :
    forest.walk grammar visitor.fringed state = (forest.walk grammar visitor state).map
      fun outcome => (outcome.1, outcome.2.map (·, List.range input.size)) := by
  rw [forest.walk_eq_plain grammar visitor]
  obtain ⟨stop, walked, -⟩ | ⟨next, value, walked, -, spans⟩ := walk_respects sound.chart
    (visitor.fringed_respects sound.chart) sound.root state trivial
  · rw [walked]
    rfl
  · have fringe : value.2 = List.range input.size := by
      have root : forest.chart.Spans forest.root (List.range input.size) :=
        ⟨_, _, sound.root, Nat.zero_le _, by rw [whole, List.range_eq_range', Nat.sub_zero]⟩
      exact Chart.Spans.unique spans root
    rw [walked, ← fringe]
    rfl

/-- Round trip of the input, in every walk of a parsed forest, cyclic or not, and after any
disambiguations. A walk that keeps the offsets of lexemes beside what the visitor makes has the same
calls. Whenever the visitor is called with the values of the children of a derivation, the lexemes
beneath these are all those that the node spans, in order; all alternatives that it has to choose
from have the same lexemes; and the lexemes beneath the root are the whole input. -/
theorem walk_fringes {draft : Draft α} {range : IndexRange}
    (built : draft.build range = .ok grammar)
    (success : (grammar.parse start input).2 = .ok forest)
    (preferences : List (Nat → Nat → Bool)) :
    let after := forest.disambiguateAll preferences
    ∀ {σ ο δ ε : Type} (visitor : Visitor σ ο δ ε) (state : σ),
      (∀ config task, after.Walks grammar visitor state config → Awaits config task →
        ∃ fringed whole, after.Walks grammar visitor.fringed state fringed ∧
          fringed.map WalkNode.plain Walked.plain = config ∧ Awaits fringed whole ∧
          whole.plain = task ∧ whole.Fringed after.chart) ∧
      after.walk grammar visitor.fringed state = (after.walk grammar visitor state).map
        fun outcome => (outcome.1, outcome.2.map (·, List.range input.size)) := by
  have parsed := Grammar.parsed_of_parse (Draft.build_wellFormed built) success
  have sound := parsed.sound.disambiguateAll preferences
  intro after σ ο δ ε visitor state
  refine ⟨?_, sound.walk_fringed ?_ visitor state⟩
  · intro config task walks awaits
    obtain ⟨fringed, same, rfl⟩ := (visitor.fringed_projects grammar after.chart).reaches walks
    obtain ⟨whole, called, rfl⟩ := awaits.of_plain
    have justified := Walks.justifies sound.chart (visitor.fringed_respects sound.chart) sound.root
      trivial same called
    exact ⟨fringed, whole, same, rfl, called, rfl, Task.fringed_of_justifies sound.chart justified⟩
  · rw [root_disambiguateAll]
    exact parsed.whole

/-- However a sum has been disambiguated, counting its trees passes all of its lexemes. -/
theorem walk_fringes_sums :
    ∃ forest, ((Draft.sums.number .bits8).parse 0 #["x", "+", "x", "+", "x"]).2 = .ok forest ∧
      1 < (forest.chart.derivations forest.root).size ∧
      ∀ preferences : List (Nat → Nat → Bool), ∃ count,
        (forest.disambiguateAll preferences).walk (Draft.sums.number .bits8) counter.fringed () =
          .ok ((), some (count, [0, 1, 2, 3, 4])) := by
  obtain ⟨forest, success, several, -⟩ := Draft.parse_sums
  refine ⟨forest, success, several, fun preferences => ?_⟩
  obtain ⟨-, fringes⟩ := walk_fringes Draft.build_sums success preferences counter ()
  have parsed := Grammar.parsed_of_parse (Draft.build_wellFormed Draft.build_sums) success
  have sound := parsed.sound.disambiguateAll preferences
  obtain ⟨next, count, counted⟩ | ⟨stop, -⟩ := sound.walk counter ()
  · exact ⟨count, by rw [fringes, counted]; rfl⟩
  · exact stop.elim

end Forest

end ChartParser
