import ChartParser.Proofs.Traversal.Invariant
import ChartParser.Proofs.Walking

namespace ChartParser

open Relation

abbrev WalkConfig (σ ο δ : Type) :=
  Traversal.Config σ WalkChild Derivation (WalkNode ο δ) (Walked ο)

/-- What a visitor is called for at a node that is no lexeme: to complete a rule that has one
derivation, to make an alternative of a derivation, or to choose between alternatives. -/
inductive Task (ο δ : Type) where
  | complete (ref : ItemRef) (index production : Nat) (values : List ο)
  | alternative (ref : ItemRef) (derivation : Derivation) (values : List ο)
  | choices (ref : ItemRef) (tag : Tag) (alternatives : List δ)

/-- The next step of the walk calls the visitor for the task. -/
inductive Awaits {σ ο δ : Type} : WalkConfig σ ο δ → Task ο δ → Prop
  | complete (shape : node.shape = .complete) (tag : node.tag = .rule index)
      (only : node.only = some (production, values)) :
      Awaits ⟨room, ⟨child, node, none, results, [], []⟩ :: around, marks, state⟩
        (.complete child.ref index production values)
  | alternative (shape : node.shape = .ambiguous) :
      Awaits ⟨room, ⟨child, node, some derivation, results, [], rest⟩ :: around, marks, state⟩
        (.alternative child.ref derivation (results.flatMap Walked.values))
  | choices (shape : node.shape = .ambiguous) (some : node.alternatives ≠ #[]) :
      Awaits ⟨room, ⟨child, node, none, results, [], []⟩ :: around, marks, state⟩
        (.choices child.ref node.tag node.alternatives.toList)

section Steps

variable {α σ ο δ ε : Type}

def Visitor.perform (visitor : Visitor σ ο δ ε) : Task ο δ → σ → Except ε σ
  | .complete _ index production values, state => do
    let (state, made) ← visitor.derivation values state
    let (state, _) ← visitor.symbol (.rule index production) made state
    .ok state
  | .alternative _ _ values, state => do
    let (state, _) ← visitor.derivation values state
    .ok state
  | .choices ref tag alternatives, state => do
    let (state, _) ← visitor.choices ref tag alternatives state
    .ok state

/-- A step leads to this state, be it the last step or not. -/
def Traversal.Progress.state {κ β γ ρ : Type} : Progress σ κ β γ ρ ε → Except ε σ
  | .next config => .ok config.state
  | .done outcome => outcome.map Prod.fst

theorem Awaits.perform {config : WalkConfig σ ο δ} {task : Task ο δ} (awaits : Awaits config task)
    (visitor : Visitor σ ο δ ε) (grammar : Grammar α) (chart : Chart) :
    ((visitor.traversal grammar chart).step config).state =
      visitor.perform task config.state := by
  have ascends {room : Nat} {child : WalkChild} {node : WalkNode ο δ} {marks : Marks} {state : σ}
      {results : List (Walked ο)}
      {around : List (Traversal.Frame WalkChild Derivation (WalkNode ο δ) (Walked ο))} :
      ((visitor.traversal grammar chart).step
        ⟨room, ⟨child, node, none, results, [], []⟩ :: around, marks, state⟩).state =
          (visitor.leave child.ref node state).map Prod.fst := by
    simp only [Traversal.step, Traversal.ascend, Visitor.traversal]
    cases visitor.leave child.ref node state with
    | error stop => rfl
    | ok outcome => cases around <;> rfl
  cases awaits with
  | @complete production values _ child node _ _ _ state index shape tag only =>
    simp only [ascends, Visitor.leave, shape, tag, only, Visitor.perform, bind, Except.bind]
    cases visitor.derivation values state with
    | error stop => rfl
    | ok outcome =>
      simp only
      cases visitor.symbol (.rule index production) outcome.2 outcome.1 <;> rfl
  | @alternative _ child node derivation results _ _ _ state shape =>
    simp only [Traversal.step, Visitor.traversal, Visitor.accept, shape, Visitor.perform]
    cases visitor.derivation (results.flatMap Walked.values) state <;> rfl
  | @choices _ child node _ _ _ state shape some =>
    have left : node.alternatives.isEmpty = false := by simpa using some
    simp only [ascends, Visitor.leave, shape, left, Visitor.perform]
    cases visitor.choices child.ref node.tag node.alternatives.toList state <;> rfl

/-- A step without a task does not depend on the visitor, unless it enters a child. -/
theorem step_eq_of_idle {room : Nat}
    {frame : Traversal.Frame WalkChild Derivation (WalkNode ο δ) (Walked ο)}
    {around : List (Traversal.Frame WalkChild Derivation (WalkNode ο δ) (Walked ο))}
    {marks : Marks} {state : σ} (entered : frame.pending = [])
    (idle : ∀ task, ¬ Awaits ⟨room, frame :: around, marks, state⟩ task)
    (visitor other : Visitor σ ο δ ε) (grammar : Grammar α) (chart : Chart) :
    (visitor.traversal grammar chart).step ⟨room, frame :: around, marks, state⟩ =
      (other.traversal grammar chart).step ⟨room, frame :: around, marks, state⟩ := by
  obtain ⟨child, node, current, results, pending, rest⟩ := frame
  obtain rfl : pending = [] := entered
  cases current with
  | some derivation =>
    cases shape : node.shape with
    | ambiguous => exact absurd (.alternative shape) (idle _)
    | intermediate => simp only [Traversal.step, Visitor.traversal, Visitor.accept, shape]
    | complete => simp only [Traversal.step, Visitor.traversal, Visitor.accept, shape]
  | none =>
    cases rest with
    | cons entry rest => rfl
    | nil =>
      have leave : visitor.leave child.ref node state = other.leave child.ref node state := by
        unfold Visitor.leave
        cases shape : node.shape with
        | ambiguous =>
          by_cases empty : node.alternatives = #[]
          · simp [empty]
          · exact absurd (.choices shape empty) (idle _)
        | intermediate => rfl
        | complete =>
          cases tag : node.tag with
          | lexeme offset => rfl
          | dotted position => rfl
          | rule index =>
            cases only : node.only with
            | none => rfl
            | some entry => exact absurd (.complete shape tag only) (idle _)
      simp only [Traversal.step, Traversal.ascend, Visitor.traversal, leave]

end Steps

namespace Reading

variable {α ο δ : Type} (reading : Reading ο δ) (grammar : Grammar α) (chart : Chart)

/-- The task is one of the chart, and what comes with it stands for what the reading says. -/
inductive Justifies : Task ο δ → Prop
  | complete (held : chart.Holds ref (.rule index) start)
      (sole : chart.derivations ref = #[derivation])
      (values : reading.Values chart (grammar.walkChildren (.rule index) derivation) made) :
      Justifies (.complete ref index derivation.production made)
  | alternative (held : chart.Holds ref tag start) (several : 1 < (chart.derivations ref).size)
      (member : derivation ∈ chart.derivations ref)
      (values : reading.Values chart (grammar.walkChildren tag derivation) made) :
      Justifies (.alternative ref derivation made)
  | choices (held : chart.Holds ref tag start) (several : 1 < (chart.derivations ref).size)
      (some : alternatives ≠ [])
      (stand : ∀ made ∈ alternatives, ∃ derivation ∈ chart.derivations ref,
        reading.alternative ref derivation made) :
      Justifies (.choices ref tag alternatives)

variable {reading grammar chart} in
theorem Values.parts (fits : ItemRef → List ο → Prop)
    (node : ∀ child value, reading.node child value → fits child.ref [value])
    (spliced : ∀ ref values, reading.spliced ref values → fits ref values) {tag : Tag}
    {derivation : Derivation} {values : List ο}
    (stand : reading.Values chart (grammar.walkChildren tag derivation) values) :
    ∃ parts, values = parts.flatten ∧ List.Forall₂ fits derivation.children parts := by
  obtain ⟨walked, means, rfl⟩ := stand
  refine ⟨walked.map Walked.values, List.flatMap_def, ?_⟩
  rw [← Chart.refs_walkChildren grammar tag, List.forall₂_map_left_iff, List.forall₂_map_right_iff]
  refine means.imp fun child result means => ?_
  cases result with
  | node value => exact node child value means
  | spliced values => exact spliced child.ref values means.2

/-- What an open node holds stands for derivations of it. -/
structure Kept (ref : ItemRef) (node : WalkNode ο δ) : Prop where
  held : ∃ start, chart.Holds ref node.tag start
  plain : ∀ offset, node.tag ≠ .lexeme offset
  shape : node.shape = if 1 < (chart.derivations ref).size then .ambiguous else node.tag.shape
  only : ∀ production values, node.only = some (production, values) →
    ∃ derivation, chart.derivations ref = #[derivation] ∧ derivation.production = production ∧
      reading.Values chart (grammar.walkChildren node.tag derivation) values
  alternatives : ∀ made ∈ node.alternatives, ∃ derivation ∈ chart.derivations ref,
    reading.alternative ref derivation made

/-- A walk of the forest in which everything stands for what the reading says. -/
def contract {σ ε : Type} (input : Array String) (forest : Forest) (valid : σ → Prop)
    (allowed : ε → Prop) :
    Traversal.Contract σ WalkChild Derivation (WalkNode ο δ) (Walked ο) ε where
  asked child := forest.chart.Asked grammar input child ∧
    ReflTransGen forest.chart.Child forest.root child.ref
  offered child derivation children := derivation ∈ forest.chart.derivations child.ref ∧
    ∃ tag start, forest.chart.Holds child.ref tag start ∧
      children = grammar.walkChildren tag derivation
  held child := reading.Kept grammar forest.chart child.ref
  given := reading.Means forest.chart
  state := valid
  stop := allowed

variable {reading grammar chart} {ref : ItemRef} {node : WalkNode ο δ}

namespace Kept

theorem ambiguous_iff (kept : reading.Kept grammar chart ref node) :
    node.shape = .ambiguous ↔ 1 < (chart.derivations ref).size := by
  rw [kept.shape]
  split
  · exact ⟨fun _ => ‹_›, fun _ => rfl⟩
  · refine ⟨fun same => ?_, fun several => absurd several ‹_›⟩
    cases tag : node.tag <;> simp [tag, Tag.shape] at same

theorem tag_shape (kept : reading.Kept grammar chart ref node)
    (plain : node.shape ≠ .ambiguous) : node.tag.shape = node.shape := by
  have shape := kept.shape
  rw [if_neg fun several => plain (kept.ambiguous_iff.mpr several)] at shape
  exact shape.symm

theorem complete (kept : reading.Kept grammar chart ref node) {index production : Nat}
    {values : List ο} (tag : node.tag = .rule index)
    (only : node.only = some (production, values)) :
    reading.Justifies grammar chart (.complete ref index production values) := by
  obtain ⟨start, held⟩ := kept.held
  obtain ⟨derivation, sole, rfl, stand⟩ := kept.only production values only
  rw [tag] at held stand
  exact .complete held sole stand

theorem choices (kept : reading.Kept grammar chart ref node) (shape : node.shape = .ambiguous)
    (some : node.alternatives ≠ #[]) :
    reading.Justifies grammar chart (.choices ref node.tag node.alternatives.toList) := by
  obtain ⟨start, held⟩ := kept.held
  exact .choices held (kept.ambiguous_iff.mp shape) (by simpa using some)
    fun made member => kept.alternatives made (Array.mem_toList_iff.mp member)

end Kept

end Reading

/-- The visitor makes of every task what the reading says, and keeps the state valid. -/
structure Visitor.Respects {α σ ο δ ε : Type} (visitor : Visitor σ ο δ ε) (grammar : Grammar α)
    (input : Array String) (forest : Forest) (valid : σ → Prop) (allowed : ε → Prop)
    (reading : Reading ο δ) : Prop where
  lexeme : ∀ {ref offset start token lexeme} state,
    forest.chart.Holds ref (.lexeme offset) start → input[offset]? = some lexeme →
    grammar.tokenMatches token lexeme = true → valid state →
    (reading.contract grammar input forest valid allowed).Leads (reading.node ⟨ref, some token⟩)
      (visitor.derivation [] state >>= fun (state, made) =>
        visitor.symbol (.lexeme offset token) made state)
  complete : ∀ {ref index production values} token state,
    reading.Justifies grammar forest.chart (.complete ref index production values) →
    ReflTransGen forest.chart.Child forest.root ref → valid state →
    (reading.contract grammar input forest valid allowed).Leads (reading.node ⟨ref, token⟩)
      (visitor.derivation values state >>= fun (state, made) =>
        visitor.symbol (.rule index production) made state)
  dotted : ∀ {ref position start derivation values},
    forest.chart.Holds ref (.dotted position) start → position.dot ≠ 0 →
    forest.chart.derivations ref = #[derivation] →
    reading.Values forest.chart (grammar.walkChildren (.dotted position) derivation) values →
    reading.spliced ref values
  alternative : ∀ {ref derivation values} state,
    reading.Justifies grammar forest.chart (.alternative ref derivation values) → valid state →
    (reading.contract grammar input forest valid allowed).Leads
      (reading.alternative ref derivation) (visitor.derivation values state)
  choices : ∀ {ref tag alternatives} token state,
    reading.Justifies grammar forest.chart (.choices ref tag alternatives) → valid state →
    (reading.contract grammar input forest valid allowed).Leads (reading.node ⟨ref, token⟩)
      (visitor.choices ref tag alternatives state)

namespace Visitor.Respects

variable {α σ ο δ ε : Type} {visitor : Visitor σ ο δ ε} {grammar : Grammar α}
  {input : Array String} {forest : Forest} {valid : σ → Prop} {allowed : ε → Prop}
  {reading : Reading ο δ}

private theorem values_of_given {child : WalkChild} {node : WalkNode ο δ}
    (kept : reading.Kept grammar forest.chart child.ref node) {derivation : Derivation}
    {children : List WalkChild} {results : List (Walked ο)}
    (offered : (reading.contract grammar input forest valid allowed).offered child derivation
      children)
    (given : List.Forall₂ (reading.Means forest.chart) children results) :
    reading.Values forest.chart (grammar.walkChildren node.tag derivation)
      (results.flatMap Walked.values) := by
  obtain ⟨-, tag, start, held, rfl⟩ := offered
  obtain ⟨first, held'⟩ := kept.held
  obtain ⟨rfl, -⟩ := held.unique held'
  exact ⟨results, given, rfl⟩

private theorem justifies_alternative {child : WalkChild} {node : WalkNode ο δ}
    (kept : reading.Kept grammar forest.chart child.ref node) {derivation : Derivation}
    {children : List WalkChild} {results : List (Walked ο)}
    (offered : (reading.contract grammar input forest valid allowed).offered child derivation
      children)
    (given : List.Forall₂ (reading.Means forest.chart) children results)
    (shape : node.shape = .ambiguous) : reading.Justifies grammar forest.chart
      (.alternative child.ref derivation (results.flatMap Walked.values)) := by
  obtain ⟨start, held⟩ := kept.held
  have values := values_of_given kept offered given
  exact .alternative held (kept.ambiguous_iff.mp shape) offered.1 values

variable (respects : visitor.Respects grammar input forest valid allowed reading)
include respects

private theorem enter (sound : forest.chart.Sound grammar input) {child : WalkChild} {state : σ}
    (asked : (reading.contract grammar input forest valid allowed).asked child)
    (held : valid state) :
    (reading.contract grammar input forest valid allowed).Leads
      ((reading.contract grammar input forest valid allowed).Arrives child)
      (visitor.enter grammar forest.chart child state) := by
  obtain ⟨⟨advanced, token⟩, -⟩ := asked
  obtain ⟨tag, start, ⟨item, found, rfl, rfl⟩, advanced⟩ := advanced
  have present : forest.chart.Holds child.ref item.tag item.start := ⟨item, found, rfl, rfl⟩
  have same := Chart.derivations_of_item found
  by_cases lexeme : ∃ offset, item.tag = .lexeme offset
  · obtain ⟨offset, tagged⟩ := lexeme
    rw [tagged] at present
    obtain ⟨token, text, named, read, matched⟩ := token present
    rw [enter_lexeme visitor grammar found tagged named]
    refine (respects.lexeme state present read matched held).bind ?_
    intro outcome stands
    rw [← named] at stands
    refine ⟨stands.1, ?_⟩
    rintro result ⟨⟩
    exact stands.2
  · have plain : ∀ offset, item.tag ≠ .lexeme offset := fun offset tagged =>
      lexeme ⟨offset, tagged⟩
    have several : item.derivations ≠ #[] := fun bare =>
      lexeme (sound.lexeme_of_bare present advanced (same.trans bare))
    rw [enter_opened visitor grammar found plain several]
    refine ⟨held, ⟨⟨_, present⟩, plain, ?_, by simp, by simp⟩, ?_⟩
    · rw [same]
      exact item.shape_eq
    · intro entry listed
      obtain ⟨derivation, member, rfl⟩ := List.mem_map.mp listed
      rw [Array.mem_toList_iff, ← same] at member
      exact ⟨member, _, _, present, rfl⟩

private theorem accept {child : WalkChild} {node : WalkNode ο δ} {derivation : Derivation}
    {children : List WalkChild} {results : List (Walked ο)} {state : σ}
    (kept : reading.Kept grammar forest.chart child.ref node)
    (offered : (reading.contract grammar input forest valid allowed).offered child derivation
      children)
    (given : List.Forall₂ (reading.Means forest.chart) children results) (held : valid state) :
    (reading.contract grammar input forest valid allowed).Leads
      (reading.Kept grammar forest.chart child.ref)
      (visitor.accept node derivation results state) := by
  have values := values_of_given kept offered given
  have sole (plain : node.shape ≠ .ambiguous) :
      (reading.contract grammar input forest valid allowed).Leads
        (reading.Kept grammar forest.chart child.ref)
        (.ok (state, { node with
          only := some (derivation.production, results.flatMap Walked.values) })) := by
    refine ⟨held, kept.held, kept.plain, kept.shape, ?_, kept.alternatives⟩
    rintro production made ⟨⟩
    have sole := Chart.sole_of_mem offered.1 (mt kept.ambiguous_iff.mpr plain)
    exact ⟨derivation, sole, rfl, values⟩
  unfold Visitor.accept
  split
  · rename_i shape
    have justified := justifies_alternative kept offered given shape
    refine (respects.alternative state justified held).bind ?_
    intro outcome stands
    refine ⟨stands.1, kept.held, kept.plain, kept.shape, kept.only, ?_⟩
    intro made member
    rcases Array.mem_push.mp member with before | rfl
    · exact kept.alternatives made before
    · exact ⟨derivation, offered.1, stands.2⟩
  · rename_i plain
    exact sole plain

private theorem leave {child : WalkChild} {node : WalkNode ο δ} {state : σ}
    (asked : (reading.contract grammar input forest valid allowed).asked child)
    (kept : reading.Kept grammar forest.chart child.ref node) (held : valid state) :
    (reading.contract grammar input forest valid allowed).Leads
      ((reading.contract grammar input forest valid allowed).Gives child)
      (visitor.leave child.ref node state) := by
  have node_given {computation : Except ε (σ × ο)}
      (leads : (reading.contract grammar input forest valid allowed).Leads (reading.node child)
        computation) :
      (reading.contract grammar input forest valid allowed).Leads
        ((reading.contract grammar input forest valid allowed).Gives child)
        (computation >>= fun (state, value) => .ok (state, some (.node value))) := by
    refine leads.bind fun outcome stands => ⟨stands.1, ?_⟩
    rintro result ⟨⟩
    exact stands.2
  unfold Visitor.leave
  cases shape : node.shape with
  | ambiguous =>
    by_cases empty : node.alternatives = #[]
    · simp only [empty, Array.isEmpty_empty, if_true]
      exact ⟨held, nofun⟩
    · have left : node.alternatives.isEmpty = false := by simpa using empty
      simp only [left, Bool.false_eq_true, if_false]
      exact node_given (respects.choices child.token state (kept.choices shape empty) held)
  | intermediate =>
    refine ⟨held, ?_⟩
    rintro result given
    obtain ⟨⟨production, values⟩, only, rfl⟩ := Option.map_eq_some_iff.mp given
    have tagged := kept.tag_shape (by simp [shape])
    obtain ⟨start, present⟩ := kept.held
    obtain ⟨derivation, sole, -, stand⟩ := kept.only production values only
    cases tag : node.tag with
    | lexeme offset => exact absurd tag (kept.plain offset)
    | rule index => simp [tag, Tag.shape, shape] at tagged
    | dotted position =>
      rw [tag] at present stand
      obtain ⟨other, first, present', advanced⟩ := asked.1.advanced
      obtain ⟨rfl, -⟩ := present.unique present'
      exact ⟨⟨position, start, present⟩, respects.dotted present advanced sole stand⟩
  | complete =>
    cases tag : node.tag with
    | lexeme offset => exact absurd tag (kept.plain offset)
    | dotted position => exact ⟨held, nofun⟩
    | rule index =>
      cases only : node.only with
      | none => exact ⟨held, nofun⟩
      | some entry =>
        have completed := node_given
          (respects.complete child.token state (kept.complete tag only) asked.2 held)
        rwa [bind_assoc] at completed

/-- A visitor that respects a reading walks as the reading says, step by step. -/
theorem keeps (sound : forest.chart.Sound grammar input) :
    (visitor.traversal grammar forest.chart).Keeps
      (reading.contract grammar input forest valid allowed) where
  children asked offered other listed := by
    obtain ⟨member, tag, start, held, rfl⟩ := offered
    exact ⟨(sound.derived held member).asked other listed,
      asked.2.tail (Chart.child_of_walkChildren member listed)⟩
  enter asked held := respects.enter sound asked held
  accept _ kept offered given held := respects.accept kept offered given held
  leave asked kept held := respects.leave asked kept held

end Visitor.Respects

namespace Forest

variable {α σ ο δ ε : Type} {grammar : Grammar α} {input : Array String} {forest : Forest}
  {visitor : Visitor σ ο δ ε} {valid : σ → Prop} {allowed : ε → Prop} {reading : Reading ο δ}

def Walks (forest : Forest) (grammar : Grammar α) (visitor : Visitor σ ο δ ε) (state : σ)
    (config : WalkConfig σ ο δ) : Prop :=
  (visitor.traversal grammar forest.chart).Reaches forest.chart.marks ⟨forest.root, none⟩ state
    forest.itemCount config

theorem asked_root (valid : σ → Prop) (allowed : ε → Prop) (reading : Reading ο δ)
    {index start : Nat} (root : forest.chart.Holds forest.root (.rule index) start) :
    (reading.contract grammar input forest valid allowed).asked ⟨forest.root, none⟩ := by
  refine ⟨⟨⟨_, _, root, trivial⟩, ?_⟩, .refl⟩
  intro offset first held
  cases (held.unique root).1

theorem Walks.justifies (sound : forest.chart.Sound grammar input)
    (respects : visitor.Respects grammar input forest valid allowed reading) {index start : Nat}
    (root : forest.chart.Holds forest.root (.rule index) start) {state : σ} (held : valid state)
    {config : WalkConfig σ ο δ} (walks : forest.Walks grammar visitor state config)
    {task : Task ο δ} (awaits : Awaits config task) :
    reading.Justifies grammar forest.chart task := by
  obtain ⟨-, nested⟩ :=
    (respects.keeps sound).reaches (asked_root valid allowed reading root) held walks
  cases awaits with
  | complete shape tag only => exact nested.1.held.complete tag only
  | choices shape some => exact nested.1.held.choices shape some
  | alternative shape =>
    obtain ⟨visited, offered, given⟩ := nested.1.current _ rfl
    rw [List.append_nil, List.append_nil] at offered
    exact Visitor.Respects.justifies_alternative nested.1.held offered given shape

/-- A walk ends with a valid state and a value that stands for the root, unless it breaks off. -/
theorem walk_respects (sound : forest.chart.Sound grammar input)
    (respects : visitor.Respects grammar input forest valid allowed reading) {index start : Nat}
    (root : forest.chart.Holds forest.root (.rule index) start) (state : σ) (held : valid state) :
    (∃ stop, forest.walk grammar visitor state = .error stop ∧ allowed stop) ∨
      ∃ next value, forest.walk grammar visitor state = .ok (next, some value) ∧ valid next ∧
        reading.node ⟨forest.root, none⟩ value := by
  have kept := (respects.keeps sound).traverse forest.itemCount forest.chart.marks state
    (asked_root valid allowed reading root) held
  have success := walk_spec sound root
    (visitor.follows_raises grammar input forest.chart) state
  unfold walk at success ⊢
  generalize (visitor.traversal grammar forest.chart).traverse forest.itemCount
    forest.chart.marks ⟨forest.root, none⟩ state = searched at kept success ⊢
  obtain stop | ⟨next, none | walked⟩ := searched
  · exact .inl ⟨stop, rfl, kept⟩
  · obtain ⟨stop, walked, -⟩ | ⟨next, value, walked, -⟩ := success <;> cases walked
  · obtain ⟨after, gives⟩ := kept
    cases walked with
    | node value => exact .inr ⟨next, value, rfl, after, gives _ rfl⟩
    | spliced values =>
      obtain ⟨stop, walked, -⟩ | ⟨next, value, walked, -⟩ := success <;> cases walked

end Forest

end ChartParser
