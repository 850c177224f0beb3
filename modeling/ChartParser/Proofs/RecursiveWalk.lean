import ChartParser.Proofs.Forest.Walk
import ChartParser.Proofs.Traversal.Free

namespace ChartParser

theorem bind_eq_ok {ε ρ υ : Type} {computation : Except ε ρ} {next : ρ → Except ε υ}
    {result : υ} : computation >>= next = .ok result ↔
      ∃ made, computation = .ok made ∧ next made = .ok result := by
  cases computation with
  | error stop => exact ⟨nofun, nofun⟩
  | ok made => exact ⟨fun same => ⟨made, rfl, same⟩, fun ⟨_, rfl, same⟩ => same⟩

namespace Visitor

section Recursion

variable {α σ ο δ ε : Type} (visitor : Visitor σ ο δ ε)

def completeNode (node : SymbolNode) (values : List ο) (state : σ) :
    Except ε (σ × Option (Walked ο)) := do
  let (state, derivation) ← visitor.derivation values state
  let (state, value) ← visitor.symbol node derivation state
  .ok (state, some (.node value))

/-- Finishes a node that has one derivation. The values of the symbols before a dot are only passed
on, and a rule is completed. -/
def finishNode (tag : Tag) (production : Nat) (values : List ο) (state : σ) :
    Except ε (σ × Option (Walked ο)) :=
  match tag with
  | .dotted _ => .ok (state, some (.spliced values))
  | .rule index => visitor.completeNode (.rule index production) values state
  | .lexeme _ => .ok (state, none)

def chooseNode (ref : ItemRef) (tag : Tag) (alternatives : List δ) (state : σ) :
    Except ε (σ × Option (Walked ο)) :=
  if alternatives.isEmpty then .ok (state, none)
  else do
    let (state, value) ← visitor.choices ref tag alternatives state
    .ok (state, some (.node value))

/-- Walks children from left to right, up to one that fails, and joins the values they give. -/
def walkSequence (walk : WalkChild → σ → Except ε (σ × Option (Walked ο))) :
    List WalkChild → σ → Except ε (σ × Option (List ο))
  | [], state => .ok (state, some [])
  | child :: children, state => do
    let (state, walked) ← walk child state
    match walked with
    | none => .ok (state, none)
    | some walked =>
      let (state, values) ← walkSequence walk children state
      .ok (state, values.map (walked.values ++ ·))

/-- Walks derivations in order, and makes an alternative of each that does not fail. -/
def walkAlternatives (walk : WalkChild → σ → Except ε (σ × Option (Walked ο))) :
    List (List WalkChild) → σ → Except ε (σ × List δ)
  | [], state => .ok (state, [])
  | children :: rest, state => do
    let (state, values) ← walkSequence walk children state
    match values with
    | none => walkAlternatives walk rest state
    | some values =>
      let (state, alternative) ← visitor.derivation values state
      let (state, alternatives) ← walkAlternatives walk rest state
      .ok (state, alternative :: alternatives)

/-- Walks the derivations of a node. If there is none, the symbols before a dot have no values, and
a rule fails. A single derivation makes the node fail with it, and several make it ambiguous. -/
def walkDerivations (grammar : Grammar α)
    (walk : WalkChild → σ → Except ε (σ × Option (Walked ο))) (ref : ItemRef) (tag : Tag) :
    List Derivation → σ → Except ε (σ × Option (Walked ο))
  | [], state =>
    match tag with
    | .dotted _ => .ok (state, some (.spliced []))
    | _ => .ok (state, none)
  | [derivation], state => do
    let (state, values) ← walkSequence walk (grammar.walkChildren tag derivation) state
    match values with
    | none => .ok (state, none)
    | some values => visitor.finishNode tag derivation.production values state
  | derivations, state => do
    let (state, alternatives) ←
      visitor.walkAlternatives walk (derivations.map (grammar.walkChildren tag)) state
    visitor.chooseNode ref tag alternatives state

/-- Walks a node by recursion. A node that is being walked is not free, and gives nothing. A lexeme
is completed if a token is given for it. -/
def walkNode (grammar : Grammar α) (chart : Chart) (active : Marks) (child : WalkChild)
    (state : σ) : Except ε (σ × Option (Walked ο)) :=
  if active.isFree child.ref then
    match chart.item? child.ref with
    | none => .ok (state, none)
    | some item =>
      match item.tag, child.token with
      | .lexeme _, none => .ok (state, none)
      | .lexeme offset, some token => visitor.completeNode (.lexeme offset token) [] state
      | tag, _ => visitor.walkDerivations grammar
          (walkNode grammar chart (active.insert child.ref)) child.ref tag item.derivations.toList
          state
  else .ok (state, none)
termination_by active.freeCount
decreasing_by exact Marks.freeCount_insert_lt ‹_›

/-- Walking children in a row, what they give is joined at once or in the end. -/
theorem walkSequence_eq (walk : WalkChild → σ → Except ε (σ × Option (Walked ο)))
    (children : List WalkChild) (state : σ) : walkSequence walk children state =
      Traversal.visitChildren walk children state >>= fun (state, results) =>
        .ok (state, results.map (·.flatMap Walked.values)) := by
  induction children generalizing state with
  | nil => rfl
  | cons child children ih =>
    simp only [walkSequence, Traversal.visitChildren, bind_assoc]
    congr 1
    funext outcome
    obtain ⟨state, none | walked⟩ := outcome
    · rfl
    · simp only [ih, bind_assoc]
      congr 1
      funext outcome
      obtain ⟨state, results⟩ := outcome
      cases results <;> rfl

theorem visitAlternatives_ambiguous (grammar : Grammar α) (chart : Chart)
    (walk : WalkChild → σ → Except ε (σ × Option (Walked ο))) (child : WalkChild) (tag : Tag)
    (derivations : List Derivation) (made : Array δ) (state : σ) :
    (visitor.traversal grammar chart).visitAlternatives walk child
        (derivations.map fun derivation => (derivation, grammar.walkChildren tag derivation))
        ⟨tag, .ambiguous, none, made⟩ state =
      visitor.walkAlternatives walk (derivations.map (grammar.walkChildren tag)) state >>=
        fun (state, alternatives) =>
          .ok (state, ⟨tag, .ambiguous, none, made ++ alternatives.toArray⟩) := by
  induction derivations generalizing made state with
  | nil =>
    change Except.ok _ = Except.ok (state, WalkNode.mk tag .ambiguous none (made ++ #[]))
    rw [Array.append_empty]
  | cons derivation derivations ih =>
    have accepted (values : List (Walked ο)) (state : σ) :
        (visitor.traversal grammar chart).accept child ⟨tag, .ambiguous, none, made⟩ derivation
          values state = visitor.accept ⟨tag, .ambiguous, none, made⟩ derivation values state := rfl
    simp only [List.map_cons, Traversal.visitAlternatives, walkAlternatives, walkSequence_eq,
      accepted, accept, bind, Except.bind] at ih ⊢
    cases Traversal.visitChildren walk (grammar.walkChildren tag derivation) state with
    | error stop => rfl
    | ok outcome =>
      obtain ⟨state, none | results⟩ := outcome
      · exact ih made state
      · simp only [Option.map_some]
        cases visitor.derivation (results.flatMap Walked.values) state with
        | error stop => rfl
        | ok outcome =>
          simp only [ih]
          cases visitor.walkAlternatives walk (derivations.map (grammar.walkChildren tag))
            outcome.1 with
          | error stop => rfl
          | ok alternatives => simp

theorem visitAlternatives_sole (grammar : Grammar α) (chart : Chart)
    (walk : WalkChild → σ → Except ε (σ × Option (Walked ο))) (child : WalkChild) (tag : Tag)
    (derivation : Derivation) (state : σ) :
    ((visitor.traversal grammar chart).visitAlternatives walk child
        [(derivation, grammar.walkChildren tag derivation)] ⟨tag, tag.shape, none, #[]⟩ state >>=
          fun (state, held) => visitor.leave child.ref held state) =
      walkSequence walk (grammar.walkChildren tag derivation) state >>= fun (state, values) =>
        match values with
        | none => .ok (state, none)
        | some values => visitor.finishNode tag derivation.production values state := by
  simp only [Traversal.visitAlternatives, walkSequence_eq, bind_assoc]
  congr 1
  funext outcome
  obtain ⟨state, none | results⟩ := outcome
  · cases tag <;> rfl
  · cases tag <;> rfl

private theorem opened_eq (grammar : Grammar α) (chart : Chart)
    (walk : WalkChild → σ → Except ε (σ × Option (Walked ο))) (child : WalkChild) {item : Item}
    (derived : item.derivations ≠ #[]) (state : σ) :
    ((visitor.traversal grammar chart).visitAlternatives walk child
        (item.derivations.toList.map fun derivation =>
          (derivation, grammar.walkChildren item.tag derivation))
        ⟨item.tag, item.shape, none, #[]⟩ state >>=
          fun (state, held) => visitor.leave child.ref held state) =
      visitor.walkDerivations grammar walk child.ref item.tag item.derivations.toList state := by
  rw [item.shape_eq, ← Array.length_toList]
  cases listed : item.derivations.toList with
  | nil => exact absurd (Array.toList_eq_nil_iff.mp listed) derived
  | cons derivation derivations =>
    cases derivations with
    | nil => exact visitor.visitAlternatives_sole grammar chart walk child item.tag derivation state
    | cons second derivations =>
      rw [if_pos (by simp), visitAlternatives_ambiguous, bind_assoc]
      simp only [walkDerivations]
      congr 1
      funext outcome
      obtain ⟨state, alternatives⟩ := outcome
      change visitor.leave child.ref ⟨item.tag, .ambiguous, none, #[] ++ alternatives.toArray⟩
        state = _
      rw [Array.empty_append]
      simp [leave, chooseNode]

/-- The search by recursion that walks a chart does at every node what is said for it. -/
theorem recurse_eq_walkNode (grammar : Grammar α) (chart : Chart) (active : Marks)
    (child : WalkChild) (state : σ) : (visitor.traversal grammar chart).recurse active child state =
      visitor.walkNode grammar chart active child state := by
  rw [walkNode]
  by_cases free : active.isFree child.ref = true
  · have inner : (visitor.traversal grammar chart).recurse (active.insert child.ref) =
        visitor.walkNode grammar chart (active.insert child.ref) := by
      funext other state
      exact recurse_eq_walkNode grammar chart (active.insert child.ref) other state
    rw [Traversal.recurse_free free, if_pos free, ← inner]
    change (visitor.enter grammar chart child state >>= _) = _
    cases found : chart.item? child.ref with
    | none => simp only [enter, found]; rfl
    | some item =>
      by_cases lexeme : ∃ offset, item.tag = .lexeme offset
      · obtain ⟨offset, tagged⟩ := lexeme
        cases named : child.token with
        | none => simp only [enter, found, tagged, named]; rfl
        | some token =>
          rw [visitor.enter_lexeme grammar found tagged named]
          simp only [tagged, completeNode, bind_assoc]
          rfl
      · have plain : ∀ offset, item.tag ≠ .lexeme offset := fun offset same => lexeme ⟨offset, same⟩
        by_cases bare : item.derivations = #[]
        · have shape : item.shape = item.tag.shape := by simp [item.shape_eq, bare]
          cases tagged : item.tag with
          | lexeme offset => exact absurd tagged (plain offset)
          | dotted position => simp only [enter, found, tagged, shape, bare]; rfl
          | rule index => simp only [enter, found, tagged, shape, bare]; rfl
        · rw [visitor.enter_opened grammar found plain bare]
          refine (visitor.opened_eq grammar chart _ child bare state).trans ?_
          cases tagged : item.tag with
          | lexeme offset => exact absurd tagged (plain offset)
          | dotted position => simp only [tagged]; rfl
          | rule index => simp only [tagged]; rfl
  · exact (Traversal.recurse_not_free free state).trans (if_neg free).symm
termination_by active.freeCount
decreasing_by exact Marks.freeCount_insert_lt free

theorem enter_absent (grammar : Grammar α) {chart : Chart} {child : WalkChild} {state : σ}
    (missing : chart.marks.flag? child.ref = none) :
    visitor.enter grammar chart child state = .ok (state, .closed none) := by
  rw [Chart.flag_marks, Option.map_eq_none_iff] at missing
  simp only [enter, missing]

end Recursion

section Inversion

variable {α σ ο δ ε : Type} {visitor : Visitor σ ο δ ε} {grammar : Grammar α} {chart : Chart}
  {active : Marks} {child : WalkChild} {state next : σ} {walked : Walked ο}

theorem walkSequence_inv {walk : WalkChild → σ → Except ε (σ × Option (Walked ο))}
    {children : List WalkChild} {ref : ItemRef} {nodes : List ItemRef} {values : List ο}
    (refs : children.map WalkChild.ref = ref :: nodes)
    (walks : walkSequence walk children state = .ok (next, some values)) :
    ∃ child rest middle walked others, child.ref = ref ∧ rest.map WalkChild.ref = nodes ∧
      walk child state = .ok (middle, some walked) ∧
      walkSequence walk rest middle = .ok (next, some others) ∧
      values = walked.values ++ others := by
  obtain ⟨child, rest, rfl, same, below⟩ := List.map_eq_cons_iff.mp refs
  obtain ⟨⟨middle, result⟩, first, walks⟩ := bind_eq_ok.mp walks
  cases result with
  | none => cases walks
  | some walked =>
    obtain ⟨⟨after, others⟩, later, joined⟩ := bind_eq_ok.mp walks
    simp only [Except.ok.injEq, Prod.mk.injEq, Option.map_eq_some_iff] at joined
    obtain ⟨rfl, others, rfl, rfl⟩ := joined
    exact ⟨child, rest, middle, walked, others, same, below, first, later, rfl⟩

theorem completeNode_inv {node : SymbolNode} {values : List ο}
    (completed : visitor.completeNode node values state = .ok (next, some walked)) :
    ∃ middle made value, visitor.derivation values state = .ok (middle, made) ∧
      visitor.symbol node made middle = .ok (next, value) ∧ walked = .node value := by
  obtain ⟨⟨middle, made⟩, derived, completed⟩ := bind_eq_ok.mp completed
  obtain ⟨⟨after, value⟩, given, same⟩ := bind_eq_ok.mp completed
  cases same
  exact ⟨middle, made, value, derived, given, rfl⟩

section Node

variable {tag : Tag} {start : Nat} (held : chart.Holds child.ref tag start)
  (walks : visitor.walkNode grammar chart active child state = .ok (next, some walked))
include held walks

theorem walkNode_lexeme {offset : Nat} (lexeme : tag = .lexeme offset) : ∃ token,
    visitor.completeNode (.lexeme offset token) [] state = .ok (next, some walked) := by
  obtain ⟨item, found, rfl, -⟩ := held
  rw [walkNode] at walks
  split at walks
  · simp only [found, lexeme] at walks
    cases named : child.token with
    | none => simp [named] at walks
    | some token =>
      simp only [named] at walks
      exact ⟨token, walks⟩
  · cases walks

theorem walkNode_opened (plain : ∀ offset, tag ≠ .lexeme offset) :
    visitor.walkDerivations grammar
      (visitor.walkNode grammar chart (active.insert child.ref)) child.ref tag
      (chart.derivations child.ref).toList state = .ok (next, some walked) := by
  obtain ⟨item, found, rfl, -⟩ := held
  have same := Chart.derivations_of_item found
  rw [walkNode] at walks
  split at walks
  · simp only [found] at walks
    rw [same]
    cases tagged : item.tag with
    | lexeme offset => exact absurd tagged (plain offset)
    | dotted position => simpa only [tagged] using walks
    | rule index => simpa only [tagged] using walks
  · cases walks

/-- A node with one derivation that is walked is finished with the values of its children. -/
theorem walkNode_sole (plain : ∀ offset, tag ≠ .lexeme offset) {derivation : Derivation}
    (sole : chart.derivations child.ref = #[derivation]) : ∃ middle values,
      walkSequence (visitor.walkNode grammar chart (active.insert child.ref))
        (grammar.walkChildren tag derivation) state = .ok (middle, some values) ∧
      visitor.finishNode tag derivation.production values middle = .ok (next, some walked) := by
  have walks := walkNode_opened held walks plain
  rw [sole] at walks
  obtain ⟨⟨middle, result⟩, inner, finished⟩ := bind_eq_ok.mp walks
  cases result with
  | none => cases finished
  | some values => exact ⟨middle, values, inner, finished⟩

theorem walkNode_several (plain : ∀ offset, tag ≠ .lexeme offset)
    (several : 1 < (chart.derivations child.ref).size) : ∃ middle alternatives value,
      visitor.choices child.ref tag alternatives middle = .ok (next, value) ∧
      walked = .node value := by
  have walks := walkNode_opened held walks plain
  rw [← Array.length_toList] at several
  match listed : (chart.derivations child.ref).toList, several with
  | _ :: _ :: _, _ =>
    rw [listed] at walks
    obtain ⟨⟨middle, alternatives⟩, -, chosen⟩ := bind_eq_ok.mp walks
    simp only [chooseNode] at chosen
    split at chosen
    · cases chosen
    · obtain ⟨⟨after, value⟩, chosen', same⟩ := bind_eq_ok.mp chosen
      cases same
      exact ⟨middle, alternatives, value, chosen', rfl⟩

end Node

end Inversion

end Visitor

namespace Forest

variable {α σ ο δ ε : Type}

theorem traverse_eq_walkNode (forest : Forest) (grammar : Grammar α) (visitor : Visitor σ ο δ ε)
    (child : WalkChild) (state : σ) :
    (visitor.traversal grammar forest.chart).traverse forest.itemCount forest.chart.marks child
      state = visitor.walkNode grammar forest.chart forest.chart.marks child state := by
  rw [← visitor.recurse_eq_walkNode]
  exact Traversal.traverse_eq_recurse (visitor.marking grammar forest.chart)
    Chart.contains_marks (Traversal.keeps_nothing _) (fun _ => visitor.enter_absent grammar)
    (Nat.le_of_eq Chart.freeCount_marks) trivial trivial trivial

end Forest

end ChartParser
