import ChartParser.Forest.Walk
import ChartParser.Proofs.Forest.Resolve

/-! What a walk gives follows from what the visitor makes of single nodes. Nodes that come up below
themselves are left out, but always so that the root can be walked. -/
namespace ChartParser

/-- The computation breaks off for an allowed reason, or gives a result as expected. -/
def Yields {σ ρ ε : Type} (allowed : ε → Prop) (expected : ρ → Prop) : Except ε (σ × ρ) → Prop
  | .error stop => allowed stop
  | .ok (_, result) => expected result

section Yields

variable {σ ρ υ ε : Type} {allowed : ε → Prop} {expected wanted : ρ → Prop}
  {computation : Except ε (σ × ρ)}

theorem Yields.mono (yields : Yields allowed expected computation)
    (weaker : ∀ result, expected result → wanted result) : Yields allowed wanted computation := by
  cases computation with
  | error stop => exact yields
  | ok outcome => exact weaker _ yields

theorem Yields.bind {next : σ × ρ → Except ε (σ × υ)} {further : υ → Prop}
    (yields : Yields allowed expected computation)
    (rest : ∀ state result, expected result → Yields allowed further (next (state, result))) :
    Yields allowed further (computation >>= next) := by
  cases computation with
  | error stop => exact yields
  | ok outcome => exact rest outcome.1 outcome.2 yields

end Yields

def Tag.shape : Tag → Shape
  | .dotted _ => .intermediate
  | _ => .complete

theorem Item.shape_eq (item : Item) : item.shape =
    if 1 < item.derivations.size then .ambiguous else item.tag.shape := by
  cases tag : item.tag <;> simp [shape, Tag.shape, tag]

namespace Chart

open Relation Resolution

variable {α : Type} {grammar : Grammar α} {input : Array String} {chart : Chart}
  {path : List ItemRef} {ref child : ItemRef}

/-- The node can be unfolded without the nodes on the path. -/
def Clear (chart : Chart) (path : List ItemRef) (ref : ItemRef) : Prop :=
  ∃ rank, Resolvable chart ⟨chart, chart.marks, 0⟩ path rank ref

theorem Clear.not_mem (clear : chart.Clear path ref) : ref ∉ path := by
  obtain ⟨rank, resolvable⟩ := clear
  cases resolvable with
  | done done =>
    rw [contains_marks] at done
    cases done
  | leaf aside => exact aside
  | node aside => exact aside

/-- Some derivation of the node can be unfolded without the node itself. -/
theorem Clear.descend (clear : chart.Clear path ref) (several : chart.derivations ref ≠ #[]) :
    ∃ derivation ∈ chart.derivations ref, ∀ child ∈ derivation.children,
      chart.Clear (ref :: path) child := by
  obtain ⟨rank, resolvable⟩ := clear
  exact resolvable.descend (contains_marks ref) several

theorem Sound.clear (sound : chart.Sound grammar input) {tag : Tag} {start : Nat}
    (held : chart.Holds ref tag start) (advanced : tag.Advanced) : chart.Clear [] ref := by
  obtain ⟨trees, unfolds⟩ := sound.grounded held advanced
  obtain ⟨rank, resolvable⟩ :=
    resolvable_of_unfolds sound ⟨chart, chart.marks, 0⟩ [] unfolds (by simp)
  exact ⟨rank, resolvable ref (List.mem_singleton_self ref)⟩

/-- The child has matched something, and if it is a lexeme, it is asked for with a token that it
matches. -/
structure Asked {α : Type} (chart : Chart) (grammar : Grammar α) (input : Array String)
    (child : WalkChild) : Prop where
  advanced : ∃ tag start, chart.Holds child.ref tag start ∧ tag.Advanced
  token : ∀ {offset start}, chart.Holds child.ref (.lexeme offset) start →
    ∃ token lexeme, child.token = some token ∧ input[offset]? = some lexeme ∧
      grammar.tokenMatches token lexeme = true

theorem refs_walkChildren (grammar : Grammar α) (tag : Tag) (derivation : Derivation) :
    (grammar.walkChildren tag derivation).map WalkChild.ref = derivation.children := by
  simp [Grammar.walkChildren, Derivation.children, Function.comp_def]

theorem child_of_walkChildren {tag : Tag} {derivation : Derivation}
    (member : derivation ∈ chart.derivations ref) {child : WalkChild}
    (listed : child ∈ grammar.walkChildren tag derivation) : chart.Child ref child.ref := by
  refine ⟨derivation, member, ?_⟩
  rw [← refs_walkChildren grammar tag]
  exact List.mem_map_of_mem listed

theorem below_cons (below : ∀ node ∈ path, TransGen chart.Child node ref)
    (step : chart.Child ref child) : ∀ node ∈ ref :: path, TransGen chart.Child node child := by
  intro node active
  rcases List.mem_cons.mp active with rfl | active
  · exact .single step
  · exact (below node active).tail step

theorem walkChildren_tagBehind (grammar : Grammar α) (position : Position)
    (part : Option ItemRef) (completed : ItemRef) :
    grammar.walkChildren (grammar.tagBehind position) ⟨part, some completed, position.production⟩ =
      part.toList.map (⟨·, grammar.tokenAt position.production 0⟩) ++
        [⟨completed, grammar.tokenAt position.production position.dot⟩] := by
  obtain ⟨last, tag⟩ | ⟨-, tag⟩ := tagBehind_cases grammar position
  · simp [Grammar.walkChildren, tag, ← last]
  · simp [Grammar.walkChildren, tag]

theorem Covers.asked {symbol : Symbol} {start production place : Nat}
    (covers : chart.Covers grammar input ref symbol start)
    (here : (grammar.symbols production)[place]? = some symbol) :
    chart.Asked grammar input ⟨ref, grammar.tokenAt production place⟩ := by
  obtain ⟨tag, held, advanced⟩ := Sound.advanced_of_covers covers
  refine ⟨⟨tag, start, held, advanced⟩, ?_⟩
  intro offset first held
  cases covers with
  | rule held' => cases (held'.unique held).1
  | @token start' lexeme index held' next read matched =>
    obtain ⟨tags, -⟩ := held'.unique held
    cases tags
    exact ⟨index, lexeme, by simp [Grammar.tokenAt, here], read, matched⟩

theorem Splits.asked {tag : Tag} {start stop : Nat} {derivation : Derivation}
    (split : chart.Splits grammar input tag start stop derivation) :
    ∀ child ∈ grammar.walkChildren tag derivation, chart.Asked grammar input child := by
  cases split with
  | empty => simp [Grammar.walkChildren]
  | @step waiting position start symbol completed part held next covers left =>
    rw [walkChildren_tagBehind]
    intro child listed
    rcases List.mem_append.mp listed with before | last
    · cases left with
      | nothing => simp at before
      | first dot opening opens =>
        obtain rfl := List.mem_singleton.mp before
        exact opens.asked opening
      | waiting dot =>
        obtain rfl := List.mem_singleton.mp before
        refine ⟨⟨_, _, held, Nat.ne_of_gt (Nat.lt_of_lt_of_le Nat.two_pos dot)⟩, ?_⟩
        intro offset first held'
        cases (held.unique held').1
    · obtain rfl := List.mem_singleton.mp last
      exact covers.asked next

end Chart

/-- What the values that a visitor makes stand for: those of nodes, the lists of those of the
children of an intermediate node, and those of single derivations of an ambiguous one. -/
structure Reading (ο δ : Type) where
  node : WalkChild → ο → Prop
  spliced : ItemRef → List ο → Prop
  alternative : ItemRef → Derivation → δ → Prop

namespace Reading

variable {ο δ : Type} (reading : Reading ο δ) (chart : Chart)

/-- What is walked stands for the child as the reading says. -/
def Means (child : WalkChild) : Walked ο → Prop
  | .node value => reading.node child value
  | .spliced values => (∃ position start, chart.Holds child.ref (.dotted position) start) ∧
    reading.spliced child.ref values

/-- These are the values of the children, those of intermediate ones spliced in. -/
def Values (children : List WalkChild) (values : List ο) : Prop :=
  ∃ walked, List.Forall₂ (reading.Means chart) children walked ∧
    values = walked.flatMap Walked.values

/-- The alternatives stand for derivations among those that have been tried, and if no node below
is its own descendant, for all of these. -/
def Survive (ref : ItemRef) (tried : List Derivation) (alternatives : List δ) : Prop :=
  ∃ survivors, survivors.Sublist tried ∧ (chart.Acyclic ref → survivors = tried) ∧
    List.Forall₂ (reading.alternative ref) survivors alternatives

variable {reading chart}

theorem Survive.keep {ref : ItemRef} {tried : List Derivation} {alternatives : List δ}
    {derivation : Derivation} {alternative : δ}
    (survive : reading.Survive chart ref tried alternatives)
    (stands : reading.alternative ref derivation alternative) :
    reading.Survive chart ref (tried ++ [derivation]) (alternatives ++ [alternative]) := by
  obtain ⟨survivors, among, all, stand⟩ := survive
  refine ⟨survivors ++ [derivation], among.append (.refl _), fun acyclic => ?_,
    List.rel_append stand (.cons stands .nil)⟩
  rw [all acyclic]

theorem Survive.drop {ref : ItemRef} {tried : List Derivation} {alternatives : List δ}
    (derivation : Derivation) (survive : reading.Survive chart ref tried alternatives)
    (cyclic : ¬ chart.Acyclic ref) :
    reading.Survive chart ref (tried ++ [derivation]) alternatives := by
  obtain ⟨survivors, among, -, stand⟩ := survive
  exact ⟨survivors, among.trans (List.sublist_append_left _ _),
    fun acyclic => absurd acyclic cyclic, stand⟩

end Reading

/-- The visitor makes of every single node of the chart what the reading says, if what it is given
stands for what the reading says. -/
structure Visitor.Follows {α σ ο δ ε : Type} (visitor : Visitor σ ο δ ε) (grammar : Grammar α)
    (input : Array String) (chart : Chart) (allowed : ε → Prop) (reading : Reading ο δ) :
    Prop where
  lexeme : ∀ {ref offset start token lexeme} state, chart.Holds ref (.lexeme offset) start →
    input[offset]? = some lexeme → grammar.tokenMatches token lexeme = true →
    Yields allowed (reading.node ⟨ref, some token⟩)
      (visitor.derivation [] state >>= fun (state, derivation) =>
        visitor.symbol (.lexeme offset token) derivation state)
  rule : ∀ {ref index start derivation values} token state,
    chart.Holds ref (.rule index) start → chart.derivations ref = #[derivation] →
    reading.Values chart (grammar.walkChildren (.rule index) derivation) values →
    Yields allowed (reading.node ⟨ref, token⟩)
      (visitor.derivation values state >>= fun (state, made) =>
        visitor.symbol (.rule index derivation.production) made state)
  dotted : ∀ {ref position start derivation values},
    chart.Holds ref (.dotted position) start → position.dot ≠ 0 →
    chart.derivations ref = #[derivation] →
    reading.Values chart (grammar.walkChildren (.dotted position) derivation) values →
    reading.spliced ref values
  alternative : ∀ {ref tag start derivation values} state, chart.Holds ref tag start →
    1 < (chart.derivations ref).size → derivation ∈ chart.derivations ref →
    reading.Values chart (grammar.walkChildren tag derivation) values →
    Yields allowed (reading.alternative ref derivation) (visitor.derivation values state)
  choices : ∀ {ref tag start alternatives} token state, chart.Holds ref tag start →
    tag.Advanced → 1 < (chart.derivations ref).size → alternatives ≠ [] →
    reading.Survive chart ref (chart.derivations ref).toList alternatives →
    Yields allowed (reading.node ⟨ref, token⟩) (visitor.choices ref tag alternatives state)

namespace Visitor

open Relation

variable {α σ ο δ ε : Type} {visitor : Visitor σ ο δ ε} {grammar : Grammar α}
  {input : Array String} {chart : Chart} {allowed : ε → Prop} {reading : Reading ο δ}
  {path : List ItemRef} {visit : WalkChild → σ → Except ε (σ × Option (Walked ο))}

/-- The way in which a walk of the nodes below a path is meant to work. -/
def Walks {α : Type} (grammar : Grammar α) (input : Array String) (chart : Chart)
    (allowed : ε → Prop) (reading : Reading ο δ) (path : List ItemRef)
    (visit : WalkChild → σ → Except ε (σ × Option (Walked ο))) : Prop :=
  ∀ {child} state, chart.Asked grammar input child →
    (∀ node ∈ path, TransGen chart.Child node child.ref) →
    Yields allowed (fun result => (∀ walked ∈ result, reading.Means chart child walked) ∧
      (chart.Clear path child.ref → result.isSome = true)) (visit child state)

/-- The children of a derivation are walked one by one, up to one that fails. -/
theorem Walks.children (walks : Walks grammar input chart allowed reading path visit)
    {children : List WalkChild} (asked : ∀ child ∈ children, chart.Asked grammar input child)
    (below : ∀ child ∈ children, ∀ node ∈ path, TransGen chart.Child node child.ref) (state : σ) :
    Yields allowed (fun results =>
      (∀ walked ∈ results, List.Forall₂ (reading.Means chart) children walked) ∧
      ((∀ child ∈ children, chart.Clear path child.ref) → results.isSome = true))
      (Traversal.visitChildren visit children state) := by
  induction children generalizing state with
  | nil =>
    refine ⟨?_, fun _ => rfl⟩
    rintro walked ⟨⟩
    exact .nil
  | cons child children ih =>
    refine (walks state (asked child (by simp)) (below child (by simp))).bind ?_
    intro state result yields
    obtain ⟨means, success⟩ := yields
    cases result with
    | none =>
      refine ⟨by simp, fun clear => ?_⟩
      exact absurd (success (clear child (by simp))) Bool.false_ne_true
    | some walked =>
      refine (ih (fun other listed => asked other (by simp [listed]))
        (fun other listed => below other (by simp [listed])) state).bind ?_
      intro state results yields
      obtain ⟨means', success'⟩ := yields
      refine ⟨?_, fun clear => ?_⟩
      · intro all member
        obtain ⟨rest, found, rfl⟩ := Option.map_eq_some_iff.mp member
        exact .cons (means walked rfl) (means' rest found)
      · rw [Option.isSome_map]
        exact success' fun other listed => clear other (by simp [listed])

/-- The derivations of an ambiguous node are walked in order. Those that do not fail become
alternatives, and those that can be unfolded without the path do not fail. -/
theorem Walks.alternatives (walks : Walks grammar input chart allowed reading path visit)
    {child : WalkChild} {tag : Tag} (tried candidates : List Derivation) (node : WalkNode ο δ)
    (ambiguous : node.shape = .ambiguous)
    (asked : ∀ derivation ∈ candidates, ∀ child ∈ grammar.walkChildren tag derivation,
      chart.Asked grammar input child)
    (below : ∀ derivation ∈ candidates, ∀ child ∈ grammar.walkChildren tag derivation,
      ∀ node ∈ path, TransGen chart.Child node child.ref)
    (acyclic : chart.Acyclic child.ref → ∀ derivation ∈ candidates,
      ∀ child ∈ grammar.walkChildren tag derivation, chart.Clear path child.ref)
    (made : ∀ derivation ∈ candidates, ∀ values state,
      reading.Values chart (grammar.walkChildren tag derivation) values →
      Yields allowed (reading.alternative child.ref derivation) (visitor.derivation values state))
    (survive : reading.Survive chart child.ref tried node.alternatives.toList) (state : σ) :
    Yields allowed (fun after => after.shape = .ambiguous ∧ after.tag = node.tag ∧
      reading.Survive chart child.ref (tried ++ candidates) after.alternatives.toList ∧
      ((node.alternatives.toList ≠ [] ∨ ∃ derivation ∈ candidates,
        ∀ child ∈ grammar.walkChildren tag derivation, chart.Clear path child.ref) →
        after.alternatives.toList ≠ []))
      ((visitor.traversal grammar chart).visitAlternatives visit child
        (candidates.map fun derivation => (derivation, grammar.walkChildren tag derivation))
        node state) := by
  induction candidates generalizing tried node state with
  | nil =>
    refine ⟨ambiguous, rfl, by rwa [List.append_nil], ?_⟩
    rintro (some | ⟨derivation, member, -⟩)
    · exact some
    · cases member
  | cons derivation candidates ih =>
    have later (state : σ) (node : WalkNode ο δ) (ambiguous : node.shape = .ambiguous)
        (survive : reading.Survive chart child.ref (tried ++ [derivation])
          node.alternatives.toList) :=
      ih (tried ++ [derivation]) node ambiguous
        (fun other member => asked other (by simp [member]))
        (fun other member => below other (by simp [member]))
        (fun sure other member => acyclic sure other (by simp [member]))
        (fun other member => made other (by simp [member])) survive state
    refine (walks.children (asked derivation (by simp)) (below derivation (by simp)) state).bind ?_
    intro state results yields
    obtain ⟨means, success⟩ := yields
    cases results with
    | none =>
      have cyclic : ¬ chart.Acyclic child.ref := fun sure =>
        Bool.false_ne_true (success (acyclic sure derivation (by simp)))
      refine (later state node ambiguous (survive.drop derivation cyclic)).mono ?_
      intro after yields
      obtain ⟨shape, same, survive, found⟩ := yields
      rw [List.append_assoc] at survive
      refine ⟨shape, same, survive, fun possible => found ?_⟩
      rcases possible with some | ⟨other, member, clear⟩
      · exact .inl some
      · rcases List.mem_cons.mp member with rfl | member
        · exact absurd (success clear) Bool.false_ne_true
        · exact .inr ⟨other, member, clear⟩
    | some walked =>
      have values : reading.Values chart (grammar.walkChildren tag derivation)
          (walked.flatMap Walked.values) := ⟨walked, means walked rfl, rfl⟩
      have accepted (state : σ) : (visitor.traversal grammar chart).accept child node derivation
          walked state = visitor.derivation (walked.flatMap Walked.values) state >>=
            fun (state, alternative) =>
              .ok (state, { node with alternatives := node.alternatives.push alternative }) := by
        simp only [Visitor.traversal, Visitor.accept, ambiguous]
      simp only [accepted, bind_assoc]
      refine (made derivation (by simp) _ state values).bind ?_
      intro state alternative stands
      have kept : reading.Survive chart child.ref (tried ++ [derivation])
          (node.alternatives.push alternative).toList := by
        rw [Array.toList_push]
        exact survive.keep stands
      refine (later state { node with alternatives := node.alternatives.push alternative }
        ambiguous kept).mono ?_
      intro after yields
      obtain ⟨shape, same, survive, found⟩ := yields
      rw [List.append_assoc] at survive
      exact ⟨shape, same, survive, fun _ => found (.inl (by simp))⟩

private theorem Walks.sole (walks : Walks grammar input chart allowed reading path visit)
    (follows : visitor.Follows grammar input chart allowed reading) {child : WalkChild}
    {tag : Tag} {start : Nat} (held : chart.Holds child.ref tag start) (advanced : tag.Advanced)
    (plain : ∀ offset, tag ≠ .lexeme offset) {derivation : Derivation}
    (sole : chart.derivations child.ref = #[derivation])
    (asked : ∀ child ∈ grammar.walkChildren tag derivation, chart.Asked grammar input child)
    (below : ∀ child ∈ grammar.walkChildren tag derivation,
      ∀ node ∈ path, TransGen chart.Child node child.ref) (state : σ) :
    Yields allowed (fun result => (∀ walked ∈ result, reading.Means chart child walked) ∧
        ((∀ child ∈ grammar.walkChildren tag derivation, chart.Clear path child.ref) →
          result.isSome = true))
      ((visitor.traversal grammar chart).visitAlternatives visit child
        [(derivation, grammar.walkChildren tag derivation)] ⟨tag, tag.shape, none, #[]⟩ state >>=
          fun (state, held) => visitor.leave child.ref held state) := by
  simp only [Traversal.visitAlternatives, bind_assoc]
  refine (walks.children asked below state).bind ?_
  intro state results yields
  obtain ⟨means, success⟩ := yields
  cases results with
  | none =>
    have failed :
        visitor.leave child.ref ⟨tag, tag.shape, none, #[]⟩ state = .ok (state, none) := by
      cases tag <;> rfl
    change Yields _ _ (visitor.leave child.ref ⟨tag, tag.shape, none, #[]⟩ state)
    rw [failed]
    exact ⟨by simp, fun clear => absurd (success clear) Bool.false_ne_true⟩
  | some walked =>
    have values : reading.Values chart (grammar.walkChildren tag derivation)
        (walked.flatMap Walked.values) := ⟨walked, means walked rfl, rfl⟩
    cases tag with
    | lexeme offset => exact absurd rfl (plain offset)
    | dotted position =>
      refine ⟨?_, fun _ => rfl⟩
      rintro result ⟨⟩
      exact ⟨⟨position, start, held⟩, follows.dotted held advanced sole values⟩
    | rule index =>
      have made : Yields allowed (fun result =>
          (∀ walked ∈ result, reading.Means chart child walked) ∧ result.isSome = true)
          ((visitor.derivation (walked.flatMap Walked.values) state >>= fun (state, made) =>
            visitor.symbol (.rule index derivation.production) made state) >>=
              fun (state, value) => .ok (state, some (.node value))) := by
        refine (follows.rule child.token state held sole values).bind ?_
        intro state value stands
        refine ⟨?_, rfl⟩
        rintro result ⟨⟩
        exact stands
      rw [bind_assoc] at made
      exact made.mono fun result yields => ⟨yields.1, fun _ => yields.2⟩

private theorem Walks.several (sound : chart.Sound grammar input)
    (follows : visitor.Follows grammar input chart allowed reading) {child : WalkChild}
    (walks : Walks grammar input chart allowed reading (child.ref :: path) visit) {tag : Tag}
    {start : Nat} (held : chart.Holds child.ref tag start) (advanced : tag.Advanced)
    (many : 1 < (chart.derivations child.ref).size)
    (below : ∀ node ∈ path, TransGen chart.Child node child.ref) (state : σ) :
    Yields allowed (fun result => (∀ walked ∈ result, reading.Means chart child walked) ∧
        ((∃ derivation ∈ (chart.derivations child.ref).toList,
          ∀ other ∈ grammar.walkChildren tag derivation,
            chart.Clear (child.ref :: path) other.ref) → result.isSome = true))
      ((visitor.traversal grammar chart).visitAlternatives visit child
        ((chart.derivations child.ref).toList.map fun derivation =>
          (derivation, grammar.walkChildren tag derivation))
        ⟨tag, .ambiguous, none, #[]⟩ state >>=
          fun (state, held) => visitor.leave child.ref held state) := by
  have known {derivation : Derivation}
      (member : derivation ∈ (chart.derivations child.ref).toList) :
      derivation ∈ chart.derivations child.ref := Array.mem_toList_iff.mp member
  refine (walks.alternatives [] (chart.derivations child.ref).toList
    ⟨tag, .ambiguous, none, #[]⟩ rfl
    (fun derivation member => (sound.derived held (known member)).asked)
    (fun derivation member other listed =>
      Chart.below_cons below (Chart.child_of_walkChildren (known member) listed)) ?_
    (fun derivation member values state stand =>
      follows.alternative state held many (known member) stand)
    ⟨[], .refl _, fun _ => rfl, .nil⟩ state).bind ?_
  · intro acyclic derivation member other listed
    have step := Chart.child_of_walkChildren (known member) listed
    exact Resolution.resolvable_child sound ⟨chart, chart.marks, 0⟩ acyclic step
      (Chart.below_cons below step)
  · intro state after yields
    obtain ⟨shape, tagged, survive, some⟩ := yields
    simp only [Visitor.leave, shape]
    by_cases empty : after.alternatives.isEmpty = true
    · rw [if_pos empty]
      refine ⟨by simp, fun clear => absurd ?_ (some (.inr clear))⟩
      simpa using empty
    · rw [if_neg empty, tagged]
      have left : after.alternatives.toList ≠ [] := by simpa using empty
      refine (follows.choices child.token state held advanced many left survive).bind ?_
      intro state value stands
      refine ⟨?_, fun _ => rfl⟩
      rintro result ⟨⟩
      exact stands

private theorem Walks.opened (sound : chart.Sound grammar input)
    (follows : visitor.Follows grammar input chart allowed reading) {child : WalkChild}
    (walks : Walks grammar input chart allowed reading (child.ref :: path) visit) {item : Item}
    (found : chart.item? child.ref = some item) (advanced : item.tag.Advanced)
    (plain : ∀ offset, item.tag ≠ .lexeme offset)
    (below : ∀ node ∈ path, TransGen chart.Child node child.ref) (state : σ) :
    Yields allowed (fun result => (∀ walked ∈ result, reading.Means chart child walked) ∧
        (chart.Clear path child.ref → result.isSome = true))
      ((visitor.traversal grammar chart).visitAlternatives visit child
        (item.derivations.toList.map fun derivation =>
          (derivation, grammar.walkChildren item.tag derivation))
        ⟨item.tag, item.shape, none, #[]⟩ state >>=
          fun (state, held) => visitor.leave child.ref held state) := by
  have held : chart.Holds child.ref item.tag item.start := ⟨item, found, rfl, rfl⟩
  have same := Chart.derivations_of_item found
  rw [← same, item.shape_eq, ← same]
  have some : chart.derivations child.ref ≠ #[] := by
    intro bare
    obtain ⟨offset, lexeme⟩ := sound.lexeme_of_bare held advanced bare
    exact plain offset lexeme
  have descend (clear : chart.Clear path child.ref) :
      ∃ derivation ∈ (chart.derivations child.ref).toList,
        ∀ other ∈ grammar.walkChildren item.tag derivation,
          chart.Clear (child.ref :: path) other.ref := by
    obtain ⟨derivation, member, clear⟩ := clear.descend some
    refine ⟨derivation, Array.mem_toList_iff.mpr member, fun other listed => clear other.ref ?_⟩
    rw [← Chart.refs_walkChildren grammar item.tag]
    exact List.mem_map_of_mem listed
  by_cases many : 1 < (chart.derivations child.ref).size
  · rw [if_pos many]
    refine (walks.several sound follows held advanced many below state).mono fun result yields => ?_
    exact ⟨yields.1, fun clear => yields.2 (descend clear)⟩
  · rw [if_neg many]
    have single : (chart.derivations child.ref).size = 1 := by
      have positive := Array.size_pos_iff.mpr some
      omega
    obtain ⟨derivation, sole⟩ := Array.size_eq_one_iff.mp single
    have member : derivation ∈ chart.derivations child.ref := by simp [sole]
    rw [sole] at descend ⊢
    refine (walks.sole follows held advanced plain sole (sound.derived held member).asked
      (fun other listed =>
        Chart.below_cons below (Chart.child_of_walkChildren member listed)) state).mono ?_
    intro result yields
    refine ⟨yields.1, fun clear => yields.2 ?_⟩
    obtain ⟨other, member', clear⟩ := descend clear
    rwa [List.mem_singleton.mp member'] at clear

theorem enter_lexeme (visitor : Visitor σ ο δ ε) (grammar : Grammar α) {child : WalkChild}
    {item : Item} (found : chart.item? child.ref = some item) {offset token : Nat}
    (tagged : item.tag = .lexeme offset) (asked : child.token = some token) (state : σ) :
    visitor.enter grammar chart child state =
      (visitor.derivation [] state >>= fun (state, derivation) =>
        visitor.symbol (.lexeme offset token) derivation state) >>=
          fun (state, value) => .ok (state, .closed (some (.node value))) := by
  rw [bind_assoc]
  simp only [enter, found, tagged, asked]

theorem enter_opened (visitor : Visitor σ ο δ ε) (grammar : Grammar α) {child : WalkChild}
    {item : Item} (found : chart.item? child.ref = some item)
    (plain : ∀ offset, item.tag ≠ .lexeme offset) (several : item.derivations ≠ #[]) (state : σ) :
    visitor.enter grammar chart child state = .ok (state, .opened
      (item.derivations.toList.map fun derivation =>
        (derivation, grammar.walkChildren item.tag derivation))
      ⟨item.tag, item.shape, none, #[]⟩) := by
  cases tagged : item.tag with
  | lexeme offset => exact absurd tagged (plain offset)
  | dotted position => simp [enter, found, tagged, several]
  | rule index => simp [enter, found, tagged, several]

theorem visit_eq (visitor : Visitor σ ο δ ε) (grammar : Grammar α) (chart : Chart) (room : Nat)
    {child : WalkChild} (aside : child.ref ∉ path) (state : σ) :
    (visitor.traversal grammar chart).visit (room + 1) path child state =
      visitor.enter grammar chart child state >>= fun (state, entry) =>
        match entry with
        | .closed result => .ok (state, result)
        | .opened alternatives held =>
          (visitor.traversal grammar chart).visitAlternatives
            ((visitor.traversal grammar chart).visit room (child.ref :: path)) child alternatives
            held state >>= fun (state, held) => visitor.leave child.ref held state := by
  refine (if_neg aside).trans ?_
  change (visitor.enter grammar chart child state >>= _) = _
  cases visitor.enter grammar chart child state with
  | error stop => rfl
  | ok entered =>
    obtain ⟨state, result | ⟨alternatives, held⟩⟩ := entered
    · rfl
    · rfl

/-- With enough room for all nodes off the path, a walk works as it is meant to. -/
theorem Follows.walks (sound : chart.Sound grammar input)
    (follows : visitor.Follows grammar input chart allowed reading) (room : Nat)
    (distinct : path.Nodup) (listed : ∀ node ∈ path, (chart.item? node).isSome = true)
    (roomy : chart.itemCount ≤ path.length + room) :
    Walks grammar input chart allowed reading path
      ((visitor.traversal grammar chart).visit room path) := by
  induction room generalizing path with
  | zero =>
    -- without room all nodes of the chart are on the path
    intro child state asked below
    obtain ⟨tag, start, held, -⟩ := asked.advanced
    have known := Chart.holds_iff_item.mp ⟨tag, start, held⟩
    have active : child.ref ∈ path := by
      by_contra aside
      have longer := Chart.length_le_itemCount (List.nodup_cons.mpr ⟨aside, distinct⟩) <| by
        intro node member
        rcases List.mem_cons.mp member with rfl | member
        · exact known
        · exact listed node member
      rw [List.length_cons] at longer
      omega
    exact ⟨by simp, fun clear => absurd active clear.not_mem⟩
  | succ room ih =>
    intro child state asked below
    by_cases active : child.ref ∈ path
    · have failed : (visitor.traversal grammar chart).visit (room + 1) path child state =
          .ok (state, none) := if_pos active
      rw [failed]
      exact ⟨by simp, fun clear => absurd active clear.not_mem⟩
    · obtain ⟨tag, start, ⟨item, found, rfl, rfl⟩, advanced⟩ := asked.advanced
      have held : chart.Holds child.ref item.tag item.start := ⟨item, found, rfl, rfl⟩
      rw [visit_eq visitor grammar chart room active]
      by_cases lexeme : ∃ offset, item.tag = .lexeme offset
      · obtain ⟨offset, tagged⟩ := lexeme
        rw [tagged] at held
        obtain ⟨token, text, named, read, matched⟩ := asked.token held
        rw [enter_lexeme visitor grammar found tagged named, bind_assoc]
        refine (follows.lexeme state held read matched).bind ?_
        intro state value stands
        refine ⟨?_, fun _ => rfl⟩
        rintro result ⟨⟩
        rw [← named] at stands
        exact stands
      · have plain : ∀ offset, item.tag ≠ .lexeme offset := fun offset same => lexeme ⟨offset, same⟩
        have several : item.derivations ≠ #[] := by
          intro bare
          apply lexeme
          apply sound.lexeme_of_bare held advanced
          simp [Chart.derivations, found, bare]
        rw [enter_opened visitor grammar found plain several]
        have inner : Walks grammar input chart allowed reading (child.ref :: path)
            ((visitor.traversal grammar chart).visit room (child.ref :: path)) := by
          apply ih (List.nodup_cons.mpr ⟨active, distinct⟩)
          · intro node member
            rcases List.mem_cons.mp member with rfl | member
            · exact Chart.holds_iff_item.mp ⟨_, _, held⟩
            · exact listed node member
          · rw [List.length_cons]
            omega
        exact inner.opened sound follows found advanced plain below state

theorem marking (visitor : Visitor σ ο δ ε) (grammar : Grammar α) (chart : Chart) :
    (visitor.traversal grammar chart).Marking (fun _ => True) chart.marks := by
  refine ⟨fun _ _ => trivial, ?_, fun _ _ => trivial, fun _ _ => trivial⟩
  intro child state next alternatives held _ entered
  refine (Chart.isSome_flag_marks child.ref).trans ?_
  cases found : chart.item? child.ref with
  | some item => rfl
  | none =>
    simp only [Visitor.traversal, enter, found] at entered
    cases entered

end Visitor

/-- A walk is the search by recursion from the root. -/
theorem Forest.walk_eq_visit {α σ ο δ ε : Type} (forest : Forest) (grammar : Grammar α)
    (visitor : Visitor σ ο δ ε) (state : σ) : forest.walk grammar visitor state =
      (visitor.traversal grammar forest.chart).visit forest.itemCount [] ⟨forest.root, none⟩
        state >>= fun (state, walked) =>
          match walked with
          | some (.node value) => .ok (state, some value)
          | _ => .ok (state, none) := by
  have searched := Traversal.traverse_eq_visit (visitor.marking grammar forest.chart)
    Chart.contains_marks forest.itemCount ⟨forest.root, none⟩ state trivial
  exact congrArg (· >>= _) searched

/-- A visitor that follows a reading makes of the root what the reading says, unless it breaks
off. -/
theorem Forest.walk_spec {α σ ο δ ε : Type} {grammar : Grammar α} {input : Array String}
    {forest : Forest} (sound : forest.chart.Sound grammar input) {index start : Nat}
    (held : forest.chart.Holds forest.root (.rule index) start) {visitor : Visitor σ ο δ ε}
    {allowed : ε → Prop} {reading : Reading ο δ}
    (follows : visitor.Follows grammar input forest.chart allowed reading) (state : σ) :
    (∃ stop, forest.walk grammar visitor state = .error stop ∧ allowed stop) ∨
      ∃ next value, forest.walk grammar visitor state = .ok (next, some value) ∧
        reading.node ⟨forest.root, none⟩ value := by
  have asked : forest.chart.Asked grammar input ⟨forest.root, none⟩ := by
    refine ⟨⟨_, _, held, trivial⟩, ?_⟩
    intro offset first held'
    cases (held.unique held').1
  have yields := follows.walks sound forest.chart.itemCount List.nodup_nil (by simp)
    (Nat.le_add_left _ _) state asked (by simp)
  rw [forest.walk_eq_visit, itemCount]
  generalize (visitor.traversal grammar forest.chart).visit forest.chart.itemCount []
    ⟨forest.root, none⟩ state = visited at yields ⊢
  obtain stop | ⟨next, result⟩ := visited
  · exact .inl ⟨stop, rfl, yields⟩
  · obtain ⟨means, success⟩ := yields
    obtain ⟨walked, rfl⟩ := Option.isSome_iff_exists.mp (success (sound.clear held trivial))
    have stands := means walked rfl
    cases walked with
    | node value => exact .inr ⟨next, value, rfl, stands⟩
    | spliced values =>
      obtain ⟨⟨position, first, held'⟩, -⟩ := stands
      cases (held.unique held').1

end ChartParser
