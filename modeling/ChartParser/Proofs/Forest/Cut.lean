import ChartParser.Proofs.Forest.Evaluation

/-! Forests cut off at their ambiguous nodes. What is left is one finite tree, whatever is cyclic
below the cuts. -/
namespace ChartParser

/-- A tree with ambiguous nodes for leaves. -/
inductive CutTree where
  | lexeme (offset : Nat)
  | ambiguous (node : ItemRef)
  | rule (production : Nat) (children : List CutTree)

namespace CutTree

mutual

/-- The nodes of a tree from left to right, children before parents. -/
def postorder : CutTree → List CutTree
  | lexeme offset => [lexeme offset]
  | ambiguous node => [ambiguous node]
  | rule production children => postorderAll children ++ [rule production children]

def postorderAll : List CutTree → List CutTree
  | [] => []
  | tree :: trees => tree.postorder ++ postorderAll trees

end

variable {α : Type} (grammar : Grammar α) (input : Array String)

/-- Why a node has no value, whatever is below: it is ambiguous, or its production has neither an
action nor exactly one symbol. -/
def offence? : CutTree → Option EvalError
  | lexeme _ => none
  | ambiguous node => some (.ambiguous node)
  | rule production _ => if grammar.Handles production then none else some (.noAction production)

/-- The production of a node, if that has an action. -/
def acting? : CutTree → Option Nat
  | rule production _ => if (grammar.action? production).isSome then some production else none
  | _ => none

def firstOffence? (trees : List CutTree) : Option EvalError :=
  (postorderAll trees).findSome? (offence? grammar)

mutual

/-- The value of a tree, folded from the lexemes upwards, and the calls of actions for it. -/
def fold? : CutTree → Option (List (Call α) × Value α)
  | lexeme offset => input[offset]?.map fun text => ([], .lexeme text)
  | ambiguous _ => none
  | rule production children => do
    let (calls, arguments) ← foldAll? children
    let value ← grammar.reduce? production arguments
    if (grammar.action? production).isSome then some (calls ++ [⟨production, arguments⟩], value)
    else some (calls, value)

def foldAll? : List CutTree → Option (List (Call α) × List (Value α))
  | [] => some ([], [])
  | tree :: trees => do
    let (calls, value) ← fold? tree
    let (more, values) ← foldAll? trees
    some (calls ++ more, value :: values)

end

variable {grammar input} {tree : CutTree} {trees others : List CutTree}

theorem postorderAll_append :
    postorderAll (trees ++ others) = postorderAll trees ++ postorderAll others := by
  induction trees with
  | nil => rfl
  | cons tree trees ih => rw [List.cons_append, postorderAll, postorderAll, ih, List.append_assoc]

theorem firstOffence_append : firstOffence? grammar (trees ++ others) =
    (firstOffence? grammar trees).or (firstOffence? grammar others) := by
  rw [firstOffence?, postorderAll_append, List.findSome?_append]
  rfl

theorem firstOffence_singleton :
    firstOffence? grammar [tree] = tree.postorder.findSome? (offence? grammar) := by
  rw [firstOffence?, postorderAll, postorderAll, List.append_nil]

theorem firstOffence_lexeme (offset : Nat) : firstOffence? grammar [lexeme offset] = none := rfl

theorem firstOffence_ambiguous (node : ItemRef) :
    firstOffence? grammar [ambiguous node] = some (.ambiguous node) := rfl

theorem firstOffence_rule (production : Nat) (children : List CutTree) :
    firstOffence? grammar [rule production children] =
      (firstOffence? grammar children).or (offence? grammar (rule production children)) := by
  rw [firstOffence_singleton, postorder, List.findSome?_append, List.findSome?_singleton]
  rfl

theorem foldAll_singleton {calls : List (Call α)} {value : Value α} :
    foldAll? grammar input [tree] = some (calls, [value]) ↔
      fold? grammar input tree = some (calls, value) := by
  simp [foldAll?, Option.bind_eq_some_iff]

theorem foldAll_append {calls more : List (Call α)} {values rest : List (Value α)}
    (folded : foldAll? grammar input trees = some (calls, values))
    (further : foldAll? grammar input others = some (more, rest)) :
    foldAll? grammar input (trees ++ others) = some (calls ++ more, values ++ rest) := by
  induction trees generalizing calls values with
  | nil =>
    cases folded
    exact further
  | cons tree trees ih =>
    simp only [foldAll?, Option.bind_eq_bind, Option.bind_eq_some_iff, Prod.exists] at folded
    obtain ⟨first, value, folded, after, values, folded', same⟩ := folded
    cases same
    simp [foldAll?, folded, ih folded']

theorem length_foldAll {calls : List (Call α)} {values : List (Value α)}
    (folded : foldAll? grammar input trees = some (calls, values)) :
    values.length = trees.length := by
  induction trees generalizing calls values with
  | nil =>
    cases folded
    rfl
  | cons tree trees ih =>
    simp only [foldAll?, Option.bind_eq_bind, Option.bind_eq_some_iff, Prod.exists] at folded
    obtain ⟨first, value, -, after, values, folded, same⟩ := folded
    cases same
    simp [ih folded]

mutual

/-- Folding a tree calls the action of each node that has one, once, and in their order. -/
theorem productions_fold {tree : CutTree} {calls : List (Call α)} {value : Value α}
    (folded : fold? grammar input tree = some (calls, value)) :
    calls.map Call.production = tree.postorder.filterMap (acting? grammar) := by
  match tree with
  | .lexeme offset =>
    obtain ⟨text, -, same⟩ := Option.map_eq_some_iff.mp folded
    cases same
    rfl
  | .ambiguous node => cases folded
  | .rule production children =>
    simp only [fold?, Option.bind_eq_bind, Option.bind_eq_some_iff, Prod.exists] at folded
    obtain ⟨before, arguments, folded, reduced, -, same⟩ := folded
    rw [postorder, List.filterMap_append, ← productions_foldAll folded]
    by_cases acts : (grammar.action? production).isSome = true
    · rw [if_pos acts] at same
      cases same
      simp [acting?, acts]
    · rw [if_neg acts] at same
      cases same
      simp [acting?, acts]

theorem productions_foldAll {trees : List CutTree} {calls : List (Call α)}
    {values : List (Value α)} (folded : foldAll? grammar input trees = some (calls, values)) :
    calls.map Call.production = (postorderAll trees).filterMap (acting? grammar) := by
  match trees with
  | [] =>
    cases folded
    rfl
  | tree :: trees =>
    simp only [foldAll?, Option.bind_eq_bind, Option.bind_eq_some_iff, Prod.exists] at folded
    obtain ⟨first, value, folded, after, values, folded', same⟩ := folded
    cases same
    rw [postorderAll, List.filterMap_append, ← productions_fold folded,
      ← productions_foldAll folded', List.map_append]

end

end CutTree

namespace Chart

/-- The trees that nodes unfold to, cut off at the nodes with several derivations. -/
inductive Cut (chart : Chart) : List ItemRef → List CutTree → Prop
  | nil : Cut chart [] []
  | lexeme (held : chart.Holds ref (.lexeme offset) start) (rest : Cut chart nodes later) :
      Cut chart (ref :: nodes) (.lexeme offset :: later)
  | ambiguous (several : 1 < (chart.derivations ref).size) (rest : Cut chart nodes later) :
      Cut chart (ref :: nodes) (.ambiguous ref :: later)
  | dotted (held : chart.Holds ref (.dotted position) start)
      (sole : chart.derivations ref = #[derivation])
      (inner : Cut chart derivation.children children) (rest : Cut chart nodes later) :
      Cut chart (ref :: nodes) (children ++ later)
  | rule (held : chart.Holds ref (.rule index) start)
      (sole : chart.derivations ref = #[derivation])
      (inner : Cut chart derivation.children children) (rest : Cut chart nodes later) :
      Cut chart (ref :: nodes) (.rule derivation.production children :: later)

variable {α : Type} {grammar : Grammar α} {input : Array String} {chart : Chart} {ref : ItemRef}
  {nodes : List ItemRef} {trees : List CutTree} {derivation : Derivation}

theorem Cut.lexeme_iff (sound : chart.Sound grammar input) {offset start : Nat}
    (held : chart.Holds ref (.lexeme offset) start) : chart.Cut (ref :: nodes) trees ↔
      ∃ rest, chart.Cut nodes rest ∧ trees = .lexeme offset :: rest := by
  constructor
  · intro cut
    cases cut with
    | lexeme held' rest =>
      obtain ⟨same, -⟩ := held.unique held'
      cases same
      exact ⟨_, rest, rfl⟩
    | ambiguous several => simp [sound.derivations_lexeme held] at several
    | dotted held' => cases (held.unique held').1
    | rule held' => cases (held.unique held').1
  · rintro ⟨rest, cut, rfl⟩
    exact .lexeme held cut

theorem Cut.ambiguous_iff (sound : chart.Sound grammar input)
    (several : 1 < (chart.derivations ref).size) : chart.Cut (ref :: nodes) trees ↔
      ∃ rest, chart.Cut nodes rest ∧ trees = .ambiguous ref :: rest := by
  constructor
  · intro cut
    cases cut with
    | lexeme held => simp [sound.derivations_lexeme held] at several
    | ambiguous _ rest => exact ⟨_, rest, rfl⟩
    | dotted _ sole => simp [sole] at several
    | rule _ sole => simp [sole] at several
  · rintro ⟨rest, cut, rfl⟩
    exact .ambiguous several cut

section Sole

variable (sole : chart.derivations ref = #[derivation])
include sole

theorem Cut.dotted_iff {position : Position} {start : Nat}
    (held : chart.Holds ref (.dotted position) start) : chart.Cut (ref :: nodes) trees ↔
      ∃ children rest, chart.Cut derivation.children children ∧ chart.Cut nodes rest ∧
        trees = children ++ rest := by
  constructor
  · intro cut
    cases cut with
    | lexeme held' => cases (held.unique held').1
    | ambiguous several => simp [sole] at several
    | dotted _ sole' inner rest =>
      cases sole.symm.trans sole'
      exact ⟨_, _, inner, rest, rfl⟩
    | rule held' => cases (held.unique held').1
  · rintro ⟨children, rest, inner, cut, rfl⟩
    exact .dotted held sole inner cut

theorem Cut.rule_iff {index start : Nat} (held : chart.Holds ref (.rule index) start) :
    chart.Cut (ref :: nodes) trees ↔
      ∃ children rest, chart.Cut derivation.children children ∧ chart.Cut nodes rest ∧
        trees = .rule derivation.production children :: rest := by
  constructor
  · intro cut
    cases cut with
    | lexeme held' => cases (held.unique held').1
    | ambiguous several => simp [sole] at several
    | dotted held' => cases (held.unique held').1
    | rule _ sole' inner rest =>
      cases sole.symm.trans sole'
      exact ⟨_, _, inner, rest, rfl⟩
  · rintro ⟨children, rest, inner, cut, rfl⟩
    exact .rule held sole inner cut

end Sole

/-- Nodes that unfold at all have exactly one cut. -/
theorem Sound.exists_cut (sound : chart.Sound grammar input) {unfolded : List Tree}
    (unfolds : chart.Unfolds nodes unfolded) :
    ∃ trees, ∀ others, chart.Cut nodes others ↔ others = trees := by
  -- what is not ambiguous unfolds by its only derivation, and so the cut goes on no further
  induction unfolds with
  | nil =>
    refine ⟨[], fun others => ⟨?_, ?_⟩⟩
    · rintro ⟨⟩
      rfl
    · rintro rfl
      exact .nil
  | @lexeme _ offset _ _ _ held _ ih =>
    obtain ⟨rest, only⟩ := ih
    exact ⟨.lexeme offset :: rest, by simp [Cut.lexeme_iff sound held, only]⟩
  | @dotted ref _ _ _ _ _ _ held member _ _ ih ih' =>
    obtain ⟨rest, only⟩ := ih'
    by_cases several : 1 < (chart.derivations ref).size
    · exact ⟨.ambiguous ref :: rest, by simp [Cut.ambiguous_iff sound several, only]⟩
    · have sole := sole_of_mem member several
      obtain ⟨children, inner⟩ := ih
      exact ⟨children ++ rest, by simp [Cut.dotted_iff sole held, inner, only]⟩
  | @rule ref _ _ derivation _ _ _ held member _ _ ih ih' =>
    obtain ⟨rest, only⟩ := ih'
    by_cases several : 1 < (chart.derivations ref).size
    · exact ⟨.ambiguous ref :: rest, by simp [Cut.ambiguous_iff sound several, only]⟩
    · have sole := sole_of_mem member several
      obtain ⟨children, inner⟩ := ih
      refine ⟨.rule derivation.production children :: rest, ?_⟩
      simp [Cut.rule_iff sole held, inner, only]

theorem Cut.eq_singleton {index start : Nat} (held : chart.Holds ref (.rule index) start)
    (cut : chart.Cut [ref] trees) : ∃ tree, trees = [tree] := by
  cases cut with
  | lexeme _ rest =>
    cases rest
    exact ⟨_, rfl⟩
  | ambiguous _ rest =>
    cases rest
    exact ⟨_, rfl⟩
  | dotted held' => cases (held.unique held').1
  | rule _ _ _ rest =>
    cases rest
    exact ⟨_, rfl⟩

theorem Cut.unfolds (cut : chart.Cut nodes trees)
    (clean : CutTree.firstOffence? grammar trees = none) :
    ∃ unfolded : List Tree, chart.Unfolds nodes unfolded ∧ unfolded.length = trees.length := by
  induction cut with
  | nil => exact ⟨[], .nil, rfl⟩
  | lexeme held _ ih =>
    obtain ⟨others, unfolds, length⟩ := ih clean
    exact ⟨_, .lexeme held unfolds, congrArg (· + 1) length⟩
  | ambiguous => cases clean
  | dotted held sole _ _ ih ih' =>
    rw [CutTree.firstOffence_append, Option.or_eq_none_iff] at clean
    obtain ⟨children, inner, length⟩ := ih clean.1
    obtain ⟨others, unfolds, length'⟩ := ih' clean.2
    exact ⟨_, .dotted held (by simp [sole]) inner unfolds, by simp [length, length']⟩
  | @rule _ _ _ derivation children _ _ held sole _ _ ih ih' =>
    change CutTree.firstOffence? grammar ([.rule derivation.production children] ++ _) = none
      at clean
    rw [CutTree.firstOffence_append, CutTree.firstOffence_rule, Option.or_eq_none_iff,
      Option.or_eq_none_iff] at clean
    obtain ⟨inner, unfolds', -⟩ := ih clean.1.1
    obtain ⟨others, unfolds, length⟩ := ih' clean.2
    exact ⟨_, .rule held (by simp [sole]) unfolds' unfolds, congrArg (· + 1) length⟩

theorem Cut.length_arguments (sound : chart.Sound grammar input) {index start : Nat}
    (held : chart.Holds ref (.rule index) start) (sole : chart.derivations ref = #[derivation])
    (inner : chart.Cut derivation.children trees)
    (clean : CutTree.firstOffence? grammar trees = none) {calls : List (Call α)}
    {arguments : List (Value α)}
    (folded : CutTree.foldAll? grammar input trees = some (calls, arguments)) :
    arguments.length = (grammar.symbols derivation.production).size := by
  obtain ⟨unfolded, unfolds, length⟩ := inner.unfolds clean
  rw [CutTree.length_foldAll folded, ← length]
  exact unfolds.length_children sound held (by simp [sole])

end Chart

end ChartParser
