import ChartParser.Forest.Evaluate
import ChartParser.Proofs.Grammar.Tree

namespace ChartParser

variable {α : Type} (grammar : Grammar α) (input : Array String)

namespace Grammar

/-- What a production makes of the values of its symbols: what its action makes of them, or if it
has no action, the only one. -/
def reduce? (production : Nat) (values : List (Value α)) : Option (Value α) :=
  match grammar.action? production with
  | some action => (action values).map .action
  | none =>
    match values with
    | [value] => some value
    | _ => none

/-- A production has a value in any case if it has an action or exactly one symbol. -/
def Handles (production : Nat) : Prop :=
  (grammar.action? production).isSome = true ∨ (grammar.symbols production).size = 1

instance (production : Nat) : Decidable (grammar.Handles production) :=
  inferInstanceAs (Decidable (_ ∨ _))

inductive Handled : List Tree → Prop
  | nil : Handled []
  | lexeme (rest : Handled trees) : Handled (.lexeme offset :: trees)
  | rule (handles : grammar.Handles production) (inner : Handled children)
      (rest : Handled trees) : Handled (.rule production children :: trees)

end Grammar

mutual

/-- The value of a tree: the text of a lexeme, or what a production makes of the values below. -/
def Tree.value? : Tree → Option (Value α)
  | .lexeme offset => input[offset]?.map .lexeme
  | .rule production children => (Tree.values? children).bind (grammar.reduce? production)

def Tree.values? : List Tree → Option (List (Value α))
  | [] => some []
  | tree :: trees =>
    (Tree.value? tree).bind fun value => (Tree.values? trees).map (value :: ·)

end

variable {grammar input} {trees others : List Tree} {values : List (Value α)}

namespace Tree

theorem values_singleton (tree : Tree) :
    Tree.values? grammar input [tree] = (Tree.value? grammar input tree).map ([·]) := by
  simp only [values?]
  cases value? grammar input tree <;> rfl

theorem values_append : Tree.values? grammar input (trees ++ others) =
    (Tree.values? grammar input trees).bind fun values =>
      (Tree.values? grammar input others).map (values ++ ·) := by
  induction trees with
  | nil => simp [values?]
  | cons tree trees ih =>
    simp only [List.cons_append, values?, ih]
    cases value? grammar input tree with
    | none => rfl
    | some value =>
      cases values? grammar input trees with
      | none => rfl
      | some values => cases values? grammar input others <;> rfl

theorem length_values (valued : Tree.values? grammar input trees = some values) :
    values.length = trees.length := by
  induction trees generalizing values with
  | nil =>
    cases valued
    rfl
  | cons tree trees ih =>
    simp only [values?, Option.bind_eq_some_iff, Option.map_eq_some_iff] at valued
    obtain ⟨value, -, rest, valued, rfl⟩ := valued
    rw [List.length_cons, List.length_cons, ih valued]

end Tree

namespace Grammar.Handled

theorem append_iff :
    grammar.Handled (trees ++ others) ↔ grammar.Handled trees ∧ grammar.Handled others := by
  induction trees with
  | nil => exact ⟨fun handled => ⟨.nil, handled⟩, And.right⟩
  | cons tree trees ih =>
    constructor
    · intro handled
      cases handled with
      | lexeme rest =>
        obtain ⟨here, there⟩ := ih.mp rest
        exact ⟨.lexeme here, there⟩
      | rule handles inner rest =>
        obtain ⟨here, there⟩ := ih.mp rest
        exact ⟨.rule handles inner here, there⟩
    · rintro ⟨here, there⟩
      cases here with
      | lexeme rest => exact .lexeme (ih.mpr ⟨rest, there⟩)
      | rule handles inner rest => exact .rule handles inner (ih.mpr ⟨rest, there⟩)

end Grammar.Handled

end ChartParser
