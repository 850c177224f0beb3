import ChartParser.Forest.Compare
import ChartParser.Proofs.Grammar.Tree

namespace ChartParser

/-- The preference is a strict total order on the productions below a number. -/
structure StrictOrder (prefer : Nat → Nat → Bool) (count : Nat) : Prop where
  irrefl : ∀ {first}, first < count → prefer first first = false
  trans : ∀ {first second third}, first < count → second < count → third < count →
    prefer first second = true → prefer second third = true → prefer first third = true
  total : ∀ {first second}, first < count → second < count → first ≠ second →
    prefer first second = true ∨ prefer second first = true

/-- What a preference says of two productions. `gt` stands for the first one. -/
inductive Judges (prefer : Nat → Nat → Bool) : Nat → Nat → Ordering → Prop
  | same : Judges prefer production production .eq
  | first (apart : one ≠ other) (wins : prefer one other = true) : Judges prefer one other .gt
  | second (apart : one ≠ other) (loses : prefer one other = false)
      (wins : prefer other one = true) : Judges prefer one other .lt
  | neither (loses : prefer one other = false) (loses' : prefer other one = false) :
      Judges prefer one other .eq

theorem judges_iff {prefer : Nat → Nat → Bool} {one other : Nat} {verdict : Ordering} :
    Judges prefer one other verdict ↔ comparePreference prefer one other = verdict := by
  constructor
  · intro judged
    cases judged with
    | same => exact if_pos rfl
    | first apart wins => rw [comparePreference, if_neg apart, if_pos wins]
    | second apart loses wins => simp [comparePreference, apart, loses, wins]
    | neither loses loses' => simp [comparePreference, loses, loses']
  · rintro rfl
    unfold comparePreference
    split
    · rename_i same
      subst same
      exact .same
    · rename_i apart
      cases wins : prefer one other with
      | true => exact .first apart wins
      | false =>
        cases loses : prefer other one with
        | true => exact .second apart wins loses
        | false => exact .neither wins loses

theorem Judges.unique {prefer : Nat → Nat → Bool} {one other : Nat} {verdict conclusion : Ordering}
    (judged : Judges prefer one other verdict) (again : Judges prefer one other conclusion) :
    verdict = conclusion := (judges_iff.mp judged).symm.trans (judges_iff.mp again)

mutual

/-- Compares two trees from the top down: first their productions, and if these are the same, the
trees below. Lexemes are all the same. `gt` stands for the first tree. -/
def compareTree (prefer : Nat → Nat → Bool) : Tree → Tree → Ordering
  | .rule production children, .rule other others =>
    if production = other then compareTrees prefer children others
    else if prefer production other then .gt
    else if prefer other production then .lt
    else .eq
  | _, _ => .eq

/-- Compares trees from left to right until one pair differs. -/
def compareTrees (prefer : Nat → Nat → Bool) : List Tree → List Tree → Ordering
  | first :: firsts, second :: seconds =>
    (compareTree prefer first second).then (compareTrees prefer firsts seconds)
  | _, _ => .eq

end

theorem compareTree_rule (prefer : Nat → Nat → Bool) (production other : Nat)
    (children others : List Tree) :
    compareTree prefer (.rule production children) (.rule other others) =
      if production = other then compareTrees prefer children others
      else comparePreference prefer production other := by
  rw [compareTree]
  split
  · rfl
  · rename_i apart
    rw [comparePreference, if_neg apart]

@[simp] theorem compareTrees_nil (prefer : Nat → Nat → Bool) :
    compareTrees prefer [] [] = .eq := by
  rw [compareTrees]
  exact nofun

@[simp] theorem compareTrees_lexeme (prefer : Nat → Nat → Bool) (first second : Nat)
    (firsts seconds : List Tree) :
    compareTrees prefer (.lexeme first :: firsts) (.lexeme second :: seconds) =
      compareTrees prefer firsts seconds := by
  rw [compareTrees, compareTree]
  · rfl
  · exact nofun

theorem compareTrees_singleton (prefer : Nat → Nat → Bool) (first second : Tree) :
    compareTrees prefer [first] [second] = compareTree prefer first second := by
  rw [compareTrees, compareTrees_nil, Ordering.then_eq]

/-- How three comparisons of three things fit together. -/
structure Chained (first second both : Ordering) : Prop where
  left : first = .eq → both = second
  right : second = .eq → both = first
  less : first = .lt → second = .lt → both = .lt

theorem Chained.ne_gt {first second both : Ordering} (chained : Chained first second both)
    (here : first ≠ .gt) (there : second ≠ .gt) : both ≠ .gt := by
  cases first with
  | eq =>
    rw [chained.left rfl]
    exact there
  | gt => exact absurd rfl here
  | lt =>
    cases second with
    | eq =>
      rw [chained.right rfl]
      exact here
    | gt => exact absurd rfl there
    | lt =>
      rw [chained.less rfl rfl]
      exact here

/-- What comes later counts if nothing has been decided before. -/
theorem Chained.then {first second both first' second' both' : Ordering}
    (chained : Chained first second both)
    (further : first = .eq → second = .eq → Chained first' second' both') :
    Chained (first.then first') (second.then second') (both.then both') := by
  cases first with
  | eq =>
    obtain rfl := chained.left rfl
    cases both with
    | eq => exact further rfl rfl
    | lt => exact ⟨fun _ => rfl, nofun, fun _ _ => rfl⟩
    | gt => exact ⟨fun _ => rfl, nofun, fun _ => nofun⟩
  | lt =>
    cases second with
    | eq =>
      obtain rfl := chained.right rfl
      exact ⟨nofun, fun _ => rfl, fun _ _ => rfl⟩
    | lt =>
      obtain rfl := chained.less rfl rfl
      exact ⟨nofun, nofun, fun _ _ => rfl⟩
    | gt => exact ⟨nofun, nofun, fun _ => nofun⟩
  | gt =>
    cases second with
    | eq =>
      obtain rfl := chained.right rfl
      exact ⟨nofun, fun _ => rfl, nofun⟩
    | lt => exact ⟨nofun, nofun, nofun⟩
    | gt => exact ⟨nofun, nofun, nofun⟩

section Order

variable {prefer : Nat → Nat → Bool} {count : Nat} {first second third : Nat}

theorem StrictOrder.asymm (order : StrictOrder prefer count) (known : first < count)
    (known' : second < count) (wins : prefer first second = true) :
    prefer second first = false := by
  rw [Bool.eq_false_iff]
  intro loses
  have self := order.trans known known' known wins loses
  rw [order.irrefl known] at self
  cases self

theorem comparePreference_self (prefer : Nat → Nat → Bool) (production : Nat) :
    comparePreference prefer production production = .eq := if_pos rfl

theorem StrictOrder.eq_of_compare (order : StrictOrder prefer count) (known : first < count)
    (known' : second < count) (same : comparePreference prefer first second = .eq) :
    first = second := by
  by_contra apart
  rw [comparePreference, if_neg apart] at same
  rcases order.total known known' apart with wins | loses
  · simp [wins] at same
  · simp [loses, order.asymm known' known loses] at same

theorem StrictOrder.swap (order : StrictOrder prefer count) (known : first < count)
    (known' : second < count) :
    comparePreference prefer second first = (comparePreference prefer first second).swap := by
  unfold comparePreference
  by_cases same : first = second
  · simp [same]
  · rw [if_neg same, if_neg (Ne.symm same)]
    rcases order.total known known' same with wins | loses
    · simp [wins, order.asymm known known' wins]
    · simp [loses, order.asymm known' known loses]

theorem StrictOrder.chained (order : StrictOrder prefer count) (known : first < count)
    (known' : second < count) (known'' : third < count) :
    Chained (comparePreference prefer first second) (comparePreference prefer second third)
      (comparePreference prefer first third) := by
  constructor
  · intro same
    rw [order.eq_of_compare known known' same]
  · intro same
    rw [order.eq_of_compare known' known'' same]
  · intro less less'
    have wins {first second : Nat} (less : comparePreference prefer first second = .lt) :
        first ≠ second ∧ prefer second first = true := by
      unfold comparePreference at less
      split at less
      · cases less
      · split at less
        · cases less
        · split at less
          · exact ⟨‹_›, ‹_›⟩
          · cases less
    obtain ⟨-, second_wins⟩ := wins less
    obtain ⟨-, third_wins⟩ := wins less'
    have third_first := order.trans known'' known' known third_wins second_wins
    have apart : first ≠ third := by
      rintro rfl
      rw [order.irrefl known] at third_first
      cases third_first
    simp [comparePreference, apart, third_first, order.asymm known'' known third_first]

end Order

section Trees

variable {α : Type} {grammar : Grammar α} {input : Array String} {prefer : Nat → Nat → Bool}
  {symbols : List Symbol} {trees others more : List Tree}
  {start stop start' stop' start'' stop'' : Nat}

theorem compareTrees_rule (order : StrictOrder prefer grammar.productions.size)
    {production other : Nat} (known : production < grammar.productions.size)
    (known' : other < grammar.productions.size) (children below firsts seconds : List Tree) :
    compareTrees prefer (.rule production children :: firsts) (.rule other below :: seconds) =
      (comparePreference prefer production other).then
        ((compareTrees prefer children below).then (compareTrees prefer firsts seconds)) := by
  rw [compareTrees, compareTree_rule]
  by_cases same : production = other
  · rw [if_pos same, same, comparePreference_self]
    rfl
  · rw [if_neg same]
    cases preference : comparePreference prefer production other with
    | eq => exact absurd (order.eq_of_compare known known' preference) same
    | lt => rfl
    | gt => rfl

namespace Spells

theorem token_inv {token : Nat}
    (spelled : Spells grammar input trees (.token token :: symbols) start stop) :
    ∃ rest, trees = .lexeme start :: rest ∧
      Spells grammar input rest symbols (start + 1) stop := by
  cases spelled with
  | lexeme read matched rest => exact ⟨_, rfl, rest⟩

theorem rule_inv {rule : Nat}
    (spelled : Spells grammar input trees (.rule rule :: symbols) start stop) :
    ∃ production children rest middle, trees = .rule production children :: rest ∧
      production < grammar.productions.size ∧
      Spells grammar input children (grammar.symbols production).toList start middle ∧
      Spells grammar input rest symbols middle stop := by
  cases spelled with
  | rule known inner rest => exact ⟨_, _, _, _, rfl, known, inner, rest⟩

/-- Trees for the same symbols are compared part by part. -/
theorem compare_append (order : StrictOrder prefer grammar.productions.size)
    (spelled : Spells grammar input trees symbols start stop)
    (spelled' : Spells grammar input others symbols start' stop') (firsts seconds : List Tree) :
    compareTrees prefer (trees ++ firsts) (others ++ seconds) =
      (compareTrees prefer trees others).then (compareTrees prefer firsts seconds) := by
  induction spelled generalizing others start' with
  | nil =>
    cases spelled'
    simp
  | lexeme _ _ _ ih =>
    obtain ⟨rest, rfl, further⟩ := spelled'.token_inv
    simp only [List.cons_append, compareTrees_lexeme, ih further]
  | rule known _ _ _ ih =>
    obtain ⟨production, children, rest, middle, rfl, known', -, further⟩ := spelled'.rule_inv
    simp only [List.cons_append, compareTrees_rule order known known', ih further,
      Ordering.then_assoc]

theorem compare_swap (order : StrictOrder prefer grammar.productions.size)
    (spelled : Spells grammar input trees symbols start stop)
    (spelled' : Spells grammar input others symbols start' stop') :
    compareTrees prefer others trees = (compareTrees prefer trees others).swap := by
  induction spelled generalizing others start' stop' with
  | nil =>
    cases spelled'
    simp
  | lexeme _ _ _ ih =>
    obtain ⟨rest, rfl, further⟩ := spelled'.token_inv
    simp only [compareTrees_lexeme]
    exact ih further
  | @rule production children _ _ _ _ _ known _ _ ih ih' =>
    obtain ⟨other, below, rest, middle, rfl, known', inner, further⟩ := spelled'.rule_inv
    rw [compareTrees_rule order known known', compareTrees_rule order known' known,
      order.swap known known', ih' further, Ordering.swap_then, Ordering.swap_then]
    cases preference : comparePreference prefer production other with
    | eq =>
      obtain rfl := order.eq_of_compare known known' preference
      rw [ih inner]
    | lt => rfl
    | gt => rfl

theorem compare_self (order : StrictOrder prefer grammar.productions.size)
    (spelled : Spells grammar input trees symbols start stop) :
    compareTrees prefer trees trees = .eq := by
  have same := spelled.compare_swap order spelled
  cases compared : compareTrees prefer trees trees with
  | eq => rfl
  | lt =>
    rw [compared] at same
    cases same
  | gt =>
    rw [compared] at same
    cases same

theorem compare_chained (order : StrictOrder prefer grammar.productions.size)
    (spelled : Spells grammar input trees symbols start stop)
    (spelled' : Spells grammar input others symbols start' stop')
    (spelled'' : Spells grammar input more symbols start'' stop'') :
    Chained (compareTrees prefer trees others) (compareTrees prefer others more)
      (compareTrees prefer trees more) := by
  induction spelled generalizing others more start' stop' start'' stop'' with
  | nil =>
    cases spelled'
    cases spelled''
    rw [compareTrees_nil]
    exact ⟨fun _ => rfl, fun _ => rfl, fun wrong => nomatch wrong⟩
  | lexeme _ _ _ ih =>
    obtain ⟨rest, rfl, further⟩ := spelled'.token_inv
    obtain ⟨rest', rfl, further'⟩ := spelled''.token_inv
    simp only [compareTrees_lexeme]
    exact ih further further'
  | rule known inner rest ih ih' =>
    obtain ⟨second, below, rest', middle, rfl, known', inner', further⟩ := spelled'.rule_inv
    obtain ⟨third, below', rest'', middle', rfl, known'', inner'', further'⟩ := spelled''.rule_inv
    rw [compareTrees_rule order known known', compareTrees_rule order known' known'',
      compareTrees_rule order known known'']
    apply (order.chained known known' known'').then
    intro same same'
    obtain rfl := order.eq_of_compare known known' same
    obtain rfl := order.eq_of_compare known' known'' same'
    apply (ih inner' inner'').then
    intro _ _
    exact ih' further further'

end Spells

end Trees

end ChartParser
