import ChartParser.Proofs.Disambiguation
import ChartParser.Proofs.Grammar.TreeOrder

namespace ChartParser

namespace Chart

variable {chart : Chart} {α : Type} {grammar : Grammar α} {input : Array String}

theorem comparePending_append (chart : Chart) (prefer : Nat → Nat → Bool)
    (first second : List (Nat × Derivation × Derivation)) :
    chart.comparePending prefer (first ++ second) =
      (chart.comparePending prefer first).then (chart.comparePending prefer second) := by
  fun_induction comparePending chart prefer first with
  | case1 => rfl
  | case2 one other rest equal ih =>
    rw [List.cons_append, comparePending_cons, equal]
    exact ih
  | case3 one other rest equal depth ih =>
    rw [List.cons_append, comparePending_cons, equal, ← ih, List.append_assoc]
    rfl
  | case4 depth one other rest decided =>
    rw [List.cons_append, comparePending_cons]
    cases preference : comparePreference prefer one.production other.production with
    | eq => exact absurd preference decided
    | lt => rfl
    | gt => rfl

/-- How two parts of derivations compare, so many levels further down. -/
def comparePart (chart : Chart) (prefer : Nat → Nat → Bool) (depth : Nat)
    (first second : Option ItemRef) : Ordering :=
  match depth with
  | 0 => .eq
  | depth + 1 =>
    match chart.comparedPair first second with
    | some (first, second) => chart.compare prefer depth first second
    | none => .eq

/-- The worklist compares the productions, then the left parts and then the right ones. -/
theorem compare_eq (chart : Chart) (prefer : Nat → Nat → Bool) (depth : Nat)
    (first second : Derivation) : chart.compare prefer depth first second =
      (comparePreference prefer first.production second.production).then
        ((chart.comparePart prefer depth first.left second.left).then
          (chart.comparePart prefer depth first.right second.right)) := by
  rw [compare, comparePending_cons]
  cases depth with
  | zero => simp [comparePart, comparePending]
  | succ depth =>
    have part (pair : Option (Derivation × Derivation)) :
        chart.comparePending prefer (pair.toList.map fun pair => (depth, pair)) =
          match pair with
          | some (first, second) => chart.compare prefer depth first second
          | none => .eq := by
      cases pair with
      | none => simp [comparePending]
      | some pair => rfl
    simp only [comparedPairs, List.map_append, List.append_nil, comparePending_append, part]
    rfl

/-- The two items have matched the same symbols of a production, wherever that was. -/
inductive Alike {α : Type} (chart : Chart) (grammar : Grammar α) (input : Array String)
    (ref other : ItemRef) : Prop
  | symbol (covers : chart.Covers grammar input ref symbol start)
      (covers' : chart.Covers grammar input other symbol first) :
      Alike chart grammar input ref other
  | dotted (held : chart.Holds ref (.dotted position) start)
      (held' : chart.Holds other (.dotted position) first) (advanced : position.dot ≠ 0) :
      Alike chart grammar input ref other

/-- The same for parts of derivations, which may both be missing. -/
inductive AlikeParts {α : Type} (chart : Chart) (grammar : Grammar α) (input : Array String) :
    Option ItemRef → Option ItemRef → Prop
  | none : AlikeParts chart grammar input none none
  | some (alike : chart.Alike grammar input ref other) :
      AlikeParts chart grammar input (some ref) (some other)

theorem LeftPart.alike {waiting other : ItemRef} {position : Position} {start first : Nat}
    {part part' : Option ItemRef} (held : chart.Holds waiting (.dotted position) start)
    (held' : chart.Holds other (.dotted position) first)
    (left : chart.LeftPart grammar input waiting position start part)
    (left' : chart.LeftPart grammar input other position first part') :
    chart.AlikeParts grammar input part part' := by
  cases left with
  | nothing dot =>
    cases left' with
    | nothing => exact .none
    | first dot' => omega
    | waiting dot' => omega
  | first dot symbol covers =>
    cases left' with
    | nothing dot' => omega
    | first dot' symbol' covers' =>
      obtain rfl := Option.some.inj (symbol.symm.trans symbol')
      exact .some (.symbol covers covers')
    | waiting dot' => omega
  | waiting dot =>
    cases left' with
    | nothing dot' => omega
    | first dot' => omega
    | waiting => exact .some (.dotted held held' (by omega))

/-- Two ways to build items of the same tag by the same production go through the same symbols. -/
theorem Splits.alike {tag : Tag} {start stop first last : Nat} {derivation other : Derivation}
    (split : chart.Splits grammar input tag start stop derivation)
    (split' : chart.Splits grammar input tag first last other)
    (same : derivation.production = other.production) :
    chart.AlikeParts grammar input derivation.left other.left ∧
      chart.AlikeParts grammar input derivation.right other.right := by
  cases split with
  | empty known bare =>
    generalize Tag.rule (grammar.ruleOf _) = tag at split'
    cases split' with
    | empty => exact ⟨.none, .none⟩
    | step held next =>
      simp only at same
      simp [Grammar.next?, ← same, bare] at next
  | @step waiting position start symbol completed part held next covers left =>
    generalize tagged : grammar.tagBehind position = tag at split'
    cases split' with
    | empty known bare =>
      simp only at same
      simp [Grammar.next?, same, bare] at next
    | step held' next' covers' left' =>
      obtain rfl := tagBehind_injective tagged same
      obtain rfl := Option.some.inj (next.symm.trans next')
      exact ⟨left.alike held held' left', .some (.symbol covers covers')⟩

theorem Alike.spells (sound : chart.Sound grammar input) {ref other : ItemRef}
    {trees others : List Tree} (alike : chart.Alike grammar input ref other)
    (unfolds : chart.Unfolds [ref] trees) (unfolds' : chart.Unfolds [other] others) :
    ∃ symbols start first, Spells grammar input trees symbols start ref.set ∧
      Spells grammar input others symbols first other.set := by
  cases alike with
  | symbol covers covers' =>
    exact ⟨_, _, _, unfolds.spells_single sound (.symbol covers),
      unfolds'.spells_single sound (.symbol covers')⟩
  | dotted held held' advanced =>
    exact ⟨_, _, _, unfolds.spells_single sound (.dotted held advanced),
      unfolds'.spells_single sound (.dotted held' advanced)⟩

theorem Alike.tags {ref other : ItemRef} (alike : chart.Alike grammar input ref other) :
    (∃ offset offset', chart.Holds ref (.lexeme offset) offset ∧
      chart.Holds other (.lexeme offset') offset') ∨
    ∃ tag start first, chart.Holds ref tag start ∧ chart.Holds other tag first ∧
      ∀ offset, tag ≠ .lexeme offset := by
  cases alike with
  | symbol covers covers' =>
    cases covers with
    | rule held =>
      cases covers' with
      | rule held' => exact .inr ⟨_, _, _, held, held', by simp⟩
    | token held =>
      cases covers' with
      | token held' => exact .inl ⟨_, _, held, held'⟩
  | dotted held held' => exact .inr ⟨_, _, _, held, held', by simp⟩

end Chart

namespace Resolution

variable {chart : Chart} {resolution : Resolution} {α : Type} {grammar : Grammar α}
  {input : Array String} {prefer : Nat → Nat → Bool} {depth : Nat}

/-- Parts of derivations, so many levels deep at most, compare as their trees do. -/
def Agrees {α : Type} (chart : Chart) (grammar : Grammar α) (input : Array String)
    (prefer : Nat → Nat → Bool) (resolution : Resolution) (depth : Nat) : Prop :=
  ∀ {ref other trees others}, chart.Alike grammar input ref other →
    resolution.Settled depth ref → resolution.Settled depth other →
    resolution.chart.Unfolds [ref] trees → resolution.chart.Unfolds [other] others →
    resolution.chart.comparePart prefer depth (some ref) (some other) =
      compareTrees prefer trees others

private theorem Agrees.part (agrees : Agrees chart grammar input prefer resolution depth)
    (sound : chart.Sound grammar input) (progress : Progress chart prefer resolution)
    (order : StrictOrder prefer grammar.productions.size) {part part' : Option ItemRef}
    (alike : chart.AlikeParts grammar input part part')
    (settled : ∀ ref ∈ part.toList, resolution.Settled depth ref)
    (settled' : ∀ ref ∈ part'.toList, resolution.Settled depth ref) {trees others : List Tree}
    (unfolds : resolution.chart.Unfolds part.toList trees)
    (unfolds' : resolution.chart.Unfolds part'.toList others) (more more' : List Tree) :
    (resolution.chart.comparePart prefer depth part part').then (compareTrees prefer more more') =
      compareTrees prefer (trees ++ more) (others ++ more') := by
  cases alike with
  | none =>
    cases unfolds
    cases unfolds'
    cases depth <;> rfl
  | some alike =>
    obtain ⟨symbols, start, first, spelled, spelled'⟩ :=
      alike.spells sound (unfolds.mono progress.extends) (unfolds'.mono progress.extends)
    have compared := agrees alike (settled _ (List.mem_singleton_self _))
      (settled' _ (List.mem_singleton_self _)) unfolds unfolds'
    rw [compared, spelled.compare_append order spelled']

theorem Agrees.derivations (agrees : Agrees chart grammar input prefer resolution depth)
    (sound : chart.Sound grammar input) (progress : Progress chart prefer resolution)
    (order : StrictOrder prefer grammar.productions.size) {tag : Tag}
    {start stop first last : Nat} {derivation other : Derivation}
    (split : chart.Splits grammar input tag start stop derivation)
    (split' : chart.Splits grammar input tag first last other)
    (settled : ∀ child ∈ derivation.children, resolution.Settled depth child)
    (settled' : ∀ child ∈ other.children, resolution.Settled depth child)
    {trees others : List Tree} (unfolds : resolution.chart.Unfolds derivation.children trees)
    (unfolds' : resolution.chart.Unfolds other.children others) :
    resolution.chart.compare prefer depth derivation other =
      compareTrees prefer (tag.wrap derivation.production trees)
        (tag.wrap other.production others) := by
  rw [Chart.compare_eq]
  -- the parts correspond only if the productions are the same, and otherwise these decide
  have below (same : derivation.production = other.production) :
      (resolution.chart.comparePart prefer depth derivation.left other.left).then
        (resolution.chart.comparePart prefer depth derivation.right other.right) =
        compareTrees prefer trees others := by
    obtain ⟨left, right⟩ := split.alike split' same
    obtain ⟨front, back, rfl, unfolds_left, unfolds_right⟩ := unfolds.split
    obtain ⟨front', back', rfl, unfolds_left', unfolds_right'⟩ := unfolds'.split
    have compared := agrees.part sound progress order right
      (fun ref listed => settled ref (List.mem_append_right _ listed))
      (fun ref listed => settled' ref (List.mem_append_right _ listed))
      unfolds_right unfolds_right' [] []
    rw [compareTrees_nil, Ordering.then_eq, List.append_nil, List.append_nil] at compared
    rw [compared]
    exact agrees.part sound progress order left
      (fun ref listed => settled ref (List.mem_append_left _ listed))
      (fun ref listed => settled' ref (List.mem_append_left _ listed))
      unfolds_left unfolds_left' back back'
  obtain ⟨known, serves⟩ := split.production sound
  obtain ⟨known', serves'⟩ := split'.production sound
  cases tag with
  | lexeme offset => exact absurd rfl (split.not_lexeme offset)
  | dotted position =>
    have same : derivation.production = other.production := serves.trans serves'.symm
    rw [below same, same, comparePreference_self]
    rfl
  | rule index =>
    rw [Tag.wrap, Tag.wrap, compareTrees_rule order known known', compareTrees_nil,
      Ordering.then_eq]
    cases preference : comparePreference prefer derivation.production other.production with
    | eq => rw [below (order.eq_of_compare known known' preference)]
    | lt => rfl
    | gt => rfl

private theorem Settled.sole_of_mem {height : Nat} {ref : ItemRef} {derivation : Derivation}
    (settled : resolution.Settled height ref)
    (member : derivation ∈ resolution.chart.derivations ref) :
    ∃ less, height = less + 1 ∧ resolution.chart.sole? ref = some derivation ∧
      ∀ child ∈ derivation.children, resolution.Settled less child := by
  cases settled with
  | leaf done bare =>
    rw [bare] at member
    exact absurd member (Array.not_mem_empty _)
  | node done sole below =>
    rw [sole, Array.mem_singleton] at member
    rw [Chart.sole_eq_some_iff, member]
    exact ⟨_, rfl, sole, below⟩

private theorem compare_lexemes (sound : chart.Sound grammar input)
    (progress : Progress chart prefer resolution) {ref other : ItemRef} {offset offset' : Nat}
    (held : chart.Holds ref (.lexeme offset) offset)
    (held' : chart.Holds other (.lexeme offset') offset') {trees others : List Tree}
    (unfolds : resolution.chart.Unfolds [ref] trees)
    (unfolds' : resolution.chart.Unfolds [other] others) (depth : Nat) :
    resolution.chart.comparePart prefer depth (some ref) (some other) =
      compareTrees prefer trees others := by
  obtain rfl := (unfolds.mono progress.extends).eq_lexeme held
  obtain rfl := (unfolds'.mono progress.extends).eq_lexeme held'
  have bare : resolution.chart.sole? ref = none := by
    rw [Option.eq_none_iff_forall_ne_some]
    intro derivation sole
    have member : derivation ∈ chart.derivations ref := by
      apply progress.extends.derivations
      simp [Chart.sole_eq_some_iff.mp sole]
    rw [sound.derivations_lexeme held] at member
    exact Array.not_mem_empty _ member
  rw [compareTrees_lexeme, compareTrees_nil]
  cases depth with
  | zero => rfl
  | succ depth => simp [Chart.comparePart, Chart.comparedPair, bare]

/-- Comparing alike items of a resolved forest gives what comparing their trees gives. -/
theorem agrees (sound : chart.Sound grammar input) (progress : Progress chart prefer resolution)
    (order : StrictOrder prefer grammar.productions.size) (depth : Nat) :
    Agrees chart grammar input prefer resolution depth := by
  induction depth with
  | zero =>
    intro ref other trees others alike settled settled' unfolds unfolds'
    obtain ⟨offset, offset', held, held'⟩ | ⟨tag, start, first, held, held', plain⟩ := alike.tags
    · exact compare_lexemes sound progress held held' unfolds unfolds' 0
    · obtain ⟨derivation, member, -⟩ := unfolds.unwrap (progress.holds.mpr held) plain
      obtain ⟨less, impossible, -⟩ := settled.sole_of_mem member
      cases impossible
  | succ depth ih =>
    intro ref other trees others alike settled settled' unfolds unfolds'
    obtain ⟨offset, offset', held, held'⟩ | ⟨tag, start, first, held, held', plain⟩ := alike.tags
    · exact compare_lexemes sound progress held held' unfolds unfolds' _
    · by_cases same : ref = other
      · obtain rfl := same
        obtain rfl := unfolds_unique unfolds (by simpa using ⟨_, settled⟩) unfolds'
        obtain ⟨symbols, start, first, spelled, -⟩ :=
          alike.spells sound (unfolds.mono progress.extends) (unfolds'.mono progress.extends)
        rw [spelled.compare_self order]
        simp [Chart.comparePart, Chart.comparedPair]
      · obtain ⟨derivation, member, children, inner, rfl⟩ :=
          unfolds.unwrap (progress.holds.mpr held) plain
        obtain ⟨derivation', member', children', inner', rfl⟩ :=
          unfolds'.unwrap (progress.holds.mpr held') plain
        obtain ⟨_, ⟨⟩, sole, below⟩ := settled.sole_of_mem member
        obtain ⟨_, ⟨⟩, sole', below'⟩ := settled'.sole_of_mem member'
        rw [← ih.derivations sound progress order
          (sound.derived held (progress.extends.derivations member))
          (sound.derived held' (progress.extends.derivations member')) below below' inner inner']
        simp [Chart.comparePart, Chart.comparedPair, same, sole, sole']

end Resolution

end ChartParser
