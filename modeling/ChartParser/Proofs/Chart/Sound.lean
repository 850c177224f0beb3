import ChartParser.Proofs.Chart.Contents

namespace ChartParser.Chart

variable {α : Type} {grammar : Grammar α} {input : Array String} {chart : Chart}

theorem holds_iff {ref : ItemRef} {tag : Tag} {start : Nat} : chart.Holds ref tag start ↔
    ∃ set, chart.sets[ref.set]? = some set ∧ set.HoldsAt ref.place tag start := by
  simp only [Holds, item?, ItemSet.HoldsAt, Option.bind_eq_some_iff]
  constructor
  · intro held
    obtain ⟨item, ⟨set, found, at'⟩, same⟩ := held
    exact ⟨set, found, item, at', same⟩
  · intro present
    obtain ⟨set, found, item, at', same⟩ := present
    exact ⟨item, ⟨set, found, at'⟩, same⟩

theorem Holds.place_lt {ref : ItemRef} {tag : Tag} {start : Nat} {set : ItemSet}
    (held : chart.Holds ref tag start) (found : chart.sets[ref.set]? = some set) :
    ref.place < set.items.size := by
  obtain ⟨set', found', item, listed, -⟩ := holds_iff.mp held
  obtain rfl := Option.some.inj (found.symm.trans found')
  exact (Array.getElem?_eq_some_iff.mp listed).1

theorem derivations_eq {ref : ItemRef} {set : ItemSet} (found : chart.sets[ref.set]? = some set) :
    chart.derivations ref = set.derivationsAt ref.place := by
  simp only [derivations, item?, found, Option.bind_some, ItemSet.derivationsAt]
  cases set.items[ref.place]? <;> rfl

theorem Holds.unique {ref : ItemRef} {tag other : Tag} {start first : Nat}
    (held : chart.Holds ref tag start) (again : chart.Holds ref other first) :
    tag = other ∧ start = first := by
  obtain ⟨item, found, rfl, rfl⟩ := held
  obtain ⟨same, found', rfl, rfl⟩ := again
  obtain rfl := Option.some.inj (found.symm.trans found')
  exact ⟨rfl, rfl⟩

/-- Where the look-ups agree with the items, at most one item has a given tag and span. -/
theorem ref_unique_of_indexed (indexed : ∀ {set}, set ∈ chart.sets → set.Indexed grammar)
    {ref other : ItemRef} {tag : Tag} {start : Nat} (held : chart.Holds ref tag start)
    (again : chart.Holds other tag start) (same : ref.set = other.set) : ref = other := by
  obtain ⟨set, found, here⟩ := holds_iff.mp held
  obtain ⟨set', found', there⟩ := holds_iff.mp again
  rw [← same] at found'
  obtain rfl := Option.some.inj (found.symm.trans found')
  have places := (indexed (Array.mem_of_getElem? found)).place_unique here there
  cases ref
  cases other
  simp_all

theorem find_iff_of_indexed (indexed : ∀ {set}, set ∈ chart.sets → set.Indexed grammar)
    {tag : Tag} {first stop : Nat} {ref : ItemRef} : chart.find? tag first stop = some ref ↔
      ref.set = stop ∧ chart.Holds ref tag first := by
  simp only [find?, Option.bind_eq_some_iff, Option.map_eq_some_iff, holds_iff]
  constructor
  · intro located
    obtain ⟨set, found, place, known, rfl⟩ := located
    exact ⟨rfl, set, found, (indexed (Array.mem_of_getElem? found)).find_iff.mp known⟩
  · intro present
    obtain ⟨rfl, set, found, held⟩ := present
    exact ⟨set, found, ref.place, (indexed (Array.mem_of_getElem? found)).find_iff.mpr held, rfl⟩

namespace Sound

theorem ref_unique (sound : chart.Sound grammar input) {ref other : ItemRef} {tag : Tag}
    {start : Nat} (held : chart.Holds ref tag start) (again : chart.Holds other tag start)
    (same : ref.set = other.set) : ref = other :=
  ref_unique_of_indexed sound.indexed held again same

theorem covers_unique (sound : chart.Sound grammar input) {ref other : ItemRef} {symbol : Symbol}
    {start : Nat} (covers : chart.Covers grammar input ref symbol start)
    (again : chart.Covers grammar input other symbol start) (same : ref.set = other.set) :
    ref = other := by
  cases covers with
  | rule held =>
    cases again with
    | rule held' => exact sound.ref_unique held held' same
  | token held =>
    cases again with
    | token held' => exact sound.ref_unique held held' same

theorem leftPart_unique (sound : chart.Sound grammar input) {waiting : ItemRef}
    {position : Position} {start : Nat} {part other : Option ItemRef}
    (left : chart.LeftPart grammar input waiting position start part)
    (again : chart.LeftPart grammar input waiting position start other) : part = other := by
  cases left with
  | nothing dot =>
    cases again with
    | nothing => rfl
    | first dot' => omega
    | waiting dot' => omega
  | first dot symbol covers same =>
    cases again with
    | nothing dot' => omega
    | first dot' symbol' covers' same' =>
      obtain rfl := Option.some.inj (symbol.symm.trans symbol')
      rw [sound.covers_unique covers covers' (same.trans same'.symm)]
    | waiting dot' => omega
  | waiting dot =>
    cases again with
    | nothing dot' => omega
    | first dot' => omega
    | waiting => rfl

theorem lexeme_unique (sound : chart.Sound grammar input) {ref other : ItemRef}
    {offset offset' start start' : Nat} (held : chart.Holds ref (.lexeme offset) start)
    (again : chart.Holds other (.lexeme offset') start') (same : ref.set = other.set) :
    ref = other := by
  have placed := sound.placed held
  have placed' := sound.placed again
  generalize ended : ref.set = stop at placed
  rw [← same, ended] at placed'
  cases placed
  cases placed'
  exact sound.ref_unique held again same

theorem covers_ordered (sound : chart.Sound grammar input) {ref : ItemRef} {symbol : Symbol}
    {start : Nat} (covers : chart.Covers grammar input ref symbol start) : start ≤ ref.set := by
  cases covers with
  | rule held =>
    cases sound.placed held with
    | rule _ ordered => exact ordered
  | token _ next => omega

theorem advanced_of_covers {ref : ItemRef} {symbol : Symbol} {start : Nat}
    (covers : chart.Covers grammar input ref symbol start) :
    ∃ tag, chart.Holds ref tag start ∧ tag.Advanced := by
  cases covers with
  | rule held => exact ⟨_, held, trivial⟩
  | token held => exact ⟨_, held, trivial⟩

theorem grounded_covers (sound : chart.Sound grammar input) {ref : ItemRef} {symbol : Symbol}
    {start : Nat} (covers : chart.Covers grammar input ref symbol start) :
    ∃ trees, chart.Unfolds [ref] trees := by
  obtain ⟨tag, held, advanced⟩ := advanced_of_covers covers
  exact sound.grounded held advanced

end Sound

theorem tagBehind_cases (grammar : Grammar α) (position : Position) :
    (position.dot + 1 = (grammar.symbols position.production).size ∧
      grammar.tagBehind position = .rule (grammar.ruleOf position.production)) ∨
    (position.dot + 1 ≠ (grammar.symbols position.production).size ∧
      grammar.tagBehind position = .dotted ⟨position.production, position.dot + 1⟩) := by
  unfold Grammar.tagBehind
  split
  · exact .inl ⟨‹_›, rfl⟩
  · exact .inr ⟨‹_›, rfl⟩

theorem tagBehind_eq_dotted {position next : Position}
    (same : grammar.tagBehind position = .dotted next) :
    next = ⟨position.production, position.dot + 1⟩ := by
  obtain ⟨-, tag⟩ | ⟨-, tag⟩ := tagBehind_cases grammar position
  · rw [tag] at same
    cases same
  · exact (Tag.dotted.inj (tag.symm.trans same)).symm

theorem tagBehind_injective {position other : Position}
    (tags : grammar.tagBehind position = grammar.tagBehind other)
    (productions : position.production = other.production) : position = other := by
  have dots : position.dot = other.dot := by
    obtain ⟨last, tag⟩ | ⟨-, tag⟩ := tagBehind_cases grammar position
    · obtain ⟨last', -⟩ | ⟨-, tag'⟩ := tagBehind_cases grammar other
      · rw [← productions] at last'
        omega
      · rw [tag, tag'] at tags
        cases tags
    · obtain ⟨-, tag'⟩ | ⟨-, tag'⟩ := tagBehind_cases grammar other
      · rw [tag, tag'] at tags
        cases tags
      · rw [tag, tag', Tag.dotted.injEq, Position.mk.injEq] at tags
        exact Nat.succ.inj tags.2
  cases position
  cases other
  exact congrArg₂ Position.mk productions dots

/-- The derivations of an item behind the first symbol have that symbol's item as their only
child. -/
theorem Sound.split_first (sound : chart.Sound grammar input) {position : Position}
    {start stop : Nat} {derivation : Derivation} (dot : position.dot = 1)
    (split : chart.Splits grammar input (.dotted position) start stop derivation) :
    ∃ ref symbol, derivation = ⟨none, some ref, position.production⟩ ∧ ref.set = stop ∧
      (grammar.symbols position.production)[0]? = some symbol ∧
      chart.Covers grammar input ref symbol start := by
  generalize tagged : Tag.dotted position = tag at split
  cases split with
  | empty => cases tagged
  | @step waiting before start symbol completed part held next covers left =>
    obtain rfl := tagBehind_eq_dotted tagged.symm
    have fresh : before.dot = 0 := by simpa using dot
    cases sound.placed held with
    | dotted _ _ _ began =>
      have began := began fresh
      cases left with
      | nothing =>
        refine ⟨completed, symbol, rfl, rfl, ?_, began ▸ covers⟩
        simpa [Grammar.next?, fresh] using next
      | first dot' => omega
      | waiting dot' => omega

theorem Unfolds.wrap {ref : ItemRef} {tag : Tag} {start : Nat} {derivation : Derivation}
    {children : List Tree} (held : chart.Holds ref tag start)
    (plain : ∀ offset, tag ≠ .lexeme offset) (member : derivation ∈ chart.derivations ref)
    (inner : chart.Unfolds derivation.children children) :
    chart.Unfolds [ref] (tag.wrap derivation.production children) := by
  cases tag with
  | lexeme offset => exact absurd rfl (plain offset)
  | dotted position =>
    have unfolds := Unfolds.dotted held member inner .nil
    rwa [List.append_nil] at unfolds
  | rule index => exact .rule held member inner .nil

theorem Unfolds.unwrap {ref : ItemRef} {trees : List Tree} (unfolds : chart.Unfolds [ref] trees)
    {tag : Tag} {start : Nat} (held : chart.Holds ref tag start)
    (plain : ∀ offset, tag ≠ .lexeme offset) :
    ∃ derivation ∈ chart.derivations ref, ∃ children,
      chart.Unfolds derivation.children children ∧
        trees = tag.wrap derivation.production children := by
  cases unfolds with
  | lexeme held' => exact absurd (held.unique held').1 (plain _)
  | dotted held' member inner rest =>
    cases rest
    obtain ⟨rfl, -⟩ := held.unique held'
    exact ⟨_, member, _, inner, List.append_nil _⟩
  | rule held' member inner rest =>
    cases rest
    obtain ⟨rfl, -⟩ := held.unique held'
    exact ⟨_, member, _, inner, rfl⟩

theorem Unfolds.split {nodes more : List ItemRef} {trees : List Tree}
    (unfolds : chart.Unfolds (nodes ++ more) trees) :
    ∃ front back, trees = front ++ back ∧ chart.Unfolds nodes front ∧ chart.Unfolds more back := by
  induction nodes generalizing trees with
  | nil => exact ⟨[], trees, rfl, .nil, unfolds⟩
  | cons ref nodes ih =>
    cases unfolds with
    | lexeme held rest =>
      obtain ⟨front, back, rfl, here, there⟩ := ih rest
      exact ⟨_, back, rfl, .lexeme held here, there⟩
    | dotted held member inner rest =>
      obtain ⟨front, back, rfl, here, there⟩ := ih rest
      exact ⟨_, back, (List.append_assoc _ _ _).symm, .dotted held member inner here, there⟩
    | rule held member inner rest =>
      obtain ⟨front, back, rfl, here, there⟩ := ih rest
      exact ⟨_, back, rfl, .rule held member inner here, there⟩

theorem Unfolds.eq_lexeme {ref : ItemRef} {trees : List Tree} {offset start : Nat}
    (unfolds : chart.Unfolds [ref] trees) (held : chart.Holds ref (.lexeme offset) start) :
    trees = [.lexeme offset] := by
  cases unfolds with
  | lexeme held' rest =>
    cases rest
    obtain ⟨tags, -⟩ := held.unique held'
    cases tags
    rfl
  | dotted held' => cases (held.unique held').1
  | rule held' => cases (held.unique held').1

theorem Sound.nodup_derivations (sound : chart.Sound grammar input) (ref : ItemRef) :
    (chart.derivations ref).toList.Nodup := by
  cases found : chart.sets[ref.set]? with
  | none => simp [derivations, item?, found]
  | some set =>
    rw [derivations_eq found]
    exact sound.distinct (Array.mem_of_getElem? found) ref.place

private theorem eq_singleton {β : Type} {values : List β} {value : β} (member : value ∈ values)
    (only : ∀ other ∈ values, other = value) (distinct : values.Nodup) : values = [value] := by
  match values with
  | [] => cases member
  | [first] => rw [only first (List.mem_singleton_self _)]
  | first :: second :: rest =>
    have same := (only first (by simp)).trans (only second (by simp)).symm
    simp [same] at distinct

/-- The item behind the first symbol of a production has exactly one derivation. -/
theorem Sound.sole_first (sound : chart.Sound grammar input) {waiting : ItemRef}
    {position : Position} {start : Nat} (dot : position.dot = 1)
    (held : chart.Holds waiting (.dotted position) start) :
    ∃ ref symbol, chart.derivations waiting = #[⟨none, some ref, position.production⟩] ∧
      ref.set = waiting.set ∧ (grammar.symbols position.production)[0]? = some symbol ∧
      chart.Covers grammar input ref symbol start := by
  have advanced : Tag.Advanced (.dotted position) := by
    simp [Tag.Advanced, dot]
  obtain ⟨trees, unfolds⟩ := sound.grounded held advanced
  obtain ⟨derivation, member, -⟩ := unfolds.unwrap held (by simp)
  obtain ⟨ref, symbol, rfl, same, first, covers⟩ :=
    sound.split_first dot (sound.derived held member)
  refine ⟨ref, symbol, ?_, same, first, covers⟩
  have only : ∀ other ∈ (chart.derivations waiting).toList,
      other = ⟨none, some ref, position.production⟩ := by
    intro other member'
    obtain ⟨ref', symbol', rfl, same', first', covers'⟩ :=
      sound.split_first dot (sound.derived held (Array.mem_toList_iff.mp member'))
    obtain rfl := Option.some.inj (first.symm.trans first')
    rw [sound.covers_unique covers covers' (same.trans same'.symm)]
  exact Array.toList_inj.mp
    (eq_singleton (Array.mem_toList_iff.mpr member) only (sound.nodup_derivations waiting))

/-- Parts that match symbols from one offset to another can be joined if they are next to each
other. -/
structure Adjoins {τ : Type} (spans : List τ → List Symbol → Nat → Nat → Prop) : Prop where
  nil : ∀ offset, spans [] [] offset offset
  append : ∀ {part further symbols more start middle stop}, spans part symbols start middle →
    spans further more middle stop → spans (part ++ further) (symbols ++ more) start stop

/-- The part spans whatever symbols the item has matched, and where. -/
def Fits {α τ : Type} (chart : Chart) (grammar : Grammar α) (input : Array String)
    (spans : List τ → List Symbol → Nat → Nat → Prop) (ref : ItemRef) (part : List τ) : Prop :=
  ∀ symbols start, chart.Matches grammar input ref symbols start →
    spans part symbols start ref.set

theorem matchedBy_tagBehind {position : Position} {symbol : Symbol}
    (next : grammar.next? position = some symbol) :
    grammar.matchedBy position.production (grammar.tagBehind position) =
      (grammar.symbols position.production).toList.take position.dot ++ [symbol] := by
  obtain ⟨inside, value⟩ := Array.getElem?_eq_some_iff.mp next
  have whole : (grammar.symbols position.production).toList.take (position.dot + 1) =
      (grammar.symbols position.production).toList.take position.dot ++ [symbol] := by
    rw [List.take_succ_eq_append_getElem (by simpa using inside)]
    simp [value]
  obtain ⟨last, tag⟩ | ⟨-, tag⟩ := tagBehind_cases grammar position
  · rw [← whole, tag, last, Grammar.matchedBy, List.take_of_length_le (by simp)]
  · rw [← whole, tag, Grammar.matchedBy]

theorem take_first {position : Position} (dot : position.dot = 1) {symbol : Symbol}
    (first : (grammar.symbols position.production)[0]? = some symbol) :
    (grammar.symbols position.production).toList.take position.dot = [symbol] := by
  rw [dot, List.take_one, List.head?_eq_getElem?]
  simpa using first

/-- Parts that span what the children of a derivation have matched together span what its item has
matched. -/
theorem Splits.assemble {τ : Type} {spans : List τ → List Symbol → Nat → Nat → Prop}
    (adjoins : Adjoins spans) (sound : chart.Sound grammar input) {tag : Tag} {start stop : Nat}
    {derivation : Derivation} (split : chart.Splits grammar input tag start stop derivation)
    {parts : List (List τ)}
    (below : List.Forall₂ (chart.Fits grammar input spans) derivation.children parts) :
    spans parts.flatten (grammar.matchedBy derivation.production tag) start stop := by
  cases split with
  | empty known bare =>
    cases below
    simpa [Grammar.matchedBy, bare] using adjoins.nil _
  | @step waiting position start symbol completed part held next covers left =>
    rw [matchedBy_tagBehind next]
    cases left with
    | nothing dot =>
      obtain ⟨last, after, fits, rest, rfl⟩ := List.forall₂_cons_left_iff.mp below
      obtain rfl := List.forall₂_nil_left_iff.mp rest
      cases sound.placed held with
      | dotted _ _ _ fresh =>
        have spanned := fits _ _ (.symbol covers)
        rw [← fresh dot] at spanned
        simpa [dot] using spanned
    | @first opening ref dot first opens same =>
      obtain ⟨front, others, fits, rest, rfl⟩ := List.forall₂_cons_left_iff.mp below
      obtain ⟨last, after, fits', done, rfl⟩ := List.forall₂_cons_left_iff.mp rest
      obtain rfl := List.forall₂_nil_left_iff.mp done
      have spanned := fits _ _ (.symbol opens)
      rw [same] at spanned
      simpa [take_first dot first] using adjoins.append spanned (fits' _ _ (.symbol covers))
    | waiting dot =>
      obtain ⟨front, others, fits, rest, rfl⟩ := List.forall₂_cons_left_iff.mp below
      obtain ⟨last, after, fits', done, rfl⟩ := List.forall₂_cons_left_iff.mp rest
      obtain rfl := List.forall₂_nil_left_iff.mp done
      have spanned := fits _ _ (.dotted held (by omega))
      simpa using adjoins.append spanned (fits' _ _ (.symbol covers))

theorem Splits.production (sound : chart.Sound grammar input) {tag : Tag} {start stop : Nat}
    {derivation : Derivation} (split : chart.Splits grammar input tag start stop derivation) :
    derivation.production < grammar.productions.size ∧
      tag.Serves grammar derivation.production := by
  cases split with
  | empty known => exact ⟨known, rfl⟩
  | step held =>
    cases sound.placed held with
    | dotted known =>
      refine ⟨known, ?_⟩
      obtain ⟨-, tag⟩ | ⟨-, tag⟩ := tagBehind_cases grammar _
      · rw [tag]
        rfl
      · rw [tag]
        rfl

theorem Splits.advanced {tag : Tag} {start stop : Nat} {derivation : Derivation}
    (split : chart.Splits grammar input tag start stop derivation) : tag.Advanced := by
  cases split with
  | empty => exact trivial
  | step =>
    obtain ⟨-, tag⟩ | ⟨-, tag⟩ := tagBehind_cases grammar _
    · rw [tag]
      exact trivial
    · rw [tag]
      exact Nat.succ_ne_zero _

theorem Matches.holds {ref : ItemRef} {symbols : List Symbol} {start : Nat}
    (matched : chart.Matches grammar input ref symbols start) :
    ∃ tag, chart.Holds ref tag start := by
  cases matched with
  | symbol covers =>
    obtain ⟨tag, held, -⟩ := Sound.advanced_of_covers covers
    exact ⟨tag, held⟩
  | dotted held => exact ⟨_, held⟩

theorem Matches.lexeme_inv {ref : ItemRef} {offset start first : Nat} {symbols : List Symbol}
    (matched : chart.Matches grammar input ref symbols first)
    (held : chart.Holds ref (.lexeme offset) start) : ∃ token lexeme,
      symbols = [.token token] ∧ first = offset ∧ ref.set = offset + 1 ∧
      input[offset]? = some lexeme ∧ grammar.tokenMatches token lexeme = true := by
  cases matched with
  | symbol covers =>
    cases covers with
    | rule held' => cases (held.unique held').1
    | token held' next read matched =>
      obtain ⟨tags, -⟩ := held.unique held'
      cases tags
      exact ⟨_, _, rfl, rfl, next, read, matched⟩
  | dotted held' => cases (held.unique held').1

theorem Matches.dotted_inv {ref : ItemRef} {position : Position} {start first : Nat}
    {symbols : List Symbol} (matched : chart.Matches grammar input ref symbols first)
    (held : chart.Holds ref (.dotted position) start) :
    symbols = (grammar.symbols position.production).toList.take position.dot ∧ first = start := by
  cases matched with
  | symbol covers =>
    cases covers with
    | rule held' => cases (held.unique held').1
    | token held' => cases (held.unique held').1
  | dotted held' =>
    obtain ⟨tags, starts⟩ := held.unique held'
    cases tags
    exact ⟨rfl, starts.symm⟩

theorem Matches.rule_inv {ref : ItemRef} {index start first : Nat} {symbols : List Symbol}
    (matched : chart.Matches grammar input ref symbols first)
    (held : chart.Holds ref (.rule index) start) : symbols = [.rule index] ∧ first = start := by
  cases matched with
  | symbol covers =>
    cases covers with
    | rule held' =>
      obtain ⟨tags, starts⟩ := held.unique held'
      cases tags
      exact ⟨rfl, starts.symm⟩
    | token held' => cases (held.unique held').1
  | dotted held' => cases (held.unique held').1

/-- If the trees of lexemes and rules span what these have matched, so do all trees that items stand
for. -/
theorem Unfolds.assemble {spans : List Tree → List Symbol → Nat → Nat → Prop}
    (adjoins : Adjoins spans) (sound : chart.Sound grammar input) (within : ItemRef → Prop)
    (inside : ∀ {ref derivation child}, within ref → derivation ∈ chart.derivations ref →
      child ∈ derivation.children → within child)
    (lexeme : ∀ {offset token lexeme}, input[offset]? = some lexeme →
      grammar.tokenMatches token lexeme = true →
      spans [.lexeme offset] [.token token] offset (offset + 1))
    (rule : ∀ {ref start derivation children}, within ref →
      chart.Holds ref (.rule (grammar.ruleOf derivation.production)) start →
      derivation.production < grammar.productions.size → derivation ∈ chart.derivations ref →
      chart.Unfolds derivation.children children →
      spans children (grammar.symbols derivation.production).toList start ref.set →
      spans [.rule derivation.production children]
        [.rule (grammar.ruleOf derivation.production)] start ref.set)
    {nodes : List ItemRef} {trees : List Tree} (unfolds : chart.Unfolds nodes trees)
    (all : ∀ ref ∈ nodes, within ref) :
    ∃ parts, trees = parts.flatten ∧
      List.Forall₂ (chart.Fits grammar input spans) nodes parts := by
  induction unfolds with
  | nil => exact ⟨[], rfl, .nil⟩
  | @lexeme ref offset start nodes trees held _ ih =>
    rw [List.forall_mem_cons] at all
    obtain ⟨parts, rfl, below⟩ := ih all.2
    refine ⟨[.lexeme offset] :: parts, rfl, .cons ?_ below⟩
    intro symbols first matched
    obtain ⟨token, text, rfl, rfl, next, read, matched⟩ := matched.lexeme_inv held
    rw [next]
    exact lexeme read matched
  | @dotted ref position start derivation children nodes trees held member unfolds _ inner rest =>
    rw [List.forall_mem_cons] at all
    obtain ⟨parts, rfl, below⟩ := inner fun child listed => inside all.1 member listed
    obtain ⟨others, rfl, later⟩ := rest all.2
    refine ⟨parts.flatten :: others, rfl, .cons ?_ later⟩
    intro symbols first matched
    obtain ⟨rfl, rfl⟩ := matched.dotted_inv held
    have split := sound.derived held member
    have spanned := split.assemble adjoins sound below
    rwa [Grammar.matchedBy, (split.production sound).2] at spanned
  | @rule ref index start derivation children nodes trees held member unfolds _ inner rest =>
    rw [List.forall_mem_cons] at all
    obtain ⟨parts, rfl, below⟩ := inner fun child listed => inside all.1 member listed
    obtain ⟨others, rfl, later⟩ := rest all.2
    refine ⟨[.rule derivation.production parts.flatten] :: others, rfl, .cons ?_ later⟩
    intro symbols first matched
    obtain ⟨rfl, rfl⟩ := matched.rule_inv held
    have split := sound.derived held member
    obtain ⟨known, owner⟩ := split.production sound
    obtain rfl := owner
    exact rule all.1 held known member unfolds (split.assemble adjoins sound below)

theorem Spells.adjoins : Adjoins (Spells grammar input) :=
  ⟨fun _ => .nil, fun spelled further => spelled.append further⟩

theorem Unfolds.spells_single (sound : chart.Sound grammar input) {ref : ItemRef}
    {trees : List Tree} {symbols : List Symbol} {start : Nat} (unfolds : chart.Unfolds [ref] trees)
    (matched : chart.Matches grammar input ref symbols start) :
    Spells grammar input trees symbols start ref.set := by
  obtain ⟨parts, rfl, below⟩ := unfolds.assemble Spells.adjoins sound (fun _ => True)
    (fun _ _ _ => trivial) (fun read matched => .lexeme read matched .nil)
    (fun _ _ known _ _ spelled => .rule known spelled .nil) (by simp)
  obtain ⟨part, others, fits, rest, rfl⟩ := List.forall₂_cons_left_iff.mp below
  obtain rfl := List.forall₂_nil_left_iff.mp rest
  simpa using fits _ _ matched

end ChartParser.Chart
