import ChartParser.Proofs.Acyclicity
import ChartParser.Proofs.LexemeScan
import ChartParser.Proofs.Traversal.Loop

/-! Lexemes are reported as the tokens that they were matched as. One item stands for a lexeme,
whichever tokens it has matched. A walk tells the token of each visit from the production that it
comes from. -/
namespace ChartParser

/-- The place of a production that the dot of a node with this tag is at. Rules have it at the
end. -/
def Tag.dotIn {α : Type} (grammar : Grammar α) (production : Nat) : Tag → Nat
  | .dotted position => position.dot
  | _ => (grammar.symbols production).size

/-- The token is the symbol that a child of a derivation stands for: the first one of the production
if it is the left child, and the one in front of the dot if it is the right child. It cannot be
both. -/
inductive Grammar.TokenOf {α : Type} (grammar : Grammar α) (tag : Tag) (derivation : Derivation)
    (ref : ItemRef) (token : Nat) : Prop
  | left (left : derivation.left = some ref) (apart : derivation.right ≠ some ref)
      (first : (grammar.symbols derivation.production)[0]? = some (.token token)) :
      TokenOf grammar tag derivation ref token
  | right (right : derivation.right = some ref) (apart : derivation.left ≠ some ref)
      (behind : 0 < tag.dotIn grammar derivation.production)
      (last : (grammar.symbols derivation.production)[
        tag.dotIn grammar derivation.production - 1]? = some (.token token)) :
      TokenOf grammar tag derivation ref token

variable {α : Type} {grammar : Grammar α} {input : Array String} {chart : Chart}

theorem Grammar.tokenAt_eq_some_iff {production place token : Nat} :
    grammar.tokenAt production place = some token ↔
      (grammar.symbols production)[place]? = some (.token token) := by
  unfold tokenAt
  split
  · simp [*]
  · rename_i plain
    simp only [reduceCtorEq, false_iff]
    exact plain token

theorem Grammar.walkChildren_eq (grammar : Grammar α) (tag : Tag) (derivation : Derivation) :
    grammar.walkChildren tag derivation =
      derivation.left.toList.map (⟨·, grammar.tokenAt derivation.production 0⟩) ++
        derivation.right.toList.map (⟨·, if tag.dotIn grammar derivation.production = 0 then none
          else grammar.tokenAt derivation.production
            (tag.dotIn grammar derivation.production - 1)⟩) := by
  cases tag <;> rfl

namespace Chart

/-- A lexeme is not both children of a derivation, as the right child begins where the left one
ends. -/
theorem Splits.lexeme_apart {tag : Tag} {start stop : Nat} {derivation : Derivation}
    (split : chart.Splits grammar input tag start stop derivation) {ref : ItemRef}
    {offset first : Nat} (held : chart.Holds ref (.lexeme offset) first)
    (left : derivation.left = some ref) : derivation.right ≠ some ref := by
  intro right
  cases split with
  | empty => cases left
  | step held' next covers before =>
    cases right
    cases before with
    | nothing => cases left
    | first dot symbol opens same =>
      cases left
      cases covers with
      | rule held'' => cases (held.unique held'').1
      | token _ behind => exact absurd (same.symm.trans behind) (Nat.ne_of_lt (Nat.lt_succ_self _))
    | waiting =>
      cases left
      cases (held.unique held').1

theorem Splits.tokenOf {tag : Tag} {start stop : Nat} {derivation : Derivation}
    (split : chart.Splits grammar input tag start stop derivation) {child : WalkChild}
    (listed : child ∈ grammar.walkChildren tag derivation) {offset first : Nat}
    (held : chart.Holds child.ref (.lexeme offset) first) :
    ∃ token lexeme, child.token = some token ∧
      grammar.TokenOf tag derivation child.ref token ∧ input[offset]? = some lexeme ∧
      grammar.tokenMatches token lexeme = true := by
  obtain ⟨token, lexeme, named, read, matched⟩ := (split.asked child listed).token held
  refine ⟨token, lexeme, named, ?_, read, matched⟩
  have apart := split.lexeme_apart held
  rw [Grammar.walkChildren_eq, List.mem_append, List.mem_map, List.mem_map] at listed
  rcases listed with ⟨ref, left, rfl⟩ | ⟨ref, right, rfl⟩
  · have left := Option.mem_toList.mp left
    exact .left left (apart left) (Grammar.tokenAt_eq_some_iff.mp named)
  · have right := Option.mem_toList.mp right
    rw [Option.ite_none_left_eq_some] at named
    exact .right right (fun left => apart left right) (Nat.pos_of_ne_zero named.1)
      (Grammar.tokenAt_eq_some_iff.mp named.2)

end Chart

namespace Traversal

variable {σ κ β γ ρ ε : Type} {contract : Contract σ κ β γ ρ ε}

theorem Contract.Nested.forall_held {root : κ} {awaited : List κ} {stack : List (Frame κ β γ ρ)}
    (nested : contract.Nested root awaited stack) :
    ∀ frame ∈ stack, contract.held frame.child frame.held := by
  induction stack generalizing awaited with
  | nil => exact nofun
  | cons frame around ih => exact List.forall_mem_cons.mpr ⟨nested.1.held, ih nested.2⟩

end Traversal

namespace Forest

open Traversal

variable {start : Nat} {forest : Forest} {σ ο δ ε : Type} {visitor : Visitor σ ο δ ε} {state : σ}
  {config : WalkConfig σ ο δ}

/-- A lexeme is never turned away: it is not open, and there is room for it. -/
theorem Sound.enters_lexeme (sound : forest.Sound grammar start input)
    (walks : forest.Walks grammar visitor state config) {child : WalkChild}
    (next : config.child? = some child) {offset first : Nat}
    (held : forest.chart.Holds child.ref (.lexeme offset) first) :
    config.marks.contains child.ref = false ∧ config.room ≠ 0 := by
  have keeps := (visitor.respects_uniform grammar input forest).keeps sound.chart
  have marking := visitor.marking grammar forest.chart
  have closed : config.marks.contains child.ref = false := by
    obtain ⟨ordered, -⟩ := Reaches.ordered marking Chart.contains_marks trivial walks
    obtain ⟨-, nested⟩ := keeps.reaches (asked_root _ _ _ sound.root) trivial walks
    refine Bool.eq_false_iff.mpr fun marked => ?_
    obtain ⟨frame, listed, same⟩ := List.mem_map.mp ((ordered.marked _).mp marked)
    have kept := nested.forall_held frame listed
    obtain ⟨begin, present⟩ := kept.held
    change frame.child.ref = child.ref at same
    rw [same] at present
    exact kept.plain offset (present.unique held).1
  refine ⟨closed, keeps.room_ne_zero marking Chart.contains_marks ?_ forest.roomy
    (asked_root _ _ _ sound.root) trivial trivial walks next closed⟩
  intro other asked
  obtain ⟨tag, begin, held, -⟩ := asked.1.advanced
  exact (Chart.isSome_flag_marks _).trans (Chart.holds_iff_item.mp ⟨tag, begin, held⟩)

/-- The step that comes to a lexeme hands it to the visitor with its token, and keeps the value. -/
theorem Sound.step_lexeme (sound : forest.Sound grammar start input)
    (walks : forest.Walks grammar visitor state config) {child : WalkChild}
    (next : config.child? = some child) {offset first token : Nat}
    (held : forest.chart.Holds child.ref (.lexeme offset) first)
    (named : child.token = some token) :
    ∃ frame around, config.stack = frame :: around ∧
      (visitor.traversal grammar forest.chart).step config =
        match visitor.derivation [] config.state >>= fun (state, made) =>
          visitor.symbol (.lexeme offset token) made state with
        | .error stop => .done (.error stop)
        | .ok (state, value) =>
          let walked := { frame with pending := frame.pending.tail }
          .next { config with stack := walked.receive (some (.node value)) :: around, state } := by
  obtain ⟨closed, space⟩ := sound.enters_lexeme walks next held
  obtain ⟨item, found, tagged, -⟩ := held
  have entered : (visitor.traversal grammar forest.chart).enter child config.state = _ :=
    visitor.enter_lexeme grammar found tagged named config.state
  obtain ⟨room, stack, marks, current⟩ := config
  cases stack with
  | nil => cases next
  | cons frame around =>
    obtain ⟨node, kept, alternative, results, pending, rest⟩ := frame
    cases pending with
    | nil => cases next
    | cons other pending =>
      obtain rfl : other = child := Option.some.inj next
      obtain ⟨room, rfl⟩ := Nat.exists_eq_succ_of_ne_zero space
      refine ⟨_, around, rfl, ?_⟩
      have free : marks.contains ((visitor.traversal grammar forest.chart).node other) = false :=
        closed
      simp only [Traversal.step, descend, free, Bool.false_eq_true, if_false, entered]
      cases visitor.derivation [] current >>= fun (state, made) =>
        visitor.symbol (.lexeme offset token) made state <;> rfl

/-- Lexemes are reported as the tokens that they were matched as, in every walk of a parsed forest,
cyclic or not, and after any disambiguations. When the next child of a derivation is a lexeme, it is
asked for with a token: the first symbol of the production for a left child, and the symbol in front
of the dot for a right one. The lexeme of the input matches this token, and the step hands it to the
visitor as that token. -/
theorem walk_tokens {draft : Draft α} {range : IndexRange}
    (built : draft.build range = .ok grammar)
    (success : (grammar.parse start input).2 = .ok forest)
    (preferences : List (Nat → Nat → Bool)) :
    let after := forest.disambiguateAll preferences
    ∀ {σ ο δ ε : Type} (visitor : Visitor σ ο δ ε) (state : σ) (config : WalkConfig σ ο δ)
      (child : WalkChild) (offset first : Nat), after.Walks grammar visitor state config →
      config.child? = some child → after.chart.Holds child.ref (.lexeme offset) first →
      ∃ frame around tag begin derivation token lexeme,
        config.stack = frame :: around ∧ frame.current = some derivation ∧
        after.chart.Holds frame.child.ref tag begin ∧
        derivation ∈ after.chart.derivations frame.child.ref ∧
        child.token = some token ∧ grammar.TokenOf tag derivation child.ref token ∧
        input[offset]? = some lexeme ∧ grammar.tokenMatches token lexeme = true ∧
        (visitor.traversal grammar after.chart).step config =
          match visitor.derivation [] config.state >>= fun (state, made) =>
            visitor.symbol (.lexeme offset token) made state with
          | .error stop => .done (.error stop)
          | .ok (state, value) =>
            let walked := { frame with pending := frame.pending.tail }
            .next { config with stack := walked.receive (some (.node value)) :: around, state } := by
  have parsed := Grammar.parsed_of_parse (Draft.build_wellFormed built) success
  have sound := parsed.sound.disambiguateAll preferences
  intro after σ ο δ ε visitor state config child offset first walks next held
  have keeps := (visitor.respects_uniform grammar input after).keeps sound.chart
  obtain ⟨-, nested⟩ := keeps.reaches (asked_root _ _ _ sound.root) trivial walks
  obtain ⟨frame, listed, first'⟩ := Option.bind_eq_some_iff.mp next
  obtain ⟨around, stacked⟩ := List.head?_eq_some_iff.mp listed
  obtain ⟨pending, awaited⟩ := List.head?_eq_some_iff.mp first'
  rw [stacked] at nested
  have busy : frame.current ≠ none := fun idle => by simp [nested.1.idle idle] at awaited
  obtain ⟨derivation, searched⟩ := Option.ne_none_iff_exists'.mp busy
  obtain ⟨visited, ⟨member, tag, begin, present, children⟩, -⟩ :=
    nested.1.current derivation searched
  have listed : child ∈ grammar.walkChildren tag derivation := by
    rw [← children, awaited]
    simp
  obtain ⟨token, lexeme, named, place, read, matched⟩ :=
    (sound.chart.derived present member).tokenOf listed held
  obtain ⟨frame', around', same, steps⟩ := sound.step_lexeme walks next held named
  obtain ⟨rfl, rfl⟩ := List.cons.inj (stacked.symm.trans same)
  exact ⟨frame, around, tag, begin, derivation, token, lexeme, stacked, searched, present, member,
    named, place, read, matched, steps⟩

/-- The walk after so many steps, if it lasts that long. -/
def walkAfter (forest : Forest) (grammar : Grammar α) (visitor : Visitor σ ο δ ε) (state : σ)
    (count : Nat) : Option (WalkConfig σ ο δ) :=
  match forest.itemCount, visitor.enter grammar forest.chart ⟨forest.root, none⟩ state with
  | room + 1, .ok (next, .opened alternatives held) =>
    (visitor.traversal grammar forest.chart).after count
      ⟨room, [.start ⟨forest.root, none⟩ alternatives held],
        forest.chart.marks.insert forest.root, next⟩
  | _, _ => none

theorem walks_of_walkAfter {count : Nat}
    (found : forest.walkAfter grammar visitor state count = some config) :
    forest.Walks grammar visitor state config := by
  unfold walkAfter at found
  split at found
  · rename_i room next alternatives held items entered
    rw [Walks, items]
    exact (Reaches.start entered).after found
  · cases found

/-- The lexeme of the first half is one item, and three derivations of the half come to it. It is
asked for as the token that it is the name of, and as each of the two classes. -/
theorem walk_tokens_halves :
    ∃ forest, ((Draft.halves.number .bits8).parse 0 #["ab", "two"]).2 = .ok forest ∧
      ∀ token ∈ [0, 1, 2], ∃ config tag derivation,
        forest.Walks (Draft.halves.number .bits8) counter () config ∧
        config.child? = some ⟨⟨1, 0⟩, some token⟩ ∧
        (Draft.halves.number .bits8).TokenOf tag derivation ⟨1, 0⟩ token ∧
        (Draft.halves.number .bits8).tokenMatches token "ab" = true := by
  obtain ⟨forest, success⟩ := Grammar.exists_forest_iff.mpr (show
    ((Draft.halves.number .bits8).parse 0 #["ab", "two"]).2.toOption.isSome = true by
      decide +kernel)
  have checked : ((Draft.halves.number .bits8).parse 0 #["ab", "two"]).2.toOption.all
      (fun forest => decide (
        ((forest.chart.item? ⟨1, 0⟩).map fun item => (item.tag, item.start)) =
          some (.lexeme 0, 0) ∧
        ∀ token ∈ [0, 1, 2], ((forest.walkAfter (Draft.halves.number .bits8) counter ()
          (3 + 3 * token)).bind Config.child?) = some ⟨⟨1, 0⟩, some token⟩)) = true := by
    decide +kernel
  simp only [success, Except.toOption, Option.all_some, decide_eq_true_eq] at checked
  obtain ⟨lexeme, asked⟩ := checked
  obtain ⟨item, found, same⟩ := Option.map_eq_some_iff.mp lexeme
  rw [Prod.mk.injEq] at same
  refine ⟨forest, success, fun token listed => ?_⟩
  obtain ⟨config, after, next⟩ := Option.bind_eq_some_iff.mp (asked token listed)
  have walks := walks_of_walkAfter after
  obtain ⟨-, -, tag, -, derivation, token', text, -, -, -, -, named, place, read, matched, -⟩ :=
    walk_tokens Draft.build_halves success [] counter () config _ 0 0 walks next
      ⟨item, found, same⟩
  cases named
  cases read
  exact ⟨config, tag, derivation, walks, next, place, matched⟩

end Forest

end ChartParser
