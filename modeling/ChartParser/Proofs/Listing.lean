import ChartParser.Proofs.RecursiveWalk
import ChartParser.Proofs.Walking

/-! The printed form of a forest. It is put together from the leaves upwards, by moving lines that
have been made further in, but it is the list of the nodes from the root downwards, each with as
many blanks as it is deep. -/
namespace ChartParser

section Lines

def lineAt (depth : Nat) (text : String) : String := "".pushn ' ' depth ++ text ++ "\n"

/-- Lines that are moved in by a depth, one after the other. -/
def Line.textAt (depth : Nat) (lines : List Line) : String :=
  String.join (lines.map fun line => lineAt (depth + line.indent) line.text)

theorem Line.textAt_cons (depth : Nat) (line : Line) (lines : List Line) :
    Line.textAt depth (line :: lines) =
      lineAt (depth + line.indent) line.text ++ Line.textAt depth lines := by
  simp [textAt]

theorem Line.textAt_append (depth : Nat) (lines others : List Line) :
    Line.textAt depth (lines ++ others) =
      Line.textAt depth lines ++ Line.textAt depth others := by
  simp [textAt]

theorem Line.textAt_indented (depth : Nat) (lines : List Line) :
    Line.textAt depth (lines.map Line.indented) = Line.textAt (depth + 1) lines := by
  simp only [textAt, List.map_map]
  congr 2
  funext line
  simp [Line.indented, Nat.add_comm, Nat.add_left_comm]

theorem Line.textAt_flatMap {τ : Type} (depth : Nat) (parts : List τ) (lines : τ → List Line) :
    Line.textAt depth (parts.flatMap lines) =
      String.join (parts.map fun part => Line.textAt depth (lines part)) := by
  induction parts with
  | nil => rfl
  | cons part parts ih => simp [Line.textAt_append, ih]

end Lines

section Listing

variable {α : Type}

def canWalk (can : WalkChild → Bool) : Tag → List (List WalkChild) → Bool
  | .dotted _, [] => true
  | _, alternatives => alternatives.any (·.all can)

/-- A choice at a depth: its name, and the alternatives that can be walked. -/
def listChoice (can : WalkChild → Bool) (list : Nat → WalkChild → String) (depth : Nat)
    (name : String) (alternatives : List (List WalkChild)) : String :=
  lineAt depth ("<choice " ++ name ++ ">") ++
    String.join ((alternatives.filter (·.all can)).map fun children =>
      lineAt (depth + 1) "<alt>" ++ String.join (children.map (list (depth + 2))))

/-- The list of a node with these alternatives. A rule stands above the children of its only
derivation, and the symbols before a dot have no line of their own. Whatever has several derivations
is a choice. -/
def listAlternatives (grammar : Grammar α) (can : WalkChild → Bool)
    (list : Nat → WalkChild → String) (depth : Nat) :
    Tag → List (List WalkChild) → String
  | _, [] => ""
  | .rule rule, [children] =>
    lineAt depth (grammar.ruleName rule) ++ String.join (children.map (list (depth + 1)))
  | .rule rule, alternatives => listChoice can list depth (grammar.ruleName rule) alternatives
  | .dotted _, [children] => String.join (children.map (list depth))
  | .dotted position, alternatives =>
    listChoice can list depth (grammar.positionText position) alternatives
  | .lexeme _, _ => ""

end Listing

namespace Visitor

variable {α : Type} {grammar : Grammar α} {input : Array String} {chart : Chart}

/-- The walk gives the lines of the list, for the nodes that can be walked. -/
def Lists (walk : WalkChild → Unit → Except Fault (Unit × Option (Walked (List Line))))
    (can : WalkChild → Bool) (list : Nat → WalkChild → String) : Prop :=
  ∀ child, ∃ result, walk child () = .ok ((), result) ∧ result.isSome = can child ∧
    ∀ walked ∈ result, ∀ depth, Line.textAt depth walked.values.flatten = list depth child

theorem outliner_derivation (children : List (List Line)) (state : Unit) :
    (grammar.outliner input).derivation children state =
      .ok (state, children.flatten.map Line.indented) := rfl

variable {walk : WalkChild → Unit → Except Fault (Unit × Option (Walked (List Line)))}
  {can : WalkChild → Bool} {list : Nat → WalkChild → String}

theorem Lists.sequence (lists : Lists walk can list) (children : List WalkChild) :
    ∃ values, walkSequence walk children () = .ok ((), values) ∧
      values.isSome = children.all can ∧ ∀ lines ∈ values, ∀ depth,
        Line.textAt depth lines.flatten = String.join (children.map (list depth)) := by
  induction children with
  | nil =>
    refine ⟨some [], rfl, rfl, ?_⟩
    rintro lines ⟨⟩ depth
    rfl
  | cons child children ih =>
    obtain ⟨result, walked, could, listed⟩ := lists child
    cases result with
    | none =>
      refine ⟨none, ?_, ?_, by simp⟩
      · simp only [walkSequence, walked, bind, Except.bind]
      · simp [← could]
    | some here =>
      obtain ⟨values, rest, could', listed'⟩ := ih
      refine ⟨values.map (here.values ++ ·), ?_, ?_, ?_⟩
      · simp only [walkSequence, walked, rest, bind, Except.bind]
      · simp [← could, could']
      · intro lines made depth
        obtain ⟨others, found, rfl⟩ := Option.mem_map.mp made
        rw [List.flatten_append, Line.textAt_append, listed here rfl, listed' others found]
        simp

variable (grammar input)

theorem Lists.alternatives (lists : Lists walk can list) (alternatives : List (List WalkChild)) :
    ∃ made, (grammar.outliner input).walkAlternatives walk alternatives () = .ok ((), made) ∧
      ∀ depth, made.map (Line.textAt depth) = (alternatives.filter (·.all can)).map fun children =>
        String.join (children.map (list (depth + 1))) := by
  induction alternatives with
  | nil => exact ⟨[], rfl, fun depth => rfl⟩
  | cons children rest ih =>
    obtain ⟨values, walked, could, listed⟩ := lists.sequence children
    obtain ⟨made, walked', listed'⟩ := ih
    cases values with
    | none =>
      refine ⟨made, ?_, fun depth => ?_⟩
      · simp only [walkAlternatives, walked, bind, Except.bind, walked']
      · rw [listed', List.filter_cons_of_neg (by simp [← could])]
    | some lines =>
      refine ⟨lines.flatten.map Line.indented :: made, ?_, fun depth => ?_⟩
      · simp only [walkAlternatives, walked, bind, Except.bind, walked', outliner_derivation]
      · rw [List.filter_cons_of_pos (by simp [← could]), List.map_cons, List.map_cons, listed',
          Line.textAt_indented, listed lines rfl]

theorem textAt_choices (depth : Nat) (title : String) (alternatives : List (List Line)) :
    Line.textAt depth (⟨0, title⟩ ::
        alternatives.flatMap fun lines => ⟨1, "<alt>"⟩ :: lines.map Line.indented) =
      lineAt depth title ++ String.join ((alternatives.map (Line.textAt (depth + 1))).map
        (lineAt (depth + 1) "<alt>" ++ ·)) := by
  rw [Line.textAt_cons, Line.textAt_flatMap, List.map_map]
  congr 3
  funext lines
  simp only [Line.textAt_cons, Line.textAt_indented, Function.comp_apply]

theorem Lists.choice (lists : Lists walk can list) (ref : ItemRef) (tag : Tag)
    (alternatives : List (List WalkChild)) :
    ∃ result, ((grammar.outliner input).walkAlternatives walk alternatives () >>=
        fun (state, made) => (grammar.outliner input).chooseNode ref tag made state) =
          .ok ((), result) ∧
      result.isSome = alternatives.any (·.all can) ∧ ∀ walked ∈ result, ∀ depth,
        Line.textAt depth walked.values.flatten =
          listChoice can list depth (grammar.choiceName input tag) alternatives := by
  obtain ⟨made, walked, listed⟩ := lists.alternatives grammar input alternatives
  have size := congrArg List.length (listed 0)
  rw [List.length_map, List.length_map] at size
  rw [walked]
  change ∃ result, (grammar.outliner input).chooseNode ref tag made () = _ ∧ _
  unfold chooseNode
  cases made with
  | nil =>
    have nothing := List.eq_nil_of_length_eq_zero size.symm
    refine ⟨none, rfl, ?_, by simp⟩
    rw [List.filter_eq_nil_iff] at nothing
    simpa using nothing
  | cons lines made =>
    refine ⟨some (.node _), rfl, ?_, ?_⟩
    · by_contra none
      have nothing : alternatives.filter (·.all can) = [] := by simpa using none
      rw [nothing] at size
      cases size
    · rintro walked ⟨⟩ depth
      change Line.textAt depth [_].flatten = _
      rw [List.flatten_singleton, textAt_choices, listed, List.map_map]
      rfl

theorem Lists.derivations (lists : Lists walk can list) (ref : ItemRef) {tag : Tag}
    (plain : ∀ offset, tag ≠ .lexeme offset) (derivations : List Derivation) :
    ∃ result, (grammar.outliner input).walkDerivations grammar walk ref tag derivations () =
        .ok ((), result) ∧
      result.isSome = canWalk can tag (derivations.map (grammar.walkChildren tag)) ∧
      ∀ walked ∈ result, ∀ depth, Line.textAt depth walked.values.flatten =
        listAlternatives grammar can list depth tag
          (derivations.map (grammar.walkChildren tag)) := by
  match derivations with
  | [] =>
    cases tag with
    | lexeme offset => exact absurd rfl (plain offset)
    | dotted position =>
      refine ⟨some (.spliced []), rfl, rfl, ?_⟩
      rintro walked ⟨⟩ depth
      rfl
    | rule index => exact ⟨none, rfl, rfl, by simp⟩
  | [derivation] =>
    obtain ⟨values, walked, could, listed⟩ := lists.sequence (grammar.walkChildren tag derivation)
    simp only [walkDerivations, walked, bind, Except.bind]
    have could : values.isSome = canWalk can tag [grammar.walkChildren tag derivation] := by
      simp [canWalk, could]
    cases values with
    | none => exact ⟨none, rfl, could, by simp⟩
    | some lines =>
      cases tag with
      | lexeme offset => exact absurd rfl (plain offset)
      | dotted position =>
        refine ⟨some (.spliced lines), rfl, could, ?_⟩
        rintro walked ⟨⟩ depth
        exact listed lines rfl depth
      | rule index =>
        refine ⟨some (.node (⟨0, grammar.ruleName index⟩ :: lines.flatten.map Line.indented)), rfl,
          could, ?_⟩
        rintro walked ⟨⟩ depth
        change Line.textAt depth [_].flatten = _
        rw [List.flatten_singleton, Line.textAt_cons, Line.textAt_indented, listed lines rfl]
        rfl
  | first :: second :: derivations =>
    obtain ⟨result, walked, could, listed⟩ := lists.choice grammar input
      ref tag ((first :: second :: derivations).map (grammar.walkChildren tag))
    refine ⟨result, walked, ?_, ?_⟩
    · cases tag <;> exact could
    · cases tag with
      | lexeme offset => exact absurd rfl (plain offset)
      | dotted position => exact listed
      | rule index => exact listed

variable {input}

end Visitor

namespace Forest

variable {α : Type} {grammar : Grammar α} {input : Array String} {start : Nat} {forest : Forest}

end Forest

end ChartParser
