import ChartParser.Chart.Fill
import ChartParser.Proofs.Accumulation

namespace ChartParser

variable {α : Type}

def Tag.awaited? (grammar : Grammar α) : Tag → Option Symbol
  | .dotted position => grammar.next? position
  | .lexeme _ => none
  | .rule _ => none

/-- Is the symbol a token class, whose items are listed apart? -/
def Symbol.isClassToken (grammar : Grammar α) : Symbol → Bool
  | .rule _ => false
  | .token index => grammar.isClass index

namespace ItemSet

def awaited? (grammar : Grammar α) (set : ItemSet) (place : Nat) : Option Symbol :=
  set.items[place]?.bind fun item => item.tag.awaited? grammar

def HoldsAt (set : ItemSet) (place : Nat) (tag : Tag) (start : Nat) : Prop :=
  ∃ item, set.items[place]? = some item ∧ item.tag = tag ∧ item.start = start

/-- The look-ups are those that a search through the items would give. -/
structure Indexed (grammar : Grammar α) (set : ItemSet) : Prop where
  find_iff : ∀ {tag start place}, set.find? tag start = some place ↔ set.HoldsAt place tag start
  awaiters_eq : ∀ symbol, (set.awaiters symbol).toList =
    (List.range set.items.size).filter fun place =>
      set.awaited? grammar place = some symbol ∧ symbol.isClassToken grammar = false
  awaitingClass_eq : set.awaitingClass.toList =
    (List.range set.items.size).filter fun place =>
      (set.awaited? grammar place).any (·.isClassToken grammar)

/-- Enters an item, unless it is there, and one way to build it. -/
def put (grammar : Grammar α) (set : ItemSet) (tag : Tag) (start : Nat)
    (derivation : Option Derivation) : ItemSet :=
  let (place, set) := set.insert grammar tag start
  match derivation with
  | none => set
  | some derivation => set.derive place derivation

variable {grammar : Grammar α} {set : ItemSet}

theorem keyOf_injective {tag other : Tag} {start first : Nat}
    (same : keyOf tag start = keyOf other first) : tag = other ∧ start = first := by
  simp only [keyOf, List.cons.injEq] at same
  exact ⟨Tag.key_injective same.2, same.1⟩

theorem indexed_empty (grammar : Grammar α) : empty.Indexed grammar where
  find_iff := by simp [find?, empty, HoldsAt]
  awaiters_eq := by simp [awaiters, empty]
  awaitingClass_eq := by simp [empty]

theorem Indexed.place_unique (indexed : set.Indexed grammar) {tag : Tag} {start place other : Nat}
    (here : set.HoldsAt place tag start) (there : set.HoldsAt other tag start) : place = other :=
  Option.some.inj ((indexed.find_iff.mpr here).symm.trans (indexed.find_iff.mpr there))

theorem Indexed.mem_awaiters (indexed : set.Indexed grammar) {symbol : Symbol} {place : Nat} :
    place ∈ set.awaiters symbol ↔
      set.awaited? grammar place = some symbol ∧ symbol.isClassToken grammar = false := by
  rw [← Array.mem_toList_iff, indexed.awaiters_eq]
  simp only [List.mem_filter, List.mem_range, decide_eq_true_eq, and_iff_right_iff_imp]
  intro awaited
  obtain ⟨waits, -⟩ := awaited
  obtain ⟨item, found, -⟩ := Option.bind_eq_some_iff.mp waits
  exact (Array.getElem?_eq_some_iff.mp found).1

theorem Indexed.mem_awaitingClass (indexed : set.Indexed grammar) {place : Nat} :
    place ∈ set.awaitingClass ↔ ∃ token, set.awaited? grammar place = some (.token token) ∧
      grammar.isClass token = true := by
  rw [← Array.mem_toList_iff, indexed.awaitingClass_eq]
  simp only [List.mem_filter, List.mem_range, Option.any_eq_true]
  constructor
  · intro listed
    obtain ⟨-, symbol, waits, isClass⟩ := listed
    cases symbol with
    | rule index => cases isClass
    | token token => exact ⟨token, waits, isClass⟩
  · intro awaited
    obtain ⟨token, waits, isClass⟩ := awaited
    obtain ⟨item, found, -⟩ := Option.bind_eq_some_iff.mp waits
    exact ⟨(Array.getElem?_eq_some_iff.mp found).1, _, waits, isClass⟩

/-- Noting what an item waits for touches one list at most. -/
theorem await_eq (grammar : Grammar α) (set : ItemSet) (place : Nat) (tag : Tag) :
    set.await grammar place tag = match tag.awaited? grammar with
      | none => set
      | some symbol =>
        if symbol.isClassToken grammar then
          { set with awaitingClass := set.awaitingClass.push place }
        else
          { set with awaiting := set.awaiting.alter symbol.key fun places =>
              (places.getD #[]).push place } := by
  cases tag with
  | lexeme _ => rfl
  | rule _ => rfl
  | dotted position =>
    simp only [await, Tag.awaited?]
    cases grammar.next? position with
    | none => rfl
    | some symbol => cases symbol <;> rfl

@[simp] theorem items_await (grammar : Grammar α) (set : ItemSet) (place : Nat) (tag : Tag) :
    (set.await grammar place tag).items = set.items := by
  rw [await_eq]
  split
  · rfl
  · split <;> rfl

@[simp] theorem index_await (grammar : Grammar α) (set : ItemSet) (place : Nat) (tag : Tag) :
    (set.await grammar place tag).index = set.index := by
  rw [await_eq]
  split
  · rfl
  · split <;> rfl

theorem awaiters_await (grammar : Grammar α) (set : ItemSet) (place : Nat) (tag : Tag)
    (symbol : Symbol) : ((set.await grammar place tag).awaiters symbol).toList =
      (set.awaiters symbol).toList ++
        if tag.awaited? grammar = some symbol ∧ symbol.isClassToken grammar = false
        then [place] else [] := by
  rw [await_eq]
  split
  · simp [*]
  · rename_i other waits
    split
    · rename_i isClass
      have apart : ¬ (other = symbol ∧ symbol.isClassToken grammar = false) := by
        rintro ⟨rfl, plain⟩
        rw [plain] at isClass
        cases isClass
      simp [waits, awaiters, apart]
    · rename_i plain
      simp only [awaiters, Std.TreeMap.getD_alter, Std.LawfulEqCmp.compare_eq_iff_eq]
      by_cases same : other = symbol
      · subst same
        have plain : other.isClassToken grammar = false := by simpa using plain
        simp [waits, plain, Std.TreeMap.getD_eq_getD_getElem?]
      · have different : other.key ≠ symbol.key := fun keys => same (Symbol.key_injective keys)
        simp [waits, different, same]

theorem awaitingClass_await (grammar : Grammar α) (set : ItemSet) (place : Nat) (tag : Tag) :
    (set.await grammar place tag).awaitingClass.toList = set.awaitingClass.toList ++
      if (tag.awaited? grammar).any (·.isClassToken grammar) then [place] else [] := by
  rw [await_eq]
  split
  · simp [*]
  · rename_i symbol waits
    split
    · simp [*]
    · simp [*]

theorem insert_found {tag : Tag} {start place : Nat} (found : set.find? tag start = some place) :
    set.insert grammar tag start = (place, set) := by
  rw [insert, found]

/-- The set with one more item, before anything is noted about it but its place. -/
private def pushed (set : ItemSet) (tag : Tag) (start : Nat) : ItemSet :=
  { set with
    items := set.items.push ⟨tag, start, .none⟩
    index := set.index.insert (keyOf tag start) set.items.size }

theorem insert_absent (grammar : Grammar α) {tag : Tag} {start : Nat}
    (absent : set.find? tag start = none) :
    set.insert grammar tag start =
      (set.items.size, (set.pushed tag start).await grammar set.items.size tag) := by
  rw [insert, absent]
  rfl

theorem items_insert_absent (grammar : Grammar α) {tag : Tag} {start : Nat}
    (absent : set.find? tag start = none) :
    (set.insert grammar tag start).2.items = set.items.push ⟨tag, start, .none⟩ := by
  rw [insert_absent grammar absent, items_await]
  rfl

theorem holdsAt_push {tag other : Tag} {start first place : Nat} {ways : Derivations}
    {set' : ItemSet} (pushed : set'.items = set.items.push ⟨tag, start, ways⟩) :
    set'.HoldsAt place other first ↔ set.HoldsAt place other first ∨
      (place = set.items.size ∧ other = tag ∧ first = start) := by
  simp only [HoldsAt, pushed, Array.getElem?_push]
  by_cases last : place = set.items.size
  · subst last
    simp [eq_comm]
  · simp [last]

private theorem awaited_push {tag : Tag} {start place : Nat} {set' : ItemSet}
    {ways : Derivations} (pushed : set'.items = set.items.push ⟨tag, start, ways⟩) :
    set'.awaited? grammar place =
      if place = set.items.size then tag.awaited? grammar else set.awaited? grammar place := by
  simp only [awaited?, pushed, Array.getElem?_push]
  split <;> rfl

private theorem filter_push {set' : ItemSet} {tag : Tag} {start : Nat}
    {ways : Derivations} (pushed : set'.items = set.items.push ⟨tag, start, ways⟩)
    (test : Option Symbol → Bool) :
    ((List.range set'.items.size).filter fun place => test (set'.awaited? grammar place)) =
      ((List.range set.items.size).filter fun place => test (set.awaited? grammar place)) ++
        if test (tag.awaited? grammar) then [set.items.size] else [] := by
  have earlier : ∀ place ∈ List.range set.items.size,
      test (set'.awaited? grammar place) = test (set.awaited? grammar place) := by
    intro place member
    rw [awaited_push pushed, if_neg (Nat.ne_of_lt (List.mem_range.mp member))]
  have size : set'.items.size = set.items.size + 1 := by simp [pushed]
  rw [size, List.range_succ, List.filter_append, List.filter_congr earlier]
  simp only [List.filter_cons, List.filter_nil, awaited_push pushed, if_pos]

theorem Indexed.insert (indexed : set.Indexed grammar) (tag : Tag) (start : Nat) :
    (set.insert grammar tag start).2.Indexed grammar := by
  cases search : set.find? tag start with
  | some place => rwa [insert_found search]
  | none =>
    have items := items_insert_absent grammar search
    have split := insert_absent grammar search
    constructor
    · intro other first place
      rw [holdsAt_push items, ← indexed.find_iff]
      have looked : (set.insert grammar tag start).2.find? other first =
          if keyOf tag start = keyOf other first then some set.items.size
          else set.find? other first := by
        rw [split, find?, index_await]
        simp [pushed, Std.TreeMap.getElem?_insert, Std.LawfulEqCmp.compare_eq_iff_eq, find?]
      rw [looked]
      by_cases same : tag = other ∧ start = first
      · obtain ⟨rfl, rfl⟩ := same
        simp [search, eq_comm]
      · have different : keyOf tag start ≠ keyOf other first :=
          fun keys => same (keyOf_injective keys)
        have apart : ¬ (place = set.items.size ∧ other = tag ∧ first = start) :=
          fun ⟨_, tags, starts⟩ => same ⟨tags.symm, starts.symm⟩
        simp [different, apart]
    · intro symbol
      rw [filter_push items
          (fun waits => waits = some symbol ∧ symbol.isClassToken grammar = false),
        ← indexed.awaiters_eq, split, awaiters_await]
      simp [pushed, awaiters]
    · rw [filter_push items (fun waits => waits.any (·.isClassToken grammar)),
        ← indexed.awaitingClass_eq, split, awaitingClass_await]
      simp [pushed]

/-- The set without the ways to build its items. -/
def skeleton (set : ItemSet) : ItemSet :=
  { set with items := set.items.map fun item => { item with ways := .none } }

theorem holdsAt_skeleton {place start : Nat} {tag : Tag} :
    set.skeleton.HoldsAt place tag start ↔ set.HoldsAt place tag start := by
  simp only [HoldsAt, skeleton, Array.getElem?_map]
  cases set.items[place]? <;> simp

theorem awaited_skeleton (place : Nat) :
    set.skeleton.awaited? grammar place = set.awaited? grammar place := by
  simp only [awaited?, skeleton, Array.getElem?_map]
  cases set.items[place]? <;> rfl

theorem indexed_skeleton : set.skeleton.Indexed grammar ↔ set.Indexed grammar := by
  have size : set.skeleton.items.size = set.items.size := by
    simp [skeleton]
  constructor
  · intro indexed
    refine ⟨indexed.find_iff.trans holdsAt_skeleton, fun symbol => ?_, ?_⟩
    · have listed := indexed.awaiters_eq symbol
      simp only [size, awaited_skeleton] at listed
      exact listed
    · have listed := indexed.awaitingClass_eq
      simp only [size, awaited_skeleton] at listed
      exact listed
  · intro indexed
    refine ⟨indexed.find_iff.trans holdsAt_skeleton.symm, fun symbol => ?_, ?_⟩
    · simp only [size, awaited_skeleton]
      exact indexed.awaiters_eq symbol
    · simp only [size, awaited_skeleton]
      exact indexed.awaitingClass_eq

private theorem skeleton_modify (target : Nat) (change : Item → Derivations) :
    skeleton { set with
      items := set.items.modify target fun item => { item with ways := change item } } =
        set.skeleton := by
  have items : (set.items.modify target fun item => { item with ways := change item }).map
      (fun item => { item with ways := .none }) =
        set.items.map fun item => { item with ways := .none } := by
    apply Array.ext_getElem?
    intro place
    simp only [Array.getElem?_map, Array.getElem?_modify]
    split
    · cases set.items[place]? <;> rfl
    · rfl
  simp only [skeleton, items]

theorem skeleton_derive (target : Nat) (derivation : Derivation) :
    (set.derive target derivation).skeleton = set.skeleton := skeleton_modify target _

theorem skeleton_collapse (target : Nat) (derivation : Derivation) :
    (set.collapse target derivation).skeleton = set.skeleton := skeleton_modify target _

theorem holdsAt_derive {place target start : Nat} {derivation : Derivation} {tag : Tag} :
    (set.derive target derivation).HoldsAt place tag start ↔ set.HoldsAt place tag start := by
  rw [← holdsAt_skeleton, skeleton_derive, holdsAt_skeleton]

theorem Indexed.derive (indexed : set.Indexed grammar) (target : Nat) (derivation : Derivation) :
    (set.derive target derivation).Indexed grammar := by
  rwa [← indexed_skeleton, skeleton_derive, indexed_skeleton]

theorem Indexed.put (indexed : set.Indexed grammar) (tag : Tag) (start : Nat)
    (derivation : Option Derivation) : (set.put grammar tag start derivation).Indexed grammar := by
  cases derivation with
  | none => exact indexed.insert tag start
  | some derivation => exact (indexed.insert tag start).derive _ _

def derivationsAt (set : ItemSet) (place : Nat) : Array Derivation :=
  (set.items[place]?.map (·.derivations)).getD #[]

def Distinct (set : ItemSet) : Prop := ∀ place, (set.derivationsAt place).toList.Nodup

theorem derivationsAt_derive (target place : Nat) (derivation : Derivation)
    (inside : target < set.items.size) : (set.derive target derivation).derivationsAt place =
      if target = place then pushNew (set.derivationsAt place) derivation
      else set.derivationsAt place := by
  simp only [derivationsAt, derive, Array.getElem?_modify]
  by_cases same : target = place
  · subst same
    simp [inside, Item.derivations, Derivations.toArray_add]
  · simp [same]

theorem derivationsAt_insert (tag : Tag) (start place : Nat) :
    (set.insert grammar tag start).2.derivationsAt place = set.derivationsAt place := by
  cases search : set.find? tag start with
  | some found => rw [insert_found search]
  | none =>
    simp only [derivationsAt, items_insert_absent grammar search, Array.getElem?_push]
    by_cases last : place = set.items.size
    · subst last
      simp [Item.derivations, Derivations.toArray]
    · simp [last]

theorem insert_inside (indexed : set.Indexed grammar) (tag : Tag) (start : Nat) :
    (set.insert grammar tag start).1 < (set.insert grammar tag start).2.items.size := by
  cases search : set.find? tag start with
  | some found =>
    obtain ⟨item, at', -⟩ := indexed.find_iff.mp search
    rw [insert_found search]
    exact (Array.getElem?_eq_some_iff.mp at').1
  | none =>
    rw [items_insert_absent grammar search, insert_absent grammar search]
    simp

theorem holdsAt_insert (indexed : set.Indexed grammar) {tag other : Tag} {start first place : Nat} :
    (set.insert grammar tag start).2.HoldsAt place other first ↔ set.HoldsAt place other first ∨
      (place = (set.insert grammar tag start).1 ∧ other = tag ∧ first = start) := by
  cases search : set.find? tag start with
  | some found =>
    rw [insert_found search]
    have held := indexed.find_iff.mp search
    refine ⟨Or.inl, ?_⟩
    rintro (old | ⟨rfl, rfl, rfl⟩)
    · exact old
    · exact held
  | none => rw [holdsAt_push (items_insert_absent grammar search), insert_absent grammar search]

/-- Entering an item makes sure that it is there and disturbs no other. -/
theorem holdsAt_put (indexed : set.Indexed grammar) {tag other : Tag} {start first place : Nat}
    {derivation : Option Derivation} :
    (set.put grammar tag start derivation).HoldsAt place other first ↔
      set.HoldsAt place other first ∨
        (place = (set.insert grammar tag start).1 ∧ other = tag ∧ first = start) := by
  cases derivation with
  | none => exact holdsAt_insert indexed
  | some derivation => exact holdsAt_derive.trans (holdsAt_insert indexed)

theorem derivationsAt_put (indexed : set.Indexed grammar) (tag : Tag) (start place : Nat)
    (derivation : Option Derivation) :
    (set.put grammar tag start derivation).derivationsAt place =
      match derivation with
      | none => set.derivationsAt place
      | some derivation =>
        if (set.insert grammar tag start).1 = place then
          pushNew (set.derivationsAt place) derivation
        else set.derivationsAt place := by
  cases derivation with
  | none => exact derivationsAt_insert tag start place
  | some derivation =>
    refine (derivationsAt_derive _ place derivation (insert_inside indexed tag start)).trans ?_
    rw [derivationsAt_insert]

theorem Distinct.put (distinct : set.Distinct) (indexed : set.Indexed grammar) (tag : Tag)
    (start : Nat) (derivation : Option Derivation) :
    (set.put grammar tag start derivation).Distinct := by
  intro place
  rw [derivationsAt_put indexed]
  cases derivation with
  | none => exact distinct place
  | some derivation =>
    simp only
    split
    · exact nodup_pushNew (distinct place) derivation
    · exact distinct place

theorem size_le_put (grammar : Grammar α) (set : ItemSet) (tag : Tag) (start : Nat)
    (derivation : Option Derivation) :
    set.items.size ≤ (set.put grammar tag start derivation).items.size := by
  have inserted : set.items.size ≤ (set.insert grammar tag start).2.items.size := by
    cases search : set.find? tag start with
    | some found => simp [insert_found search]
    | none => simp [items_insert_absent grammar search]
  cases derivation with
  | none => exact inserted
  | some derivation => simpa [put, derive] using inserted

end ItemSet

end ChartParser
