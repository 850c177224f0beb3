namespace ChartParser

/-- The work left to a search: a counter for every open node, the innermost first, and the number
of nodes that may still be opened inside it. -/
structure Load where
  room : Nat
  counters : List Nat

namespace Load

/-- A step lowers the innermost counter, or opens a node inside after lowering it, or closes the
innermost node without raising the counter around it. -/
inductive Lighter : Load → Load → Prop where
  | spend {room now before : Nat} {around : List Nat} (less : now < before) :
      Lighter ⟨room, now :: around⟩ ⟨room, before :: around⟩
  | descend {room inner now before : Nat} {around : List Nat} (less : now < before) :
      Lighter ⟨room, inner :: now :: around⟩ ⟨room + 1, before :: around⟩
  | ascend {room inner now before : Nat} {around : List Nat} (notMore : now ≤ before) :
      Lighter ⟨room + 1, now :: around⟩ ⟨room, inner :: before :: around⟩

/-- What closing the innermost node leads to is accessible. -/
private def Settled (room : Nat) (around : List Nat) : Prop :=
  ∀ now before rest, around = before :: rest → now ≤ before → Acc Lighter ⟨room + 1, now :: rest⟩

private theorem acc_cons (room : Nat) :
    ∀ around, Settled room around → ∀ counter, Acc Lighter ⟨room, counter :: around⟩ := by
  induction room with
  | zero =>
    intro around settled counter
    induction counter using Nat.strongRecOn with
    | ind counter ih =>
      refine Acc.intro _ fun lighter step => ?_
      cases step with
      | spend less => exact ih _ less
      | ascend notMore => exact settled _ _ _ rfl notMore
  | succ room outer =>
    intro around settled counter
    induction counter using Nat.strongRecOn with
    | ind counter ih =>
      refine Acc.intro _ fun lighter step => ?_
      cases step with
      | spend less => exact ih _ less
      | ascend notMore => exact settled _ _ _ rfl notMore
      | @descend _ inner now _ _ less =>
        refine outer _ ?_ inner
        intro lower before rest same notMore
        cases same
        exact ih lower (Nat.lt_of_le_of_lt notMore less)

private theorem acc (counters : List Nat) : ∀ room, Acc Lighter ⟨room, counters⟩ := by
  induction counters with
  | nil => exact fun room => Acc.intro _ fun lighter step => nomatch step
  | cons counter around ih =>
    intro room
    refine acc_cons room around ?_ counter
    cases around with
    | nil => intro now before rest same; cases same
    | cons before rest =>
      intro now other others same notMore
      cases same
      have step (same : now = before ∨ now < before) : Acc Lighter ⟨room + 1, now :: rest⟩ := by
        rcases same with rfl | less
        · exact ih (room + 1)
        · exact (ih (room + 1)).inv (.spend less)
      exact step (Nat.eq_or_lt_of_le notMore)

/-- Every search comes to an end. -/
theorem wellFounded : WellFounded Lighter := ⟨fun load => acc load.counters load.room⟩

instance : WellFoundedRelation Load := ⟨Lighter, wellFounded⟩

end Load

end ChartParser
