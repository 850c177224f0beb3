namespace ChartParser

variable {β : Type} [BEq β]

/-- Adds a value behind the others unless it is there. -/
def pushNew (known : Array β) (value : β) : Array β :=
  if known.contains value then known else known.push value

theorem size_le_size_pushNew (known : Array β) (value : β) :
    known.size ≤ (pushNew known value).size := by
  rw [pushNew]
  split
  · exact Nat.le_refl _
  · rw [Array.size_push]
    exact Nat.le_succ _

variable [LawfulBEq β]

theorem pushNew_found {known : Array β} {value : β} (present : value ∈ known) :
    pushNew known value = known := if_pos (by simpa using present)

theorem pushNew_absent {known : Array β} {value : β} (absent : value ∉ known) :
    pushNew known value = known.push value := if_neg (by simpa using absent)

theorem mem_pushNew {known : Array β} {value other : β} :
    other ∈ pushNew known value ↔ other ∈ known ∨ other = value := by
  by_cases present : value ∈ known
  · rw [pushNew_found present]
    exact ⟨.inl, fun either => either.elim id fun same => same ▸ present⟩
  · rw [pushNew_absent present, Array.mem_push]

end ChartParser
