import Mathlib.Tactic

/-! Byte-addressed storage: reading and overwriting a range. -/

namespace OpenGauss.Lib

universe u

variable {Cell : Type u}

/-- Overwrite the cells from `start` on. -/
def writeAt (storage : Nat → Cell) (start : Nat) (cells : List Cell) : Nat → Cell :=
  fun address =>
    if start ≤ address then (cells[address - start]?).getD (storage address) else storage address

def readAt (storage : Nat → Cell) (start length : Nat) : List Cell :=
  (List.range length).map fun index => storage (start + index)

variable (storage : Nat → Cell) (start : Nat)

@[simp] theorem length_readAt (start length : Nat) :
    (readAt storage start length).length = length := by
  simp [readAt]

theorem getElem?_readAt {length index : Nat} (inside : index < length) :
    (readAt storage start length)[index]? = some (storage (start + index)) := by
  simp [readAt, inside]

theorem writeAt_outside {start address : Nat} {cells : List Cell}
    (outside : address < start ∨ start + cells.length ≤ address) :
    writeAt storage start cells address = storage address := by
  unfold writeAt
  split
  · rw [List.getElem?_eq_none (by omega), Option.getD_none]
  · rfl

theorem writeAt_inside {start index : Nat} {cells : List Cell} (inside : index < cells.length) :
    writeAt storage start cells (start + index) = cells[index] := by
  simp [writeAt, inside]

@[simp] theorem writeAt_nil : writeAt storage start [] = storage := by
  funext address
  exact writeAt_outside storage (by simp; omega)

/-- Two writes behind each other are one. -/
theorem writeAt_append (front back : List Cell) :
    writeAt (writeAt storage start front) (start + front.length) back =
      writeAt storage start (front ++ back) := by
  funext address
  rcases Nat.lt_or_ge address start with before | after
  · rw [writeAt_outside _ (Or.inl (by omega)), writeAt_outside _ (Or.inl before),
      writeAt_outside _ (Or.inl before)]
  · obtain ⟨index, rfl⟩ := Nat.exists_eq_add_of_le after
    rcases Nat.lt_or_ge index front.length with inside | outside
    · rw [writeAt_outside _ (Or.inl (by omega)), writeAt_inside _ inside,
        writeAt_inside _ (by rw [List.length_append]; omega), List.getElem_append_left inside]
    · obtain ⟨rest, rfl⟩ := Nat.exists_eq_add_of_le outside
      rcases Nat.lt_or_ge rest back.length with inside | beyond
      · rw [← Nat.add_assoc, writeAt_inside _ inside, Nat.add_assoc,
          writeAt_inside _ (by rw [List.length_append]; omega),
          List.getElem_append_right (Nat.le_add_right _ _)]
        simp
      · rw [writeAt_outside _ (Or.inr (by omega)), writeAt_outside _ (Or.inr (by omega)),
          writeAt_outside _ (Or.inr (by rw [List.length_append]; omega))]

theorem readAt_writeAt (cells : List Cell) :
    readAt (writeAt storage start cells) start cells.length = cells := by
  apply List.ext_getElem
  · simp
  · intro index low high
    simp only [readAt, List.getElem_map, List.getElem_range]
    exact writeAt_inside storage high

theorem readAt_congr {first second : Nat → Cell} {start length : Nat}
    (same : ∀ address, start ≤ address → address < start + length → first address = second address) :
    readAt first start length = readAt second start length := by
  apply List.map_congr_left
  intro index member
  have inside := List.mem_range.mp member
  exact same _ (by omega) (by omega)

theorem readAt_writeAt_outside {start first length : Nat} {cells : List Cell}
    (outside : first + length ≤ start ∨ start + cells.length ≤ first) :
    readAt (writeAt storage start cells) first length = readAt storage first length :=
  readAt_congr fun _ low high => writeAt_outside storage (by omega)

/-- Part of a range that was copied to another storage, read where it lies there. -/
theorem readAt_copied (target source : Nat → Cell) {start offset length count : Nat}
    (inside : offset + length ≤ count) :
    readAt (writeAt target start (readAt source 0 count)) (start + offset) length =
      readAt source offset length := by
  apply List.map_congr_left
  intro index member
  have within := List.mem_range.mp member
  rw [Nat.add_assoc, writeAt_inside target (by rw [length_readAt]; omega)]
  simp [readAt]

/-- Copying a range from a storage that agrees everywhere else reproduces that storage. -/
theorem writeAt_readAt {target source : Nat → Cell} {start length : Nat}
    (same : ∀ address, address < start ∨ start + length ≤ address → target address = source address) :
    writeAt target start (readAt source start length) = source := by
  funext address
  by_cases outside : address < start ∨ start + length ≤ address
  · rw [writeAt_outside target (by simpa using outside), same address outside]
  · rw [not_or, not_lt, not_le] at outside
    obtain ⟨index, rfl⟩ := Nat.exists_eq_add_of_le outside.1
    have inside : index < length := by omega
    rw [writeAt_inside target (by simpa using inside)]
    simp [readAt]

/-- Filling the bits of a mask from another byte and reading them back. -/
theorem fill_and_mask (kept filled keep mask : UInt8) (disjoint : keep &&& mask = 0) :
    ((kept &&& keep) ||| (filled &&& mask)) &&& mask = filled &&& mask := by
  apply UInt8.toBitVec_inj.mp
  have absent := congrArg UInt8.toBitVec disjoint
  ext index inside
  have bit := congrArg (fun value => value[index]) absent
  simp only [UInt8.toBitVec_and, UInt8.toBitVec_or, BitVec.getElem_and, BitVec.getElem_or,
    UInt8.toBitVec_zero, BitVec.getElem_zero] at bit ⊢
  grind

end OpenGauss.Lib
