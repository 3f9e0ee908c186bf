import OpenGauss.Hll.HllContent

namespace OpenGauss.Hll

/-- One value for one register. -/
def hllInsertSparse (hllData : List UInt8) (insertion : Nat × Nat) : Option (List UInt8) := do
  let (byteIndex, unitIndex) ← hllGetRegisterUnit hllData insertion.1
  hllUpdateSparseValue hllData byteIndex unitIndex insertion.2

/-- What an insertion is for: the register is raised to the value. -/
def raise (registers : List Nat) (insertion : Nat × Nat) : List Nat :=
  registers.set insertion.1 (max insertion.2 (registers.getD insertion.1 0))

/-- The bytes cover all registers, every register is found, and an update raises it and no other. -/
structure Covers (hllpara : HllPara) (hllData : List UInt8) : Prop where
  readable : Readable hllData
  length : (decoded hllData).length = 2 ^ hllpara.log2Registers
  found : ∀ registerIndex < 2 ^ hllpara.log2Registers, ∃ byteIndex unitIndex,
    hllGetRegisterUnit hllData registerIndex = some (byteIndex, unitIndex) ∧
      UnitAt hllData registerIndex byteIndex unitIndex ∧
      ∀ newValue, 0 < newValue → newValue ≤ 64 → ∃ updated,
        hllUpdateSparseValue hllData byteIndex unitIndex newValue = some updated ∧
          Updated hllData updated registerIndex newValue

theorem raise_zero (registers : List Nat) (registerIndex : Nat) :
    raise registers (registerIndex, 0) = registers := by
  rw [raise, Nat.zero_max]
  apply List.ext_getElem?
  intro index
  rw [List.getElem?_set]
  split
  · rename_i same
    subst same
    split <;> simp_all
  · rfl

variable {hllpara : HllPara} {hllData : List UInt8}

theorem covers (readable : Readable hllData)
    (length : (decoded hllData).length = 2 ^ hllpara.log2Registers) : Covers hllpara hllData := by
  refine ⟨readable, length, ?_⟩
  intro registerIndex inside
  obtain ⟨byteIndex, unitIndex, found, unit⟩ :=
    hllGetRegisterUnit_spec readable (by rwa [length])
  refine ⟨byteIndex, unitIndex, found, unit, ?_⟩
  intro newValue positive small
  exact hllUpdateSparseValue_spec readable unit positive small

theorem hllInsertSparse_spec (covered : Covers hllpara hllData) {insertion : Nat × Nat}
    (inside : insertion.1 < 2 ^ hllpara.log2Registers) (small : insertion.2 ≤ 64) :
    ∃ updated, hllInsertSparse hllData insertion = some updated ∧ Covers hllpara updated ∧
      decoded updated = raise (decoded hllData) insertion := by
  obtain ⟨registerIndex, newValue⟩ := insertion
  obtain ⟨byteIndex, unitIndex, found, -, update⟩ := covered.found registerIndex inside
  simp only [hllInsertSparse, found, Option.bind_eq_bind, Option.bind_some]
  rcases Nat.eq_zero_or_pos newValue with rfl | positive
  · exact ⟨hllData, if_pos rfl, covered, (raise_zero _ _).symm⟩
  · obtain ⟨updated, done, spec⟩ := update newValue positive small
    refine ⟨updated, done, covers spec.readable ?_, spec.registers⟩
    rw [spec.registers, List.length_set, covered.length]

theorem hllInsertSparse_run {insertions : List (Nat × Nat)}
    (inside : ∀ insertion ∈ insertions, insertion.1 < 2 ^ hllpara.log2Registers ∧ insertion.2 ≤ 64)
    (covered : Covers hllpara hllData) :
    ∃ updated, insertions.foldlM hllInsertSparse hllData = some updated ∧
      Covers hllpara updated ∧ decoded updated = insertions.foldl raise (decoded hllData) := by
  induction insertions generalizing hllData with
  | nil => exact ⟨hllData, rfl, covered, rfl⟩
  | cons insertion rest ih =>
    obtain ⟨first, others⟩ := List.forall_mem_cons.mp inside
    obtain ⟨next, inserted, again, registers⟩ :=
      hllInsertSparse_spec covered first.1 first.2
    obtain ⟨updated, run, done, all⟩ := ih others again
    refine ⟨updated, ?_, done, ?_⟩
    · rw [List.foldlM_cons, inserted]
      exact run
    · rw [all, registers, List.foldl_cons]

/-- An update writes at most one of the bytes, or replaces a piece by at least as many. -/
def Rewrites (hllData updated : List UInt8) (byteIndex : Nat) : Prop :=
  (∃ byte, updated = hllData.set byteIndex byte) ∨
    ∃ insertValue originLen, updated = hllUpdateValue hllData byteIndex insertValue originLen ∧
      byteIndex + originLen ≤ hllData.length ∧ originLen ≤ insertValue.length ∧
      0 < insertValue.length ∧ insertValue.length ≤ 5

theorem length_zeroBytes_pos {count : Nat} (positive : 0 < count) : 0 < (zeroBytes count).length := by
  unfold zeroBytes
  split
  · split <;> simp
  · simp

theorem rewrites_same (byteIndex : Nat) : Rewrites hllData hllData byteIndex := by
  refine .inl ⟨hllData.getD byteIndex 0, (List.ext_getElem? fun index => ?_).symm⟩
  rw [List.getElem?_set]
  split_ifs with same inside
  · subst same
    simp [inside]
  · subst same
    simp [inside]
  · rfl

theorem hllUpdateSparseType1_rewrites {byteIndex : Nat} (unitIndex newValue : Nat)
    (inside : byteIndex < hllData.length) :
    Rewrites hllData (hllUpdateSparseType1 hllData byteIndex unitIndex newValue) byteIndex := by
  unfold hllUpdateSparseType1
  extract_lets left right front later
  have few := length_zeroBytes left
  have length : front.length = (zeroBytes left).length + 1 := List.length_append
  -- a short run behind the long one is never empty, so two bytes are replaced by two at least
  split_ifs with joined
  · have later_pos : 0 < byteGetValue later := Nat.succ_pos _
    have behind := length_zeroBytes (right + byteGetValue later)
    have filled := length_zeroBytes_pos (Nat.add_pos_right right later_pos)
    exact .inr ⟨_, 2, rfl, by omega, by rw [List.length_append]; omega,
      by rw [List.length_append]; omega, by rw [List.length_append]; omega⟩
  · have behind := length_zeroBytes right
    exact .inr ⟨_, 1, rfl, by omega, by rw [List.length_append]; omega,
      by rw [List.length_append]; omega, by rw [List.length_append]; omega⟩

theorem hllUpdateSparseValue_rewrites {byteIndex unitIndex newValue : Nat} {updated : List UInt8}
    (done : hllUpdateSparseValue hllData byteIndex unitIndex newValue = some updated) :
    Rewrites hllData updated byteIndex := by
  unfold hllUpdateSparseValue at done
  split_ifs at done with nothing outside
  · cases done
    exact rewrites_same byteIndex
  · have inside := not_le.mp outside
    split at done
    · cases done
      exact hllUpdateSparseType1_rewrites unitIndex newValue inside
    · cases done
      refine .inr ⟨_, 1, rfl, inside, ?_, ?_, ?_⟩ <;> split_ifs <;> simp
    · cases done
      unfold hllUpdateSparseType3
      split_ifs
      · exact rewrites_same byteIndex
      · exact .inl ⟨_, rfl⟩
    · cases done

def maxAllocSize : Nat := 0x3fffffff

/-- The memory of the sparse bytes; the allocator gives no more than `maxAllocSize`. -/
structure HllBuffer where
  lenTotal : Nat
  lenUsed : Nat
  hllData : Nat → UInt8
  allocated : lenTotal ≤ maxAllocSize

namespace HllBuffer

def used (buffer : HllBuffer) : List UInt8 := (List.range buffer.lenUsed).map buffer.hllData

/-- The loop of `HllUpdateValue` around `HllDataExpand`; a request for more memory than there is
ends in an error. -/
def expandWhile (more : Nat) (buffer : HllBuffer) : Option HllBuffer :=
  if buffer.lenTotal - buffer.lenUsed < more then
    if fits : buffer.lenTotal + hllExpandSize ≤ maxAllocSize then
      expandWhile more { buffer with lenTotal := buffer.lenTotal + hllExpandSize, allocated := fits }
    else none
  else some buffer
termination_by maxAllocSize - buffer.lenTotal
decreasing_by
  simp only [hllExpandSize] at *
  omega

def memmove (hllData : Nat → UInt8) (dest src count : Nat) : Nat → UInt8 := fun place =>
  if dest ≤ place ∧ place < dest + count then hllData (place - dest + src) else hllData place

def memcpy (hllData : Nat → UInt8) (dest : Nat) (src : List UInt8) : Nat → UInt8 := fun place =>
  if dest ≤ place ∧ place < dest + src.length then src.getD (place - dest) 0 else hllData place

/-- Lengths are unsigned, so what a shorter replacement needs wraps around. `memcpy_s` reports a
destination without room as an error. -/
def hllUpdateValue (buffer : HllBuffer) (index : Nat) (insertValue : List UInt8)
    (originLen : Nat) : Option HllBuffer :=
  let insertLen := insertValue.length
  let more := (insertLen + 2 ^ 32 - originLen) % 2 ^ 32
  if originLen = 0 ∧ buffer.lenUsed < index ∨
      0 < originLen ∧ buffer.lenUsed < (index + originLen) % 2 ^ 32 then none
  else
    match expandWhile more buffer with
    | none => none
    | some expanded =>
      let moveLen := buffer.lenUsed - index - originLen
      let moved := if insertLen ≠ originLen ∧ 0 < moveLen then
        memmove expanded.hllData (index + insertLen) (index + originLen) moveLen
        else expanded.hllData
      if insertLen = 0 then none
      else some { expanded with
        hllData := memcpy moved index insertValue
        lenUsed := (buffer.lenUsed + more) % 2 ^ 32 }

theorem expandedFor_again {lenTotal lenUsed more : Nat} (short : lenTotal - lenUsed < more) :
    expandedFor (lenTotal + hllExpandSize) lenUsed more =
        expandedFor lenTotal lenUsed more ∨ lenTotal < lenUsed := by
  simp only [expandedFor, hllExpandSize]
  omega

theorem expandWhile_spec (more : Nat) (buffer : HllBuffer) (room : buffer.lenUsed ≤ buffer.lenTotal) :
    expandWhile more buffer = if fits : expandedFor buffer.lenTotal buffer.lenUsed more ≤ maxAllocSize then
        some { buffer with
          lenTotal := expandedFor buffer.lenTotal buffer.lenUsed more
          allocated := fits }
      else none := by
  fun_induction expandWhile more buffer with
  | case1 buffer short fits ih =>
    rw [ih (room.trans (Nat.le_add_right _ _))]
    have again := (expandedFor_again short).resolve_right room.not_gt
    simp only [again]
  | case2 buffer short full =>
    have least : buffer.lenTotal + hllExpandSize ≤ expandedFor buffer.lenTotal buffer.lenUsed more := by
      simp only [expandedFor, hllExpandSize]
      omega
    rw [dif_neg (by omega)]
  | case3 buffer enough =>
    have same : expandedFor buffer.lenTotal buffer.lenUsed more = buffer.lenTotal := by
      simp only [expandedFor, hllExpandSize]
      omega
    have fits := buffer.allocated
    simp only [same, fits, dif_pos]

/-- The bytes in use are those with the piece replaced, and nothing behind the memory changes. -/
structure Replaced (buffer updated : HllBuffer) (index : Nat) (insertValue : List UInt8)
    (originLen : Nat) : Prop where
  used : updated.used = Hll.hllUpdateValue buffer.used index insertValue originLen
  room : updated.lenUsed ≤ updated.lenTotal
  outside : ∀ place, updated.lenTotal ≤ place → updated.hllData place = buffer.hllData place

/-- The bytes behind the piece are moved up, then the new ones are put in front of them. -/
theorem used_copied (buffer : HllBuffer) {index originLen : Nat} {insertValue : List UInt8}
    (inside : index + originLen ≤ buffer.lenUsed) (longer : originLen ≤ insertValue.length)
    {moved : Nat → UInt8}
    (below : ∀ place < index, moved place = buffer.hllData place)
    (behind : ∀ place < buffer.lenUsed - index - originLen,
      moved (index + insertValue.length + place) = buffer.hllData (index + originLen + place)) :
    (List.range (buffer.lenUsed + (insertValue.length - originLen))).map (memcpy moved index insertValue) =
      Hll.hllUpdateValue buffer.used index insertValue originLen := by
  have total : buffer.lenUsed + (insertValue.length - originLen) =
      index + insertValue.length + (buffer.lenUsed - index - originLen) := by omega
  have all : buffer.lenUsed = index + originLen + (buffer.lenUsed - index - originLen) := by omega
  generalize buffer.lenUsed - index - originLen = rest at total all behind
  have front : buffer.used.take index = (List.range index).map buffer.hllData := by
    rw [used, ← List.map_take, List.take_range, Nat.min_eq_left (by omega)]
  have back : buffer.used.drop (index + originLen) =
      (List.range rest).map fun place => buffer.hllData (index + originLen + place) := by
    rw [used, all, List.range_add, List.map_append, List.drop_left' (by simp), List.map_map]
    rfl
  rw [total, List.range_add, List.range_add, List.map_append, List.map_append, List.map_map,
    List.map_map, Hll.hllUpdateValue, front, back]
  congr 1
  · congr 1
    · apply List.map_congr_left
      intro place member
      have low := List.mem_range.mp member
      rw [memcpy, if_neg (by omega), below place low]
    · apply List.ext_getElem
      · simp
      · intro place here there
        simp only [List.getElem_map, List.getElem_range, Function.comp_apply, memcpy]
        rw [if_pos (by omega), Nat.add_sub_cancel_left, List.getD_eq_getElem?_getD,
          List.getElem?_eq_getElem there, Option.getD_some]
  · apply List.map_congr_left
    intro place member
    have low := List.mem_range.mp member
    simp only [Function.comp_apply, memcpy]
    rw [if_neg (by omega), behind place low]

section Update

variable {buffer : HllBuffer} {index originLen : Nat} {insertValue : List UInt8}
  (room : buffer.lenUsed ≤ buffer.lenTotal) (inside : index + originLen ≤ buffer.lenUsed)
  (bounded : insertValue.length < 2 ^ 32)

include room inside bounded

theorem hllUpdateValue_longer (longer : originLen ≤ insertValue.length) (filled : 0 < insertValue.length)
    (fits : expandedFor buffer.lenTotal buffer.lenUsed (insertValue.length - originLen) ≤ maxAllocSize) :
    ∃ updated, hllUpdateValue buffer index insertValue originLen = some updated ∧
      Replaced buffer updated index insertValue originLen := by
  have most := buffer.allocated
  have enough : buffer.lenUsed + (insertValue.length - originLen) ≤ expandedFor buffer.lenTotal
      buffer.lenUsed (insertValue.length - originLen) := (expandedFor_spec room).1
  have limit : maxAllocSize < 2 ^ 32 := by norm_num [maxAllocSize]
  have more : (insertValue.length + 2 ^ 32 - originLen) % 2 ^ 32 = insertValue.length - originLen := by omega
  have accepted : ¬ (originLen = 0 ∧ buffer.lenUsed < index ∨
      0 < originLen ∧ buffer.lenUsed < (index + originLen) % 2 ^ 32) := by omega
  have count : (buffer.lenUsed + (insertValue.length - originLen)) % 2 ^ 32 =
      buffer.lenUsed + (insertValue.length - originLen) := by omega
  unfold hllUpdateValue
  simp only [more, accepted, if_false, expandWhile_spec _ buffer room, fits, dif_pos, filled.ne', count]
  refine ⟨_, rfl, ?_, enough, ?_⟩
  · apply used_copied buffer inside longer
    · intro place low
      split
      · rw [memmove, if_neg (by omega)]
      · rfl
    · intro place low
      split
      · rw [memmove, if_pos (by omega)]
        congr 1
        omega
      · rename_i same
        rw [show insertValue.length = originLen by omega]
  · intro place high
    dsimp only at high ⊢
    rw [memcpy, if_neg (by omega)]
    split
    · rw [memmove, if_neg (by omega)]
    · rfl

/-- What a shorter replacement needs is more than any allocation gives. -/
theorem hllUpdateValue_shorter (refused : ¬ (originLen ≤ insertValue.length ∧ 0 < insertValue.length ∧
      expandedFor buffer.lenTotal buffer.lenUsed (insertValue.length - originLen) ≤ maxAllocSize)) :
    hllUpdateValue buffer index insertValue originLen = none := by
  have most := buffer.allocated
  have limit : maxAllocSize + 2 ^ 30 < 2 ^ 32 := by norm_num [maxAllocSize]
  unfold hllUpdateValue
  split
  · rfl
  · dsimp only
    by_cases longer : originLen ≤ insertValue.length
    · have more : (insertValue.length + 2 ^ 32 - originLen) % 2 ^ 32 =
          insertValue.length - originLen := by omega
      rw [more, expandWhile_spec _ buffer room]
      by_cases fits : expandedFor buffer.lenTotal buffer.lenUsed
          (insertValue.length - originLen) ≤ maxAllocSize
      · have empty : insertValue.length = 0 := by omega
        rw [dif_pos fits]
        exact if_pos empty
      · rw [dif_neg fits]
    · have wraps : (insertValue.length + 2 ^ 32 - originLen) % 2 ^ 32 =
          insertValue.length + 2 ^ 32 - originLen := by omega
      rw [wraps, expandWhile_spec _ buffer room]
      have enough : buffer.lenUsed + (insertValue.length + 2 ^ 32 - originLen) ≤
          expandedFor buffer.lenTotal buffer.lenUsed (insertValue.length + 2 ^ 32 - originLen) :=
        (expandedFor_spec room).1
      have tooMuch : ¬ expandedFor buffer.lenTotal buffer.lenUsed
          (insertValue.length + 2 ^ 32 - originLen) ≤ maxAllocSize := by omega
      rw [dif_neg tooMuch]

end Update

end HllBuffer

/-- Insertions keep the registers covered and replace pieces by no fewer bytes; the memory takes a
replacement exactly when it is no shorter, not empty, and there is memory to grow. -/
theorem sparse_hllUpdateValue_iff {hllpara : HllPara} (admitted : hllpara.Admitted)
    {insertions : List (Nat × Nat)}
    (valid : ∀ insertion ∈ insertions, insertion.1 < 2 ^ hllpara.log2Registers ∧ insertion.2 ≤ 64)
    {buffer : HllBuffer} {index originLen : Nat} {insertValue : List UInt8}
    (room : buffer.lenUsed ≤ buffer.lenTotal) (inside : index + originLen ≤ buffer.lenUsed)
    (bounded : insertValue.length < 2 ^ 32) :
    (∃ hllData, insertions.foldlM hllInsertSparse (hllEmptyToSparse (hllInit hllpara)).hllData =
        some hllData ∧ Covers hllpara hllData ∧
        decoded hllData = insertions.foldl raise (List.replicate (2 ^ hllpara.log2Registers) 0)) ∧
      (∀ insertion updated, hllInsertSparse buffer.used insertion = some updated →
        ∃ byteIndex, Rewrites buffer.used updated byteIndex) ∧
      ((∃ updated, buffer.hllUpdateValue index insertValue originLen = some updated ∧
          HllBuffer.Replaced buffer updated index insertValue originLen) ↔
        originLen ≤ insertValue.length ∧ 0 < insertValue.length ∧
          expandedFor buffer.lenTotal buffer.lenUsed (insertValue.length - originLen) ≤
            maxAllocSize) := by
  have zeros : ZeroRun (hllEmptyToSparse (hllInit hllpara)).hllData _ :=
    (zeroRun_hllEmptyToSparse admitted rfl).1
  have run := hllInsertSparse_run valid (covers zeros.readable (by simp [zeros.registers]))
  rw [zeros.registers] at run
  refine ⟨run, ?_, ?_, ?_⟩
  · intro insertion updated done
    obtain ⟨⟨byteIndex, unitIndex⟩, -, changed⟩ := Option.bind_eq_some_iff.mp done
    exact ⟨byteIndex, hllUpdateSparseValue_rewrites changed⟩
  · rintro ⟨updated, done, -⟩
    by_contra refused
    rw [HllBuffer.hllUpdateValue_shorter room inside bounded refused] at done
    cases done
  · rintro ⟨longer, filled, fits⟩
    exact HllBuffer.hllUpdateValue_longer room inside bounded longer filled fits

def twoRuns : HllBuffer := ⟨16, 2, fun place => if place = 0 then 0x40 else 0x41, by decide⟩

/-- Two runs of zeros; the first is replaced by a value and the zeros behind it. -/
theorem sparse_hllUpdateValue_twoRuns : (∃ hllData, [(700, 5), (700, 3), (0, 0)].foldlM hllInsertSparse
        (hllEmptyToSparse (hllInit ⟨11, 10, 12, 0⟩)).hllData = some hllData ∧
        Covers ⟨11, 10, 12, 0⟩ hllData ∧
        decoded hllData = [(700, 5), (700, 3), (0, 0)].foldl raise (List.replicate (2 ^ 11) 0)) ∧
      ∃ updated, twoRuns.hllUpdateValue 0 [0x80, 0x42] 1 = some updated ∧
        HllBuffer.Replaced twoRuns updated 0 [0x80, 0x42] 1 := by
  obtain ⟨covered, -, replaced⟩ := @sparse_hllUpdateValue_iff ⟨11, 10, 12, 0⟩
    ⟨by decide, by decide, by decide, by decide⟩ [(700, 5), (700, 3), (0, 0)] (by decide) twoRuns 0 1
    [0x80, 0x42] (by decide) (by decide) (by decide)
  exact ⟨covered, replaced.mpr ⟨by decide, by decide, by decide⟩⟩

theorem not_replaced_twoRuns : ¬ ∀ (buffer : HllBuffer) (index originLen : Nat) (insertValue : List UInt8),
      buffer.lenUsed ≤ buffer.lenTotal → index + originLen ≤ buffer.lenUsed →
      0 < insertValue.length → insertValue.length < 2 ^ 32 →
      ∃ updated, buffer.hllUpdateValue index insertValue originLen = some updated ∧
        HllBuffer.Replaced buffer updated index insertValue originLen := by
  intro every
  obtain ⟨updated, done, -⟩ :=
    every twoRuns 0 2 [0x42] (by decide) (by decide) (by decide) (by decide)
  rw [HllBuffer.hllUpdateValue_shorter (by decide) (by decide) (by decide)
    fun ⟨longer, _⟩ => absurd longer (by decide)] at done
  cases done

end OpenGauss.Hll
