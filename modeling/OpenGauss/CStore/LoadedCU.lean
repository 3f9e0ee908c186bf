import OpenGauss.CStore.CUData

/-! The rows of a compression unit in memory, `cu.cpp`. -/

namespace OpenGauss.CStore

open Lib SelfSized

/-- The lengths that there are instances of the templates for. -/
inductive AttLen where
  | char
  | int16
  | int32
  | datum
  | fixed12
  | fixed16
  | varlena
  | cstring
deriving DecidableEq

namespace AttLen

def fixedSize : AttLen → Option Nat
  | char => some 1
  | int16 => some 2
  | int32 => some 4
  | datum => some 8
  | fixed12 => some 12
  | fixed16 => some 16
  | varlena => none
  | cstring => none

end AttLen

def strlen (src : List UInt8) : Nat := src.findIdx (· == 0)

/-- How many bytes of a column a value takes, `datumGetSize`. -/
def AttLen.datumGetSize (attlen : AttLen) (src : List UInt8) : Nat :=
  match attlen with
  | .varlena => varsizeAny src
  | .cstring => strlen src + 1
  | fixed => fixed.fixedSize.getD 0

/-- A value of a column as it is stored. -/
abbrev Value (attlen : AttLen) := SelfSized attlen.datumGetSize

def numeric64Sz : Nat := varhdrsz + 2 + 8

def makeNumeric64 (value scale : Nat) : List UInt8 :=
  leBytes 4 (numeric64Sz * 4) ++ leBytes 2 (0xD000 + scale) ++ leBytes 8 value

/-- A unit whose data is not compressed, of a column of this length. `srcData` holds the values,
`behind` is what the buffer has behind them. -/
structure LoadedCU (attlen : AttLen) where
  atttypid : Oid
  infoMode : UInt16
  numericIntLike : Bool
  nulls : List UInt8
  srcData : List UInt8
  behind : List UInt8
  srcBufSize : Nat

namespace LoadedCU

variable {attlen : AttLen}

variable (cu : LoadedCU attlen)

def isNull (row : Nat) : Bool :=
  (cu.nulls.getD (row / 8) 0).toNat.testBit (row % 8)

/-- What can be read from a position of the data on. -/
def memory (position : Nat) : List UInt8 :=
  (cu.srcData ++ cu.behind).drop position

/-- The unit that `InitMem` leaves, where the nulls have a bitmap. -/
def initMem (attlen : AttLen) (atttypid : Oid) (initialSize rowCount : Nat) (hasNull : Bool) :
    LoadedCU attlen where
  atttypid := atttypid
  infoMode := if hasNull then cuHasNull else 0
  numericIntLike := false
  nulls := if hasNull then List.replicate (bitmapSize rowCount) 0 else []
  srcData := []
  behind := []
  srcBufSize := initialSize + if hasNull then bitmapSize rowCount else 0

def appendNullValue (row : Nat) : LoadedCU attlen :=
  { cu with nulls := cu.nulls.modify (row / 8) fun byte =>
      UInt8.ofNat (byte.toNat ||| 1 <<< (row % 8)) }

/-- The buffer grows by the size of the value and a megabyte, and by the bytes of the bitmap. -/
def appendValue (val : List UInt8) : LoadedCU attlen :=
  { cu with
    srcData := cu.srcData ++ val
    srcBufSize :=
      if cu.srcBufSize < cu.nulls.length + cu.srcData.length + val.length then
        cu.srcBufSize + val.length + 1024 * 1024 + cu.nulls.length
      else cu.srcBufSize }

def appendRows (cu : LoadedCU attlen) (row : Nat) : List (Option (Value attlen)) → LoadedCU attlen
  | [] => cu
  | none :: rows => (cu.appendNullValue row).appendRows (row + 1) rows
  | some val :: rows => (cu.appendValue val.bytes).appendRows (row + 1) rows

/-- "The offset is incorrect, idx = %d, offset = %d." -/
structure IncorrectOffset where
  idx : Nat
  offset : Nat

/-- One row after the other: a null takes no bytes, and a value as many as `advance` tells. `check`
is made behind a row and gives the error with the offset that it names; `ofNull` says whether it is
made behind a null. -/
def offsetLoop (cu : LoadedCU attlen) (hasNull : Bool) (advance : List UInt8 → Nat)
    (check : Bool → Nat → Option Nat) (row offset : Nat) :
    Nat → Except IncorrectOffset (List Nat)
  | 0 => .ok [offset]
  | rows + 1 => do
      let null := hasNull && cu.isNull row
      let next := if null then offset else offset + advance (cu.memory offset)
      match check null next with
      | some named => .error ⟨row + 1, named⟩
      | none =>
        let offsets ← cu.offsetLoop hasNull advance check (row + 1) next rows
        .ok (offset :: offsets)

/-- No offsets are needed where all values have one length and none is null, and they are
multiples where all numerics are restored from integers. -/
def formValuesOffset (rows : Nat) : Except IncorrectOffset (Option (List Nat)) :=
  let hasNull := hasNullValue cu.infoMode
  if attlen.fixedSize.isSome && !hasNull then .ok none
  else if isIntLike cu.infoMode && attIsNumericType cu.atttypid && !hasNull &&
      cu.numericIntLike then
    .ok (some ((List.range (rows + 1)).map (· * numeric64Sz)))
  else
    some <$> match attlen with
      | .varlena =>
        cu.offsetLoop hasNull varsizeAny
          (fun null next => if !null && cu.srcBufSize < next then some next else none) 0 0 rows
      | .cstring =>
        -- behind a null too, and with the offset of the other branch
        cu.offsetLoop hasNull strlen (fun _ next => if cu.srcBufSize < next then some 0 else none) 0 0 rows
      | fixed =>
        cu.offsetLoop hasNull (fun _ => fixed.fixedSize.getD 0) (fun _ _ => none) 0 0 rows

/-- A unit that holds rows, appended or uncompressed. -/
structure Formed (cu : LoadedCU attlen) (rows : List (Option (Value attlen))) : Prop where
  nulls : ∀ row value, rows[row]? = some value → cu.isNull row = value.isNone
  bitmap : hasNullValue cu.infoMode = false → cu.nulls = []
  srcData : cu.srcData = joined rows.reduceOption
  fits : cu.srcData.length ≤ cu.srcBufSize
  restored : isIntLike cu.infoMode = true → attIsNumericType cu.atttypid = true →
    cu.numericIntLike = true → attlen = .varlena ∧
      ∀ datum, some datum ∈ rows → ∃ value scale, datum.bytes = makeNumeric64 value scale

theorem rowStart_leads {cu : LoadedCU attlen} {rows : List (Option (Value attlen))}
    {advance : List UInt8 → Nat}
    (sized : ∀ row value, rows[row]? = some (some value) →
      advance (cu.memory (rowStart rows row)) = value.bytes.length) (row : Nat)
    (value : Option (Value attlen)) (found : rows[row]? = some value) :
    rowStart rows (row + 1) = if value.isNone then rowStart rows row
      else rowStart rows row + advance (cu.memory (rowStart rows row)) := by
  cases value with
  | none => exact rowStart_succ_none found
  | some datum =>
    rw [rowStart_succ_some found, sized row datum found]
    rfl

namespace Formed

variable {cu : LoadedCU attlen} {rows : List (Option (Value attlen))} (formed : cu.Formed rows)
include formed

theorem hasNull_and_isNull {row : Nat} {value : Option (Value attlen)} (found : rows[row]? = some value) :
    (hasNullValue cu.infoMode && cu.isNull row) = value.isNone := by
  have null := formed.nulls row value found
  by_cases flagged : hasNullValue cu.infoMode = true
  · rw [flagged, Bool.true_and, null]
  · have clear := Bool.eq_false_iff.mpr flagged
    have absent : cu.isNull row = false := by simp [isNull, formed.bitmap clear]
    rw [clear, Bool.false_and, ← null, absent]

theorem memory_rowStart {row : Nat} {value : Value attlen} (found : rows[row]? = some (some value)) :
    ∃ rest, cu.memory (rowStart rows row) = value.bytes ++ rest := by
  have inside := rowStart_le rows row
  rw [memory, formed.srcData, List.drop_append_of_le_length inside, drop_rowStart found, List.append_assoc]
  exact ⟨_, rfl⟩

theorem datumGetSize_memory {row : Nat} {value : Value attlen} (found : rows[row]? = some (some value)) :
    attlen.datumGetSize (cu.memory (rowStart rows row)) = value.bytes.length := by
  obtain ⟨rest, same⟩ := formed.memory_rowStart found
  rw [same, value.sized]

theorem rowStart_le_srcBufSize (row : Nat) : rowStart rows row ≤ cu.srcBufSize := by
  have fits := formed.fits
  rw [formed.srcData] at fits
  exact (rowStart_le rows row).trans fits

/-- The offsets are positions that each row leads on from, by its null or what `advance` reads. -/
theorem offsetLoop_eq {position : Nat → Nat} {advance : List UInt8 → Nat} {check : Bool → Nat → Option Nat}
    (leads : ∀ row value, rows[row]? = some value → position (row + 1) =
      if value.isNone then position row else position row + advance (cu.memory (position row)))
    (passes : ∀ null row, check null (position row) = none) (left row : Nat)
    (inside : row + left ≤ rows.length) :
    cu.offsetLoop (hasNullValue cu.infoMode) advance check row (position row) left =
      .ok ((List.range' row (left + 1)).map position) := by
  induction left generalizing row with
  | zero => rfl
  | succ left ih =>
    have known : rows[row]? = some rows[row] := List.getElem?_eq_getElem (by omega)
    have later := ih (row + 1) (by omega)
    have next := leads row rows[row] known
    rw [← formed.hasNull_and_isNull known] at next
    rw [offsetLoop, ← next, passes, later]
    rfl

end Formed

theorem testBit_or_shiftLeft (byte : UInt8) {bit : Nat} (small : bit < 8) (other : Nat) :
    (UInt8.ofNat (byte.toNat ||| 1 <<< bit)).toNat.testBit other =
      (byte.toNat.testBit other || other == bit) := by
  have power : 1 <<< bit < 2 ^ 8 := by
    rw [Nat.one_shiftLeft]
    exact Nat.pow_lt_pow_right (by decide) small
  have fits : byte.toNat ||| 1 <<< bit < 2 ^ 8 := Nat.or_lt_two_pow byte.toNat_lt power
  rw [UInt8.toNat_ofNat_of_lt' fits, Nat.testBit_or, Nat.one_shiftLeft, Nat.testBit_two_pow]
  congr 1
  rw [Bool.eq_iff_iff, decide_eq_true_iff, beq_iff_eq]
  exact eq_comm

theorem isNull_appendNullValue {row : Nat}
    (inside : row < 8 * cu.nulls.length) (other : Nat) :
    (cu.appendNullValue row).isNull other = (cu.isNull other || other == row) := by
  have known : row / 8 < cu.nulls.length := by omega
  rw [isNull, isNull, appendNullValue, List.getD_eq_getElem?_getD, List.getD_eq_getElem?_getD,
    List.getElem?_modify]
  by_cases byte : row / 8 = other / 8
  · rw [← byte, List.getElem?_eq_getElem known]
    simp only [if_true, Option.map_eq_map, Option.map_some, Option.getD_some]
    rw [testBit_or_shiftLeft _ (Nat.mod_lt _ (by decide))]
    congr 1
    rw [Bool.eq_iff_iff, beq_iff_eq, beq_iff_eq]
    omega
  · have apart : other ≠ row := by
      rintro rfl
      exact byte rfl
    simp only [if_neg byte, Option.map_eq_map, Option.map_id_fun', id_eq,
      beq_eq_false_iff_ne.mpr apart, Bool.or_false]

/-- What appending rows does to a unit. -/
structure Appended (before after : LoadedCU attlen) (first : Nat)
    (rows : List (Option (Value attlen))) : Prop where
  nulls : ∀ row, after.isNull row = true ↔
    before.isNull row = true ∨ first ≤ row ∧ rows[row - first]? = some none
  length : after.nulls.length = before.nulls.length
  infoMode : after.infoMode = before.infoMode
  numericIntLike : after.numericIntLike = before.numericIntLike
  srcData : after.srcData = before.srcData ++ joined rows.reduceOption
  fits : before.nulls.length + before.srcData.length ≤ before.srcBufSize →
    after.nulls.length + after.srcData.length ≤ after.srcBufSize

theorem appended_appendRows (row : Nat) (rows : List (Option (Value attlen)))
    (room : none ∈ rows → row + rows.length ≤ 8 * cu.nulls.length) :
    Appended cu (cu.appendRows row rows) row rows := by
  induction rows generalizing cu row with
  | nil =>
    exact ⟨fun row => by simp [appendRows], rfl, rfl, rfl, by simp [appendRows], id⟩
  | cons value rows ih =>
    have later (other : Nat) : row ≤ other ∧ (value :: rows)[other - row]? = some none ↔
        other = row ∧ value = none ∨ row + 1 ≤ other ∧ rows[other - (row + 1)]? = some none := by
      rcases Nat.lt_trichotomy other row with before | rfl | behind
      · omega
      · simp
      · have next : other - row = other - (row + 1) + 1 := by omega
        have apart : other ≠ row := Nat.ne_of_gt behind
        have reached : row + 1 ≤ other := behind
        rw [next, List.getElem?_cons_succ]
        simp [behind.le, apart, reached]
    cases value with
    | none =>
      have wide := room List.mem_cons_self
      rw [List.length_cons] at wide
      have inside : row < 8 * cu.nulls.length := by omega
      have kept : (cu.appendNullValue row).nulls.length = cu.nulls.length :=
        List.length_modify ..
      obtain ⟨nulls, length, infoMode, numericIntLike, srcData, fits⟩ :=
        ih (cu.appendNullValue row) (row + 1) (fun _ => by omega)
      refine ⟨fun other => ?_, length.trans kept, infoMode, numericIntLike, ?_, ?_⟩
      · rw [appendRows, nulls, isNull_appendNullValue cu inside, later, Bool.or_eq_true, beq_iff_eq]
        tauto
      · rw [List.reduceOption_cons_of_none]
        exact srcData
      · rw [kept] at fits
        exact fits
    | some datum =>
      obtain ⟨nulls, length, infoMode, numericIntLike, srcData, fits⟩ :=
        ih (cu.appendValue datum.bytes) (row + 1) fun null => by
          have wide := room (List.mem_cons_of_mem _ null)
          rw [List.length_cons] at wide
          change row + 1 + rows.length ≤ 8 * cu.nulls.length
          omega
      refine ⟨fun other => ?_, length, infoMode, numericIntLike, ?_, fun before => fits ?_⟩
      · have same : (cu.appendValue datum.bytes).isNull other = cu.isNull other := rfl
        rw [appendRows, nulls, later, same]
        simp
      · rw [List.reduceOption_cons_of_some, joined_cons, ← List.append_assoc]
        exact srcData
      · simp only [appendValue, List.length_append]
        split <;> omega

theorem formed_appendRows (atttypid : Oid) (initialSize : Nat) (hasNull : Bool)
    (rows : List (Option (Value attlen))) (flagged : none ∈ rows → hasNull = true) :
    ((initMem attlen atttypid initialSize rows.length hasNull).appendRows 0 rows).Formed rows := by
  have room (null : none ∈ rows) : 0 + rows.length ≤
      8 * (initMem attlen atttypid initialSize rows.length hasNull).nulls.length := by
    rw [flagged null]
    change 0 + rows.length ≤ 8 * (List.replicate (bitmapSize rows.length) (0 : UInt8)).length
    rw [List.length_replicate, bitmapSize]
    omega
  obtain ⟨nulls, length, infoMode, numericIntLike, srcData, fits⟩ :=
    appended_appendRows (initMem attlen atttypid initialSize rows.length hasNull) 0 rows room
  have clear (row : Nat) : (initMem attlen atttypid initialSize rows.length hasNull).isNull row = false := by
    cases hasNull with
    | false => simp [isNull, initMem]
    | true =>
      simp only [isNull, initMem, if_true, List.getD_eq_getElem?_getD, List.getElem?_replicate]
      split <;> simp
  refine ⟨fun row value found => ?_, fun absent => ?_, by simpa [initMem] using srcData, ?_, ?_⟩
  · have bits := nulls row
    rw [clear, Nat.sub_zero, found] at bits
    rw [Bool.eq_iff_iff, bits, Option.isNone_iff_eq_none]
    simp
  · rw [infoMode] at absent
    have unflagged : hasNull = false := by
      cases hasNull with
      | false => rfl
      | true =>
        change hasNullValue cuHasNull = false at absent
        exact absurd absent (by decide)
    apply List.eq_nil_of_length_eq_zero
    rw [length, unflagged]
    rfl
  · have whole := fits (by cases hasNull <;> simp [initMem])
    omega
  · intro _ _ restored
    rw [numericIntLike] at restored
    exact absurd restored (by simp [initMem])

end LoadedCU

theorem strlen_append_terminator {text : List UInt8} (clear : 0 ∉ text) (rest : List UInt8) :
    strlen (text ++ 0 :: rest) = text.length := by
  have zero : text.findIdx (· == 0) = text.length := by
    rw [List.findIdx_eq_length]
    intro byte held
    rw [beq_eq_false_iff_ne]
    rintro rfl
    exact clear held
  rw [strlen, List.findIdx_append, zero, if_neg (lt_irrefl _)]
  simp [List.findIdx_cons]

/-- The characters before the terminator. -/
def text (value : Value .cstring) : List UInt8 := value.bytes.dropLast

theorem bytes_eq_text (value : Value .cstring) : value.bytes = text value ++ [0] ∧ 0 ∉ text value := by
  obtain ⟨bytes, positive, sized⟩ := value
  have size := sized []
  rw [List.append_nil] at size
  change bytes.findIdx (· == 0) + 1 = bytes.length at size
  have inside : bytes.findIdx (· == 0) < bytes.length := by omega
  have last : bytes[bytes.findIdx (· == 0)] = 0 := by
    simpa using @List.findIdx_getElem _ (· == (0 : UInt8)) bytes inside
  have whole := List.dropLast_append_getLast (List.ne_nil_of_length_pos positive)
  have index : bytes.length - 1 = bytes.findIdx (· == 0) := by omega
  rw [List.getLast_eq_getElem] at whole
  simp only [index, last] at whole
  refine ⟨whole.symm, fun held => ?_⟩
  obtain ⟨place, below, same⟩ := List.getElem_of_mem held
  have short : place < bytes.length - 1 := by simpa [text] using below
  simp only [text, List.getElem_dropLast] at same
  have before := @List.not_of_lt_findIdx _ (· == (0 : UInt8)) bytes place (by omega)
  simp [same] at before

theorem length_text (value : Value .cstring) : (text value).length = value.bytes.length - 1 :=
  List.length_dropLast

/-- The offset of a C string: behind the characters of the first one, as `strlen` finds a terminator
there for all that follow. -/
def cstringOffset (rows : List (Option (Value .cstring))) (row : Nat) : Nat :=
  match (rows.take row).reduceOption with
  | [] => 0
  | first :: _ => (text first).length

theorem take_succ_reduceOption {attlen : AttLen} {rows : List (Option (Value attlen))} {row : Nat}
    {value : Option (Value attlen)} (found : rows[row]? = some value) :
    (rows.take (row + 1)).reduceOption = (rows.take row).reduceOption ++ value.toList := by
  rw [List.take_add_one, found, List.reduceOption_append]
  cases value <;> rfl

namespace LoadedCU

namespace Formed

variable {cu : LoadedCU .cstring} {rows : List (Option (Value .cstring))}

theorem memory_first (formed : cu.Formed rows) {row : Nat} {first : Value .cstring}
    {others : List (Value .cstring)} (before : (rows.take row).reduceOption = first :: others) :
    ∃ rest, cu.memory (text first).length = 0 :: rest := by
  have split := congrArg List.reduceOption (List.take_append_drop row rows)
  rw [List.reduceOption_append, before] at split
  have characters := (bytes_eq_text first).1
  rw [memory, formed.srcData, ← split, List.cons_append, joined_cons, characters]
  simp only [List.append_assoc, List.drop_left]
  exact ⟨_, rfl⟩

theorem cstringOffset_leads (formed : cu.Formed rows) (row : Nat)
    (value : Option (Value .cstring)) (found : rows[row]? = some value) :
    cstringOffset rows (row + 1) = if value.isNone then cstringOffset rows row
      else cstringOffset rows row + strlen (cu.memory (cstringOffset rows row)) := by
  unfold cstringOffset
  rw [take_succ_reduceOption found]
  cases value with
  | none =>
    rw [Option.toList_none, List.append_nil]
    rfl
  | some datum =>
    rw [Option.toList_some, if_neg (by simp)]
    cases before : (rows.take row).reduceOption with
    | nil =>
      have start : rowStart rows row = 0 := by rw [rowStart, before, joined_nil, List.length_nil]
      obtain ⟨rest, same⟩ := formed.memory_rowStart found
      obtain ⟨characters, clear⟩ := bytes_eq_text datum
      rw [start, characters, List.append_assoc, List.singleton_append] at same
      rw [List.nil_append, same, strlen_append_terminator clear, Nat.zero_add]
    | cons first others =>
      obtain ⟨rest, same⟩ := formed.memory_first before
      have absent : strlen (0 :: rest) = 0 := strlen_append_terminator List.not_mem_nil rest
      rw [List.cons_append, same, absent]
      rfl

theorem cstringOffset_le_srcBufSize (formed : cu.Formed rows) (row : Nat) :
    cstringOffset rows row ≤ cu.srcBufSize := by
  have within := formed.rowStart_le_srcBufSize row
  rw [rowStart] at within
  unfold cstringOffset
  cases before : (rows.take row).reduceOption with
  | nil => exact Nat.zero_le _
  | cons first others =>
    rw [before, joined_cons, List.length_append] at within
    have shorter := length_text first
    dsimp only
    omega

end Formed

end LoadedCU

/-- The offset that is made for a row. -/
def rowOffset {attlen : AttLen} (rows : List (Option (Value attlen))) (row : Nat) : Nat :=
  match attlen, rows with
  | .cstring, rows => cstringOffset rows row
  | _, rows => rowStart rows row

theorem rowOffset_eq {attlen : AttLen} (other : attlen ≠ .cstring)
    (rows : List (Option (Value attlen))) (row : Nat) : rowOffset rows row = rowStart rows row := by
  cases attlen with
  | cstring => exact absurd rfl other
  | _ => rfl

theorem length_makeNumeric64 (value scale : Nat) : (makeNumeric64 value scale).length = numeric64Sz := by
  simp [makeNumeric64, numeric64Sz, varhdrsz]

section

variable {attlen : AttLen} {cu : LoadedCU attlen} {rows : List (Option (Value attlen))}
  (formed : cu.Formed rows)

include formed

theorem LoadedCU.Formed.full
    (clear : hasNullValue cu.infoMode = false) : ∀ value ∈ rows, ∃ datum, value = some datum := by
  intro value held
  obtain ⟨row, found⟩ := List.getElem?_of_mem held
  have null := formed.hasNull_and_isNull found
  rw [clear, Bool.false_and] at null
  exact Option.isSome_iff_exists.mp (Option.isNone_eq_false_iff.mp null.symm)

theorem LoadedCU.Formed.offsets {position : Nat → Nat}
    {advance : List UInt8 → Nat} {check : Bool → Nat → Option Nat} (zero : position 0 = 0)
    (leads : ∀ row value, rows[row]? = some value → position (row + 1) =
      if value.isNone then position row else position row + advance (cu.memory (position row)))
    (passes : ∀ null row, check null (position row) = none) :
    some <$> cu.offsetLoop (hasNullValue cu.infoMode) advance check 0 0 rows.length =
      .ok (some ((List.range (rows.length + 1)).map position)) := by
  have made := formed.offsetLoop_eq leads passes rows.length 0 (Nat.zero_add _).le
  rw [zero, ← List.range_eq_range'] at made
  rw [made]
  rfl

/-- A unit has offsets where its values have no common length or there are nulls. -/
theorem LoadedCU.formValuesOffset_eq :
    cu.formValuesOffset rows.length = .ok (if attlen.fixedSize.isSome && !hasNullValue cu.infoMode then none
      else some ((List.range (rows.length + 1)).map (rowOffset rows))) := by
  unfold LoadedCU.formValuesOffset
  dsimp only
  by_cases skipped : (attlen.fixedSize.isSome && !hasNullValue cu.infoMode) = true
  · rw [if_pos skipped, if_pos skipped]
  · rw [if_neg skipped, if_neg skipped]
    by_cases integers : (isIntLike cu.infoMode && attIsNumericType cu.atttypid &&
        !hasNullValue cu.infoMode && cu.numericIntLike) = true
    · rw [if_pos integers]
      simp only [Bool.and_eq_true, Bool.not_eq_true'] at integers
      obtain ⟨⟨⟨intLike, numeric⟩, clear⟩, restoring⟩ := integers
      obtain ⟨rfl, restored⟩ := formed.restored intLike numeric restoring
      congr 2
      apply List.map_congr_left
      intro row inside
      rw [List.mem_range] at inside
      symm
      refine rowStart_of_length (formed.full clear) (fun datum held => ?_) (by omega)
      obtain ⟨value, scale, same⟩ := restored datum held
      rw [same, length_makeNumeric64]
    · have sized : ∀ row value, rows[row]? = some (some value) →
          attlen.datumGetSize (cu.memory (rowStart rows row)) = value.bytes.length :=
        fun _ _ found => formed.datumGetSize_memory found
      rw [if_neg integers]
      cases attlen with
      | varlena =>
        refine formed.offsets rfl (rowStart_leads sized) fun null row => if_neg ?_
        rw [Bool.and_eq_true, decide_eq_true_iff, not_and, not_lt]
        exact fun _ => formed.rowStart_le_srcBufSize row
      | cstring =>
        exact formed.offsets rfl formed.cstringOffset_leads fun null row =>
          if_neg (not_lt.mpr (formed.cstringOffset_le_srcBufSize row))
      | _ => exact formed.offsets rfl (rowStart_leads sized) fun null row => rfl

end

end OpenGauss.CStore
