import OpenGauss.CStore.LoadedCU

/-! Values of a column in a `ScalarVector`, `vectorbatch.cpp`. -/

namespace OpenGauss.CStore

open Lib SelfSized

/-- What a vector holds for a value: the value, or where its copy is, given by what can be read from
there on. -/
inductive ScalarValue where
  | value (datum : Nat)
  | pointer (bytes : List UInt8)
deriving DecidableEq

def varattShortMax : Nat := 0x7F

def varhdrszShort : Nat := 1

def setVarsizeShort (len : Nat) : List UInt8 := [UInt8.ofNat (len * 2 + 1)]

def setVarsize (len : Nat) : List UInt8 := leBytes varhdrsz (len * 4)

def addFixLenVar (len : Nat) (src : List UInt8) : ScalarValue :=
  .pointer (setVarsizeShort (len + varhdrszShort) ++ src.take len)

def addHeaderVar (src : List UInt8) : ScalarValue := .pointer (src.take (varsizeAny src))

/-- The length counts the terminator, and one byte behind it is copied too. -/
def addCStringVar (src : List UInt8) : ScalarValue :=
  let len := strlen src + 1
  if len + varhdrszShort < varattShortMax then
    .pointer (setVarsizeShort (len + varhdrszShort + 1) ++ src.take (len + 1))
  else .pointer (setVarsize (len + varhdrsz + 1) ++ src.take (len + 1))

/-- A value of a column as a vector gets it from the memory it stands in. -/
def addValue (attlen : AttLen) (src : List UInt8) : ScalarValue :=
  match attlen with
  | .fixed12 => addFixLenVar 12 src
  | .fixed16 => addFixLenVar 16 src
  | .varlena => addHeaderVar src
  | .cstring => addCStringVar src
  | byValue => .value (leNat (src.take (byValue.fixedSize.getD 0)))

def varattIs1B (bytes : List UInt8) : Bool := (bytes.getD 0 0).toNat &&& 0x01 == 0x01

def extractCstringType (bytes : List UInt8) : List UInt8 :=
  let src := if varattIs1B bytes then bytes.drop varhdrszShort else bytes.drop varhdrsz
  src.take (strlen src)

/-- What is read of a value of a vector. -/
def extract (attlen : AttLen) : ScalarValue → ScalarValue
  | .value datum => .value datum
  | .pointer bytes =>
    match attlen with
    | .varlena => .pointer (bytes.take (varsizeAny bytes))
    | .cstring => .pointer (extractCstringType bytes)
    | fixed => .pointer ((bytes.drop varhdrszShort).take (fixed.fixedSize.getD 0))

/-- The value that these bytes are. -/
def stored (attlen : AttLen) (bytes : List UInt8) : ScalarValue :=
  match attlen with
  | .fixed12 => .pointer bytes
  | .fixed16 => .pointer bytes
  | .varlena => .pointer bytes
  | .cstring => .pointer bytes.dropLast
  | _ => .value (leNat bytes)

theorem extract_pointer (datum : Value .varlena) (rest : List UInt8) :
    extract .varlena (.pointer (datum.bytes ++ rest)) = stored .varlena datum.bytes := by
  have size : varsizeAny (datum.bytes ++ rest) = datum.bytes.length := datum.sized rest
  rw [extract, size, List.take_left]
  rfl

theorem extractCstringType_copy {characters : List UInt8} (clear : 0 ∉ characters) (rest : List UInt8) :
    extract .cstring (addValue .cstring (characters ++ 0 :: rest)) = .pointer characters := by
  have length := strlen_append_terminator clear rest
  have copied : (characters ++ 0 :: rest).take (characters.length + 1 + 1) =
      characters ++ 0 :: rest.take 1 := by
    rw [Nat.add_assoc, List.take_length_add_append]
    rfl
  have back : strlen (characters ++ 0 :: rest.take 1) = characters.length :=
    strlen_append_terminator clear _
  rw [addValue, addCStringVar, length, copied]
  by_cases short : characters.length + 1 + varhdrszShort < varattShortMax
  · have odd : varattIs1B (setVarsizeShort (characters.length + 1 + varhdrszShort + 1) ++
        (characters ++ 0 :: rest.take 1)) = true := by
      simp only [varattIs1B, setVarsizeShort, List.singleton_append, List.getD_cons_zero,
        UInt8.toNat_ofNat', Nat.and_one_is_mod, beq_iff_eq]
      omega
    rw [if_pos short, extract, extractCstringType, if_pos odd]
    change ScalarValue.pointer ((characters ++ 0 :: rest.take 1).take
      (strlen (characters ++ 0 :: rest.take 1))) = _
    rw [back, List.take_left]
  · have even : ¬ varattIs1B (setVarsize (characters.length + 1 + varhdrsz + 1) ++
        (characters ++ 0 :: rest.take 1)) = true := by
      simp only [varattIs1B, setVarsize, varhdrsz, leBytes, List.cons_append, List.getD_cons_zero,
        UInt8.toNat_ofNat', Nat.and_one_is_mod, beq_iff_eq]
      omega
    have behind : (setVarsize (characters.length + 1 + varhdrsz + 1) ++
        (characters ++ 0 :: rest.take 1)).drop varhdrsz = characters ++ 0 :: rest.take 1 :=
      List.drop_left' (length_leBytes _ _)
    rw [if_neg short, extract, extractCstringType, if_neg even, behind, back, List.take_left]

theorem extract_addValue {attlen : AttLen} (datum : Value attlen) (rest : List UInt8) :
    extract attlen (addValue attlen (datum.bytes ++ rest)) = stored attlen datum.bytes := by
  have size := datum.sized rest
  have whole : (datum.bytes ++ rest).take datum.bytes.length = datum.bytes := List.take_left
  cases attlen with
  | varlena =>
    have alone := extract_pointer datum []
    rw [List.append_nil] at alone
    change varsizeAny (datum.bytes ++ rest) = datum.bytes.length at size
    rw [addValue, addHeaderVar, size, whole, alone]
  | cstring =>
    obtain ⟨characters, clear⟩ := bytes_eq_text datum
    have copy := extractCstringType_copy clear rest
    rw [← List.singleton_append, ← List.append_assoc, ← characters] at copy
    exact copy
  | fixed12 =>
    change 12 = datum.bytes.length at size
    rw [addValue, addFixLenVar, size, whole]
    change ScalarValue.pointer (datum.bytes.take 12) = _
    rw [size, List.take_length]
    rfl
  | fixed16 =>
    change 16 = datum.bytes.length at size
    rw [addValue, addFixLenVar, size, whole]
    change ScalarValue.pointer (datum.bytes.take 16) = _
    rw [size, List.take_length]
    rfl
  | _ =>
    rw [← size] at whole
    exact congrArg (fun bytes => ScalarValue.value (leNat bytes)) whole

def batchMaxSize : Nat := 1000

variable (cuDelMask : Option (List UInt8))

/-- The bit of a row in the delete mask, which there is only if the unit has dead rows. -/
def isDeadRow (row : Nat) : Bool :=
  cuDelMask.any fun mask => (mask.getD (row / 8) 0).toNat.testBit (row % 8)

/-- What one call fills: the entries of the vector, nulls being flagged, the position of the scan
behind them, and how many dead rows were passed. -/
structure VectorFill where
  vec : List (Option ScalarValue)
  curScanPos : Nat
  deadRows : Nat

namespace VectorFill

def push (entry : Option ScalarValue) (filled : VectorFill) : VectorFill :=
  { filled with vec := entry :: filled.vec }

def passDead (filled : VectorFill) : VectorFill := { filled with deadRows := filled.deadRows + 1 }

end VectorFill

namespace LoadedCU

variable {attlen : AttLen}

/-- The loop over the rows that are left, as long as the vector has room. -/
def toVectorLoop (cu : LoadedCU attlen) (cuDelMask : Option (List UInt8)) :
    Nat → Nat → Nat → Nat → VectorFill
  | 0, _, _, curScanPos => ⟨[], curScanPos, 0⟩
  | _ + 1, _, 0, curScanPos => ⟨[], curScanPos, 0⟩
  | leftRows + 1, row, room + 1, curScanPos =>
    let dead := isDeadRow cuDelMask row
    if hasNullValue cu.infoMode && cu.isNull row then
      if dead then (cu.toVectorLoop cuDelMask leftRows (row + 1) (room + 1) curScanPos).passDead
      else (cu.toVectorLoop cuDelMask leftRows (row + 1) room curScanPos).push none
    else
      let src := cu.memory curScanPos
      let next := curScanPos + attlen.datumGetSize src
      if dead then (cu.toVectorLoop cuDelMask leftRows (row + 1) (room + 1) next).passDead
      else
        (cu.toVectorLoop cuDelMask leftRows (row + 1) room next).push (some (addValue attlen src))

/-- The copy of all bytes of some rows, and the entries that point into it. -/
def copyVarlenas (cu : LoadedCU attlen) (offset : List Nat) (position first rows : Nat) :
    List (Option ScalarValue) :=
  let obase := offset.getD first 0
  let totalBytes := offset.getD (first + rows) 0 - obase
  let base := (cu.memory position).take totalBytes
  (List.range rows).map fun row =>
    some (.pointer (base.drop (offset.getD (first + row) 0 - obase)))

/-- The copy of all bytes of some rows to the values of the vector. -/
def copyDatums (cu : LoadedCU attlen) (position rows : Nat) : List (Option ScalarValue) :=
  let dest := (cu.memory position).take (rows * 8)
  (List.range rows).map fun row => some (.value (leNat ((dest.drop (row * 8)).take 8)))

/-- The instances without nulls and dead rows copy at once. -/
def toVectorT (cu : LoadedCU attlen) (offset : List Nat) (cuDelMask : Option (List UInt8))
    (leftRows rowCursorInCU curScanPos : Nat) : VectorFill :=
  let totalRows := min leftRows batchMaxSize
  if !hasNullValue cu.infoMode && cuDelMask.isNone then
    match attlen with
    | .varlena =>
      { vec := cu.copyVarlenas offset curScanPos rowCursorInCU totalRows
        curScanPos := curScanPos + (offset.getD (rowCursorInCU + totalRows) 0 - offset.getD rowCursorInCU 0)
        deadRows := 0 }
    | .datum =>
      { vec := cu.copyDatums curScanPos totalRows
        curScanPos := curScanPos + totalRows * 8
        deadRows := 0 }
    | _ => cu.toVectorLoop cuDelMask leftRows rowCursorInCU batchMaxSize curScanPos
  else cu.toVectorLoop cuDelMask leftRows rowCursorInCU batchMaxSize curScanPos

/-- The vectors of a scan from a row on, in as many calls at most as there are rows. -/
def scan (cu : LoadedCU attlen) (offset : List Nat) (cuDelMask : Option (List UInt8))
    (rowCount : Nat) : Nat → Nat → Nat → List (Option ScalarValue)
  | 0, _, _ => []
  | calls + 1, rowCursorInCU, curScanPos =>
    if rowCursorInCU < rowCount then
      let filled := cu.toVectorT offset cuDelMask (rowCount - rowCursorInCU) rowCursorInCU
        curScanPos
      filled.vec ++ cu.scan offset cuDelMask rowCount calls
        (rowCursorInCU + filled.vec.length + filled.deadRows) filled.curScanPos
    else []

end LoadedCU

def readVector (attlen : AttLen) (vec : List (Option ScalarValue)) : List (Option ScalarValue) :=
  vec.map (Option.map (extract attlen))

def rowEntry {attlen : AttLen} (rows : List (Option (Value attlen))) (row : Nat) : Option ScalarValue :=
  (rows[row]?.join).map fun datum => stored attlen datum.bytes

def liveRows (row count : Nat) : List Nat :=
  (List.range' row count).filter fun row => !isDeadRow cuDelMask row

theorem liveRows_succ (row count : Nat) :
    liveRows cuDelMask row (count + 1) = if isDeadRow cuDelMask row then liveRows cuDelMask (row + 1) count
      else row :: liveRows cuDelMask (row + 1) count := by
  rw [liveRows, List.range'_succ, List.filter_cons]
  cases isDeadRow cuDelMask row <;> rfl

theorem liveRows_add (row count more : Nat) :
    liveRows cuDelMask row (count + more) =
      liveRows cuDelMask row count ++ liveRows cuDelMask (row + count) more := by
  rw [liveRows, liveRows, liveRows, ← List.filter_append, List.range'_append_1]

/-- What a call does that starts at a row: the entries of the live rows among those it passes. -/
structure Fills {attlen : AttLen} (rows : List (Option (Value attlen)))
    (cuDelMask : Option (List UInt8)) (row count : Nat) (filled : VectorFill) : Prop where
  vec : readVector attlen filled.vec = (liveRows cuDelMask row count).map (rowEntry rows)
  curScanPos : filled.curScanPos = rowStart rows (row + count)
  passed : filled.vec.length + filled.deadRows = count

namespace Fills

variable {attlen : AttLen} {rows : List (Option (Value attlen))} {cuDelMask : Option (List UInt8)}
  {row count : Nat} {filled : VectorFill}

theorem empty (row : Nat) : Fills rows cuDelMask row 0 ⟨[], rowStart rows row, 0⟩ := ⟨rfl, rfl, rfl⟩

theorem passDead (fills : Fills rows cuDelMask (row + 1) count filled)
    (dead : isDeadRow cuDelMask row = true) :
    Fills rows cuDelMask row (count + 1) filled.passDead where
  vec := by
    rw [liveRows_succ, if_pos dead]
    exact fills.vec
  curScanPos := by
    rw [Nat.add_comm count, ← Nat.add_assoc]
    exact fills.curScanPos
  passed := by
    rw [← fills.passed]
    rfl

theorem push (fills : Fills rows cuDelMask (row + 1) count filled)
    (live : ¬ isDeadRow cuDelMask row = true) {entry : Option ScalarValue}
    (read : entry.map (extract attlen) = rowEntry rows row) :
    Fills rows cuDelMask row (count + 1) (filled.push entry) where
  vec := by
    rw [liveRows_succ, if_neg live, List.map_cons, ← read, ← fills.vec]
    rfl
  curScanPos := by
    rw [Nat.add_comm count, ← Nat.add_assoc]
    exact fills.curScanPos
  passed := by
    rw [← fills.passed]
    exact Nat.add_right_comm _ _ _

end Fills

namespace LoadedCU.Formed

variable {attlen : AttLen} {cu : LoadedCU attlen} {rows : List (Option (Value attlen))}
  (formed : cu.Formed rows) {cuDelMask : Option (List UInt8)}
include formed

theorem extract_memory {row : Nat} {datum : Value attlen} (found : rows[row]? = some (some datum)) :
    (some (addValue attlen (cu.memory (rowStart rows row)))).map (extract attlen) =
      rowEntry rows row := by
  obtain ⟨rest, same⟩ := formed.memory_rowStart found
  rw [same, Option.map_some, extract_addValue, rowEntry, found]
  rfl

theorem toVectorLoop_fills (leftRows row room : Nat) (inside : row + leftRows ≤ rows.length) :
    ∃ count ≤ leftRows, (0 < leftRows → 0 < room → 0 < count) ∧ Fills rows cuDelMask row count
        (cu.toVectorLoop cuDelMask leftRows row room (rowStart rows row)) := by
  induction leftRows generalizing row room with
  | zero => exact ⟨0, le_rfl, fun left => absurd left (lt_irrefl 0), .empty row⟩
  | succ leftRows ih =>
    cases room with
    | zero => exact ⟨0, Nat.zero_le _, fun _ room => absurd room (lt_irrefl 0), .empty row⟩
    | succ room =>
      have known : rows[row]? = some rows[row] := List.getElem?_eq_getElem (by omega)
      obtain ⟨behind, passed, -, dead⟩ := ih (row + 1) (room + 1) (by omega)
      obtain ⟨next, pushed, -, live⟩ := ih (row + 1) room (by omega)
      rw [toVectorLoop, formed.hasNull_and_isNull known]
      dsimp only
      cases value : rows[row] with
      | none =>
        rw [value] at known
        have entry : rowEntry rows row = none := by rw [rowEntry, known]; rfl
        rw [rowStart_succ_none known] at dead live
        rw [if_pos Option.isNone_none]
        split
        · rename_i gone
          exact ⟨behind + 1, by omega, fun _ _ => Nat.succ_pos _, dead.passDead gone⟩
        · rename_i kept
          exact ⟨next + 1, by omega, fun _ _ => Nat.succ_pos _, live.push kept entry.symm⟩
      | some datum =>
        rw [value] at known
        have entry := formed.extract_memory known
        rw [rowStart_succ_some known, ← formed.datumGetSize_memory known] at dead live
        rw [if_neg (by simp)]
        split
        · rename_i gone
          exact ⟨behind + 1, by omega, fun _ _ => Nat.succ_pos _, dead.passDead gone⟩
        · rename_i kept
          exact ⟨next + 1, by omega, fun _ _ => Nat.succ_pos _, live.push kept entry⟩

theorem value_of_clear (clear : hasNullValue cu.infoMode = false) {row : Nat}
    (inside : row < rows.length) : ∃ datum, rows[row]? = some (some datum) := by
  obtain ⟨datum, same⟩ := formed.full clear rows[row] (List.getElem_mem inside)
  exact ⟨datum, by rw [List.getElem?_eq_getElem inside, same]⟩

end LoadedCU.Formed

variable {attlen : AttLen} {first count : Nat}

theorem memory_drop (cu : LoadedCU attlen) (rows : List (Option (Value attlen))) {row later : Nat}
    (order : row ≤ later) :
    (cu.memory (rowStart rows row)).drop (rowStart rows later - rowStart rows row) =
      cu.memory (rowStart rows later) := by
  rw [LoadedCU.memory, LoadedCU.memory, List.drop_drop, Nat.add_sub_cancel' (rowStart_mono rows order)]

theorem getD_offsets (rows : List (Option (Value attlen))) {position : Nat → Nat} {row : Nat}
    (inside : row ≤ rows.length) :
    ((List.range (rows.length + 1)).map position).getD row 0 = position row := by
  rw [List.getD_eq_getElem?_getD, List.getElem?_map, List.getElem?_range (by omega)]
  rfl

theorem readVector_copyVarlenas {cu : LoadedCU .varlena} {rows : List (Option (Value .varlena))}
    (formed : cu.Formed rows) (clear : hasNullValue cu.infoMode = false)
    (inside : first + count ≤ rows.length) :
    readVector .varlena (cu.copyVarlenas ((List.range (rows.length + 1)).map (rowStart rows))
        (rowStart rows first) first count) =
      (List.range' first count).map (rowEntry rows) := by
  rw [LoadedCU.copyVarlenas, readVector, List.map_map, List.range'_eq_map_range, List.map_map]
  apply List.map_congr_left
  intro row below
  rw [List.mem_range] at below
  obtain ⟨datum, found⟩ := formed.value_of_clear clear (by omega : first + row < rows.length)
  obtain ⟨rest, same⟩ := formed.memory_rowStart found
  have next := rowStart_succ_some found
  have within : rowStart rows (first + row + 1) ≤ rowStart rows (first + count) :=
    rowStart_mono rows (by omega)
  obtain ⟨more, size⟩ : ∃ more, rowStart rows (first + count) - rowStart rows first -
      (rowStart rows (first + row) - rowStart rows first) = datum.bytes.length + more := by
    have order := rowStart_mono rows (Nat.le_add_right first row)
    exact ⟨rowStart rows (first + count) - rowStart rows (first + row + 1), by omega⟩
  simp only [Function.comp_apply]
  rw [getD_offsets rows (by omega), getD_offsets rows (by omega), getD_offsets rows (by omega),
    List.drop_take, memory_drop cu rows (Nat.le_add_right _ _), same, size,
    List.take_length_add_append, Option.map_some, extract_pointer, rowEntry, found]
  rfl

theorem rowStart_fixed {cu : LoadedCU attlen} {rows : List (Option (Value attlen))} (formed : cu.Formed rows)
    (clear : hasNullValue cu.infoMode = false) {size row : Nat} (fixed : attlen.fixedSize = some size)
    (inside : row ≤ rows.length) :
    rowStart rows row = row * size := by
  refine rowStart_of_length (formed.full clear) (fun datum _ => ?_) inside
  have length := datum.sized []
  cases attlen <;> cases fixed
  all_goals exact length.symm

theorem readVector_copyDatums {cu : LoadedCU .datum} {rows : List (Option (Value .datum))}
    (formed : cu.Formed rows) (clear : hasNullValue cu.infoMode = false)
    (inside : first + count ≤ rows.length) :
    readVector .datum (cu.copyDatums (rowStart rows first) count) =
      (List.range' first count).map (rowEntry rows) := by
  rw [LoadedCU.copyDatums, readVector, List.map_map, List.range'_eq_map_range, List.map_map]
  apply List.map_congr_left
  intro row below
  rw [List.mem_range] at below
  obtain ⟨datum, found⟩ := formed.value_of_clear clear (by omega : first + row < rows.length)
  obtain ⟨rest, same⟩ := formed.memory_rowStart found
  have begin := rowStart_fixed formed clear rfl (by omega : first ≤ rows.length)
  have place := rowStart_fixed formed clear rfl (by omega : first + row ≤ rows.length)
  have moved := memory_drop cu rows (Nat.le_add_right first row)
  have ahead : rowStart rows (first + row) - rowStart rows first = row * 8 := by omega
  have size : datum.bytes.length = 8 := (datum.sized []).symm
  have room : min 8 (count * 8 - row * 8) = 8 := by omega
  rw [ahead, same] at moved
  simp only [Function.comp_apply, Option.map_some, extract]
  rw [List.drop_take, moved, List.take_take, room, ← size, List.take_left, rowEntry, found]
  rfl

theorem liveRows_none (row count : Nat) : liveRows none row count = List.range' row count :=
  List.filter_eq_self.mpr fun _ _ => rfl

theorem length_readVector (vec : List (Option ScalarValue)) :
    (readVector attlen vec).length = vec.length := List.length_map _

def madeOffsets {attlen : AttLen} (cu : LoadedCU attlen) (rows : List (Option (Value attlen))) : List Nat :=
  if attlen.fixedSize.isSome && !hasNullValue cu.infoMode then []
  else (List.range (rows.length + 1)).map (rowOffset rows)

section Scan

variable {attlen : AttLen} {cu : LoadedCU attlen} {rows : List (Option (Value attlen))}
  (formed : cu.Formed rows) (cuDelMask : Option (List UInt8))
include formed

theorem toVectorT_fills {row : Nat} (left : row < rows.length) : ∃ count ≤ rows.length - row, 0 < count ∧
      Fills rows cuDelMask row count (cu.toVectorT (madeOffsets cu rows) cuDelMask
        (rows.length - row) row (rowStart rows row)) := by
  obtain ⟨looped, few, present, fills⟩ := @LoadedCU.Formed.toVectorLoop_fills _ _ _ formed
    cuDelMask (rows.length - row) row batchMaxSize (by omega)
  have loop : ∃ count ≤ rows.length - row, 0 < count ∧
      Fills rows cuDelMask row count (cu.toVectorLoop cuDelMask (rows.length - row) row batchMaxSize
        (rowStart rows row)) := ⟨looped, few, present (by omega) (by decide), fills⟩
  unfold LoadedCU.toVectorT
  dsimp only
  by_cases copied : (!hasNullValue cu.infoMode && cuDelMask.isNone) = true
  · rw [if_pos copied]
    simp only [Bool.and_eq_true, Bool.not_eq_true', Option.isNone_iff_eq_none] at copied
    obtain ⟨clear, rfl⟩ := copied
    have most : min (rows.length - row) batchMaxSize ≤ rows.length - row := min_le_left _ _
    have batch : 0 < min (rows.length - row) batchMaxSize := lt_min (by omega) (by decide)
    generalize min (rows.length - row) batchMaxSize = totalRows at most batch
    have inside : row + totalRows ≤ rows.length := by omega
    cases attlen with
    | varlena =>
      have table : madeOffsets cu rows = (List.range (rows.length + 1)).map (rowStart rows) := rfl
      have read := readVector_copyVarlenas formed clear inside
      have ahead := rowStart_mono rows (Nat.le_add_right row totalRows)
      refine ⟨totalRows, most, batch, ?_, ?_, ?_⟩
      · rw [table, liveRows_none]
        exact read
      · dsimp only
        rw [table, getD_offsets rows inside, getD_offsets rows left.le]
        omega
      · rw [table, Nat.add_zero, ← @length_readVector .varlena, read, List.length_map, List.length_range']
    | datum =>
      have read := readVector_copyDatums formed clear inside
      have begin := rowStart_fixed formed clear rfl left.le
      have finish := rowStart_fixed formed clear rfl inside
      refine ⟨totalRows, most, batch, ?_, ?_, ?_⟩
      · rw [liveRows_none]
        exact read
      · dsimp only
        omega
      · rw [Nat.add_zero, ← @length_readVector .datum, read, List.length_map, List.length_range']
    | _ => exact loop
  · rw [if_neg copied]
    exact loop

/-- The scan gives the entries of the live rows, whatever the calls cover. -/
theorem readVector_scan (calls row : Nat) (inside : row ≤ rows.length) (enough : rows.length - row ≤ calls) :
    readVector attlen (cu.scan (madeOffsets cu rows) cuDelMask rows.length calls row (rowStart rows row)) =
      (liveRows cuDelMask row (rows.length - row)).map (rowEntry rows) := by
  induction calls generalizing row with
  | zero =>
    have done : rows.length - row = 0 := by omega
    rw [done]
    rfl
  | succ calls ih =>
    rw [LoadedCU.scan]
    by_cases left : row < rows.length
    · obtain ⟨count, few, present, vec, scanPos, passed⟩ := toVectorT_fills formed cuDelMask left
      have split : rows.length - row = count + (rows.length - (row + count)) := by omega
      have later := ih (row + count) (by omega) (by omega)
      rw [if_pos left]
      dsimp only
      rw [Nat.add_assoc, passed, scanPos, readVector, List.map_append]
      rw [readVector] at vec later
      rw [vec, later, ← List.map_append, ← liveRows_add, ← split]
    · have done : rows.length - row = 0 := by omega
      rw [if_neg left, done]
      rfl

end Scan

end OpenGauss.CStore
