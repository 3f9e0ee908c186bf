import OpenGauss.CStore.ScalarVector

/-! Reading rows of a compression unit by their positions, `ToVectorLateRead` of `cu.cpp`. -/

namespace OpenGauss.CStore

open Lib SelfSized

namespace LoadedCU

variable {attlen : AttLen}

/-- Where `GetValue` reads the value of a row. -/
def valuePosition (cu : LoadedCU attlen) (offset : List Nat) (rowIdx : Nat) : Nat :=
  match attlen.fixedSize with
  | some size => if hasNullValue cu.infoMode then offset.getD rowIdx 0 else rowIdx * size
  | none => offset.getD rowIdx 0

def lateReadRow (cu : LoadedCU attlen) (offset : List Nat) (row : Nat) : Option ScalarValue :=
  if hasNullValue cu.infoMode && cu.isNull row then none
  else some (addValue attlen (cu.memory (cu.valuePosition offset row)))

/-- The rows from `firstOffset` on that follow each other, `contiguous` of them so far. -/
def contiguousFrom (firstOffset contiguous : Nat) : List Nat → List (Nat × Nat)
  | [] => [(firstOffset, contiguous)]
  | row :: tids =>
    if row = firstOffset + contiguous then contiguousFrom firstOffset (contiguous + 1) tids
    else (firstOffset, contiguous) :: contiguousFrom row 1 tids

def contiguousRuns : List Nat → List (Nat × Nat)
  | [] => []
  | row :: tids => contiguousFrom row 1 tids

/-- The instances without nulls copy runs of rows that follow each other at once. -/
def toVectorLateRead (cu : LoadedCU attlen) (offset tids : List Nat) : List (Option ScalarValue) :=
  if !hasNullValue cu.infoMode then
    match attlen with
    | .varlena =>
      (contiguousRuns tids).flatMap fun run =>
        cu.copyVarlenas offset (offset.getD run.1 0) run.1 run.2
    | .datum => (contiguousRuns tids).flatMap fun run => cu.copyDatums (run.1 * 8) run.2
    | _ => tids.map (cu.lateReadRow offset)
  else tids.map (cu.lateReadRow offset)

end LoadedCU

section Runs

open LoadedCU

theorem flatMap_contiguousFrom (firstOffset contiguous : Nat) (tids : List Nat) :
    (contiguousFrom firstOffset contiguous tids).flatMap (fun run => List.range' run.1 run.2) =
      List.range' firstOffset contiguous ++ tids := by
  induction tids generalizing firstOffset contiguous with
  | nil => simp [contiguousFrom]
  | cons row tids ih =>
    rw [contiguousFrom]
    by_cases next : row = firstOffset + contiguous
    · rw [if_pos next, ih, List.range'_concat, Nat.one_mul, ← next, List.append_assoc]
      rfl
    · rw [if_neg next, List.flatMap_cons, ih]
      rfl

theorem flatMap_contiguousRuns (tids : List Nat) :
    (contiguousRuns tids).flatMap (fun run => List.range' run.1 run.2) = tids := by
  cases tids with
  | nil => rfl
  | cons row tids => exact flatMap_contiguousFrom row 1 tids

variable {tids : List Nat} {run : Nat × Nat}

theorem run_le {rows : Nat} (inside : ∀ row ∈ tids, row < rows) (found : run ∈ contiguousRuns tids)
    (pos : 0 < run.2) :
    run.1 + run.2 ≤ rows := by
  have last : run.1 + (run.2 - 1) ∈ tids := by
    rw [← flatMap_contiguousRuns tids]
    exact List.mem_flatMap.mpr ⟨run, found, List.mem_range'_1.mpr ⟨by omega, by omega⟩⟩
  have below := inside _ last
  omega

theorem contiguous_pos {firstOffset contiguous : Nat} (pos : 0 < contiguous)
    (found : run ∈ contiguousFrom firstOffset contiguous tids) : 0 < run.2 := by
  induction tids generalizing firstOffset contiguous with
  | nil =>
    obtain rfl := List.mem_singleton.mp found
    exact pos
  | cons row tids ih =>
    rw [contiguousFrom] at found
    split at found
    · exact ih (Nat.succ_pos contiguous) found
    · rcases List.mem_cons.mp found with rfl | later
      · exact pos
      · exact ih Nat.one_pos later

theorem run_pos (found : run ∈ contiguousRuns tids) : 0 < run.2 := by
  cases tids with
  | nil => cases found
  | cons row tids => exact contiguous_pos Nat.one_pos found

theorem readVector_runs {attlen : AttLen} {entry : Nat → Option ScalarValue}
    {read : Nat × Nat → List (Option ScalarValue)}
    (each : ∀ run ∈ contiguousRuns tids, readVector attlen (read run) = (List.range' run.1 run.2).map entry) :
    readVector attlen ((contiguousRuns tids).flatMap read) = tids.map entry := by
  calc readVector attlen ((contiguousRuns tids).flatMap read)
      = (contiguousRuns tids).flatMap fun run => readVector attlen (read run) := List.map_flatMap
    _ = (contiguousRuns tids).flatMap fun run => (List.range' run.1 run.2).map entry :=
        List.flatMap_congr each
    _ = tids.map entry := by rw [← List.map_flatMap, flatMap_contiguousRuns]

end Runs

section Rows

variable {attlen : AttLen} {cu : LoadedCU attlen} {rows : List (Option (Value attlen))}
  (formed : cu.Formed rows)
include formed

theorem lateReadRow_none {row : Nat} (offset : List Nat) (found : rows[row]? = some none) :
    cu.lateReadRow offset row = none := by
  rw [LoadedCU.lateReadRow, formed.hasNull_and_isNull found]
  rfl

theorem lateReadRow_some {row : Nat} {datum : Value attlen} (offset : List Nat)
    (found : rows[row]? = some (some datum)) :
    cu.lateReadRow offset row = some (addValue attlen (cu.memory (cu.valuePosition offset row))) := by
  rw [LoadedCU.lateReadRow, formed.hasNull_and_isNull found]
  rfl

theorem valuePosition_eq {row : Nat} (inside : row < rows.length) :
    cu.valuePosition (madeOffsets cu rows) row = rowOffset rows row := by
  have made := @getD_offsets attlen rows (rowOffset rows) row inside.le
  unfold LoadedCU.valuePosition madeOffsets
  cases fixed : attlen.fixedSize with
  | none => exact made
  | some size =>
    dsimp only [Option.isSome_some]
    by_cases flagged : hasNullValue cu.infoMode = true
    · rw [if_pos flagged, flagged]
      exact made
    · have clear := Bool.eq_false_iff.mpr flagged
      have other : attlen ≠ .cstring := by
        rintro rfl
        cases fixed
      rw [if_neg flagged, rowOffset_eq other, rowStart_fixed formed clear fixed inside.le]

theorem extract_lateReadRow (other : attlen ≠ .cstring) {row : Nat} (inside : row < rows.length) :
    (cu.lateReadRow (madeOffsets cu rows) row).map (extract attlen) = rowEntry rows row := by
  have known : rows[row]? = some rows[row] := List.getElem?_eq_getElem inside
  cases value : rows[row] with
  | none =>
    rw [value] at known
    rw [lateReadRow_none formed _ known, rowEntry, known]
    rfl
  | some datum =>
    rw [value] at known
    rw [lateReadRow_some formed _ known, valuePosition_eq formed inside, rowOffset_eq other,
      formed.extract_memory known]

/-- Every length but the one of C strings: the rows themselves are read. -/
theorem readVector_toVectorLateRead (other : attlen ≠ .cstring) {tids : List Nat}
    (inside : ∀ row ∈ tids, row < rows.length) :
    readVector attlen (cu.toVectorLateRead (madeOffsets cu rows) tids) = tids.map (rowEntry rows) := by
  have loop : readVector attlen (tids.map (cu.lateReadRow (madeOffsets cu rows))) =
      tids.map (rowEntry rows) := by
    rw [readVector, List.map_map]
    exact List.map_congr_left fun row held => extract_lateReadRow formed other (inside row held)
  unfold LoadedCU.toVectorLateRead
  by_cases clear : (!hasNullValue cu.infoMode) = true
  · rw [if_pos clear]
    rw [Bool.not_eq_true'] at clear
    cases attlen with
    | varlena =>
      refine readVector_runs fun run found => ?_
      have within := run_le inside found (run_pos found)
      have table : madeOffsets cu rows = (List.range (rows.length + 1)).map (rowStart rows) := rfl
      rw [table, getD_offsets rows (by omega)]
      exact readVector_copyVarlenas formed clear within
    | datum =>
      refine readVector_runs fun run found => ?_
      have within := run_le inside found (run_pos found)
      have start := rowStart_fixed formed clear rfl (by omega : run.1 ≤ rows.length)
      rw [← start]
      exact readVector_copyDatums formed clear within
    | cstring => exact absurd rfl other
    | _ => exact loop
  · rw [if_neg clear]
    exact loop

end Rows

section CStrings

variable {cu : LoadedCU .cstring} {rows : List (Option (Value .cstring))}

theorem reduceOption_take_eq_nil {row : Nat} (inside : row ≤ rows.length) :
    (rows.take row).reduceOption = [] ↔ ∀ earlier < row, rows[earlier]? = some none := by
  rw [List.eq_nil_iff_forall_not_mem]
  constructor
  · intro empty earlier before
    have known : rows[earlier]? = some rows[earlier] := List.getElem?_eq_getElem (by omega)
    cases value : rows[earlier] with
    | none => rw [known, value]
    | some datum =>
      rw [value] at known
      have held : some datum ∈ rows.take row :=
        List.mem_of_getElem? ((List.getElem?_take_of_lt before).trans known)
      exact absurd (List.reduceOption_mem_iff.mpr held) (empty datum)
  · intro nulls datum held
    obtain ⟨earlier, before, same⟩ := List.getElem_of_mem (List.reduceOption_mem_iff.mp held)
    have below : earlier < row := by
      rw [List.length_take] at before
      omega
    have found := nulls earlier below
    rw [List.getElem_take] at same
    rw [List.getElem?_eq_getElem (by omega), same] at found
    cases found

theorem text_eq_nil (datum : Value .cstring) : text datum = [] ↔ datum.bytes.length = 1 := by
  have positive := datum.positive
  rw [← List.length_eq_zero_iff, length_text]
  omega

/-- A C string is read as the empty one behind the first. -/
theorem extract_lateReadRow_cstring (formed : cu.Formed rows) {row : Nat} (inside : row < rows.length) :
    (cu.lateReadRow (madeOffsets cu rows) row).map (extract .cstring) = rowEntry rows row ↔
      ∀ datum, rows[row]? = some (some datum) →
        (∀ earlier < row, rows[earlier]? = some none) ∨ datum.bytes.length = 1 := by
  have known : rows[row]? = some rows[row] := List.getElem?_eq_getElem inside
  cases value : rows[row] with
  | none =>
    rw [value] at known
    rw [lateReadRow_none formed _ known, rowEntry, known]
    simp
  | some datum =>
    rw [value] at known
    rw [lateReadRow_some formed _ known, valuePosition_eq formed inside,
      ← reduceOption_take_eq_nil inside.le]
    change (some (addValue .cstring (cu.memory (cstringOffset rows row)))).map _ = _ ↔ _
    cases before : (rows.take row).reduceOption with
    | nil =>
      have start : cstringOffset rows row = rowStart rows row := by
        rw [cstringOffset, rowStart, before]
        rfl
      rw [start, formed.extract_memory known]
      simp
    | cons first others =>
      obtain ⟨rest, same⟩ := formed.memory_first before
      have offset : cstringOffset rows row = (text first).length := by
        rw [cstringOffset, before]
      have empty := extractCstringType_copy (@List.not_mem_nil _ (0 : UInt8)) rest
      rw [List.nil_append] at empty
      rw [offset, same, Option.map_some, empty, rowEntry, known]
      have whole : ((some (some datum)).join.map fun datum => stored .cstring datum.bytes) =
        some (.pointer (text datum)) := rfl
      rw [whole, Option.some_inj, ScalarValue.pointer.injEq, eq_comm, text_eq_nil]
      simp

end CStrings

/-- Late reading gives what the scan gives of these rows if and only if no C string is read that is
neither the first of the unit nor empty. -/
theorem toVectorLateRead_eq_scan_iff {attlen : AttLen} {cu : LoadedCU attlen}
    {rows : List (Option (Value attlen))} (formed : cu.Formed rows)
    (cuDelMask : Option (List UInt8)) (tids : List Nat)
    (live : ∀ row ∈ tids, row ∈ liveRows cuDelMask 0 rows.length) :
    ∃ offsets, cu.formValuesOffset rows.length = .ok offsets ∧
      ((readVector attlen (cu.toVectorLateRead (offsets.getD []) tids)).map some =
          tids.map (fun row => (readVector attlen
            (cu.scan (offsets.getD []) cuDelMask rows.length rows.length 0 0))[
              (liveRows cuDelMask 0 rows.length).idxOf row]?) ↔
        (attlen = .cstring → ∀ row ∈ tids, ∀ datum, rows[row]? = some (some datum) →
          (∀ earlier < row, rows[earlier]? = some none) ∨ datum.bytes.length = 1)) := by
  refine ⟨_, LoadedCU.formValuesOffset_eq formed, ?_⟩
  have made : (if attlen.fixedSize.isSome && !hasNullValue cu.infoMode then none
      else some ((List.range (rows.length + 1)).map (rowOffset rows))).getD [] =
        madeOffsets cu rows := by
    rw [madeOffsets]
    split <;> rfl
  have inside : ∀ row ∈ tids, row < rows.length := by
    intro row held
    have within := List.mem_range'_1.mp (List.mem_filter.mp (live row held)).1
    omega
  have scanned := readVector_scan formed cuDelMask rows.length 0 (Nat.zero_le _) le_rfl
  rw [rowStart_zero, Nat.sub_zero] at scanned
  have entries : tids.map (fun row => ((liveRows cuDelMask 0 rows.length).map (rowEntry rows))[
      (liveRows cuDelMask 0 rows.length).idxOf row]?) = (tids.map (rowEntry rows)).map some := by
    rw [List.map_map]
    refine List.map_congr_left fun row held => ?_
    rw [List.getElem?_map, List.getElem?_idxOf (live row held)]
    rfl
  rw [made, scanned, entries, (List.map_injective_iff.mpr (Option.some_injective _)).eq_iff]
  by_cases other : attlen = .cstring
  · subst other
    have loop : cu.toVectorLateRead (madeOffsets cu rows) tids =
        tids.map (cu.lateReadRow (madeOffsets cu rows)) := by
      unfold LoadedCU.toVectorLateRead
      split <;> rfl
    rw [loop, readVector, List.map_map, List.map_inj_left]
    constructor
    · intro same _ row held
      exact (extract_lateReadRow_cstring formed (inside row held)).mp (same row held)
    · intro readable row held
      exact (extract_lateReadRow_cstring formed (inside row held)).mpr (readable rfl row held)
  · have same := readVector_toVectorLateRead formed other inside
    simp [same, other]

def sampleNumbers : List (Option (Value .int16)) :=
  [some ⟨[7, 0], by decide, fun _ => rfl⟩, none, some ⟨[9, 0], by decide, fun _ => rfl⟩]

theorem toVectorLateRead_eq_scan_iff_sample :
    ∃ offsets, ((LoadedCU.initMem .int16 21 8 3 true).appendRows 0 sampleNumbers).formValuesOffset
        3 = .ok offsets ∧
      (readVector .int16 (((LoadedCU.initMem .int16 21 8 3 true).appendRows 0
          sampleNumbers).toVectorLateRead (offsets.getD []) [1, 2])).map some =
        [1, 2].map (fun row => (readVector .int16 (((LoadedCU.initMem .int16 21 8 3 true).appendRows
          0 sampleNumbers).scan (offsets.getD []) none 3 3 0 0))[ (liveRows none 0 3).idxOf row]?) := by
  have formed := LoadedCU.formed_appendRows 21 8 true sampleNumbers fun _ => rfl
  obtain ⟨offsets, made, same⟩ := toVectorLateRead_eq_scan_iff formed none [1, 2] (by decide)
  exact ⟨offsets, made, same.mpr nofun⟩

def sampleStrings : List (Option (Value .cstring)) :=
  [some ⟨[97, 0], by decide, fun rest => by simp [AttLen.datumGetSize, strlen, List.findIdx_cons]⟩,
    some ⟨[98, 0], by decide, fun rest => by simp [AttLen.datumGetSize, strlen, List.findIdx_cons]⟩]

/-- The second one is read as the empty string, from the terminator of the first. -/
theorem toVectorLateRead_cstring :
    ((LoadedCU.initMem .cstring 2275 8 2 false).appendRows 0 sampleStrings).Formed sampleStrings ∧
      ∃ offsets, ((LoadedCU.initMem .cstring 2275 8 2 false).appendRows 0
          sampleStrings).formValuesOffset 2 = .ok offsets ∧
        readVector .cstring (((LoadedCU.initMem .cstring 2275 8 2 false).appendRows 0
          sampleStrings).toVectorLateRead (offsets.getD []) [0, 1]) =
            [some (.pointer [97]), some (.pointer [])] ∧
        readVector .cstring (((LoadedCU.initMem .cstring 2275 8 2 false).appendRows 0
          sampleStrings).scan (offsets.getD []) none 2 2 0 0) =
            [some (.pointer [97]), some (.pointer [98])] := by
  have formed := LoadedCU.formed_appendRows 2275 8 false sampleStrings (by simp [sampleStrings])
  exact ⟨formed, _, rfl, by decide, by decide⟩

end OpenGauss.CStore
