import Mathlib.Data.Nat.Bitwise
import OpenGauss.Lib.LittleEndian

/-! Run-length coding of fixed-width values, `RleCoder` of `compress_kits.cpp`. A position in a
buffer is what is left of the buffer. -/

namespace OpenGauss.CStore

open Lib

/-- The value at the front, zero-extended, and what follows it. -/
def readData (datasize : Nat) (input : List UInt8) : Nat × List UInt8 :=
  (leNat (input.take datasize), input.drop datasize)

def writeData (datasize data : Nat) : List UInt8 := leBytes datasize data

def rleMarkers : List Nat :=
  [0, 0xFE, 0xFEFE, 0xFEFEFE, 0xFEFEFEFE, 0xFEFEFEFEFE, 0xFEFEFEFEFEFE, 0xFEFEFEFEFEFEFE, 0xFEFEFEFEFEFEFEFE]

def rleMinRepeatsV1 : Nat := 4

def rleMinRepeatsV2 : List Nat := [0, 4, 3, 3, 3, 3, 3, 3, 3]

def rleMaxRepeats : Nat := 0x7fff

/-- The width is one that `Compress` and `Decompress` switch on. -/
structure RleCoder where
  eachValSize : Nat
  minRepeats : Nat
  positive : 0 < eachValSize
  small : eachValSize ≤ 8

namespace RleCoder

variable (coder : RleCoder)

def marker : Nat := rleMarkers.getD coder.eachValSize 0

def writeNonRuns (symbol repeats : Nat) : List UInt8 :=
  if coder.marker ≠ symbol then leWords coder.eachValSize (List.replicate repeats symbol)
  else writeData coder.eachValSize symbol ++ [UInt8.ofNat repeats]

def writeRuns (symbol repeats : Nat) : List UInt8 :=
  writeData coder.eachValSize coder.marker ++ (if 128 ≤ repeats then
      [UInt8.ofNat ((repeats ||| 0x8000) >>> 8), UInt8.ofNat (repeats &&& 0xff)]
    else [UInt8.ofNat repeats]) ++
    writeData coder.eachValSize symbol

def writeRepeats (symbol count : Nat) : List UInt8 :=
  if coder.minRepeats ≤ count then coder.writeRuns symbol count
  else coder.writeNonRuns symbol count

/-- The inner loop: `data2`, `count` and the position it stops at. -/
def scanRun (data1 data2 count : Nat) (input : List UInt8) : Nat × Nat × List UInt8 :=
  if data1 = data2 ∧ coder.eachValSize ≤ input.length ∧ count < rleMaxRepeats then
    let (next, rest) := readData coder.eachValSize input
    scanRun data1 next (count + 1) rest
  else (data2, count, input)
termination_by rleMaxRepeats - count

/-- One pass of the main loop up to the reading of the next `data2`: the bytes written, then
`data1`, `count` and the position. -/
def compressStep (data1 data2 : Nat) (input : List UInt8) : List UInt8 × Nat × Nat × List UInt8 :=
  if data1 = data2 then
    let (last, count, rest) := coder.scanRun data1 data2 2 input
    if data1 = last then
      let written := coder.writeRepeats data1 count
      if coder.eachValSize ≤ rest.length then
        let (next, rest) := readData coder.eachValSize rest
        (written, next, 1, rest)
      else (written, data1, 0, rest)
    else (coder.writeRepeats data1 (count - 1), last, 1, rest)
  else (coder.writeNonRuns data1 1, data2, 1, input)

theorem scanRun_length_le (data1 data2 count : Nat) (input : List UInt8) :
    (coder.scanRun data1 data2 count input).2.2.length ≤ input.length := by
  fun_induction scanRun coder data1 data2 count input with
  | case1 data2 count input _ next rest read ih =>
    obtain ⟨_, rfl⟩ := Prod.mk.inj read
    rw [List.length_drop] at ih
    omega
  | case2 => exact le_rfl

theorem compressStep_length_le (data1 data2 : Nat) (input : List UInt8) :
    (coder.compressStep data1 data2 input).2.2.2.length ≤ input.length := by
  have scanned := coder.scanRun_length_le data1 data2 2 input
  have dropped := (List.drop_sublist coder.eachValSize (coder.scanRun data1 data2 2 input).2.2).length_le
  unfold compressStep
  split
  · dsimp only [readData]
    split
    · split
      · exact dropped.trans scanned
      · exact scanned
    · exact scanned
  · exact le_rfl

/-- The main loop, with the value left over at its end. -/
def compressLoop (data1 data2 : Nat) (input : List UInt8) : List UInt8 :=
  let step := coder.compressStep data1 data2 input
  if _more : coder.eachValSize ≤ step.2.2.2.length then
    let read := readData coder.eachValSize step.2.2.2
    step.1 ++ compressLoop step.2.1 read.1 read.2
  else if step.2.2.1 = 1 then step.1 ++ coder.writeNonRuns step.2.1 1
  else step.1
termination_by input.length
decreasing_by
  have shorter := coder.compressStep_length_le data1 data2 input
  have positive := coder.positive
  simp only [step, readData, List.length_drop] at *
  omega

def innerCompress (inbuf : List UInt8) : List UInt8 :=
  let (data1, rest) := readData coder.eachValSize inbuf
  if 2 * coder.eachValSize ≤ inbuf.length then
    let (data2, rest) := readData coder.eachValSize rest
    coder.compressLoop data1 data2 rest
  else coder.writeNonRuns data1 1

/-- One pass of the decompression loop: the values written and the position after it. -/
def decompressStep (input : List UInt8) : List UInt8 × List UInt8 :=
  let (symbol, rest) := readData coder.eachValSize input
  if coder.marker = symbol then
    let markerCount := (rest.getD 0 0).toNat
    if coder.minRepeats ≤ markerCount then
      let (symbolCount, rest) :=
        if markerCount &&& 0x80 ≠ 0 then
          ((markerCount <<< 8 % 2 ^ 16 + (rest.getD 1 0).toNat) &&& 0x7fff, rest.drop 2)
        else (markerCount, rest.drop 1)
      let (symbol, rest) := readData coder.eachValSize rest
      (leWords coder.eachValSize (List.replicate symbolCount symbol), rest)
    else (leWords coder.eachValSize (List.replicate markerCount symbol), rest.drop 1)
  else (writeData coder.eachValSize symbol, rest)

theorem decompressStep_drop (input : List UInt8) :
    ∃ read, coder.eachValSize ≤ read ∧ (coder.decompressStep input).2 = input.drop read := by
  unfold decompressStep
  dsimp only [readData]
  split
  · split
    · split
      · exact ⟨coder.eachValSize + 2 + coder.eachValSize, by omega, by simp [List.drop_drop]⟩
      · exact ⟨coder.eachValSize + 1 + coder.eachValSize, by omega, by simp [List.drop_drop]⟩
    · exact ⟨coder.eachValSize + 1, by omega, List.drop_drop⟩
  · exact ⟨coder.eachValSize, le_rfl, rfl⟩

def innerDecompress (inbuf : List UInt8) : List UInt8 :=
  let step := coder.decompressStep inbuf
  if _more : coder.eachValSize ≤ step.2.length then step.1 ++ innerDecompress step.2
  else step.1
termination_by inbuf.length
decreasing_by
  obtain ⟨read, wide, rest⟩ := coder.decompressStep_drop inbuf
  have positive := coder.positive
  simp only [step, rest, List.length_drop] at *
  omega

/-- The settings the two constructors are called with. -/
def Configured : Prop :=
  coder.minRepeats = rleMinRepeatsV1 ∨ coder.minRepeats = rleMinRepeatsV2.getD coder.eachValSize 0

variable {coder}

theorem Configured.bounds (configured : coder.Configured) :
    1 < coder.minRepeats ∧ coder.minRepeats ≤ 128 := by
  obtain ⟨size, least, positive, small⟩ := coder
  change 1 < least ∧ least ≤ 128
  rcases configured with version | version
  · change least = 4 at version
    omega
  · change least = rleMinRepeatsV2.getD size 0 at version
    subst version
    have one : 1 ≤ size := positive
    clear positive
    interval_cases size <;> decide

theorem marker_lt (coder : RleCoder) : coder.marker < 256 ^ coder.eachValSize := by
  obtain ⟨size, least, positive, small⟩ := coder
  change rleMarkers.getD size 0 < 256 ^ size
  interval_cases size <;> decide

theorem readData_leBytes {width value : Nat} (fits : value < 256 ^ width) (rest : List UInt8) :
    readData width (leBytes width value ++ rest) = (value, rest) := by
  have length := length_leBytes width value
  rw [readData, List.take_left' length, List.drop_left' length, leNat_leBytes fits]

/-- Decompression of what is left, with nothing left giving nothing. -/
def decoded (coder : RleCoder) (input : List UInt8) : List UInt8 :=
  if input = [] then [] else coder.innerDecompress input

/-- Nothing, or enough for one more value. -/
def Framed (coder : RleCoder) (input : List UInt8) : Prop :=
  input = [] ∨ coder.eachValSize ≤ input.length

/-- Whatever follows, these bytes are read as these values. -/
structure Decodes (coder : RleCoder) (bytes : List UInt8) (values : List Nat) : Prop where
  framed : coder.Framed bytes
  reads : ∀ more, coder.Framed more →
    coder.decoded (bytes ++ more) = leWords coder.eachValSize values ++ coder.decoded more

theorem Decodes.nil : coder.Decodes [] [] := ⟨Or.inl rfl, fun _ _ => rfl⟩

theorem Framed.append {front back : List UInt8} (first : coder.Framed front)
    (second : coder.Framed back) : coder.Framed (front ++ back) := by
  rcases first with rfl | wide
  · exact second
  · right
    rw [List.length_append]
    omega

theorem Decodes.append {front back : List UInt8} {values others : List Nat}
    (first : coder.Decodes front values) (second : coder.Decodes back others) :
    coder.Decodes (front ++ back) (values ++ others) where
  framed := first.framed.append second.framed
  reads more framed := by
    rw [List.append_assoc, first.reads _ (second.framed.append framed), second.reads more framed,
      leWords_append, List.append_assoc]

theorem Decodes.of_step {token : List UInt8} {values : List Nat} (wide : coder.eachValSize ≤ token.length)
    (step : ∀ more, coder.decompressStep (token ++ more) =
      (leWords coder.eachValSize values, more)) : coder.Decodes token values := by
  refine ⟨Or.inr wide, fun more framed => ?_⟩
  have positive := coder.positive
  have occupied : token ++ more ≠ [] := by
    intro empty
    obtain ⟨rfl, _⟩ := List.append_eq_nil_iff.mp empty
    rw [List.length_nil] at wide
    omega
  rw [decoded, if_neg occupied, innerDecompress]
  simp only [step more]
  rcases framed with rfl | enough
  · rw [dif_neg (by simpa using positive.ne'), decoded, if_pos rfl, List.append_nil]
  · have rest : more ≠ [] := by
      rintro rfl
      rw [List.length_nil] at enough
      omega
    rw [dif_pos enough, decoded, if_neg rest]

theorem decodes_plain {symbol : Nat} (fits : symbol < 256 ^ coder.eachValSize)
    (other : coder.marker ≠ symbol) :
    coder.Decodes (leBytes coder.eachValSize symbol) [symbol] := by
  refine .of_step (length_leBytes _ _).ge fun more => ?_
  rw [decompressStep, readData_leBytes fits]
  simp [other, writeData]

theorem decodes_plains {symbol : Nat} (fits : symbol < 256 ^ coder.eachValSize)
    (other : coder.marker ≠ symbol) (repeats : Nat) :
    coder.Decodes (leWords coder.eachValSize (List.replicate repeats symbol))
      (List.replicate repeats symbol) := by
  induction repeats with
  | zero => exact .nil
  | succ repeats ih =>
    rw [List.replicate_succ, leWords_cons]
    exact (decodes_plain fits other).append ih

theorem decodes_markers {repeats : Nat} (few : repeats < coder.minRepeats) (bound : coder.minRepeats ≤ 128) :
    coder.Decodes (writeData coder.eachValSize coder.marker ++ [UInt8.ofNat repeats])
      (List.replicate repeats coder.marker) := by
  have byte : (UInt8.ofNat repeats).toNat = repeats := by
    rw [UInt8.toNat_ofNat']
    omega
  refine .of_step (by simp [writeData]) fun more => ?_
  rw [writeData, List.append_assoc, decompressStep, readData_leBytes coder.marker_lt]
  simp [byte, Nat.not_le.mpr few]

theorem long_count {repeats : Nat} (long : 128 ≤ repeats) (bound : repeats ≤ rleMaxRepeats) :
    (UInt8.ofNat ((repeats ||| 0x8000) >>> 8)).toNat = 128 + repeats / 256 ∧
      (UInt8.ofNat (repeats &&& 0xff)).toNat = repeats % 256 := by
  have top : repeats ||| 0x8000 = 2 ^ 15 * 1 + repeats := by
    rw [Nat.two_pow_add_eq_or_of_lt (bound.trans_lt (by decide)), Nat.or_comm]
  have low : repeats &&& 0xff = repeats % 2 ^ 8 := Nat.and_two_pow_sub_one_eq_mod repeats 8
  rw [top, low, Nat.shiftRight_eq_div_pow, UInt8.toNat_ofNat', UInt8.toNat_ofNat']
  simp only [rleMaxRepeats] at bound
  omega

/-- The bit that says whether a count takes one byte or two. -/
theorem high_bit {byte : Nat} (small : byte < 256) : byte &&& 0x80 ≠ 0 ↔ 128 ≤ byte := by
  have bit : byte &&& 0x80 = (byte.testBit 7).toNat * 2 ^ 7 := Nat.and_two_pow byte 7
  rw [bit, Nat.testBit_eq_decide_div_mod_eq]
  by_cases set : byte / 2 ^ 7 % 2 = 1
  · simp only [set, decide_true, Bool.toNat_true]
    omega
  · simp only [set, decide_false, Bool.toNat_false]
    omega

theorem decodes_run {symbol repeats : Nat} (fits : symbol < 256 ^ coder.eachValSize)
    (least : coder.minRepeats ≤ repeats) (bound : coder.minRepeats ≤ 128)
    (most : repeats ≤ rleMaxRepeats) :
    coder.Decodes (coder.writeRuns symbol repeats) (List.replicate repeats symbol) := by
  refine .of_step (by simp [writeRuns, writeData]) fun more => ?_
  rw [writeRuns, writeData, List.append_assoc, List.append_assoc, decompressStep,
    readData_leBytes coder.marker_lt]
  by_cases long : 128 ≤ repeats
  · obtain ⟨high, low⟩ := long_count long most
    have short : repeats < 0x8000 := most.trans_lt (by decide)
    have flagged : (128 + repeats / 256) &&& 0x80 ≠ 0 :=
      (high_bit (by omega)).mpr (Nat.le_add_right _ _)
    have whole : (128 + repeats / 256) <<< 8 % 2 ^ 16 + repeats % 256 = 0x8000 + repeats := by
      rw [Nat.shiftLeft_eq]
      omega
    have joined : ((128 + repeats / 256) <<< 8 % 2 ^ 16 + repeats % 256) &&& 0x7fff = repeats := by
      rw [whole, Nat.and_two_pow_sub_one_eq_mod _ 15]
      omega
    rw [if_pos long]
    simp only [List.cons_append, List.nil_append, List.getD_cons_zero, List.getD_cons_succ, high,
      low, if_true, if_pos (bound.trans (Nat.le_add_right 128 (repeats / 256))), if_pos flagged,
      joined, List.drop_succ_cons, List.drop_zero, writeData, readData_leBytes fits]
  · have byte : (UInt8.ofNat repeats).toNat = repeats := by
      rw [UInt8.toNat_ofNat']
      omega
    have unflagged : ¬ repeats &&& 0x80 ≠ 0 := mt (high_bit (by omega)).mp long
    rw [if_neg long]
    simp only [List.cons_append, List.nil_append, List.getD_cons_zero, byte, if_true,
      if_pos least, if_neg unflagged, List.drop_succ_cons, List.drop_zero, writeData,
      readData_leBytes fits]

/-- The two kinds of token written for equal values. -/
theorem decodes_nonRuns {symbol repeats : Nat} (fits : symbol < 256 ^ coder.eachValSize)
    (few : repeats < coder.minRepeats) (bound : coder.minRepeats ≤ 128) :
    coder.Decodes (coder.writeNonRuns symbol repeats) (List.replicate repeats symbol) := by
  unfold writeNonRuns
  split
  · rename_i other
    exact decodes_plains fits other repeats
  · rename_i same
    obtain rfl : coder.marker = symbol := not_not.mp same
    exact decodes_markers few bound

theorem decodes_repeats {symbol count : Nat} (fits : symbol < 256 ^ coder.eachValSize)
    (bound : coder.minRepeats ≤ 128) (most : count ≤ rleMaxRepeats) :
    coder.Decodes (coder.writeRepeats symbol count) (List.replicate count symbol) := by
  unfold writeRepeats
  split
  · rename_i least
    exact decodes_run fits least bound most
  · rename_i few
    exact decodes_nonRuns fits (Nat.not_le.mp few) bound

/-- The scan goes over copies of `data1` and stops at another value, at the end, or at the longest
run. -/
inductive Scanned (data1 count : Nat) (values : List Nat) : Nat × Nat × List UInt8 → Prop
  | stopped (copies : Nat) (rest : List Nat) (passed : values = List.replicate copies data1 ++ rest)
      (most : count + copies ≤ rleMaxRepeats) :
      Scanned data1 count values (data1, count + copies, leWords coder.eachValSize rest)
  | broken (copies next : Nat) (rest : List Nat)
      (passed : values = List.replicate copies data1 ++ next :: rest) (other : data1 ≠ next)
      (most : count + copies < rleMaxRepeats) :
      Scanned data1 count values (next, count + copies + 1, leWords coder.eachValSize rest)

theorem scanned {data1 count : Nat} {values : List Nat} (most : count ≤ rleMaxRepeats)
    (fits : ∀ value ∈ values, value < 256 ^ coder.eachValSize) :
    coder.Scanned data1 count values
      (coder.scanRun data1 data1 count (leWords coder.eachValSize values)) := by
  induction values generalizing count with
  | nil =>
    have short : ¬ coder.eachValSize ≤ ([] : List UInt8).length := by
      have positive := coder.positive
      rw [List.length_nil]
      omega
    rw [scanRun, if_neg fun more => short more.2.1]
    exact .stopped 0 [] rfl most
  | cons value values ih =>
    obtain ⟨first, rest⟩ := List.forall_mem_cons.mp fits
    rw [scanRun]
    by_cases room : count < rleMaxRepeats
    · have wide : coder.eachValSize ≤ (leWords coder.eachValSize (value :: values)).length := by
        simp
      rw [if_pos ⟨rfl, wide, room⟩, leWords_cons, readData_leBytes first]
      dsimp only
      by_cases same : data1 = value
      · subst same
        have later := ih room rest
        generalize coder.scanRun data1 data1 (count + 1) (leWords coder.eachValSize values) =
          result at later ⊢
        cases later with
        | stopped copies rest passed most =>
          rw [Nat.succ_add_eq_add_succ]
          exact .stopped (copies + 1) rest (by rw [passed, List.replicate_succ]; rfl) (by omega)
        | broken copies next rest passed other most =>
          rw [Nat.succ_add_eq_add_succ]
          exact .broken (copies + 1) next rest (by rw [passed, List.replicate_succ]; rfl) other
            (by omega)
      · rw [scanRun, if_neg fun more => same more.1]
        exact .broken 0 value values rfl same room
    · rw [if_neg fun more => room more.2.2]
      exact .stopped 0 (value :: values) rfl most

/-- What one pass leaves to do: a value in hand and those ahead, or nothing at all. -/
inductive Stepped (coder : RleCoder) (whole : List Nat) : List UInt8 × Nat × Nat × List UInt8 → Prop
  | pending (written : List UInt8) (done : List Nat) (next : Nat) (rest : List Nat)
      (decodes : coder.Decodes written done) (progress : done ≠ [])
      (split : whole = done ++ next :: rest) :
      Stepped coder whole (written, next, 1, leWords coder.eachValSize rest)
  | drained (written : List UInt8) (stale : Nat) (decodes : coder.Decodes written whole) :
      Stepped coder whole (written, stale, 0, [])

variable (least : 1 < coder.minRepeats) (bound : coder.minRepeats ≤ 128)
include bound

include least in
theorem stepped {data1 data2 : Nat} {values : List Nat}
    (fits : ∀ value ∈ data1 :: data2 :: values, value < 256 ^ coder.eachValSize) :
    coder.Stepped (data1 :: data2 :: values)
      (coder.compressStep data1 data2 (leWords coder.eachValSize values)) := by
  obtain ⟨first, others⟩ := List.forall_mem_cons.mp fits
  have ahead := (List.forall_mem_cons.mp others).2
  unfold compressStep
  by_cases same : data1 = data2
  · subst same
    have scan := @scanned coder data1 2 values (by decide) ahead
    generalize coder.scanRun data1 data1 2 (leWords coder.eachValSize values) = result at scan ⊢
    rw [if_pos rfl]
    cases scan with
    | stopped copies rest passed most =>
      have written := decodes_repeats first bound most
      have whole : data1 :: data1 :: values = List.replicate (2 + copies) data1 ++ rest := by
        rw [passed, List.replicate_add, List.append_assoc]
        rfl
      dsimp only
      rw [if_pos rfl]
      cases rest with
      | nil =>
        rw [if_neg (by simpa using coder.positive.ne')]
        rw [List.append_nil] at whole
        exact .drained _ _ (whole ▸ written)
      | cons next rest =>
        have nextFits := ahead next (by rw [passed]; simp)
        rw [if_pos (by simp), leWords_cons, readData_leBytes nextFits]
        exact .pending _ _ next rest written (by simp) whole
    | broken copies next rest passed other most =>
      dsimp only
      rw [if_neg other]
      have written := decodes_repeats first bound most.le
      refine .pending _ _ next rest written (by simp) ?_
      rw [passed, List.replicate_add, List.append_assoc]
      rfl
  · rw [if_neg same]
    exact .pending _ [data1] data2 values (decodes_nonRuns first least bound) (by simp) rfl

include least in
/-- The main loop writes what reads back as the two values in hand and all that follow. -/
theorem decodes_compressLoop {data1 data2 : Nat} {values : List Nat}
    (fits : ∀ value ∈ data1 :: data2 :: values, value < 256 ^ coder.eachValSize) :
    coder.Decodes (coder.compressLoop data1 data2 (leWords coder.eachValSize values))
      (data1 :: data2 :: values) := by
  induction sized : values.length using Nat.strong_induction_on generalizing data1 data2 values with
  | _ count ih =>
    have step := stepped least bound fits
    rw [compressLoop]
    generalize coder.compressStep data1 data2 (leWords coder.eachValSize values) = result at step ⊢
    cases step with
    | pending written done next rest decodes occupied parts =>
      rw [parts] at fits ⊢
      have ahead : ∀ value ∈ next :: rest, value < 256 ^ coder.eachValSize :=
        fun value member => fits value (List.mem_append_right done member)
      cases rest with
      | nil =>
        rw [dif_neg (by simpa using coder.positive.ne'), if_pos rfl]
        exact decodes.append (decodes_nonRuns (ahead next List.mem_cons_self) least bound)
      | cons value rest =>
        have valueFits := ahead value (by simp)
        have fewer : rest.length < count := by
          have lengths := congrArg List.length parts
          have advanced := List.length_pos_iff.mpr occupied
          simp only [List.length_append, List.length_cons] at lengths
          omega
        rw [dif_pos (by simp)]
        simp only [leWords_cons, readData_leBytes valueFits]
        exact decodes.append (ih _ fewer ahead rfl)
    | drained written stale decodes =>
      rw [dif_neg (by simpa using coder.positive.ne'), if_neg (by simp)]
      exact decodes

include least in
theorem decodes_innerCompress {values : List Nat} (nonempty : values ≠ [])
    (fits : ∀ value ∈ values, value < 256 ^ coder.eachValSize) :
    coder.Decodes (coder.innerCompress (leWords coder.eachValSize values)) values := by
  unfold innerCompress
  match values, nonempty with
  | [data1], _ =>
    have first := fits data1 List.mem_cons_self
    have positive := coder.positive
    rw [leWords_cons, readData_leBytes first]
    dsimp only
    rw [if_neg (by simp; omega)]
    exact decodes_nonRuns first least bound
  | data1 :: data2 :: values, _ =>
    obtain ⟨first, others⟩ := List.forall_mem_cons.mp fits
    have second := others data2 List.mem_cons_self
    rw [leWords_cons, readData_leBytes first]
    dsimp only
    rw [if_pos (by simp; omega), leWords_cons, readData_leBytes second]
    exact decodes_compressLoop least bound fits

omit bound

theorem innerDecompress_leWords (configured : coder.Configured) {values : List Nat}
    (nonempty : values ≠ []) (fits : ∀ value ∈ values, value < 256 ^ coder.eachValSize) :
    coder.innerDecompress (coder.innerCompress (leWords coder.eachValSize values)) =
      leWords coder.eachValSize values := by
  obtain ⟨least, bound⟩ := configured.bounds
  have reads := (decodes_innerCompress least bound nonempty fits).reads [] (Or.inl rfl)
  have empty : coder.decoded [] = [] := if_pos rfl
  rw [List.append_nil, empty, List.append_nil, decoded] at reads
  split at reads
  · have length := congrArg List.length reads
    rw [List.length_nil, length_leWords] at length
    have pos := Nat.mul_pos (List.length_pos_iff.mpr nonempty) coder.positive
    omega
  · exact reads

/-- Decompression undoes compression, for both versions of the coder, whatever the values are. -/
theorem innerDecompress_innerCompress (coder : RleCoder) (configured : coder.Configured)
    (inbuf : List UInt8) (nonempty : inbuf ≠ []) (whole : coder.eachValSize ∣ inbuf.length) :
    coder.innerDecompress (coder.innerCompress inbuf) = inbuf := by
  obtain ⟨count, length⟩ := whole
  obtain ⟨values, _, fits, rfl⟩ := exists_leWords (length.trans (Nat.mul_comm _ _))
  apply innerDecompress_leWords configured _ fits
  rintro rfl
  exact nonempty rfl

/-- A run of markers and a value of its own, two bytes each. -/
def sampleCoder : RleCoder := ⟨2, 3, by decide, by decide⟩

theorem innerDecompress_innerCompress_sample :
    sampleCoder.innerDecompress (sampleCoder.innerCompress [0xFE, 0xFE, 0xFE, 0xFE, 1, 0]) =
      [0xFE, 0xFE, 0xFE, 0xFE, 1, 0] :=
  innerDecompress_innerCompress sampleCoder (Or.inr rfl) _ (by decide) ⟨3, rfl⟩

end RleCoder

end OpenGauss.CStore
