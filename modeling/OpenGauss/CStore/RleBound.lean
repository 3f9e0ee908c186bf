import OpenGauss.CStore.RleCoder

namespace OpenGauss.CStore

open Lib

def rleGetBound1 (inSize eachSize : Nat) : Nat := 1 + inSize + (inSize / eachSize) >>> 1

namespace RleCoder

variable {coder : RleCoder}

def compressGetBound (coder : RleCoder) (insize : Nat) : Nat :=
  rleGetBound1 insize coder.eachValSize

theorem Configured.three_le (configured : coder.Configured) : 3 ≤ coder.minRepeats := by
  obtain ⟨size, least, positive, small⟩ := coder
  change 3 ≤ least
  rcases configured with version | version
  · change least = 4 at version
    omega
  · change least = rleMinRepeatsV2.getD size 0 at version
    subst version
    have one : 1 ≤ size := positive
    clear positive
    interval_cases size <;> decide

theorem length_writeNonRuns {symbol : Nat} (other : coder.marker ≠ symbol) (repeats : Nat) :
    (coder.writeNonRuns symbol repeats).length = repeats * coder.eachValSize := by
  rw [writeNonRuns, if_pos other, length_leWords, List.length_replicate]

theorem length_writeNonRuns_marker (repeats : Nat) :
    (coder.writeNonRuns coder.marker repeats).length = coder.eachValSize + 1 := by
  rw [writeNonRuns, if_neg (not_not.mpr rfl), List.length_append, writeData, length_leBytes,
    List.length_singleton]

theorem length_writeRuns (symbol repeats : Nat) : (coder.writeRuns symbol repeats).length =
      2 * coder.eachValSize + if 128 ≤ repeats then 2 else 1 := by
  rw [writeRuns, writeData, writeData]
  split <;> simp only [List.length_append, length_leBytes, List.length_cons, List.length_nil] <;> omega

/-- Three copies pay for the token of a run, but for one byte. -/
theorem length_writeRuns_le {symbol repeats : Nat} (many : 3 ≤ repeats) :
    (coder.writeRuns symbol repeats).length ≤ repeats * coder.eachValSize + 1 := by
  rw [length_writeRuns]
  have positive := coder.positive
  have three : 3 * coder.eachValSize ≤ repeats * coder.eachValSize :=
    Nat.mul_le_mul_right _ many
  split
  · rename_i long
    have copies : 128 * coder.eachValSize ≤ repeats * coder.eachValSize :=
      Nat.mul_le_mul_right _ long
    omega
  · omega

/-- Half a byte is put by for each value, and a whole one for a marker in hand. -/
def marked (coder : RleCoder) (value : Nat) : Nat := if coder.marker = value then 1 else 0

theorem marked_le (coder : RleCoder) (value : Nat) : coder.marked value ≤ 1 := by
  unfold marked
  split <;> omega

@[simp] theorem marked_marker (coder : RleCoder) : coder.marked coder.marker = 1 := if_pos rfl

theorem marked_of_ne {value : Nat} (other : coder.marker ≠ value) : coder.marked value = 0 :=
  if_neg other

/-- What the copies of a value have put by pays for their token and for `next`. -/
theorem length_writeRepeats {symbol count next : Nat} (three : 3 ≤ coder.minRepeats)
    (pos : 0 < count) (change : count < coder.minRepeats → symbol ≠ next) :
    2 * (coder.writeRepeats symbol count).length + coder.marked next ≤
      2 * (count * coder.eachValSize) + count + coder.marked symbol := by
  have ahead := coder.marked_le next
  unfold writeRepeats
  split
  · rename_i least
    have token := @length_writeRuns_le coder symbol count (three.trans least)
    omega
  · rename_i few
    by_cases other : coder.marker = symbol
    · subst other
      rw [length_writeNonRuns_marker, marked_marker]
      by_cases single : count = 1
      · rw [marked_of_ne (change (Nat.not_le.mp few)), single]
        omega
      · have copies : 2 * coder.eachValSize ≤ count * coder.eachValSize :=
          Nat.mul_le_mul_right _ (by omega)
        have positive := coder.positive
        omega
    · rw [length_writeNonRuns other]
      omega

theorem length_writeNonRuns_one {symbol next : Nat} (three : 3 ≤ coder.minRepeats) (change : symbol ≠ next) :
    2 * (coder.writeNonRuns symbol 1).length + coder.marked next ≤
      2 * coder.eachValSize + 1 + coder.marked symbol := by
  have token := length_writeRepeats three Nat.one_pos fun _ => change
  rwa [writeRepeats, if_neg (by omega), Nat.one_mul] at token

/-- A scan that stops at another copy has reached the longest run. -/
theorem scanRun_full {data1 data2 count : Nat} {input : List UInt8}
    (same : data1 = (coder.scanRun data1 data2 count input).1)
    (more : coder.eachValSize ≤ (coder.scanRun data1 data2 count input).2.2.length) :
    rleMaxRepeats ≤ (coder.scanRun data1 data2 count input).2.1 := by
  fun_induction scanRun coder data1 data2 count input with
  | case1 data2 count input _ next rest _ ih => exact ih same more
  | case2 data2 count input stop =>
    by_contra short
    exact stop ⟨same, more, Nat.not_le.mp short⟩

/-- The bytes of one pass, paid for by the values it has done with. -/
inductive Paid (coder : RleCoder) (data1 : Nat) (whole : List Nat) :
    List UInt8 × Nat × Nat × List UInt8 → Prop
  | pending (written : List UInt8) (done : List Nat) (next : Nat) (rest : List Nat)
      (progress : done ≠ []) (split : whole = done ++ next :: rest)
      (paid : 2 * written.length + coder.marked next ≤
        2 * (done.length * coder.eachValSize) + done.length + coder.marked data1) :
      Paid coder data1 whole (written, next, 1, leWords coder.eachValSize rest)
  | drained (written : List UInt8) (stale : Nat) (paid : 2 * written.length ≤
        2 * (whole.length * coder.eachValSize) + whole.length + coder.marked data1) :
      Paid coder data1 whole (written, stale, 0, [])

variable (configured : coder.Configured)
include configured

section

variable {data1 data2 : Nat} {values : List Nat}
  (fits : ∀ value ∈ data1 :: data2 :: values, value < 256 ^ coder.eachValSize)

include fits

theorem paid : coder.Paid data1 (data1 :: data2 :: values)
      (coder.compressStep data1 data2 (leWords coder.eachValSize values)) := by
  have ahead := (List.forall_mem_cons.mp (List.forall_mem_cons.mp fits).2).2
  have three := configured.three_le
  unfold compressStep
  by_cases same : data1 = data2
  · subst same
    have scan := @scanned coder data1 2 values (by decide) ahead
    have full := @scanRun_full coder data1 data1 2 (leWords coder.eachValSize values)
    generalize coder.scanRun data1 data1 2 (leWords coder.eachValSize values) = result at scan full ⊢
    rw [if_pos rfl]
    cases scan with
    | stopped copies rest passed most =>
      have whole : data1 :: data1 :: values = List.replicate (2 + copies) data1 ++ rest := by
        rw [passed, List.replicate_add, List.append_assoc]
        rfl
      dsimp only
      rw [if_pos rfl]
      cases rest with
      | nil =>
        rw [if_neg (by simpa using coder.positive.ne')]
        have token := @length_writeRepeats coder data1 (2 + copies) (data1 + 1) three (by omega)
          (by omega)
        refine .drained _ _ ?_
        rw [whole, List.append_nil, List.length_replicate]
        omega
      | cons next rest =>
        have nextFits := ahead next (by rw [passed]; simp)
        have long : rleMaxRepeats ≤ 2 + copies := full rfl (by simp)
        have run : ¬ 2 + copies < coder.minRepeats :=
          Nat.not_lt.mpr (configured.bounds.2.trans (le_trans (by decide) long))
        have token := @length_writeRepeats coder data1 (2 + copies) next three (by omega)
          fun few => absurd few run
        rw [if_pos (by simp), leWords_cons, readData_leBytes nextFits]
        refine .pending _ (List.replicate (2 + copies) data1) next rest (by simp) whole ?_
        rwa [List.length_replicate]
    | broken copies next rest passed other most =>
      have token := @length_writeRepeats coder data1 (2 + copies) next three (by omega)
        fun _ => other
      dsimp only
      rw [if_neg other]
      refine .pending _ (List.replicate (2 + copies) data1) next rest (by simp) ?_ ?_
      · rw [passed, List.replicate_add, List.append_assoc]
        rfl
      · rwa [List.length_replicate]
  · have token := length_writeNonRuns_one three same
    rw [if_neg same]
    refine .pending _ [data1] data2 values (by simp) rfl ?_
    rwa [List.length_singleton, Nat.one_mul]

theorem length_compressLoop :
    2 * (coder.compressLoop data1 data2 (leWords coder.eachValSize values)).length ≤
      2 * ((values.length + 2) * coder.eachValSize) + (values.length + 2) + coder.marked data1 := by
  induction sized : values.length using Nat.strong_induction_on generalizing data1 data2 values with
  | _ count ih =>
    have step := paid configured fits
    rw [compressLoop]
    generalize coder.compressStep data1 data2 (leWords coder.eachValSize values) = result at step ⊢
    cases step with
    | pending written done next rest progress split paid =>
      have lengths := congrArg List.length split
      have advanced := List.length_pos_iff.mpr progress
      simp only [List.length_append, List.length_cons, sized] at lengths
      rw [split] at fits
      have ahead : ∀ value ∈ next :: rest, value < 256 ^ coder.eachValSize :=
        fun value member => fits value (List.mem_append_right done member)
      have share : (count + 2) * coder.eachValSize =
          done.length * coder.eachValSize + (rest.length + 1) * coder.eachValSize := by
        rw [← Nat.add_mul]
        congr 1
      cases rest with
      | nil =>
        have last := @length_writeNonRuns_one coder next (next + 1) configured.three_le (by omega)
        simp only [List.length_nil, Nat.zero_add, Nat.one_mul] at lengths share
        rw [dif_neg (by simpa using coder.positive.ne'), if_pos rfl, List.length_append]
        dsimp only
        omega
      | cons value rest =>
        have valueFits := ahead value (by simp)
        simp only [List.length_cons] at lengths
        have later := ih rest.length (by omega) ahead rfl
        rw [dif_pos (by simp), List.length_append]
        simp only [leWords_cons, readData_leBytes valueFits]
        simp only [List.length_cons, Nat.add_assoc, Nat.reduceAdd] at share ⊢
        omega
    | drained written stale paid =>
      rw [dif_neg (by simpa using coder.positive.ne'), if_neg (by simp)]
      simpa [sized] using paid

end

theorem length_innerCompress {values : List Nat} (nonempty : values ≠ [])
    (fits : ∀ value ∈ values, value < 256 ^ coder.eachValSize) :
    2 * (coder.innerCompress (leWords coder.eachValSize values)).length ≤
      2 * (values.length * coder.eachValSize) + values.length + 1 := by
  unfold innerCompress
  match values, nonempty with
  | [data1], _ =>
    have first := fits data1 List.mem_cons_self
    have only := @length_writeNonRuns_one coder data1 (data1 + 1) configured.three_le (by omega)
    have most := coder.marked_le data1
    have positive := coder.positive
    rw [leWords_cons, readData_leBytes first]
    dsimp only
    rw [if_neg (by simp; omega), List.length_singleton, Nat.one_mul]
    omega
  | data1 :: data2 :: values, _ =>
    obtain ⟨first, others⟩ := List.forall_mem_cons.mp fits
    have second := others data2 List.mem_cons_self
    have loop := length_compressLoop configured fits
    have most := coder.marked_le data1
    rw [leWords_cons, readData_leBytes first]
    dsimp only
    rw [if_pos (by simp; omega), leWords_cons, readData_leBytes second]
    simp only [List.length_cons, Nat.add_assoc, Nat.reduceAdd]
    omega

omit configured

/-- The bound holds for both versions of the coder, whatever the values are. -/
theorem length_innerCompress_le_compressGetBound (coder : RleCoder)
    (configured : coder.Configured) (inbuf : List UInt8) (nonempty : inbuf ≠ [])
    (whole : coder.eachValSize ∣ inbuf.length) :
    (coder.innerCompress inbuf).length ≤ coder.compressGetBound inbuf.length := by
  obtain ⟨count, length⟩ := whole
  obtain ⟨values, counted, fits, rfl⟩ := exists_leWords (length.trans (Nat.mul_comm _ _))
  have filled : values ≠ [] := by
    rintro rfl
    exact nonempty rfl
  have written := length_innerCompress configured filled fits
  rw [compressGetBound, rleGetBound1, length_leWords, Nat.mul_div_cancel _ coder.positive,
    Nat.shiftRight_eq_div_pow]
  omega

/-- Markers of their own at every other place reach the bound. -/
theorem length_innerCompress_le_compressGetBound_sample :
    (sampleCoder.innerCompress [0xFE, 0xFE, 1, 0, 0xFE, 0xFE]).length ≤ sampleCoder.compressGetBound 6 :=
  length_innerCompress_le_compressGetBound sampleCoder (Or.inr rfl) _ (by decide) ⟨3, rfl⟩

end RleCoder

end OpenGauss.CStore
