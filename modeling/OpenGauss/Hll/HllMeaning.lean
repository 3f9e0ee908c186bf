import OpenGauss.Hll.HllObject

namespace OpenGauss.Hll

open Lib

section Hashes

variable {ctzZero : Nat} {para : HllPara} (admitted : para.Admitted)

theorem hllHashToValue_index (hashval : UInt64) :
    (hllHashToValue ctzZero para hashval).1 = hashval.toNat / 2 ^ (64 - para.log2Registers) :=
  Nat.shiftRight_eq_div_pow _ _

include admitted in
theorem hllHashToValue_index_lt (hashval : UInt64) :
    (hllHashToValue ctzZero para hashval).1 < 2 ^ para.log2Registers := by
  have bits : 64 - para.log2Registers + para.log2Registers = 64 := by
    have range := admitted.registers
    omega
  rw [hllHashToValue_index, Nat.div_lt_iff_lt_mul (Nat.two_pow_pos _), Nat.mul_comm, ← Nat.pow_add, bits]
  exact hashval.toNat_lt

include admitted in
theorem hllHashToValue_value_le (hashval : UInt64) : (hllHashToValue ctzZero para hashval).2 ≤ 54 := by
  have range := admitted.registers
  unfold hllHashToValue
  dsimp only
  split
  · exact Nat.zero_le _
  · omega

/-- Ascending hashes fall in ascending registers. -/
theorem hllHashToValue_mono {hashval later : UInt64} (ascending : hashval ≤ later) :
    (hllHashToValue ctzZero para hashval).1 ≤ (hllHashToValue ctzZero para later).1 := by
  rw [hllHashToValue_index, hllHashToValue_index]
  exact Nat.div_le_div_right (UInt64.le_iff_toNat_le.mp ascending)

end Hashes

@[simp] theorem explicitBytes_cons (hashval : UInt64) (hashes : List UInt64) :
    explicitBytes (hashval :: hashes) = leBytes 8 hashval.toNat ++ explicitBytes hashes := rfl

@[simp] theorem explicitBytes_append (front back : List UInt64) :
    explicitBytes (front ++ back) = explicitBytes front ++ explicitBytes back :=
  List.flatMap_append

@[simp] theorem length_explicitBytes (hashes : List UInt64) :
    (explicitBytes hashes).length = 8 * hashes.length := by
  induction hashes with
  | nil => rfl
  | cons hashval hashes ih =>
    rw [explicitBytes_cons, List.length_append, ih, length_leBytes, List.length_cons]
    omega

theorem hllGetExplictitValue_explicitBytes {hashes : List UInt64} {index : Nat}
    (inside : index < hashes.length) :
    hllGetExplictitValue (explicitBytes hashes) index = hashes[index] := by
  have split : explicitBytes hashes = explicitBytes (hashes.take index) ++
      (leBytes 8 hashes[index].toNat ++ explicitBytes (hashes.drop (index + 1))) := by
    rw [← explicitBytes_cons, ← List.drop_eq_getElem_cons, ← explicitBytes_append, List.take_append_drop]
  have before : (explicitBytes (hashes.take index)).length = hllExplicitUint * index := by
    rw [length_explicitBytes, List.length_take, Nat.min_eq_left inside.le, hllExplicitUint]
  rw [hllGetExplictitValue, split, List.drop_left' before,
    hllExplicitUint, List.take_left' (length_leBytes 8 hashes[index].toNat), leNat_uint64,
    UInt64.ofNat_toNat]

theorem explicitValues_explicitBytes (hashes : List UInt64) :
    explicitValues (explicitBytes hashes) = hashes := by
  have count : (explicitBytes hashes).length / hllExplicitUint = hashes.length := by
    rw [length_explicitBytes, hllExplicitUint, Nat.mul_div_cancel_left _ (by decide)]
  apply List.ext_getElem
  · rw [explicitValues, List.length_map, List.length_range, count]
  · intro index _ inside
    simp only [explicitValues, List.getElem_map, List.getElem_range]
    exact hllGetExplictitValue_explicitBytes inside

theorem upperBound_spec {hashes : List UInt64} (sorted : hashes.Pairwise (· < ·)) (hashval : UInt64)
    {rounds start last : Nat} (enough : last ≤ start + rounds) (ordered : start ≤ last)
    (inside : last ≤ hashes.length)
    (below : ∀ index (known : index < hashes.length), index < start → hashes[index] ≤ hashval)
    (above : ∀ index (known : index < hashes.length), last ≤ index → hashval < hashes[index]) :
    upperBound (explicitBytes hashes) hashval rounds start last ≤ hashes.length ∧
      (∀ index (known : index < hashes.length),
        index < upperBound (explicitBytes hashes) hashval rounds start last → hashes[index] ≤ hashval) ∧
      ∀ index (known : index < hashes.length),
        upperBound (explicitBytes hashes) hashval rounds start last ≤ index → hashval < hashes[index] := by
  have ascending : ∀ low high (first : low < hashes.length) (known : high < hashes.length),
      low ≤ high → hashes[low] ≤ hashes[high] := by
    intro low high first known before
    rcases Nat.lt_or_eq_of_le before with less | rfl
    · exact UInt64.le_of_lt (List.pairwise_iff_getElem.mp sorted low high first known less)
    · exact UInt64.le_refl _
  induction rounds generalizing start last with
  | zero =>
    obtain rfl : start = last := by omega
    exact ⟨inside, below, above⟩
  | succ rounds ih =>
    rw [upperBound]
    split
    · rename_i vacant
      dsimp only
      have middle : (start + last) / 2 < hashes.length := by omega
      rw [hllGetExplictitValue_explicitBytes middle]
      split
      · rename_i reached
        apply ih (by omega) (by omega) inside _ above
        intro index known before
        exact UInt64.le_trans (ascending index _ known middle (by omega)) reached
      · rename_i beyond
        apply ih (by omega) (by omega) middle.le below
        intro index known behind
        exact UInt64.lt_of_lt_of_le (UInt64.not_le.mp beyond) (ascending _ index middle known behind)
    · obtain rfl : start = last := by omega
      exact ⟨inside, below, above⟩

section Full

variable {ctzZero : Nat} {para : HllPara} (admitted : para.Admitted)

/-- A register as a number; beyond the array it is 0. -/
def fullRegister (hllData : List UInt8) (register : Nat) : Nat := (hllData.getD register 0).toNat

theorem fullRegister_set {hllData : List UInt8} {index value : Nat} (inside : index < hllData.length)
    (small : value < 256) (register : Nat) :
    fullRegister (hllData.set index (UInt8.ofNat value)) register =
      if index = register then value else fullRegister hllData register := by
  unfold fullRegister
  rw [List.getD_eq_getElem?_getD, List.getD_eq_getElem?_getD, List.getElem?_set]
  by_cases here : index = register
  · subst here
    rw [if_pos rfl, if_pos inside, if_pos rfl, Option.getD_some, UInt8.toNat_ofNat', Nat.mod_eq_of_lt small]
  · rw [if_neg here, if_neg here]

theorem fullRegister_zeros (count register : Nat) : fullRegister (List.replicate count 0) register = 0 := by
  unfold fullRegister
  rw [List.getD_eq_getElem?_getD, List.getElem?_replicate]
  split <;> rfl

include admitted in
/-- Overwriting leaves the last value of every register. -/
theorem fullOfExplicit_spec (hashes : List UInt64) {newdata : List UInt8}
    (length : newdata.length = 2 ^ para.log2Registers) :
    (fullOfExplicit ctzZero para hashes newdata).length = 2 ^ para.log2Registers ∧
      ((∀ register, fullRegister newdata register = 0) → ∀ register,
        fullRegister (fullOfExplicit ctzZero para hashes newdata) register =
          latest (hllHashToValue ctzZero para) hashes register) := by
  induction hashes using List.reverseRecOn with
  | nil => exact ⟨length, fun zero register => zero register⟩
  | append_singleton hashes hashval ih =>
    obtain ⟨kept, values⟩ := ih
    have inside := @hllHashToValue_index_lt ctzZero para admitted hashval
    have small := @hllHashToValue_value_le ctzZero para admitted hashval
    rw [fullOfExplicit, List.foldl_concat]
    rw [fullOfExplicit] at kept values
    refine ⟨by rw [List.length_set, kept], fun zero register => ?_⟩
    rw [fullRegister_set (inside.trans_eq kept.symm) (by omega), latest_concat, values zero]

end Full

theorem getD_concat (registers : List Nat) (value register : Nat) : (registers ++ [value]).getD register 0 =
      if register = registers.length then value else registers.getD register 0 := by
  rw [List.getD_eq_getElem?_getD, List.getD_eq_getElem?_getD]
  split
  · rename_i here
    subst here
    simp
  · rename_i other
    rcases Nat.lt_or_ge register registers.length with inside | outside
    · rw [List.getElem?_append_left inside]
    · rw [List.getElem?_eq_none (by simp; omega), List.getElem?_eq_none outside]

theorem getD_zeros (registers : List Nat) (count register : Nat) :
    (registers ++ List.replicate count 0).getD register 0 = registers.getD register 0 := by
  rw [List.getD_eq_getElem?_getD, List.getD_eq_getElem?_getD]
  rcases Nat.lt_or_ge register registers.length with inside | outside
  · rw [List.getElem?_append_left inside]
  · rw [List.getElem?_append_right outside, List.getElem?_replicate, List.getElem?_eq_none outside]
    split <;> rfl

theorem getD_behind {front registers : List Nat} {register : Nat} (behind : front.length ≤ register) :
    (front ++ registers).getD register 0 = registers.getD (register - front.length) 0 := by
  rw [List.getD_eq_getElem?_getD, List.getD_eq_getElem?_getD, List.getElem?_append_right behind]

/-- Registers that have not been reached are zero, and the loop fills them with what the bytes stand
for. -/
theorem fullOfSparse_spec {bytes : List UInt8} (readable : Readable bytes) {index : Nat}
    {newdata : List UInt8} (room : index + (decoded bytes).length ≤ newdata.length)
    (zero : ∀ register, index ≤ register → fullRegister newdata register = 0) :
    ∃ result, fullOfSparse bytes index newdata = some result ∧ result.length = newdata.length ∧
      (∀ register, register < index → fullRegister result register = fullRegister newdata register) ∧
      ∀ register, index ≤ register →
        fullRegister result register = (decoded bytes).getD (register - index) 0 := by
  induction bytes generalizing index newdata with
  | nil => exact ⟨newdata, rfl, rfl, fun _ _ => rfl, fun register behind => zero register behind⟩
  | cons byte rest ih =>
    obtain ⟨known, others⟩ := readable_cons.mp readable
    rw [decoded_cons, List.length_append] at room
    -- a run of zeros leaves the array as it is
    have zeros {count : Nat} (run : byteRegisters byte = List.replicate count 0) :
        ∃ result, fullOfSparse rest (index + count) newdata = some result ∧ result.length = newdata.length ∧
          (∀ register, register < index → fullRegister result register = fullRegister newdata register) ∧
          ∀ register, index ≤ register → fullRegister result register =
            (decoded (byte :: rest)).getD (register - index) 0 := by
      rw [run, List.length_replicate] at room
      obtain ⟨result, done, length, before, behind⟩ := @ih others (index + count) newdata
        (by omega) (fun register reached => zero register (by omega))
      refine ⟨result, done, length, fun register early => before register (by omega), ?_⟩
      intro register reached
      rw [decoded_cons, run]
      by_cases inside : register < index + count
      · rw [before register inside, zero register reached, List.getD_eq_getElem?_getD,
          List.getElem?_append_left (by rw [List.length_replicate]; omega),
          List.getElem?_replicate_of_lt (by omega), Option.getD_some]
      · rw [behind register (by omega), getD_behind (by rw [List.length_replicate]; omega),
          List.length_replicate, Nat.sub_sub]
    rw [fullOfSparse]
    cases type : byteType byte with
    | sparseLongzero => exact zeros (by rw [byteRegisters, type])
    | sparseZero => exact zeros (by rw [byteRegisters, type])
    | denseValue =>
      have value := byteGetValue_le byte
      have one : byteRegisters byte = [byteGetValue byte] := by rw [byteRegisters, type]
      rw [one, List.length_singleton] at room
      have written := @fullRegister_set newdata index (byteGetValue byte) (by omega) (by omega)
      dsimp only
      obtain ⟨result, done, length, before, behind⟩ := @ih others (index + 1)
        (newdata.set index (UInt8.ofNat (byteGetValue byte))) (by rw [List.length_set]; omega)
        (fun register reached => by
          rw [written, if_neg (by omega), zero register (by omega)])
      rw [List.length_set] at length
      refine ⟨result, done, length, ?_, ?_⟩
      · intro register early
        rw [before register (by omega), written, if_neg (by omega)]
      · intro register reached
        rw [decoded_cons, one]
        by_cases here : register = index
        · subst here
          rw [before register (by omega), written, if_pos rfl, Nat.sub_self]
          rfl
        · rw [behind register (by omega), getD_behind (by rw [List.length_singleton]; omega),
            List.length_singleton, Nat.sub_sub]
    | sparseValue => exact absurd type known

section Sparse

variable {ctzZero : Nat} {para : HllPara} (admitted : para.Admitted)

/-- What the loop over ascending hashes has built from those that are done. -/
structure LoopHolds (ctzZero : Nat) (para : HllPara) (done : List UInt64) (loop : SparseLoop) : Prop where
  length : ((decoded loop.newdata).length : Int) = loop.lastindex + 1
  inside : loop.lastindex < 2 ^ para.log2Registers
  registers : ∀ register, (decoded loop.newdata).getD register 0 =
    greatest (hllHashToValue ctzZero para) done register
  readable : Readable loop.newdata
  last : -1 < loop.lastindex → ∃ front value, loop.newdata = front ++ [setDenseValue value] ∧
    0 < value ∧ value ≤ 64
  short : loop.newdata.length ≤ 19 * done.length
  room : loop.newdata.length + sparseMinsize para ≤ loop.sparsesize
  bounded : loop.sparsesize ≤ loop.newdata.length + sparseMinsize para + hllExpandSize

theorem loopHolds_start (ctzZero : Nat) (para : HllPara) :
    LoopHolds ctzZero para [] ⟨[], -1, sparseMinsize para⟩ where
  length := rfl
  inside := by
    have positive : (0 : Int) < 2 ^ para.log2Registers := by positivity
    dsimp only
    omega
  registers _ := rfl
  readable := readable_nil
  last reached := absurd reached (lt_irrefl _)
  short := le_rfl
  room := by simp
  bounded := by simp

theorem setDenseValue_lt {value other : Nat} (positive : 0 < value) (small : value ≤ 64)
    (otherPositive : 0 < other) (otherSmall : other ≤ 64) :
    setDenseValue value < setDenseValue other ↔ value < other := by
  have ordered : ∀ low high : Fin 64,
      setDenseValue (low.val + 1) < setDenseValue (high.val + 1) ↔ low.val + 1 < high.val + 1 := by
    decide
  have same := ordered ⟨value - 1, by omega⟩ ⟨other - 1, by omega⟩
  rwa [Nat.sub_add_cancel positive, Nat.sub_add_cancel otherPositive] at same

/-- The last register that was set holds a hash that is done. -/
theorem LoopHolds.lastindex_le {done : List UInt64} {loop : SparseLoop}
    (holds : LoopHolds ctzZero para done loop) {hashval : UInt64}
    (ascending : ∀ earlier ∈ done, earlier ≤ hashval) :
    loop.lastindex ≤ (hllHashToValue ctzZero para hashval).1 := by
  by_contra beyond
  obtain ⟨front, value, data, positive, small⟩ := holds.last (by omega)
  obtain ⟨-, -, registers⟩ := byteRegisters_dense positive small
  have all : decoded loop.newdata = decoded front ++ [value] := by
    rw [data, decoded_append, decoded_cons, registers, decoded_nil, List.append_nil]
  have length := holds.length
  rw [all, List.length_append, List.length_singleton] at length
  have stored := holds.registers (decoded front).length
  rw [all, getD_concat, if_pos rfl] at stored
  have present : ¬ greatest (hllHashToValue ctzZero para) done (decoded front).length ≤ 0 := by omega
  rw [greatest_le_iff] at present
  push Not at present
  obtain ⟨earlier, member, counted⟩ := present
  unfold share at counted
  split at counted
  · rename_i register
    have before := @hllHashToValue_mono ctzZero para _ _ (ascending earlier member)
    omega
  · omega

theorem greatest_concat (done : List UInt64) (hashval : UInt64) (register : Nat) :
    greatest (hllHashToValue ctzZero para) (done ++ [hashval]) register =
      max (greatest (hllHashToValue ctzZero para) done register)
        (share (hllHashToValue ctzZero para) register hashval) := by
  rw [greatest_append, greatest_cons, greatest_nil, Nat.max_zero]

/-- A hash that counts for no register leaves the loop as it is. -/
theorem LoopHolds.skip {done : List UInt64} {loop : SparseLoop}
    (holds : LoopHolds ctzZero para done loop) {hashval : UInt64}
    (absent : (hllHashToValue ctzZero para hashval).2 = 0) :
    LoopHolds ctzZero para (done ++ [hashval]) loop where
  length := holds.length
  inside := holds.inside
  registers register := by
    have nothing : share (hllHashToValue ctzZero para) register hashval = 0 := by
      unfold share
      split
      · exact absent
      · rfl
    rw [greatest_concat, nothing, Nat.max_zero, holds.registers]
  readable := holds.readable
  last := holds.last
  short := holds.short.trans (Nat.mul_le_mul_left _ (by simp))
  room := holds.room
  bounded := holds.bounded

section Step

variable {done : List UInt64} {loop : SparseLoop} (holds : LoopHolds ctzZero para done loop)
  {hashval : UInt64} {index value : Nat} (slot : hllHashToValue ctzZero para hashval = (index, value))
  (positive : 0 < value) (small : value ≤ 64)

include holds slot positive small

/-- The same register again: the last byte takes the greater value. -/
theorem LoopHolds.again (same : (index : Int) = loop.lastindex) : LoopHolds ctzZero para (done ++ [hashval])
      (if loop.newdata.getLastD 0 < setDenseValue value then
        { loop with newdata := loop.newdata.dropLast ++ [setDenseValue value] }
      else loop) := by
  obtain ⟨front, kept, data, keptPositive, keptSmall⟩ := holds.last (by omega)
  have size := holds.length
  have stored := holds.registers
  have enough := holds.room
  have bounded := holds.bounded
  have short := holds.short
  have readable := holds.readable
  rw [data] at size stored enough bounded short readable
  have decodedAs {byte : Nat} (pos : 0 < byte) (little : byte ≤ 64) :
      decoded (front ++ [setDenseValue byte]) = decoded front ++ [byte] := by
    rw [decoded_append, decoded_cons, (byteRegisters_dense pos little).2.2, decoded_nil, List.append_nil]
  rw [decodedAs keptPositive keptSmall] at size stored
  rw [List.length_append, List.length_singleton] at size
  have place : (decoded front).length = index := by omega
  have before : greatest (hllHashToValue ctzZero para) done index = kept := by
    rw [← stored, getD_concat, if_pos place.symm]
  have own (register : Nat) : share (hllHashToValue ctzZero para) register hashval =
      if index = register then value else 0 := by rw [share, slot]
  have last : loop.newdata.getLastD 0 = setDenseValue kept := by
    rw [data, List.getLastD_concat]
  rw [last]
  split
  · rename_i greater
    rw [setDenseValue_lt keptPositive keptSmall positive small] at greater
    have dropped : loop.newdata.dropLast = front := by rw [data, List.dropLast_concat]
    rw [dropped]
    refine ⟨?_, holds.inside, ?_, ?_, fun _ => ⟨front, value, rfl, positive, small⟩, ?_, ?_, ?_⟩
    · rw [decodedAs positive small, List.length_append, List.length_singleton]
      exact size
    · intro register
      rw [decodedAs positive small, getD_concat, greatest_concat, own, place]
      have old := stored register
      rw [getD_concat, place] at old
      by_cases here : register = index
      · subst here
        rw [if_pos rfl, if_pos rfl, before, Nat.max_eq_right greater.le]
      · rw [if_neg here] at old
        rw [if_neg here, if_neg (Ne.symm here), Nat.max_zero, old]
    · have first := (readable_append.mp readable).1
      simp [first, (byteRegisters_dense positive small).1]
    · simp only [List.length_append, List.length_cons, List.length_nil] at short ⊢
      omega
    · simpa using enough
    · simpa using bounded
  · rename_i less
    rw [setDenseValue_lt keptPositive keptSmall positive small, not_lt] at less
    refine ⟨holds.length, holds.inside, ?_, holds.readable, holds.last, ?_, holds.room, holds.bounded⟩
    · intro register
      rw [holds.registers, greatest_concat, own]
      by_cases here : index = register
      · subst here
        rw [if_pos rfl, before, Nat.max_eq_left less]
      · rw [if_neg here, Nat.max_zero]
    · exact holds.short.trans (Nat.mul_le_mul_left _ (by simp))

include admitted in
/-- A later register: zeros up to it, then its value. -/
theorem LoopHolds.next (later : loop.lastindex < index) (inside : index < 2 ^ para.log2Registers) :
    LoopHolds ctzZero para (done ++ [hashval])
      ⟨loop.newdata ++ hllSetSparseZero (index - loop.lastindex - 1).toNat ++ [setDenseValue value], index,
        if loop.sparsesize < (loop.newdata ++ hllSetSparseZero (index - loop.lastindex - 1).toNat ++
          [setDenseValue value]).length + sparseMinsize para then loop.sparsesize + hllExpandSize
        else loop.sparsesize⟩ := by
  have start : -1 ≤ loop.lastindex := by
    have length := holds.length
    omega
  have few : (2 : Nat) ^ para.log2Registers ≤ 2 ^ 16 :=
    Nat.pow_le_pow_right (by decide) admitted.registers.2
  obtain ⟨zeros, zerosReadable⟩ := zeroRun_hllSetSparseZero (index - loop.lastindex - 1).toNat
  have zerosShort := length_hllSetSparseZero (index - loop.lastindex - 1).toNat
  have count : (index - loop.lastindex - 1).toNat / 4096 ≤ 15 := by omega
  have all : decoded (loop.newdata ++ hllSetSparseZero (index - loop.lastindex - 1).toNat ++
      [setDenseValue value]) =
      decoded loop.newdata ++ List.replicate (index - loop.lastindex - 1).toNat 0 ++ [value] := by
    rw [decoded_append, decoded_append, zeros, decoded_cons, decoded_nil,
      (byteRegisters_dense positive small).2.2, List.append_nil]
  have place : (decoded loop.newdata ++
      List.replicate (index - loop.lastindex - 1).toNat 0).length = index := by
    have length := holds.length
    rw [List.length_append, List.length_replicate]
    omega
  have size : (loop.newdata ++ hllSetSparseZero (index - loop.lastindex - 1).toNat ++
      [setDenseValue value]).length = loop.newdata.length +
        (hllSetSparseZero (index - loop.lastindex - 1).toNat).length + 1 := by
    rw [List.length_append, List.length_append, List.length_singleton]
  have room := holds.room
  have bounded := holds.bounded
  have short := holds.short
  refine ⟨?_, ?_, ?_, ?_, fun _ => ⟨_, value, rfl, positive, small⟩, ?_, ?_, ?_⟩
  · rw [all, List.length_append, place, List.length_singleton]
    rfl
  · dsimp only
    exact_mod_cast inside
  · intro register
    rw [all, getD_concat, place, getD_zeros, holds.registers, greatest_concat, share, slot]
    dsimp only
    by_cases here : register = index
    · subst here
      have absent : greatest (hllHashToValue ctzZero para) done register = 0 := by
        rw [← holds.registers, List.getD_eq_getElem?_getD, List.getElem?_eq_none, Option.getD_none]
        have length := holds.length
        omega
      rw [if_pos rfl, if_pos rfl, absent, Nat.zero_max]
    · rw [if_neg here, if_neg (Ne.symm here), Nat.max_zero]
  · have dense : Readable [setDenseValue value] := by simp [(byteRegisters_dense positive small).1]
    exact readable_append.mpr ⟨readable_append.mpr ⟨holds.readable, zerosReadable⟩, dense⟩
  · rw [size, List.length_append, List.length_singleton]
    omega
  · dsimp only
    rw [size]
    split
    · unfold hllExpandSize
      omega
    · omega
  · dsimp only
    rw [size]
    split
    · omega
    · omega

end Step

include admitted in
/-- One hash of the loop, not less than those before it. -/
theorem LoopHolds.step {done : List UInt64} {loop : SparseLoop}
    (holds : LoopHolds ctzZero para done loop) {hashval : UInt64}
    (ascending : ∀ earlier ∈ done, earlier ≤ hashval) :
    LoopHolds ctzZero para (done ++ [hashval]) (sparseOfExplicit ctzZero para loop hashval) := by
  have reached := holds.lastindex_le ascending
  have inside := @hllHashToValue_index_lt ctzZero para admitted hashval
  have small := @hllHashToValue_value_le ctzZero para admitted hashval
  unfold sparseOfExplicit
  generalize slot : hllHashToValue ctzZero para hashval = found at *
  obtain ⟨index, value⟩ := found
  dsimp only at reached inside small ⊢
  split
  · rename_i absent
    exact holds.skip (by rw [slot]; exact absent)
  · rename_i present
    split
    · rename_i same
      exact holds.again slot (by omega) (by omega) same
    · rename_i other
      exact holds.next admitted slot (by omega) (by omega) (by omega) inside

include admitted in
theorem loopHolds_foldl {hashes : List UInt64} (sorted : hashes.Pairwise (· < ·)) :
    LoopHolds ctzZero para hashes
      (hashes.foldl (sparseOfExplicit ctzZero para) ⟨[], -1, sparseMinsize para⟩) := by
  induction hashes using List.reverseRecOn with
  | nil => exact loopHolds_start ctzZero para
  | append_singleton hashes hashval ih =>
    obtain ⟨front, -, last⟩ := List.pairwise_append.mp sorted
    rw [List.foldl_concat]
    exact (ih front).step admitted fun earlier member =>
      UInt64.le_of_lt (last earlier member hashval (List.mem_singleton_self _))

end Sparse

end OpenGauss.Hll
