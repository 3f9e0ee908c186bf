import OpenGauss.Hll.HllMeaning

/-! Objects that hold the hashes added to them. Turning an explicit object to full mode overwrites,
and so is right only where the last hash of every register has its greatest value. -/

namespace OpenGauss.Hll

open Lib

/-- Among the hashes of a register the largest one has the greatest value. -/
def LargestIsGreatest (slot : UInt64 → Nat × Nat) (hashes : List UInt64) : Prop :=
  ∀ hashval ∈ hashes, ∀ largest ∈ hashes, (slot hashval).1 = (slot largest).1 →
    (∀ other ∈ hashes, (slot other).1 = (slot largest).1 → other ≤ largest) →
      (slot hashval).2 ≤ (slot largest).2

-- Over the list: `UInt64` itself is finite, too.
instance (slot : UInt64 → Nat × Nat) (hashes : List UInt64) : Decidable (LargestIsGreatest slot hashes) :=
  let others (largest : UInt64) : Decidable (∀ other ∈ hashes,
      (slot other).1 = (slot largest).1 → other ≤ largest) := List.decidableBAll _ hashes
  let inner (hashval : UInt64) : Decidable (∀ largest ∈ hashes,
      (slot hashval).1 = (slot largest).1 →
      (∀ other ∈ hashes, (slot other).1 = (slot largest).1 → other ≤ largest) →
      (slot hashval).2 ≤ (slot largest).2) :=
    @List.decidableBAll _ _ (fun largest => @instDecidableForall _ _ _
      (@instDecidableForall _ _ (others largest) _)) hashes
  @List.decidableBAll _ _ inner hashes

theorem LargestIsGreatest.congr {slot : UInt64 → Nat × Nat} {hashes others : List UInt64}
    (same : ∀ hashval, hashval ∈ hashes ↔ hashval ∈ others)
    (largest : LargestIsGreatest slot hashes) : LargestIsGreatest slot others :=
  fun hashval member top known register above =>
    largest hashval ((same hashval).mpr member) top ((same top).mpr known) register
      fun other stored => above other ((same other).mp stored)

theorem lastIsGreatest_iff {slot : UInt64 → Nat × Nat} {hashes : List UInt64}
    (sorted : hashes.Pairwise (· < ·)) :
    LastIsGreatest slot hashes ↔ LargestIsGreatest slot hashes := by
  constructor
  · intro last hashval member largest known register above
    obtain ⟨before, after, rfl⟩ := List.append_of_mem known
    obtain ⟨-, tail, -⟩ := List.pairwise_append.mp sorted
    have later : ∀ other ∈ after, (slot other).1 ≠ (slot largest).1 := by
      intro other stored same
      have less := List.rel_of_pairwise_cons tail stored
      exact UInt64.not_le.mpr less (above other (by simp [stored]) same)
    rcases List.mem_append.mp member with early | late
    · exact last before largest after rfl later hashval early register
    · rcases List.mem_cons.mp late with rfl | beyond
      · exact le_rfl
      · exact absurd register (later hashval beyond)
  · rintro largest before item after rfl later earlier member register
    obtain ⟨-, -, across⟩ := List.pairwise_append.mp sorted
    apply largest earlier (by simp [member]) item (by simp) register
    intro other stored same
    rcases List.mem_append.mp stored with early | late
    · exact UInt64.le_of_lt (across other early item (by simp))
    · rcases List.mem_cons.mp late with rfl | beyond
      · exact UInt64.le_refl _
      · exact absurd same (later other beyond)

/-- The register vector that an object denotes. -/
def registerOf (ctzZero : Nat) (hll : HllObject) (register : Nat) : Nat :=
  match hll.hlltype with
  | .uninit => 0
  | .empty => 0
  | .explicit =>
    greatest (hllHashToValue ctzZero hll.hllpara) (explicitValues hll.hllData) register
  | .sparse => (decoded hll.hllData).getD register 0
  | .full => fullRegister hll.hllData register

/-- The data in the form of the object's mode. -/
def Formed (hll : HllObject) (added : List UInt64) : Prop :=
  match hll.hlltype with
  | .uninit => hll.hllData = [] ∧ added = []
  | .empty => hll.hllData = [] ∧ added = []
  | .explicit => ∃ hashes, hashes.Pairwise (· < ·) ∧ hll.hllData = explicitBytes hashes ∧
      ∀ hashval, hashval ∈ hashes ↔ hashval ∈ added
  | .sparse => Readable hll.hllData ∧
      (decoded hll.hllData).length = 2 ^ hll.hllpara.log2Registers
  | .full => hll.hllData.length = 2 ^ hll.hllpara.log2Registers

/-- The object stands for the hashes added to it. -/
structure Holds (ctzZero : Nat) (para : HllPara) (hll : HllObject) (added : List UInt64) : Prop where
  hllpara : hll.hllpara = para
  formed : Formed hll added
  registers : ∀ register, registerOf ctzZero hll register =
    greatest (hllHashToValue ctzZero para) added register

/-- The sizes between two operations. -/
structure AtRest (hll : HllObject) : Prop where
  room : hll.hllData.length ≤ hll.lenTotal
  lenTotal : hll.lenTotal ≤ 2 ^ 16
  explicit : hll.hlltype = .explicit → hll.hllData.length ≤ 2 ^ hll.hllpara.log2Explicitsize
  sparse : hll.hlltype = .sparse → hll.hllData.length ≤ 2 ^ 14

section Modes

variable {ctzZero : Nat} {para : HllPara} (admitted : para.Admitted) {hll : HllObject} {added : List UInt64}

/-- Explicit data: the registers follow from the members. -/
theorem holds_explicit {hashes : List UInt64} (hllpara : hll.hllpara = para)
    (type : hll.hlltype = .explicit) (sorted : hashes.Pairwise (· < ·))
    (data : hll.hllData = explicitBytes hashes)
    (members : ∀ hashval, hashval ∈ hashes ↔ hashval ∈ added) : Holds ctzZero para hll added where
  hllpara := hllpara
  formed := by
    unfold Formed
    rw [type]
    exact ⟨hashes, sorted, data, members⟩
  registers register := by
    rw [registerOf, type]
    dsimp only
    rw [data, explicitValues_explicitBytes, hllpara, greatest_congr members]

theorem Holds.explicit_data (holds : Holds ctzZero para hll added) (type : hll.hlltype = .explicit) :
    ∃ hashes, hashes.Pairwise (· < ·) ∧ hll.hllData = explicitBytes hashes ∧
      (∀ hashval, hashval ∈ hashes ↔ hashval ∈ added) ∧ explicitValues hll.hllData = hashes := by
  have formed := holds.formed
  unfold Formed at formed
  rw [type] at formed
  obtain ⟨hashes, sorted, data, members⟩ := formed
  exact ⟨hashes, sorted, data, members, by rw [data, explicitValues_explicitBytes]⟩

theorem holds_sparse (hllpara : hll.hllpara = para) (type : hll.hlltype = .sparse)
    (readable : Readable hll.hllData)
    (length : (decoded hll.hllData).length = 2 ^ para.log2Registers)
    (registers : ∀ register, (decoded hll.hllData).getD register 0 =
      greatest (hllHashToValue ctzZero para) added register) : Holds ctzZero para hll added where
  hllpara := hllpara
  formed := by
    unfold Formed
    rw [type, hllpara]
    exact ⟨readable, length⟩
  registers register := by
    rw [registerOf, type]
    exact registers register

theorem Holds.sparse_data (holds : Holds ctzZero para hll added) (type : hll.hlltype = .sparse) :
    Readable hll.hllData ∧ (decoded hll.hllData).length = 2 ^ para.log2Registers ∧
      ∀ register, (decoded hll.hllData).getD register 0 =
        greatest (hllHashToValue ctzZero para) added register := by
  have formed := holds.formed
  unfold Formed at formed
  rw [type, holds.hllpara] at formed
  refine ⟨formed.1, formed.2, fun register => ?_⟩
  have value := holds.registers register
  rw [registerOf, type] at value
  exact value

theorem holds_full (hllpara : hll.hllpara = para) (type : hll.hlltype = .full)
    (length : hll.hllData.length = 2 ^ para.log2Registers)
    (registers : ∀ register, fullRegister hll.hllData register =
      greatest (hllHashToValue ctzZero para) added register) : Holds ctzZero para hll added where
  hllpara := hllpara
  formed := by
    unfold Formed
    rw [type, hllpara]
    exact length
  registers register := by
    rw [registerOf, type]
    exact registers register

theorem Holds.full_data (holds : Holds ctzZero para hll added) (type : hll.hlltype = .full) :
    hll.hllData.length = 2 ^ para.log2Registers ∧ ∀ register, fullRegister hll.hllData register =
        greatest (hllHashToValue ctzZero para) added register := by
  have formed := holds.formed
  unfold Formed at formed
  rw [type, holds.hllpara] at formed
  refine ⟨formed, fun register => ?_⟩
  have value := holds.registers register
  rw [registerOf, type] at value
  exact value

theorem isBlank_iff : isBlank hll = true ↔ hll.hlltype = .uninit ∨ hll.hlltype = .empty := by
  simp [isBlank]

theorem Holds.blank (holds : Holds ctzZero para hll added) (blank : isBlank hll = true) :
    hll.hllData = [] ∧ added = [] := by
  have formed := holds.formed
  unfold Formed at formed
  rcases isBlank_iff.mp blank with type | type
  · rw [type] at formed
    exact formed
  · rw [type] at formed
    exact formed

theorem holds_blank (hllpara : hll.hllpara = para) (blank : isBlank hll = true)
    (data : hll.hllData = []) : Holds ctzZero para hll [] := by
  rcases isBlank_iff.mp blank with type | type
  · refine ⟨hllpara, ?_, fun register => ?_⟩
    · unfold Formed
      rw [type]
      exact ⟨data, rfl⟩
    · rw [registerOf, type]
      rfl
  · refine ⟨hllpara, ?_, fun register => ?_⟩
    · unfold Formed
      rw [type]
      exact ⟨data, rfl⟩
    · rw [registerOf, type]
      rfl

include admitted in
theorem registers_le : 2 ^ para.log2Registers ≤ 2 ^ 16 :=
  Nat.pow_le_pow_right (by decide) admitted.registers.2

include admitted in
theorem intoFull_spec (hllpara : hll.hllpara = para) {newdata : List UInt8}
    (length : newdata.length = 2 ^ para.log2Registers)
    (registers : ∀ register, fullRegister newdata register =
      greatest (hllHashToValue ctzZero para) added register) :
    (intoFull hll newdata).hlltype = .full ∧ Holds ctzZero para (intoFull hll newdata) added ∧
      AtRest (intoFull hll newdata) := by
  refine ⟨rfl, holds_full hllpara rfl length registers, ?_, ?_, nofun, nofun⟩
  · rw [intoFull, hllpara, length]
  · rw [intoFull, hllpara]
    exact registers_le admitted

theorem latest_of_ordered {hashes : List UInt64} (sorted : hashes.Pairwise (· < ·))
    (members : ∀ hashval, hashval ∈ hashes ↔ hashval ∈ added)
    (ordered : LargestIsGreatest (hllHashToValue ctzZero para) added) (register : Nat) :
    latest (hllHashToValue ctzZero para) hashes register =
      greatest (hllHashToValue ctzZero para) added register := by
  have last := (lastIsGreatest_iff sorted).mpr (ordered.congr fun hashval => (members hashval).symm)
  rw [latest_eq_greatest_iff.mpr last register, greatest_congr members]

include admitted in
theorem hllTransformFull_spec (holds : Holds ctzZero para hll added) (initialized : hll.hlltype ≠ .uninit)
    (ordered : hll.hlltype = .explicit → LargestIsGreatest (hllHashToValue ctzZero para) added)
    (atRest : hll.hlltype = .full → AtRest hll) :
    ∃ full, hllTransformFull ctzZero hll = some full ∧ full.hlltype = .full ∧
      Holds ctzZero para full added ∧ AtRest full := by
  have zeros := fullRegister_zeros (2 ^ para.log2Registers)
  unfold hllTransformFull
  rw [holds.hllpara]
  cases type : hll.hlltype with
  | uninit => exact absurd type initialized
  | empty =>
    obtain ⟨-, rfl⟩ := holds.blank (isBlank_iff.mpr (Or.inr type))
    exact ⟨_, rfl, intoFull_spec admitted holds.hllpara (List.length_replicate ..) zeros⟩
  | explicit =>
    obtain ⟨hashes, sorted, -, members, values⟩ := holds.explicit_data type
    obtain ⟨length, last⟩ := @fullOfExplicit_spec ctzZero para admitted hashes
      (List.replicate (2 ^ para.log2Registers) 0) (List.length_replicate ..)
    dsimp only
    rw [values]
    exact ⟨_, rfl, intoFull_spec admitted holds.hllpara length fun register =>
      (last zeros register).trans (latest_of_ordered sorted members (ordered type) register)⟩
  | sparse =>
    obtain ⟨readable, count, registers⟩ := holds.sparse_data type
    obtain ⟨newdata, done, length, -, stored⟩ := @fullOfSparse_spec hll.hllData readable 0
      (List.replicate (2 ^ para.log2Registers) 0)
      (by rw [count, List.length_replicate, Nat.zero_add]) (fun register _ => zeros register)
    dsimp only
    rw [done]
    refine ⟨_, rfl, intoFull_spec admitted holds.hllpara (length.trans List.length_replicate) ?_⟩
    intro register
    rw [stored register (Nat.zero_le _), Nat.sub_zero, registers]
  | full => exact ⟨hll, rfl, type, holds, atRest type⟩

/-- The zeros behind the last register fit in the memory that is kept for them. -/
theorem zeros_fit {bits count : Nat} (least : 10 ≤ bits) (most : bits ≤ 16) (few : count ≤ 2 ^ bits) :
    count / 4096 + 2 ≤ (if 12 < bits then 2 ^ (bits - 12) else 1) + 2 ∧
      (if 12 < bits then 2 ^ (bits - 12) else 1) ≤ 16 := by
  split
  · interval_cases bits <;> omega
  · have little : 2 ^ bits ≤ 2 ^ 12 := Nat.pow_le_pow_right (by decide) (by omega)
    omega

include admitted in
theorem zeroRun_hllEmptyToSparse (hllpara : hll.hllpara = para) :
    ZeroRun (hllEmptyToSparse hll).hllData (2 ^ para.log2Registers) ∧
      (hllEmptyToSparse hll).hllData.length ≤ 16 := by
  obtain ⟨least, most⟩ := admitted.registers
  have few := (zeros_fit least most le_rfl).2
  simp only [hllEmptyToSparse, hllpara]
  by_cases many : 12 < para.log2Registers
  · rw [if_pos many] at few ⊢
    have nbyte : 1 < 2 ^ (para.log2Registers - 12) := Nat.one_lt_two_pow (by omega)
    have whole : 2 ^ (para.log2Registers - 12) * 4096 = 2 ^ para.log2Registers := by
      calc 2 ^ (para.log2Registers - 12) * 4096
          = 2 ^ (para.log2Registers - 12 + 12) := (Nat.pow_add 2 _ 12).symm
        _ = 2 ^ para.log2Registers := by rw [Nat.sub_add_cancel many.le]
    rw [if_pos nbyte, List.length_replicate, ← whole]
    exact ⟨zeroRun_full _, few⟩
  · rw [if_neg many, if_neg (lt_irrefl 1), List.length_singleton]
    have unit : 2 ^ para.log2Registers / 64 * 64 = 2 ^ para.log2Registers :=
      Nat.div_mul_cancel (pow_dvd_pow 2 (by omega : 6 ≤ para.log2Registers))
    have large : 2 ^ 6 ≤ 2 ^ para.log2Registers := Nat.pow_le_pow_right (by decide) (by omega)
    have small : 2 ^ para.log2Registers ≤ 2 ^ 12 := Nat.pow_le_pow_right (by decide) (by omega)
    have run := @zeroRun_longzero (2 ^ para.log2Registers) large (by omega)
    rw [unit] at run
    exact ⟨run, by decide⟩

include admitted in
theorem hllEmptyToSparse_spec (holds : Holds ctzZero para hll added) (blank : isBlank hll = true) :
    Holds ctzZero para (hllEmptyToSparse hll) added ∧ AtRest (hllEmptyToSparse hll) := by
  obtain ⟨-, rfl⟩ := holds.blank blank
  obtain ⟨zeros, few⟩ := zeroRun_hllEmptyToSparse admitted holds.hllpara
  have lenTotal : (hllEmptyToSparse hll).lenTotal = (hllEmptyToSparse hll).hllData.length := rfl
  refine ⟨holds_sparse holds.hllpara rfl zeros.readable ?_ fun register => ?_, lenTotal.ge, ?_,
    nofun, fun _ => by omega⟩
  · rw [zeros.registers, List.length_replicate]
  · rw [zeros.registers]
    exact getD_zeros [] _ register
  · omega

include admitted in
theorem hllExplicitToSparse_spec (holds : Holds ctzZero para hll added) (type : hll.hlltype = .explicit) :
    Holds ctzZero para (hllExplicitToSparse ctzZero hll) added ∧
      (hllExplicitToSparse ctzZero hll).hllData.length ≤ (hllExplicitToSparse ctzZero hll).lenTotal ∧
      (hllExplicitToSparse ctzZero hll).lenTotal ≤ 3 * hll.hllData.length + 300 := by
  obtain ⟨hashes, sorted, data, members, values⟩ := holds.explicit_data type
  have loopHolds := @loopHolds_foldl ctzZero para admitted hashes sorted
  obtain ⟨least, most⟩ := admitted.registers
  unfold hllExplicitToSparse
  dsimp only
  rw [values, holds.hllpara]
  generalize hashes.foldl (sparseOfExplicit ctzZero para) ⟨[], -1, sparseMinsize para⟩ = loop at loopHolds
  have length := loopHolds.length
  have inside := loopHolds.inside
  have short := loopHolds.short
  have room := loopHolds.room
  have bounded := loopHolds.bounded
  have bytes : hll.hllData.length = 8 * hashes.length := by rw [data, length_explicitBytes]
  generalize counted : ((2 : Int) ^ para.log2Registers - loop.lastindex - 1).toNat = zerocount
  have whole : (2 : Int) ^ para.log2Registers = ((2 ^ para.log2Registers : Nat) : Int) := by
    push_cast
    rfl
  rw [whole] at counted inside
  obtain ⟨enough, few⟩ := @zeros_fit para.log2Registers zerocount least most (by omega)
  have zeros := zeroRun_hllSetSparseZero zerocount
  have zerosShort := length_hllSetSparseZero zerocount
  unfold sparseMinsize at room bounded
  unfold hllExpandSize at bounded
  refine ⟨holds_sparse rfl rfl ?_ ?_ fun register => ?_, ?_, ?_⟩
  · exact readable_append.mpr ⟨loopHolds.readable, zeros.readable⟩
  · dsimp only
    rw [decoded_append, zeros.registers, List.length_append, List.length_replicate]
    omega
  · dsimp only
    rw [decoded_append, zeros.registers, getD_zeros, loopHolds.registers, greatest_congr members]
  · rw [List.length_append]
    omega
  · omega

theorem expandedFor_spec {lenTotal lenUsed more : Nat} (room : lenUsed ≤ lenTotal) :
    lenUsed + more ≤ expandedFor lenTotal lenUsed more ∧
      expandedFor lenTotal lenUsed more ≤ max lenTotal (lenUsed + more + hllExpandSize) := by
  unfold expandedFor hllExpandSize
  omega

theorem share_none {hashval : UInt64} (absent : (hllHashToValue ctzZero para hashval).2 = 0)
    (register : Nat) : share (hllHashToValue ctzZero para) register hashval = 0 := by
  unfold share
  split
  · exact absent
  · rfl

/-- A hash without a value changes no register. -/
theorem Holds.skip (holds : Holds ctzZero para hll added) {hashval : UInt64}
    (absent : (hllHashToValue ctzZero para hashval).2 = 0)
    (type : hll.hlltype = .sparse ∨ hll.hlltype = .full) :
    Holds ctzZero para hll (hashval :: added) := by
  have same (register : Nat) : greatest (hllHashToValue ctzZero para) (hashval :: added) register =
      greatest (hllHashToValue ctzZero para) added register := by
    rw [greatest_cons, share_none absent, Nat.zero_max]
  rcases type with type | type
  · obtain ⟨readable, length, registers⟩ := holds.sparse_data type
    exact holds_sparse holds.hllpara type readable length fun register =>
      (registers register).trans (same register).symm
  · obtain ⟨length, registers⟩ := holds.full_data type
    exact holds_full holds.hllpara type length fun register =>
      (registers register).trans (same register).symm

include admitted in
theorem hllSetFullValue_spec (holds : Holds ctzZero para hll added) (type : hll.hlltype = .full)
    (atRest : AtRest hll) (hashval : UInt64) :
    ∃ set, hllSetFullValue ctzZero hll hashval = some set ∧
      Holds ctzZero para set (hashval :: added) ∧ AtRest set := by
  obtain rfl := holds.hllpara
  have inside := @hllHashToValue_index_lt ctzZero hll.hllpara admitted hashval
  have small := @hllHashToValue_value_le ctzZero hll.hllpara admitted hashval
  have skip := @Holds.skip ctzZero hll.hllpara hll added holds hashval
  obtain ⟨length, registers⟩ := holds.full_data type
  unfold hllSetFullValue
  have own (register : Nat) : greatest (hllHashToValue ctzZero hll.hllpara) (hashval :: added) register =
      max (if (hllHashToValue ctzZero hll.hllpara hashval).1 = register then
        (hllHashToValue ctzZero hll.hllpara hashval).2 else 0) (fullRegister hll.hllData register) := by
    rw [greatest_cons, share, registers]
  generalize hllHashToValue ctzZero hll.hllpara hashval = slot at inside small skip own
  obtain ⟨index, value⟩ := slot
  dsimp only at inside small skip own ⊢
  by_cases zero : value = 0
  · rw [if_pos zero]
    exact ⟨hll, rfl, skip zero (Or.inr type), atRest⟩
  · rw [if_neg zero, if_neg (by omega)]
    by_cases greater : (hll.hllData.getD index 0).toNat < value
    · rw [if_pos greater]
      refine ⟨_, rfl, holds_full holds.hllpara type (by rw [List.length_set, length]) ?_, ?_⟩
      · intro register
        dsimp only
        rw [fullRegister_set (by omega) (by omega), own]
        split
        · rename_i here
          subst here
          exact (Nat.max_eq_left greater.le).symm
        · rw [Nat.zero_max]
      · refine ⟨?_, atRest.lenTotal, ?_, ?_⟩
        · rw [List.length_set]
          exact atRest.room
        · intro other
          rw [type] at other
          exact absurd other (by decide)
        · intro other
          rw [type] at other
          exact absurd other (by decide)
    · rw [if_neg greater]
      refine ⟨hll, rfl, holds_full holds.hllpara type length fun register => ?_, atRest⟩
      rw [own]
      split
      · rename_i here
        subst here
        exact (Nat.max_eq_right (not_lt.mp greater)).symm
      · rw [Nat.zero_max]

include admitted in
theorem hllSetSparseValue_spec (holds : Holds ctzZero para hll added) (type : hll.hlltype = .sparse)
    (atRest : AtRest hll) (hashval : UInt64) :
    ∃ set, hllSetSparseValue ctzZero hll hashval = some set ∧
      Holds ctzZero para set (hashval :: added) ∧ AtRest set := by
  obtain rfl := holds.hllpara
  have inside := @hllHashToValue_index_lt ctzZero hll.hllpara admitted hashval
  have small := @hllHashToValue_value_le ctzZero hll.hllpara admitted hashval
  have skip := @Holds.skip ctzZero hll.hllpara hll added holds hashval
  obtain ⟨readable, length, registers⟩ := holds.sparse_data type
  unfold hllSetSparseValue
  have own (register : Nat) : greatest (hllHashToValue ctzZero hll.hllpara) (hashval :: added) register =
      max (if (hllHashToValue ctzZero hll.hllpara hashval).1 = register then
        (hllHashToValue ctzZero hll.hllpara hashval).2 else 0) ((decoded hll.hllData).getD register 0) := by
    rw [greatest_cons, share, registers]
  generalize hllHashToValue ctzZero hll.hllpara hashval = slot at inside small skip own
  obtain ⟨index, value⟩ := slot
  dsimp only at inside small skip own ⊢
  by_cases zero : value = 0
  · rw [if_pos zero]
    exact ⟨hll, rfl, skip zero (Or.inl type), atRest⟩
  · rw [if_neg zero]
    obtain ⟨byteIndex, unitIndex, found, unit⟩ :=
      @hllGetRegisterUnit_spec hll.hllData readable index (by omega)
    obtain ⟨hllData, written, updated⟩ :=
      hllUpdateSparseValue_spec readable unit (Nat.pos_of_ne_zero zero) (by omega)
    have room := atRest.room
    have short := atRest.sparse type
    have longer := updated.length_le
    obtain ⟨enough, most⟩ := @expandedFor_spec hll.lenTotal hll.hllData.length
      (hllData.length - hll.hllData.length) room
    unfold hllExpandSize at most
    have total := atRest.lenTotal
    rw [found, Option.bind_eq_bind, Option.bind_some, written, Option.bind_eq_bind, Option.bind_some]
    generalize expandedFor hll.lenTotal hll.hllData.length
      (hllData.length - hll.hllData.length) = lenTotal at enough most
    have kept : Holds ctzZero hll.hllpara { hll with hllData := hllData, lenTotal := lenTotal }
        (hashval :: added) := by
      refine holds_sparse rfl type updated.readable ?_ fun register => ?_
      · rw [updated.registers, List.length_set, length]
      · rw [updated.registers, own, List.getD_eq_getElem?_getD, List.getElem?_set]
        split
        · rename_i here
          subst here
          rw [if_pos (by omega)]
          rfl
        · rw [Nat.zero_max, List.getD_eq_getElem?_getD]
    split
    · obtain ⟨full, done, -, content, rest⟩ := hllTransformFull_spec admitted kept
        (by dsimp only; rw [type]; rintro ⟨⟩) (by dsimp only; rw [type]; rintro ⟨⟩)
        (by dsimp only; rw [type]; rintro ⟨⟩)
      exact ⟨full, done, content, rest⟩
    · rename_i fits
      have limit : 2 ^ hll.hllpara.log2Sparsesize ≤ 2 ^ 14 :=
        Nat.pow_le_pow_right (by decide) admitted.sparsesize
      refine ⟨_, rfl, kept, ?_, ?_, ?_, fun _ => (not_lt.mp fits).trans limit⟩
      · dsimp only
        omega
      · dsimp only
        omega
      · intro other
        rw [type] at other
        exact absurd other (by decide)

/-- The hashes no longer fit in explicit mode, and sparse mode is not in between. -/
def Crowded (para : HllPara) (hashes : List UInt64) : Prop :=
  2 ^ para.log2Explicitsize < hllExplicitUint * hashes.dedup.length ∧
    para.log2Sparsesize ≤ para.log2Explicitsize

instance (para : HllPara) (hashes : List UInt64) : Decidable (Crowded para hashes) :=
  inferInstanceAs (Decidable (_ ∧ _))

theorem length_dedup {hashes : List UInt64} (sorted : hashes.Pairwise (· < ·))
    (members : ∀ hashval, hashval ∈ hashes ↔ hashval ∈ added) :
    added.dedup.length = hashes.length := by
  have distinct : hashes.Nodup := sorted.imp fun less => UInt64.ne_of_lt less
  apply List.Perm.length_eq
  rw [List.perm_ext_iff_of_nodup (List.nodup_dedup added) distinct]
  intro hashval
  rw [List.mem_dedup, members]

include admitted in
theorem hllExplicitCheck_spec (holds : Holds ctzZero para hll added)
    (type : hll.hlltype = .explicit) (room : hll.hllData.length ≤ hll.lenTotal)
    (total : hll.lenTotal ≤ 2 ^ 16) (few : hll.hllData.length ≤ 2 ^ 13)
    (ordered : Crowded para added → LargestIsGreatest (hllHashToValue ctzZero para) added) :
    ∃ checked, hllExplicitCheck ctzZero hll = some checked ∧ Holds ctzZero para checked added ∧
      AtRest checked := by
  have toFull := @hllTransformFull_spec ctzZero para admitted
  obtain rfl := holds.hllpara
  unfold hllExplicitCheck
  by_cases beyond : 2 ^ hll.hllpara.log2Explicitsize < hll.hllData.length
  · rw [if_pos beyond]
    by_cases between : hll.hllpara.log2Explicitsize < hll.hllpara.log2Sparsesize
    · rw [if_pos between]
      obtain ⟨kept, sparseRoom, sparseTotal⟩ := hllExplicitToSparse_spec admitted holds type
      have transformed : hllTransformSparse ctzZero hll = some (hllExplicitToSparse ctzZero hll) := by
        rw [hllTransformSparse, type]
      have sparse : (hllExplicitToSparse ctzZero hll).hlltype = .sparse := rfl
      rw [transformed, Option.bind_eq_bind, Option.bind_some]
      split
      · obtain ⟨full, done, -, content, rest⟩ := toFull kept (by rw [sparse]; rintro ⟨⟩)
          (by rw [sparse]; rintro ⟨⟩) (by rw [sparse]; rintro ⟨⟩)
        exact ⟨full, done, content, rest⟩
      · rename_i fits
        have limit : 2 ^ hll.hllpara.log2Sparsesize ≤ 2 ^ 14 :=
          Nat.pow_le_pow_right (by decide) admitted.sparsesize
        exact ⟨_, rfl, kept, sparseRoom, by omega, by rintro ⟨⟩, fun _ => (not_lt.mp fits).trans limit⟩
    · rw [if_neg between]
      have crowded : Crowded hll.hllpara added := by
        obtain ⟨hashes, sorted, data, members, -⟩ := holds.explicit_data type
        refine ⟨?_, not_lt.mp between⟩
        rwa [length_dedup sorted members, hllExplicitUint, ← length_explicitBytes, ← data]
      obtain ⟨full, done, -, content, rest⟩ := toFull holds (by rw [type]; rintro ⟨⟩)
        (fun _ => ordered crowded) (by rw [type]; rintro ⟨⟩)
      exact ⟨full, done, content, rest⟩
  · rw [if_neg beyond]
    refine ⟨hll, rfl, holds, room, total, fun _ => not_lt.mp beyond, ?_⟩
    rw [type]
    rintro ⟨⟩

/-- An ordered list stays ordered with a hash in its place. -/
theorem pairwise_insert {hashes : List UInt64} {hashval : UInt64} {place : Nat}
    (sorted : hashes.Pairwise (· < ·))
    (below : ∀ earlier ∈ hashes.take place, earlier < hashval)
    (above : ∀ later ∈ hashes.drop place, hashval < later) :
    (hashes.take place ++ hashval :: hashes.drop place).Pairwise (· < ·) := by
  have whole := sorted
  rw [← List.take_append_drop place hashes] at whole
  obtain ⟨front, back, across⟩ := List.pairwise_append.mp whole
  refine List.pairwise_append.mpr ⟨front, List.pairwise_cons.mpr ⟨above, back⟩, ?_⟩
  intro earlier early later member
  rcases List.mem_cons.mp member with rfl | beyond
  · exact below earlier early
  · exact across earlier early later beyond

theorem hllUpdateValue_explicit (hashes : List UInt64) (hashval : UInt64) {place : Nat}
    (inside : place ≤ hashes.length) :
    hllUpdateValue (explicitBytes hashes) (hllExplicitUint * place)
      (leBytes hllExplicitUint hashval.toNat) 0 =
        explicitBytes (hashes.take place ++ hashval :: hashes.drop place) := by
  have split : explicitBytes hashes =
      explicitBytes (hashes.take place) ++ explicitBytes (hashes.drop place) := by
    rw [← explicitBytes_append, List.take_append_drop]
  have length : (explicitBytes (hashes.take place)).length = hllExplicitUint * place := by
    rw [length_explicitBytes, List.length_take, Nat.min_eq_left inside, hllExplicitUint]
  rw [hllUpdateValue, split, Nat.add_zero, List.take_left' length, List.drop_left' length,
    explicitBytes_append, explicitBytes_cons, List.append_assoc]
  rfl

theorem hllInsertExplicit_spec (holds : Holds ctzZero para hll added)
    (type : hll.hlltype = .explicit) (room : hll.hllData.length ≤ hll.lenTotal) (hashval : UInt64) :
    Holds ctzZero para (hllInsertExplicit hll hashval).1 (hashval :: added) ∧
      (hllInsertExplicit hll hashval).1.hlltype = .explicit ∧
      (hllInsertExplicit hll hashval).1.hllData.length ≤ (hllInsertExplicit hll hashval).1.lenTotal ∧
      (hllInsertExplicit hll hashval).1.lenTotal ≤ max hll.lenTotal (hll.hllData.length + 264) ∧
      (hllInsertExplicit hll hashval).1.hllData.length ≤ hll.hllData.length + 8 ∧
      ((hllInsertExplicit hll hashval).2 = false →
        (hllInsertExplicit hll hashval).1.hllData = hll.hllData) := by
  obtain ⟨hashes, sorted, data, members, -⟩ := holds.explicit_data type
  have bytes : hll.hllData.length = 8 * hashes.length := by rw [data, length_explicitBytes]
  have count : hll.hllData.length / hllExplicitUint = hashes.length := by
    rw [bytes, hllExplicitUint]
    omega
  obtain ⟨inside, below, above⟩ := @upperBound_spec hashes sorted hashval hashes.length 0
    hashes.length (Nat.zero_add _).ge (Nat.zero_le _) le_rfl (fun _ _ early => absurd early (by omega))
    (fun _ known behind => absurd known (by omega))
  unfold hllInsertExplicit
  dsimp only
  rw [count]
  rw [← data] at inside below above
  generalize upperBound hll.hllData hashval hashes.length 0 hashes.length = bindex at inside below above
  have expanded : hll.hllData.length + 8 ≤ (if hll.lenTotal - hll.hllData.length < hllExplicitUint then
      hll.lenTotal + hllExpandSize else hll.lenTotal) ∧
      (if hll.lenTotal - hll.hllData.length < hllExplicitUint then
        hll.lenTotal + hllExpandSize else hll.lenTotal) ≤
          max hll.lenTotal (hll.hllData.length + 264) := by
    unfold hllExpandSize hllExplicitUint
    split <;> omega
  generalize (if hll.lenTotal - hll.hllData.length < hllExplicitUint then
    hll.lenTotal + hllExpandSize else hll.lenTotal) = lenTotal at expanded
  obtain ⟨enough, most⟩ := expanded
  by_cases known : 0 < bindex ∧ hllGetExplictitValue hll.hllData (bindex - 1) = hashval
  · rw [if_pos known]
    obtain ⟨positive, stored⟩ := known
    rw [data, hllGetExplictitValue_explicitBytes (by omega)] at stored
    have member : hashval ∈ hashes := by
      rw [← stored]
      exact List.getElem_mem _
    refine ⟨?_, type, by dsimp only; omega, most, by dsimp only; omega, fun _ => rfl⟩
    refine holds_explicit holds.hllpara type sorted data fun other => ?_
    rw [members, List.mem_cons]
    refine ⟨Or.inr, ?_⟩
    rintro (rfl | old)
    · exact (members _).mp member
    · exact old
  · rw [if_neg known]
    have earlier : ∀ other ∈ hashes.take bindex, other < hashval := by
      intro other member
      obtain ⟨index, small, rfl⟩ := List.mem_take_iff_getElem.mp member
      have early := below index (by omega) (by omega)
      rcases Nat.lt_or_eq_of_le (Nat.le_sub_one_of_lt (by omega : index < bindex)) with less | last
      · have next := List.pairwise_iff_getElem.mp sorted index (bindex - 1) (by omega) (by omega) less
        exact UInt64.lt_of_lt_of_le next (below (bindex - 1) (by omega) (by omega))
      · refine UInt64.lt_of_le_of_ne early fun same => known ⟨by omega, ?_⟩
        rw [data, hllGetExplictitValue_explicitBytes (by omega), ← same]
        congr 1
        exact last.symm
    have later : ∀ other ∈ hashes.drop bindex, hashval < other := by
      intro other member
      obtain ⟨index, small, rfl⟩ := List.mem_drop_iff_getElem.mp member
      exact above (bindex + index) (by omega) (by omega)
    have ordered := pairwise_insert sorted earlier later
    have written := hllUpdateValue_explicit hashes hashval inside
    rw [← data] at written
    refine ⟨?_, type, ?_, most, ?_, by rintro ⟨⟩⟩
    · refine holds_explicit holds.hllpara type ordered written fun other => ?_
      rw [List.mem_append, List.mem_cons, List.mem_cons, ← members]
      nth_rewrite 3 [← List.take_append_drop bindex hashes]
      rw [List.mem_append]
      tauto
    · dsimp only
      rw [written, length_explicitBytes, List.length_append, List.length_cons, List.length_take,
        List.length_drop]
      omega
    · dsimp only
      rw [written, length_explicitBytes, List.length_append, List.length_cons, List.length_take,
        List.length_drop]
      omega

end Modes

end OpenGauss.Hll
