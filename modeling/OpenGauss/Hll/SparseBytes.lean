import Mathlib.Tactic

/-! The sparse bytes of `hll.cpp`: runs of registers that are zero, and single registers. -/

namespace OpenGauss.Hll

inductive RegisterType where
  | sparseLongzero
  | sparseZero
  | denseValue
  | sparseValue
deriving DecidableEq, Repr

def hllLongzeroUnit : Nat := 64

def hllLongzeroFull : UInt8 := 0x3F

def byteType (byte : UInt8) : RegisterType :=
  match byte.toNat >>> 6 with
  | 0 => .sparseLongzero
  | 1 => .sparseZero
  | 2 => .denseValue
  | _ => .sparseValue

def byteGetValue (byte : UInt8) : Nat := (byte.toNat &&& 0x3F) + 1

def setLongzeroValue (value : Nat) : UInt8 := UInt8.ofNat ((value >>> 6) - 1)

def setZeroValue (value : Nat) : UInt8 := UInt8.ofNat ((value - 1) ||| 0x40)

def setDenseValue (value : Nat) : UInt8 := UInt8.ofNat ((value - 1) ||| 0x80)

/-- The registers that a byte stands for; a byte of the last type is reported as an error by all
readers. -/
def byteRegisters (byte : UInt8) : List Nat :=
  match byteType byte with
  | .sparseLongzero => List.replicate (byteGetValue byte * hllLongzeroUnit) 0
  | .sparseZero => List.replicate (byteGetValue byte) 0
  | .denseValue => [byteGetValue byte]
  | .sparseValue => []

variable (hllData : List UInt8)

def decoded : List Nat := hllData.flatMap byteRegisters

/-- No byte is of the type that is not used. -/
def Readable : Prop := ∀ byte ∈ hllData, byteType byte ≠ .sparseValue

/-- The bytes of a run of zeros: full long ones, then the rest of it. -/
def hllSetSparseZero (zerocount : Nat) : List UInt8 :=
  if hllLongzeroUnit ≤ zerocount then
    let fullnum := zerocount >>> 12
    let rest := zerocount &&& 0xfff
    List.replicate fullnum hllLongzeroFull ++ (if hllLongzeroUnit ≤ rest then
        setLongzeroValue rest :: (if 0 < rest &&& 0x3F then [setZeroValue (rest &&& 0x3F)] else [])
      else if 0 < rest then [setZeroValue rest] else [])
  else if 0 < zerocount then [setZeroValue zerocount] else []

/-- One byte; a value comes with a count of 1. -/
def hllSetSparseByte (count value : Nat) : UInt8 :=
  if value = 0 then
    if hllLongzeroUnit ≤ count then setLongzeroValue count else setZeroValue count
  else setDenseValue value

/-- Zeros beside a new value in a long run. -/
def zeroBytes (count : Nat) : List UInt8 :=
  if hllLongzeroUnit ≤ count then
    hllSetSparseByte count 0 :: (if 0 < count &&& 0x3F then [hllSetSparseByte (count &&& 0x3F) 0] else [])
  else if 0 < count then [hllSetSparseByte count 0] else []

/-- The loop of `HllGetRegisterUnit`; `sum` registers stand before the byte at `byteIndex`. -/
def registerUnitLoop (registerIndex : Nat) : List UInt8 → Nat → Nat → Option (Nat × Nat)
  | [], _, _ => none
  | byte :: rest, byteIndex, sum =>
    let current? : Option Nat :=
      match byteType byte with
      | .sparseLongzero => some (byteGetValue byte <<< 6)
      | .sparseZero => some (byteGetValue byte)
      | .denseValue => some 1
      | .sparseValue => none
    match current? with
    | none => none
    | some current =>
      if registerIndex < sum + current then some (byteIndex, registerIndex - sum)
      else registerUnitLoop registerIndex rest (byteIndex + 1) (sum + current)

/-- The byte of a register and the place in it. -/
def hllGetRegisterUnit (registerIndex : Nat) : Option (Nat × Nat) :=
  if registerIndex = 0 then some (0, 0) else registerUnitLoop registerIndex hllData 0 0

/-- `HllUpdateValue` on the bytes in use. -/
def hllUpdateValue (index : Nat) (insertValue : List UInt8)
    (originLen : Nat) : List UInt8 :=
  hllData.take index ++ insertValue ++ hllData.drop (index + originLen)

variable (byteIndex unitIndex newValue : Nat)

/-- What a long run of zeros is replaced by, a short run behind it included. -/
def hllUpdateSparseType1 : List UInt8 :=
  let left := unitIndex
  let right := byteGetValue (hllData.getD byteIndex 0) * hllLongzeroUnit - left - 1
  let front := zeroBytes left ++ [hllSetSparseByte 1 newValue]
  let later := hllData.getD (byteIndex + 1) 0
  if byteIndex < hllData.length - 1 ∧ byteType later = .sparseZero then
    hllUpdateValue hllData byteIndex (front ++ zeroBytes (right + byteGetValue later)) 2
  else hllUpdateValue hllData byteIndex (front ++ zeroBytes right) 1

def hllUpdateSparseType2 : List UInt8 :=
  let left := unitIndex
  let right := byteGetValue (hllData.getD byteIndex 0) - left - 1
  hllUpdateValue hllData byteIndex
    ((if 0 < left then [hllSetSparseByte left 0] else []) ++ [hllSetSparseByte 1 newValue] ++
      (if 0 < right then [hllSetSparseByte right 0] else [])) 1

def hllUpdateSparseType3 (byteIndex newValue : Nat) : List UInt8 :=
  if newValue ≤ byteGetValue (hllData.getD byteIndex 0) then hllData
  else hllData.set byteIndex (setDenseValue newValue)

def hllUpdateSparseValue : Option (List UInt8) :=
  if newValue = 0 then some hllData
  else if hllData.length ≤ byteIndex then none
  else
    match byteType (hllData.getD byteIndex 0) with
    | .sparseLongzero => some (hllUpdateSparseType1 hllData byteIndex unitIndex newValue)
    | .sparseZero => some (hllUpdateSparseType2 hllData byteIndex unitIndex newValue)
    | .denseValue => some (hllUpdateSparseType3 hllData byteIndex newValue)
    | .sparseValue => none

@[simp] theorem decoded_nil : decoded [] = [] := rfl

@[simp] theorem decoded_cons (byte : UInt8) (rest : List UInt8) :
    decoded (byte :: rest) = byteRegisters byte ++ decoded rest := rfl

@[simp] theorem decoded_append (front back : List UInt8) :
    decoded (front ++ back) = decoded front ++ decoded back :=
  List.flatMap_append

@[simp] theorem readable_nil : Readable [] := by simp [Readable]

@[simp] theorem readable_cons {byte : UInt8} {rest : List UInt8} :
    Readable (byte :: rest) ↔ byteType byte ≠ .sparseValue ∧ Readable rest :=
  List.forall_mem_cons

@[simp] theorem readable_append {front back : List UInt8} :
    Readable (front ++ back) ↔ Readable front ∧ Readable back :=
  List.forall_mem_append

theorem longzero_spec : ∀ units : Fin 64,
    byteType (setLongzeroValue (64 * (units.val + 1))) = .sparseLongzero ∧
      byteGetValue (setLongzeroValue (64 * (units.val + 1))) = units.val + 1 := by
  decide

theorem zero_spec : ∀ value : Fin 64, byteType (setZeroValue (value.val + 1)) = .sparseZero ∧
    byteGetValue (setZeroValue (value.val + 1)) = value.val + 1 := by
  decide

theorem dense_spec : ∀ value : Fin 64, byteType (setDenseValue (value.val + 1)) = .denseValue ∧
    byteGetValue (setDenseValue (value.val + 1)) = value.val + 1 := by
  decide

/-- Bytes that stand for a run of zeros. -/
structure ZeroRun (bytes : List UInt8) (count : Nat) : Prop where
  registers : decoded bytes = List.replicate count 0
  readable : Readable bytes

theorem ZeroRun.nil : ZeroRun [] 0 := ⟨rfl, readable_nil⟩

theorem ZeroRun.append {front back : List UInt8} {first second : Nat} (left : ZeroRun front first)
    (right : ZeroRun back second) : ZeroRun (front ++ back) (first + second) := by
  refine ⟨?_, readable_append.mpr ⟨left.readable, right.readable⟩⟩
  rw [decoded_append, left.registers, right.registers, List.replicate_append_replicate]

theorem zeroRun_zero {value : Nat} (positive : 0 < value) (small : value ≤ 64) :
    ZeroRun [setZeroValue value] value := by
  obtain ⟨type, stored⟩ := zero_spec ⟨value - 1, by omega⟩
  rw [Nat.sub_add_cancel positive] at type stored
  constructor
  · rw [decoded_cons, decoded_nil, List.append_nil, byteRegisters, type]
    dsimp only
    rw [stored]
  · simp [type]

theorem zeroRun_longzero {value : Nat} (least : 64 ≤ value) (most : value < 64 * 65) :
    ZeroRun [setLongzeroValue value] (value / 64 * 64) := by
  obtain ⟨type, stored⟩ := longzero_spec ⟨value / 64 - 1, by omega⟩
  have same : setLongzeroValue (64 * (value / 64 - 1 + 1)) = setLongzeroValue value := by
    rw [setLongzeroValue, setLongzeroValue, Nat.shiftRight_eq_div_pow, Nat.shiftRight_eq_div_pow]
    congr 2
    omega
  dsimp only at type stored
  rw [same] at type stored
  constructor
  · rw [decoded_cons, decoded_nil, List.append_nil, byteRegisters, type]
    dsimp only
    rw [stored, hllLongzeroUnit]
    congr 1
    omega
  · simp [type]

variable (zerocount : Nat) (count : Nat)

theorem and_63 : count &&& 0x3F = count % 64 := Nat.and_two_pow_sub_one_eq_mod count 6

theorem and_4095 : count &&& 0xfff = count % 4096 :=
  Nat.and_two_pow_sub_one_eq_mod count 12

theorem zeroRun_short (small : count ≤ 64) :
    ZeroRun (if 0 < count then [setZeroValue count] else []) count := by
  split
  · rename_i positive
    exact zeroRun_zero positive small
  · obtain rfl : count = 0 := by omega
    exact .nil

theorem zeroRun_long {count : Nat} (least : 64 ≤ count) (most : count < 64 * 65) :
    ZeroRun (setLongzeroValue count ::
      (if 0 < count &&& 0x3F then [setZeroValue (count &&& 0x3F)] else [])) count := by
  rw [and_63]
  have whole := (zeroRun_longzero least most).append
    (zeroRun_short (count % 64) (Nat.mod_lt _ (by decide)).le)
  rwa [Nat.mul_comm, Nat.div_add_mod] at whole

theorem zeroRun_zeroBytes {count : Nat} (most : count < 64 * 65) : ZeroRun (zeroBytes count) count := by
  have short (length : Nat) (small : length < 64) : hllSetSparseByte length 0 = setZeroValue length :=
    (if_pos rfl).trans (if_neg (by rw [hllLongzeroUnit]; omega))
  unfold zeroBytes
  split
  · rename_i least
    have long : hllSetSparseByte count 0 = setLongzeroValue count :=
      (if_pos rfl).trans (if_pos least)
    rw [long, short (count &&& 0x3F) (by rw [and_63]; exact Nat.mod_lt _ (by decide))]
    exact zeroRun_long least most
  · rename_i little
    rw [hllLongzeroUnit, not_le] at little
    rw [short count little]
    exact zeroRun_short count little.le

theorem zeroRun_full : ZeroRun (List.replicate count hllLongzeroFull) (count * 4096) := by
  induction count with
  | zero => exact .nil
  | succ count ih =>
    have byte : setLongzeroValue 4096 = hllLongzeroFull := by decide
    have first := @zeroRun_longzero 4096 (by decide) (by decide)
    rw [byte] at first
    rw [List.replicate_succ, Nat.succ_mul, Nat.add_comm]
    exact first.append ih

theorem zeroRun_hllSetSparseZero : ZeroRun (hllSetSparseZero zerocount) zerocount := by
  unfold hllSetSparseZero
  split
  · dsimp only
    have full : zerocount >>> 12 = zerocount / 4096 := Nat.shiftRight_eq_div_pow zerocount 12
    have below : zerocount % 4096 < 4096 := Nat.mod_lt _ (by decide)
    rw [full, and_4095]
    have rest : ZeroRun (if hllLongzeroUnit ≤ zerocount % 4096 then
        setLongzeroValue (zerocount % 4096) :: (if 0 < zerocount % 4096 &&& 0x3F then
          [setZeroValue (zerocount % 4096 &&& 0x3F)] else [])
        else if 0 < zerocount % 4096 then [setZeroValue (zerocount % 4096)] else [])
        (zerocount % 4096) := by
      split
      · rename_i least
        exact zeroRun_long least (by omega)
      · rename_i little
        rw [hllLongzeroUnit, not_le] at little
        exact zeroRun_short _ little.le
    have whole := (zeroRun_full (zerocount / 4096)).append rest
    rwa [Nat.mul_comm, Nat.div_add_mod] at whole
  · rename_i little
    rw [hllLongzeroUnit, not_le] at little
    exact zeroRun_short zerocount little.le

theorem length_hllSetSparseZero :
    (hllSetSparseZero zerocount).length ≤ zerocount / 4096 + 2 := by
  have full : zerocount >>> 12 = zerocount / 4096 := Nat.shiftRight_eq_div_pow zerocount 12
  unfold hllSetSparseZero
  dsimp only
  rw [full]
  split
  · split
    · split <;> simp
    · split <;> simp
  · split <;> simp

theorem byteRegisters_dense {value : Nat} (positive : 0 < value) (small : value ≤ 64) :
    byteType (setDenseValue value) = .denseValue ∧ byteGetValue (setDenseValue value) = value ∧
      byteRegisters (setDenseValue value) = [value] := by
  obtain ⟨type, stored⟩ := dense_spec ⟨value - 1, by omega⟩
  rw [Nat.sub_add_cancel positive] at type stored
  refine ⟨type, stored, ?_⟩
  rw [byteRegisters, type]
  dsimp only
  rw [stored]

theorem byteRegisters_length_pos {byte : UInt8} (readable : byteType byte ≠ .sparseValue) :
    0 < (byteRegisters byte).length := by
  unfold byteRegisters byteGetValue
  cases type : byteType byte with
  | sparseLongzero => simp [hllLongzeroUnit]
  | sparseZero => simp
  | denseValue => simp
  | sparseValue => exact absurd type readable

/-- The register at an index stands in the byte that is found, at the unit that is found. -/
structure UnitAt (hllData : List UInt8) (registerIndex byteIndex unitIndex : Nat) : Prop where
  split : ∃ before byte after, hllData = before ++ byte :: after ∧ before.length = byteIndex ∧
    (decoded before).length + unitIndex = registerIndex ∧ unitIndex < (byteRegisters byte).length

theorem registerUnitLoop_spec {registerIndex : Nat} {bytes : List UInt8} (readable : Readable bytes)
    {byteIndex sum : Nat} (reached : sum ≤ registerIndex)
    (inside : registerIndex < sum + (decoded bytes).length) :
    ∃ steps unitIndex, registerUnitLoop registerIndex bytes byteIndex sum =
      some (byteIndex + steps, unitIndex) ∧ UnitAt bytes (registerIndex - sum) steps unitIndex := by
  induction bytes generalizing byteIndex sum with
  | nil =>
    rw [decoded_nil, List.length_nil] at inside
    omega
  | cons byte rest ih =>
    obtain ⟨first, others⟩ := readable_cons.mp readable
    have current : (match byteType byte with
        | .sparseLongzero => some (byteGetValue byte <<< 6)
        | .sparseZero => some (byteGetValue byte)
        | .denseValue => some 1
        | .sparseValue => none) = some (byteRegisters byte).length := by
      unfold byteRegisters
      cases type : byteType byte with
      | sparseLongzero => simp [hllLongzeroUnit, Nat.shiftLeft_eq]
      | sparseZero => simp
      | denseValue => simp
      | sparseValue => exact absurd type first
    rw [registerUnitLoop, current]
    dsimp only
    split
    · rename_i here
      refine ⟨0, registerIndex - sum, rfl, ⟨[], byte, rest, rfl, rfl, ?_, by omega⟩⟩
      rw [decoded_nil, List.length_nil, Nat.zero_add]
    · rename_i beyond
      rw [decoded_cons, List.length_append] at inside
      obtain ⟨steps, unitIndex, found, ⟨before, target, after, same, length, place, unit⟩⟩ :=
        @ih others (byteIndex + 1) (sum + (byteRegisters byte).length) (by omega) (by omega)
      refine ⟨steps + 1, unitIndex, ?_, ⟨byte :: before, target, after, ?_, ?_, ?_, unit⟩⟩
      · rw [found, Nat.add_assoc, Nat.add_comm 1]
      · rw [same, List.cons_append]
      · rw [List.length_cons, length]
      · rw [decoded_cons, List.length_append]
        omega

theorem hllGetRegisterUnit_spec {hllData : List UInt8} (readable : Readable hllData)
    {registerIndex : Nat} (inside : registerIndex < (decoded hllData).length) :
    ∃ byteIndex unitIndex, hllGetRegisterUnit hllData registerIndex = some (byteIndex, unitIndex) ∧
      UnitAt hllData registerIndex byteIndex unitIndex := by
  unfold hllGetRegisterUnit
  split
  · rename_i zero
    subst zero
    cases hllData with
    | nil => exact absurd inside (Nat.not_lt_zero _)
    | cons byte rest =>
      have positive := byteRegisters_length_pos (readable_cons.mp readable).1
      exact ⟨0, 0, rfl, ⟨[], byte, rest, rfl, rfl, rfl, positive⟩⟩
  · obtain ⟨steps, unitIndex, found, unit⟩ := @registerUnitLoop_spec registerIndex hllData readable
      0 0 (Nat.zero_le _) (by rwa [Nat.zero_add])
    rw [Nat.zero_add] at found
    exact ⟨steps, unitIndex, found, unit⟩

theorem hllUpdateValue_split (before insertValue after : List UInt8) (byte : UInt8) :
    hllUpdateValue (before ++ byte :: after) before.length insertValue 1 =
      before ++ insertValue ++ after := by
  rw [hllUpdateValue, List.take_left, ← List.drop_drop, List.drop_left, List.drop_succ_cons, List.drop_zero]

theorem hllUpdateValue_split_two (before insertValue after : List UInt8) (byte later : UInt8) :
    hllUpdateValue (before ++ byte :: later :: after) before.length insertValue 2 =
      before ++ insertValue ++ after := by
  rw [hllUpdateValue, List.take_left, ← List.drop_drop, List.drop_left, List.drop_succ_cons,
    List.drop_succ_cons, List.drop_zero]

theorem getD_split (before after : List UInt8) (byte : UInt8) :
    (before ++ byte :: after).getD before.length 0 = byte := by
  simp

/-- A value between two runs of zeros. -/
structure Between (bytes : List UInt8) (left value right : Nat) : Prop where
  registers : decoded bytes = List.replicate left 0 ++ value :: List.replicate right 0
  readable : Readable bytes

theorem between {front back : List UInt8} {left value right : Nat} (before : ZeroRun front left)
    (after : ZeroRun back right) (positive : 0 < value) (small : value ≤ 64) :
    Between (front ++ [hllSetSparseByte 1 value] ++ back) left value right := by
  have byte : hllSetSparseByte 1 value = setDenseValue value := if_neg (by omega)
  obtain ⟨type, -, registers⟩ := byteRegisters_dense positive small
  constructor
  · rw [byte, decoded_append, decoded_append, decoded_cons, decoded_nil, registers,
      before.registers, after.registers, List.append_assoc, List.append_nil, List.singleton_append]
  · rw [byte]
    simp [before.readable, after.readable, type]

theorem replicate_set {count index value : Nat} (inside : index < count) :
    (List.replicate count 0).set index value =
      List.replicate index 0 ++ value :: List.replicate (count - index - 1) 0 := by
  rw [List.set_eq_take_append_cons_drop, if_pos (by simpa using inside), List.take_replicate,
    List.drop_replicate, Nat.min_eq_left inside.le, Nat.sub_sub]

theorem set_between (front back : List Nat) (middle : List Nat) {index value : Nat}
    (inside : index < middle.length) :
    (front ++ middle ++ back).set (front.length + index) value =
      front ++ middle.set index value ++ back := by
  rw [List.append_assoc, List.set_append_right _ _ (Nat.le_add_right _ _), Nat.add_sub_cancel_left,
    List.set_append_left _ _ inside, ← List.append_assoc]

/-- What an update leaves: readable bytes in which one register has the greater value. -/
structure Updated (hllData updated : List UInt8) (registerIndex newValue : Nat) : Prop where
  registers : decoded updated = (decoded hllData).set registerIndex
    (max newValue ((decoded hllData).getD registerIndex 0))
  readable : Readable updated
  length_le : updated.length ≤ hllData.length + 4

theorem updated_zeros {before middle after insertValue : List UInt8} {count unitIndex newValue : Nat}
    (readable : Readable (before ++ middle ++ after)) (zeros : ZeroRun middle count)
    (inside : unitIndex < count)
    (inserted : Between insertValue unitIndex newValue (count - unitIndex - 1))
    (short : insertValue.length ≤ middle.length + 4) :
    Updated (before ++ middle ++ after) (before ++ insertValue ++ after)
      ((decoded before).length + unitIndex) newValue := by
  obtain ⟨front, last⟩ := readable_append.mp readable
  have first := (readable_append.mp front).1
  have all : decoded (before ++ middle ++ after) =
      decoded before ++ List.replicate count 0 ++ decoded after := by
    rw [decoded_append, decoded_append, zeros.registers]
  have old : (decoded (before ++ middle ++ after)).getD ((decoded before).length + unitIndex) 0 =
      0 := by
    rw [all, List.append_assoc, List.getD_eq_getElem?_getD,
      List.getElem?_append_right (Nat.le_add_right _ _), Nat.add_sub_cancel_left,
      List.getElem?_append_left (by simpa using inside), List.getElem?_replicate_of_lt inside,
      Option.getD_some]
  refine ⟨?_, by simp [first, last, inserted.readable], ?_⟩
  · rw [old, Nat.max_zero, all, set_between _ _ _ (by simpa using inside), replicate_set inside,
      decoded_append, decoded_append, inserted.registers]
  · simp only [List.length_append]
    omega

theorem byteGetValue_le (byte : UInt8) : 0 < byteGetValue byte ∧ byteGetValue byte ≤ 64 := by
  rw [byteGetValue, and_63]
  omega

theorem zeroRun_of_longzero {byte : UInt8} (type : byteType byte = .sparseLongzero) :
    ZeroRun [byte] (byteGetValue byte * 64) := by
  refine ⟨?_, by simp [type]⟩
  rw [decoded_cons, decoded_nil, List.append_nil, byteRegisters, type]
  rfl

theorem zeroRun_of_zero {byte : UInt8} (type : byteType byte = .sparseZero) :
    ZeroRun [byte] (byteGetValue byte) := by
  refine ⟨?_, by simp [type]⟩
  rw [decoded_cons, decoded_nil, List.append_nil, byteRegisters, type]

theorem length_zeroBytes : (zeroBytes count).length ≤ 2 := by
  unfold zeroBytes
  split
  · split <;> simp
  · split <;> simp

section Update

variable {before after : List UInt8} {byte : UInt8} {unitIndex newValue : Nat}
  (positive : 0 < newValue) (small : newValue ≤ 64)

include positive small
variable (readable : Readable (before ++ byte :: after))
include readable

theorem hllUpdateSparseType1_spec (type : byteType byte = .sparseLongzero)
    (unit : unitIndex < byteGetValue byte * 64) :
    Updated (before ++ byte :: after)
      (hllUpdateSparseType1 (before ++ byte :: after) before.length unitIndex newValue)
      ((decoded before).length + unitIndex) newValue := by
  have units := byteGetValue_le byte
  have front := @zeroRun_zeroBytes unitIndex (by omega)
  have whole := zeroRun_of_longzero type
  have leftShort := length_zeroBytes unitIndex
  unfold hllUpdateSparseType1
  simp only [getD_split, hllLongzeroUnit]
  split
  · rename_i merged
    obtain ⟨more, laterType⟩ := merged
    cases after with
    | nil =>
      rw [List.length_append, List.length_singleton] at more
      omega
    | cons later after =>
      have same : (before ++ byte :: later :: after).getD (before.length + 1) 0 = later := by
        rw [List.append_cons]
        exact (congrArg (fun place => ((before ++ [byte]) ++ later :: after).getD place 0)
          (by simp)).trans (getD_split (before ++ [byte]) after later)
      rw [same] at laterType ⊢
      have laterUnits := byteGetValue_le later
      have back := @zeroRun_zeroBytes (byteGetValue byte * 64 - unitIndex - 1 + byteGetValue later)
        (by omega)
      have rightShort :=
        length_zeroBytes (byteGetValue byte * 64 - unitIndex - 1 + byteGetValue later)
      have split : before ++ byte :: later :: after = before ++ [byte, later] ++ after := by simp
      have inserted := between front back positive small
      have count : byteGetValue byte * 64 - unitIndex - 1 + byteGetValue later =
          byteGetValue byte * 64 + byteGetValue later - unitIndex - 1 := by omega
      rw [count] at inserted rightShort
      rw [hllUpdateValue_split_two, count]
      rw [split] at readable ⊢
      refine updated_zeros readable (whole.append (zeroRun_of_zero laterType)) (by omega) inserted ?_
      simp only [List.length_append, List.length_cons, List.length_nil]
      omega
  · have back := @zeroRun_zeroBytes (byteGetValue byte * 64 - unitIndex - 1) (by omega)
    have rightShort := length_zeroBytes (byteGetValue byte * 64 - unitIndex - 1)
    have inserted := between front back positive small
    rw [hllUpdateValue_split]
    rw [List.append_cons] at readable ⊢
    refine updated_zeros readable whole unit inserted ?_
    simp only [List.length_append, List.length_cons, List.length_nil]
    omega

theorem hllUpdateSparseType2_spec (type : byteType byte = .sparseZero)
    (unit : unitIndex < byteGetValue byte) :
    Updated (before ++ byte :: after)
      (hllUpdateSparseType2 (before ++ byte :: after) before.length unitIndex newValue)
      ((decoded before).length + unitIndex) newValue := by
  have units := byteGetValue_le byte
  have zero (count : Nat) (little : count < 64) :
      ZeroRun (if 0 < count then [hllSetSparseByte count 0] else []) count ∧
        (if 0 < count then [hllSetSparseByte count 0] else []).length ≤ 1 := by
    have byte : hllSetSparseByte count 0 = setZeroValue count :=
      (if_pos rfl).trans (if_neg (by rw [hllLongzeroUnit]; omega))
    rw [byte]
    refine ⟨zeroRun_short count little.le, ?_⟩
    split <;> simp
  obtain ⟨front, leftShort⟩ := zero unitIndex (by omega)
  obtain ⟨back, rightShort⟩ := zero (byteGetValue byte - unitIndex - 1) (by omega)
  have inserted := between front back positive small
  unfold hllUpdateSparseType2
  simp only [getD_split]
  rw [hllUpdateValue_split]
  rw [List.append_cons] at readable ⊢
  refine updated_zeros readable (zeroRun_of_zero type) unit inserted ?_
  simp only [List.length_append, List.length_cons, List.length_nil]
  omega

theorem hllUpdateSparseType3_spec (type : byteType byte = .denseValue) :
    Updated (before ++ byte :: after) (hllUpdateSparseType3 (before ++ byte :: after) before.length newValue)
      (decoded before).length newValue := by
  have registers : byteRegisters byte = [byteGetValue byte] := by rw [byteRegisters, type]
  have all : decoded (before ++ byte :: after) = decoded before ++ byteGetValue byte :: decoded after := by
    rw [decoded_append, decoded_cons, registers, List.singleton_append]
  have old : (decoded (before ++ byte :: after)).getD (decoded before).length 0 =
      byteGetValue byte := by
    rw [all]
    simp
  unfold hllUpdateSparseType3
  rw [getD_split]
  split
  · rename_i less
    refine ⟨?_, readable, Nat.le_add_right _ _⟩
    rw [old, Nat.max_eq_right less, all]
    simp
  · rename_i greater
    obtain ⟨newType, -, newRegisters⟩ := byteRegisters_dense positive small
    obtain ⟨first, -, last⟩ : Readable before ∧ byteType byte ≠ .sparseValue ∧ Readable after := by
      simpa using readable
    have set : (before ++ byte :: after).set before.length (setDenseValue newValue) =
        before ++ setDenseValue newValue :: after := by simp
    rw [set]
    refine ⟨?_, by simp [first, last, newType], by simp⟩
    rw [old, Nat.max_eq_left (not_le.mp greater).le, all, decoded_append, decoded_cons, newRegisters]
    simp

end Update

/-- A value goes into the register it is for, and no other register changes. -/
theorem hllUpdateSparseValue_spec {hllData : List UInt8} (readable : Readable hllData)
    {registerIndex byteIndex unitIndex newValue : Nat}
    (unit : UnitAt hllData registerIndex byteIndex unitIndex) (positive : 0 < newValue)
    (small : newValue ≤ 64) :
    ∃ updated, hllUpdateSparseValue hllData byteIndex unitIndex newValue = some updated ∧
      Updated hllData updated registerIndex newValue := by
  obtain ⟨before, byte, after, rfl, rfl, rfl, inside⟩ := unit
  unfold hllUpdateSparseValue
  rw [if_neg positive.ne', if_neg (by simp), getD_split]
  cases type : byteType byte with
  | sparseLongzero =>
    rw [byteRegisters, type] at inside
    exact ⟨_, rfl, hllUpdateSparseType1_spec positive small readable type
      (by simpa [hllLongzeroUnit] using inside)⟩
  | sparseZero =>
    rw [byteRegisters, type] at inside
    exact ⟨_, rfl, hllUpdateSparseType2_spec positive small readable type (by simpa using inside)⟩
  | denseValue =>
    rw [byteRegisters, type] at inside
    obtain rfl : unitIndex = 0 := by simpa using inside
    exact ⟨_, rfl, hllUpdateSparseType3_spec positive small readable type⟩
  | sparseValue =>
    have wellFormed : byteType byte ≠ .sparseValue := readable byte (by simp)
    exact absurd type wellFormed

end OpenGauss.Hll
