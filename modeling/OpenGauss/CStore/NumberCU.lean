import OpenGauss.CStore.DicCoder
import OpenGauss.CStore.NumberStrings

/-! A CU of number strings, `FormNumberStringCU` and `DeFormNumberStringCU`. All values come back
with a header of four bytes; those of a `char(n char)` column do not come back, because its type
mode carries a bit that is taken for a part of the length. -/

namespace OpenGauss.CStore

open Lib

/-- The bytes behind the header, `VARSIZE_ANY_EXHDR` of them from `VARDATA_ANY` on. -/
def vardataAny (datum : List UInt8) : List UInt8 :=
  let header := (datum.getD 0 0).toNat
  if header = 0x01 then (datum.drop 1).take (varsizeAny datum - 2)
  else if header &&& 0x01 = 0x01 then datum.drop 1
  else datum.drop varhdrsz

def varattIs4BU (datum : List UInt8) : Prop := (datum.getD 0 0).toNat &&& 0x03 = 0x00

instance (datum : List UInt8) : Decidable (varattIs4BU datum) :=
  inferInstanceAs (Decidable (_ = _))

/-- The nulls go to the bitmap; `none` where the values are not kept as integers. -/
def formNumberStringCU (bpcharType : Bool) (rows : List (Option Varlena)) : Option (List UInt8) :=
  formNumberString bpcharType (rows.reduceOption.map fun datum => vardataAny datum.bytes)

/-- The values behind the bitmap, one after the other. -/
def rowBytes (value : Varlena → List UInt8) (rows : List (Option Varlena)) : List UInt8 :=
  rows.flatMap fun row => row.elim [] value

theorem rowBytes_reduceOption (value : Varlena → List UInt8) (rows : List (Option Varlena)) :
    rows.reduceOption.flatMap value = rowBytes value rows := by
  induction rows with
  | nil => rfl
  | cons row rows ih =>
    cases row with
    | none => simpa [rowBytes, List.reduceOption] using ih
    | some datum => simpa [rowBytes, List.reduceOption] using ih

theorem varsizeAny_of_4BU {datum : List UInt8} (header : varattIs4BU datum) :
    varsizeAny datum = leNat (datum.take 4) / 4 ∧ leNat (datum.take 4) % 4 = 0 ∧
      vardataAny datum = datum.drop varhdrsz := by
  have low : (datum.getD 0 0).toNat % 4 = 0 :=
    (Nat.and_two_pow_sub_one_eq_mod _ 2).symm.trans header
  have short : (datum.take 4).length ≤ 4 := List.length_take_le 4 datum
  have bound : leNat (datum.take 4) < 2 ^ 32 :=
    (leNat_lt _).trans_le (Nat.pow_le_pow_right (by decide) short)
  have other : (datum.getD 0 0).toNat ≠ 1 := by omega
  have even : ¬ (datum.getD 0 0).toNat &&& 0x01 = 0x01 := by
    rw [Nat.and_one_is_mod]
    omega
  have size : leNat (datum.take 4) >>> 2 &&& 0x3FFFFFFF = leNat (datum.take 4) / 4 := by
    rw [Nat.and_two_pow_sub_one_eq_mod _ 30, Nat.shiftRight_eq_div_pow]
    exact Nat.mod_eq_of_lt (by omega)
  refine ⟨?_, ?_, ?_⟩
  · simp only [varsizeAny, if_neg other, if_neg even, size]
  · cases datum with
    | nil => rfl
    | cons byte rest =>
      rw [List.getD_cons_zero] at low
      rw [List.take_succ_cons, leNat]
      omega
  · simp only [vardataAny, if_neg other, if_neg even]

theorem four_le_length {datum : Varlena} (header : varattIs4BU datum.bytes) : 4 ≤ datum.bytes.length := by
  obtain ⟨bytes, positive, sized⟩ := datum
  by_contra short
  change ¬ 4 ≤ bytes.length at short
  have behind : varattIs4BU (bytes ++ [255, 255, 255]) := by
    cases bytes with
    | nil => cases positive
    | cons byte rest => exact header
  have size := (varsizeAny_of_4BU behind).1
  rw [sized] at size
  clear sized header behind
  match bytes, positive, short, size with
  | [a], _, _, size => simp [leNat] at size; omega
  | [a, b], _, _, size => simp [leNat] at size; omega
  | [a, b, c], _, _, size => simp [leNat] at size; omega
  | a :: b :: c :: d :: rest, _, short, _ => simp at short

/-- A value with an uncompressed header of four bytes is its data under that header. -/
theorem varlena4B_vardataAny {datum : Varlena} (header : varattIs4BU datum.bytes) :
    varlena4B (vardataAny datum.bytes) = datum.bytes := by
  obtain ⟨size, whole, data⟩ := varsizeAny_of_4BU header
  have long := four_le_length header
  have sized := datum.sized []
  rw [List.append_nil, size] at sized
  have length : (datum.bytes.take 4).length = 4 := by
    rw [List.length_take]
    omega
  have front := leBytes_leNat (datum.bytes.take 4)
  have value : (datum.bytes.length - varhdrsz + varhdrsz) * 4 = leNat (datum.bytes.take 4) := by
    rw [varhdrsz]
    omega
  rw [length] at front
  rw [varlena4B, data, List.length_drop, value, front]
  exact List.take_append_drop 4 datum.bytes

/-- Every value that was kept as an integer comes back with its data under a header of four bytes,
and as it was where it had such a header. -/
theorem deFormNumberString_formNumberStringCU (bpcharType : Bool) (typeMode : Nat)
    (rows : List (Option Varlena)) (packed : List UInt8) (few : rows.length < 2 ^ 31)
    (padded : bpcharType = true → ∀ datum, some datum ∈ rows →
      typeMode = (vardataAny datum.bytes).length + varhdrsz)
    (formed : formNumberStringCU bpcharType rows = some packed) :
    deFormNumberString bpcharType typeMode packed =
        rowBytes (fun datum => varlena4B (vardataAny datum.bytes)) rows ∧
      ∀ datum, some datum ∈ rows → varattIs4BU datum.bytes →
        varlena4B (vardataAny datum.bytes) = datum.bytes := by
  have fewer : (rows.reduceOption.map fun datum => vardataAny datum.bytes).length < 2 ^ 32 := by
    rw [List.length_map]
    have most := List.reduceOption_length_le rows
    omega
  have lengths : bpcharType = true → ∀ value ∈ rows.reduceOption.map (fun datum => vardataAny datum.bytes),
        typeMode = value.length + varhdrsz := by
    intro bpchar value held
    obtain ⟨datum, found, rfl⟩ := List.mem_map.mp held
    exact padded bpchar datum (List.reduceOption_mem_iff.mp found)
  refine ⟨?_, fun datum _ header => varlena4B_vardataAny header⟩
  rw [deFormNumberString_formNumberString fewer lengths formed, List.flatMap_map, ← rowBytes_reduceOption]

/-- The bit of a type whose length counts characters, as in `char(n char)`. -/
def charSemanticBit : Nat := 0x40000000

def maxAttrSize : Nat := 10 * 1024 * 1024

/-- The type mode of `char(length)`, or of `char(length char)`. -/
def anycharTypmodin (length : Nat) (charSemantic : Bool) : Option Nat :=
  if length < 1 then none
  else if maxAttrSize < length then none
  else some (varhdrsz + if charSemantic then length ||| charSemanticBit else length)

theorem anycharTypmodin_spec {length typeMode : Nat} {charSemantic : Bool}
    (declared : anycharTypmodin length charSemantic = some typeMode) :
    (charSemantic = false → typeMode = length + varhdrsz) ∧
      (charSemantic = true → length + varhdrsz < typeMode) := by
  unfold anycharTypmodin at declared
  split at declared
  · cases declared
  · split at declared
    · cases declared
    · rename_i fits
      obtain rfl := Option.some.inj declared
      refine ⟨fun bytes => ?_, fun chars => ?_⟩
      · rw [bytes, if_neg (by decide), Nat.add_comm]
      · have bit : charSemanticBit ≤ length ||| charSemanticBit := Nat.right_le_or
        rw [if_pos chars]
        rw [charSemanticBit] at bit ⊢
        rw [maxAttrSize] at fits
        omega

/-- No value is read with the bit in its length. -/
def Restorable (bpcharType charSemantic : Bool) (rows : List (Option Varlena)) : Prop :=
  bpcharType = true → charSemantic = true → rows.reduceOption = []

instance (bpcharType charSemantic : Bool) (rows : List (Option Varlena)) :
    Decidable (Restorable bpcharType charSemantic rows) :=
  inferInstanceAs (Decidable (_ → _ → _))

theorem length_bytes_le (datum : Varlena) :
    datum.bytes.length ≤ (varlena4B (vardataAny datum.bytes)).length := by
  have sized := datum.sized []
  rw [List.append_nil] at sized
  rw [varlena4B, List.length_append, length_leBytes]
  simp only [vardataAny]
  split_ifs with external short
  · rw [List.length_take, List.length_drop, sized]
    omega
  · rw [List.length_drop]
    omega
  · rw [List.length_drop, varhdrsz]
    omega

theorem varattIs4BU_varlena4B (data : List UInt8) : varattIs4BU (varlena4B data) := by
  rw [varattIs4BU, Nat.and_two_pow_sub_one_eq_mod _ 2, varlena4B, leBytes, List.cons_append,
    List.getD_cons_zero, UInt8.toNat_ofNat']
  omega

theorem length_flatMap_le {α : Type} {left right : α → List UInt8}
    (shorter : ∀ item, (right item).length ≤ (left item).length) (items : List α) :
    (items.flatMap right).length ≤ (items.flatMap left).length := by
  rw [List.length_flatMap, List.length_flatMap]
  exact List.sum_le_sum fun item _ => shorter item

/-- Pieces that are nowhere longer and make the same whole are the same pieces. -/
theorem eq_of_flatMap_eq {α : Type} {left right : α → List UInt8} {items : List α}
    (shorter : ∀ item, (right item).length ≤ (left item).length)
    (same : items.flatMap left = items.flatMap right) : ∀ item ∈ items, left item = right item := by
  induction items with
  | nil => exact fun _ held => nomatch held
  | cons item items ih =>
    have rest := length_flatMap_le shorter items
    have first := shorter item
    rw [List.flatMap_cons, List.flatMap_cons] at same
    have lengths := congrArg List.length same
    rw [List.length_append, List.length_append] at lengths
    obtain ⟨equal, others⟩ := List.append_inj same (by omega)
    exact List.forall_mem_cons.mpr ⟨equal, ih others⟩

theorem varlena4B_eq_iff {rows : List (Option Varlena)} :
    rowBytes (fun datum => varlena4B (vardataAny datum.bytes)) rows = rowBytes SelfSized.bytes rows ↔
      ∀ datum, some datum ∈ rows → varattIs4BU datum.bytes := by
  rw [← rowBytes_reduceOption, ← rowBytes_reduceOption]
  refine ⟨fun same datum held => ?_, fun headers => ?_⟩
  · have equal := eq_of_flatMap_eq length_bytes_le same datum (List.reduceOption_mem_iff.mpr held)
    rw [← equal]
    exact varattIs4BU_varlena4B _
  · refine List.flatMap_congr fun datum held => ?_
    exact varlena4B_vardataAny (headers datum (List.reduceOption_mem_iff.mp held))

theorem le_length_deFormValue (typeMode val : Nat) :
    typeMode ≤ (deFormValue true typeMode val).length := by
  rw [deFormValue, if_pos rfl, List.length_append, List.length_append, length_leBytes,
    List.length_replicate, varhdrsz]
  omega

/-- The bit of the type mode makes every value of a `char(n char)` column longer. -/
theorem length_deFormNumberString_charSemantic {length typeMode : Nat} {packed : List UInt8}
    {rows : List (Option Varlena)} (declared : anycharTypmodin length true = some typeMode)
    (few : rows.length < 2 ^ 31)
    (padded : ∀ datum, some datum ∈ rows → (vardataAny datum.bytes).length = length)
    (formed : formNumberStringCU true rows = some packed) (held : rows.reduceOption ≠ []) :
    (rowBytes (fun datum => varlena4B (vardataAny datum.bytes)) rows).length <
      (deFormNumberString true typeMode packed).length := by
  have fewer : (rows.reduceOption.map fun datum => vardataAny datum.bytes).length < 2 ^ 32 := by
    rw [List.length_map]
    have most := List.reduceOption_length_le rows
    omega
  have lengths (value) (among : value ∈ rows.reduceOption.map fun datum => vardataAny datum.bytes) :
      value.length = length := by
    obtain ⟨datum, found, rfl⟩ := List.mem_map.mp among
    exact padded datum (List.reduceOption_mem_iff.mp found)
  obtain ⟨data, count, -, read⟩ := deFormNumberString_integers fewer
    (fun _ value among => congrArg (· + varhdrsz) (lengths value among).symm) formed
  have wider := (anycharTypmodin_spec declared).2 rfl
  have original : (rowBytes (fun datum => varlena4B (vardataAny datum.bytes)) rows).length ≤
      rows.reduceOption.length * (length + varhdrsz) := by
    rw [← rowBytes_reduceOption, List.length_flatMap]
    refine (List.sum_le_card_nsmul _ (length + varhdrsz) fun size among => ?_).trans_eq ?_
    · obtain ⟨datum, found, rfl⟩ := List.mem_map.mp among
      rw [varlena4B, List.length_append, length_leBytes,
        padded datum (List.reduceOption_mem_iff.mp found), varhdrsz, Nat.add_comm]
    · rw [List.length_map, smul_eq_mul]
  have restored : rows.reduceOption.length * typeMode ≤
      (deFormNumberString true typeMode packed).length := by
    rw [read, List.length_flatMap, ← List.length_map (fun datum => vardataAny datum.bytes), ← count]
    refine (Eq.symm ?_).trans_le (List.card_nsmul_le_sum _ typeMode fun size among => ?_)
    · rw [List.length_map, smul_eq_mul]
    · obtain ⟨val, -, rfl⟩ := List.mem_map.mp among
      exact le_length_deFormValue typeMode val
  have pos := List.length_pos_of_ne_nil held
  have less := (Nat.mul_lt_mul_left pos).mpr wider
  omega

variable {bpcharType charSemantic : Bool} {length typeMode : Nat} {rows : List (Option Varlena)}
  {packed : List UInt8}

theorem deFormNumberString_of_restorable (restorable : Restorable bpcharType charSemantic rows)
    (few : rows.length < 2 ^ 31)
    (declared : bpcharType = true → anycharTypmodin length charSemantic = some typeMode)
    (padded : bpcharType = true → ∀ datum, some datum ∈ rows →
      (vardataAny datum.bytes).length = length)
    (formed : formNumberStringCU bpcharType rows = some packed) :
    deFormNumberString bpcharType typeMode packed =
      rowBytes (fun datum => varlena4B (vardataAny datum.bytes)) rows := by
  by_cases chars : bpcharType = true ∧ charSemantic = true
  · have empty := restorable chars.1 chars.2
    rw [formNumberStringCU, empty, List.map_nil] at formed
    have lengths : ∀ value ∈ ([] : List (List UInt8)), typeMode = value.length + varhdrsz :=
      fun _ held => absurd held List.not_mem_nil
    obtain ⟨data, count, -, read⟩ := deFormNumberString_integers (by decide) (fun _ => lengths) formed
    rw [read, List.eq_nil_of_length_eq_zero count, ← rowBytes_reduceOption, empty]
    rfl
  · refine (deFormNumberString_formNumberStringCU bpcharType typeMode rows packed few
      (fun bpchar datum held => ?_) formed).1
    have bytes : charSemantic = false := Bool.eq_false_iff.mpr fun set => chars ⟨bpchar, set⟩
    rw [padded bpchar datum held]
    exact (anycharTypmodin_spec (declared bpchar)).1 bytes

/-- The strings `107` and `742` of a `char(3)` column, one of them with a header of one byte. -/
def sampleLong : Varlena := ⟨[28, 0, 0, 0, 49, 48, 55], by decide, by simp [varsizeAny, leNat]⟩

def sampleShort : Varlena := ⟨[9, 55, 52, 50], by decide, by simp [varsizeAny]⟩

def samplePacked : List UInt8 := leBytes 8 2 ++ leWords 8 [107, 742] ++ leBytes 8 6

end OpenGauss.CStore
