import OpenGauss.Lib.LittleEndian

/-! Strings of digits kept as integers, `cstore_insert.cpp` and `cu.cpp`. A string is given by its
bytes behind the header. -/

namespace OpenGauss.CStore

open Lib

def varhdrsz : Nat := 4

def maxLenCharToBigint : Nat := 19

def blank : UInt8 := 32

def isDigit (byte : UInt8) : Bool := 48 ≤ byte && byte ≤ 57

def scanDigits (bpcharType : Bool) : Nat → List UInt8 → Option (List UInt8)
  | _, [] => some []
  | count, byte :: rest =>
    if isDigit byte then
      if bpcharType && maxLenCharToBigint ≤ count then none
      else (scanDigits bpcharType (count + 1) rest).map (byte :: ·)
    else if bpcharType && (byte :: rest).all (· == blank) then some []
    else none

/-- The digits of a value, `none` where it is kept as a string. -/
def numberDigits (bpcharType : Bool) : List UInt8 → Option (List UInt8)
  | [] => none
  | first :: rest =>
    if !bpcharType && maxLenCharToBigint < (first :: rest).length then none
    else if isDigit first && first != 48 then
      (scanDigits bpcharType 1 rest).map (first :: ·)
    else none

def digitValues (str : List UInt8) : List Nat := str.reverse.map fun byte => byte.toNat - 48

def strToUint64 (str : List UInt8) : Option Nat :=
  let value := Nat.ofDigits 10 (digitValues str)
  if str = [] ∨ 2 ^ 64 ≤ value then none else some value

def uint64ToStr (val : Nat) : List UInt8 :=
  ((Nat.digits 10 val).map fun digit => UInt8.ofNat (48 + digit)).reverse

/-- The count, the integers and the total length of the strings, 8 bytes each; `none` where some
value is no number. -/
def formNumberString (bpcharType : Bool) (values : List (List UInt8)) : Option (List UInt8) := do
  let digits ← values.mapM (numberDigits bpcharType)
  let data ← digits.mapM strToUint64
  let totalLen := (values.map List.length).sum % 2 ^ 32
  some (leBytes 8 values.length ++ leWords 8 data ++ leBytes 8 totalLen)

/-- A value with a header of four bytes, as `SET_VARSIZE` writes it. -/
def varlena4B (data : List UInt8) : List UInt8 :=
  leBytes 4 ((data.length + varhdrsz) * 4) ++ data

/-- A value of type `bpchar` has the length of its type mode. -/
def deFormValue (bpcharType : Bool) (typeMode : Nat) (integer : Nat) : List UInt8 :=
  let str := uint64ToStr integer
  if bpcharType then
    leBytes 4 (typeMode * 4) ++ (str ++ List.replicate (typeMode - varhdrsz - str.length) blank)
  else leBytes 4 ((str.length + varhdrsz) * 4) ++ str

/-- The total length at the end only tells how much memory to take. -/
def deFormNumberString (bpcharType : Bool) (typeMode : Nat) (srcData : List UInt8) : List UInt8 :=
  let dataCount := leNat (srcData.take 8) % 2 ^ 32
  (readWords 8 dataCount (srcData.drop 8)).flatMap (deFormValue bpcharType typeMode)

/-- What the scan of a value leaves: digits, and blanks behind them for type `bpchar`. -/
structure Scanned (bpcharType : Bool) (value digits : List UInt8) : Prop where
  digit : ∀ byte ∈ digits, isDigit byte
  blanks : value = digits ++ List.replicate (value.length - digits.length) blank
  exact : bpcharType = false → digits = value

variable {bpcharType : Bool} {value digits : List UInt8} {str : List UInt8} {typeMode : Nat}
  {values : List (List UInt8)} {packed : List UInt8}

theorem scanDigits_spec {count : Nat} (scanned : scanDigits bpcharType count value = some digits) :
    Scanned bpcharType value digits := by
  induction value generalizing count digits with
  | nil =>
    obtain rfl := Option.some.inj scanned
    exact ⟨by simp, rfl, fun _ => rfl⟩
  | cons byte rest ih =>
    unfold scanDigits at scanned
    split at scanned
    · rename_i digit
      split at scanned
      · cases scanned
      · obtain ⟨others, scannedRest, rfl⟩ := Option.map_eq_some_iff.mp scanned
        obtain ⟨digits, blanks, exact'⟩ := ih scannedRest
        refine ⟨List.forall_mem_cons.mpr ⟨digit, digits⟩, ?_, fun plain => ?_⟩
        · rw [List.cons_append, List.length_cons, List.length_cons, Nat.add_sub_add_right, ← blanks]
        · rw [exact' plain]
    · split at scanned
      · rename_i ended
        obtain ⟨padded, all⟩ := Bool.and_eq_true_iff.mp ended
        obtain rfl := Option.some.inj scanned
        refine ⟨by simp, ?_, fun plain => ?_⟩
        · rw [List.nil_append, List.length_nil, Nat.sub_zero]
          exact List.eq_replicate_length.mpr (by simpa using all)
        · rw [padded] at plain
          cases plain
      · cases scanned

theorem numberDigits_spec (found : numberDigits bpcharType value = some digits) :
    Scanned bpcharType value digits ∧ ∃ first rest, digits = first :: rest ∧ first ≠ 48 := by
  cases value with
  | nil => cases found
  | cons first rest =>
    rw [numberDigits] at found
    split at found
    · cases found
    · split at found
      · rename_i leading
        obtain ⟨digit, nonzero⟩ := Bool.and_eq_true_iff.mp leading
        obtain ⟨others, scanned, rfl⟩ := Option.map_eq_some_iff.mp found
        obtain ⟨digits, blanks, exact'⟩ := scanDigits_spec scanned
        refine ⟨⟨List.forall_mem_cons.mpr ⟨digit, digits⟩, ?_, fun plain => ?_⟩, first, others,
          rfl, by simpa using nonzero⟩
        · rw [List.cons_append, List.length_cons, List.length_cons, Nat.add_sub_add_right, ← blanks]
        · rw [exact' plain]
      · cases found

theorem isDigit_range {byte : UInt8} (digit : isDigit byte) : 48 ≤ byte.toNat ∧ byte.toNat ≤ 57 := by
  obtain ⟨low, high⟩ := Bool.and_eq_true_iff.mp digit
  have lowNat := UInt8.le_iff_toNat_le.mp (of_decide_eq_true low)
  have highNat := UInt8.le_iff_toNat_le.mp (of_decide_eq_true high)
  exact ⟨lowNat, highNat⟩

theorem map_digitValues (digits : ∀ byte ∈ str, isDigit byte) :
    ((digitValues str).map fun digit => UInt8.ofNat (48 + digit)).reverse = str := by
  rw [digitValues, List.map_map, ← List.map_reverse, List.reverse_reverse]
  refine (List.map_congr_left fun byte member => ?_).trans (List.map_id str)
  have range := isDigit_range (digits byte member)
  apply UInt8.toNat_inj.mp
  rw [Function.comp_apply, UInt8.toNat_ofNat', id_eq]
  omega

/-- Digits without a leading zero come back from their number. -/
theorem uint64ToStr_strToUint64 {val : Nat} (digits : ∀ byte ∈ str, isDigit byte)
    (leading : ∃ first rest, str = first :: rest ∧ first ≠ 48)
      (converted : strToUint64 str = some val) : uint64ToStr val = str ∧ val < 2 ^ 64 := by
  obtain ⟨first, rest, rfl, nonzero⟩ := leading
  unfold strToUint64 at converted
  dsimp only at converted
  split at converted
  · cases converted
  · rename_i fits
    obtain rfl := Option.some.inj converted
    refine ⟨?_, by omega⟩
    have small : ∀ digit ∈ digitValues (first :: rest), digit < 10 := by
      intro digit member
      obtain ⟨byte, held, rfl⟩ := List.mem_map.mp member
      have range := isDigit_range (digits byte (List.mem_reverse.mp held))
      omega
    have last (nonempty : digitValues (first :: rest) ≠ []) :
        (digitValues (first :: rest)).getLast nonempty ≠ 0 := by
      have range := isDigit_range (digits first List.mem_cons_self)
      have distinct : first.toNat ≠ 48 := fun same => nonzero (UInt8.toNat_inj.mp same)
      simp only [digitValues, List.reverse_cons, List.map_append, List.map_cons, List.map_nil,
        List.getLast_append_singleton]
      omega
    rw [uint64ToStr, Nat.digits_ofDigits 10 (by decide) _ small last]
    exact map_digitValues digits

/-- A value that was kept as an integer comes back with its blanks. -/
theorem deFormValue_strToUint64 {typeMode val : Nat} (found : numberDigits bpcharType value = some digits)
    (converted : strToUint64 digits = some val)
    (padded : bpcharType = true → typeMode = value.length + varhdrsz) :
    deFormValue bpcharType typeMode val = varlena4B value ∧ val < 2 ^ 64 := by
  obtain ⟨scanned, leading⟩ := numberDigits_spec found
  obtain ⟨back, fits⟩ := uint64ToStr_strToUint64 scanned.digit leading converted
  refine ⟨?_, fits⟩
  rw [deFormValue, back, varlena4B]
  cases bpcharType with
  | true =>
    have length := padded rfl
    have behind : typeMode - varhdrsz = value.length := by omega
    rw [if_pos rfl, behind, ← scanned.blanks, length]
  | false =>
    rw [if_neg (by decide), scanned.exact rfl]

theorem deFormValues {values digits : List (List UInt8)} {data : List Nat}
    (found : values.mapM (numberDigits bpcharType) = some digits)
    (converted : digits.mapM strToUint64 = some data)
    (padded : bpcharType = true → ∀ value ∈ values, typeMode = value.length + varhdrsz) :
    data.flatMap (deFormValue bpcharType typeMode) = values.flatMap varlena4B ∧
      data.length = values.length ∧ ∀ val ∈ data, val < 256 ^ 8 := by
  induction values generalizing digits data with
  | nil =>
    obtain rfl : digits = [] := by simpa using found.symm
    obtain rfl : data = [] := by simpa using converted.symm
    exact ⟨rfl, rfl, by simp⟩
  | cons value values ih =>
    simp only [List.mapM_cons, Option.bind_eq_bind, Option.bind_eq_some_iff, Option.pure_def,
      Option.some.injEq] at found
    obtain ⟨first, foundFirst, others, foundOthers, rfl⟩ := found
    simp only [List.mapM_cons, Option.bind_eq_bind, Option.bind_eq_some_iff, Option.pure_def,
      Option.some.injEq] at converted
    obtain ⟨val, convertedFirst, vals, convertedOthers, rfl⟩ := converted
    obtain ⟨back, fits⟩ := deFormValue_strToUint64 foundFirst convertedFirst
      (fun bpchar => padded bpchar value List.mem_cons_self)
    obtain ⟨backs, count, small⟩ := ih foundOthers convertedOthers
      (fun bpchar value held => padded bpchar value (List.mem_cons_of_mem _ held))
    refine ⟨?_, by rw [List.length_cons, List.length_cons, count], ?_⟩
    · rw [List.flatMap_cons, List.flatMap_cons, back, backs]
    · exact List.forall_mem_cons.mpr ⟨by norm_num at fits ⊢; omega, small⟩

/-- The integers a CU keeps, whatever type mode they are read with. -/
theorem deFormNumberString_integers (few : values.length < 2 ^ 32)
    (padded : bpcharType = true → ∀ value ∈ values, typeMode = value.length + varhdrsz)
    (formed : formNumberString bpcharType values = some packed) :
    ∃ data : List Nat, data.length = values.length ∧
      data.flatMap (deFormValue bpcharType typeMode) = values.flatMap varlena4B ∧
        ∀ readMode, deFormNumberString bpcharType readMode packed =
          data.flatMap (deFormValue bpcharType readMode) := by
  simp only [formNumberString, Option.bind_eq_bind, Option.bind_eq_some_iff, Option.some.injEq] at formed
  obtain ⟨digits, found, data, converted, rfl⟩ := formed
  obtain ⟨back, count, fits⟩ := deFormValues found converted padded
  refine ⟨data, count, back, fun readMode => ?_⟩
  have length := length_leBytes 8 values.length
  have stored : leNat (leBytes 8 values.length) = values.length := leNat_leBytes (by norm_num; omega)
  have read := readWords_leWords fits (leBytes 8 ((values.map List.length).sum % 2 ^ 32))
  rw [deFormNumberString, List.append_assoc, List.take_left' length, List.drop_left' length, stored,
    Nat.mod_eq_of_lt few, ← count, read]

/-- Strings kept as integers come back, each with a header of four bytes. -/
theorem deFormNumberString_formNumberString (few : values.length < 2 ^ 32)
    (padded : bpcharType = true → ∀ value ∈ values, typeMode = value.length + varhdrsz)
    (formed : formNumberString bpcharType values = some packed) :
    deFormNumberString bpcharType typeMode packed = values.flatMap varlena4B := by
  obtain ⟨data, -, back, read⟩ := deFormNumberString_integers few padded formed
  rw [read, back]

theorem length_formNumberString (formed : formNumberString bpcharType values = some packed) :
    8 ∣ packed.length ∧ packed ≠ [] := by
  simp only [formNumberString, Option.bind_eq_bind, Option.bind_eq_some_iff, Option.some.injEq] at formed
  obtain ⟨digits, found, data, converted, rfl⟩ := formed
  have length : (leBytes 8 values.length ++ leWords 8 data ++
      leBytes 8 ((values.map List.length).sum % 2 ^ 32)).length = 8 * (data.length + 2) := by
    simp only [List.length_append, length_leBytes, length_leWords]
    omega
  refine ⟨⟨_, length⟩, fun empty => ?_⟩
  rw [empty, List.length_nil] at length
  omega

end OpenGauss.CStore
