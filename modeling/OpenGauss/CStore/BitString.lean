import OpenGauss.CStore.RleCoder
import OpenGauss.Lib.BitStream

/-! The bit string of `XORCodec` in `time_series_compress.cpp`. -/

namespace OpenGauss.CStore

open Lib

/-- Of `numBits` only the three low bits are read. -/
structure BitString where
  numBits : Nat
  bitsStore : UInt8
  outbuf : List UInt8

namespace BitString

variable (written : BitString)

def flushBitString : BitString :=
  if written.numBits % 8 = 0 then
    { written with bitsStore := 0, outbuf := written.outbuf ++ [written.bitsStore] }
  else written

def flushLastBitString : BitString :=
  if written.numBits % 8 ≠ 0 then
    { written with bitsStore := 0, outbuf := written.outbuf ++ [written.bitsStore] }
  else written

def store (count : Nat) (ch : UInt8) : BitString :=
  { written with numBits := written.numBits + count, bitsStore := written.bitsStore + ch }

/-- The loop over whole bytes, and how many bits are left after it. -/
def addBytes (value bitsLeft : Nat) (written : BitString) : Nat × BitString :=
  if 8 ≤ bitsLeft then
    addBytes value (bitsLeft - 8)
      (written.store 8 (UInt8.ofNat (value >>> (bitsLeft - 8) &&& 0xFF))).flushBitString
  else (bitsLeft, written)
termination_by bitsLeft

def addValueToBitString (value bitsInValue : Nat) (written : BitString) : BitString :=
  let bitsAvailable :=
    if written.numBits &&& 0x7 ≠ 0 then 8 - (written.numBits &&& 0x7) else 0
  if bitsInValue ≤ bitsAvailable then
    (written.store bitsInValue (UInt8.ofNat (value <<< (bitsAvailable - bitsInValue)))).flushBitString
  else
    let written :=
      if 0 < bitsAvailable then
        (written.store bitsAvailable (UInt8.ofNat (value >>> (bitsInValue - bitsAvailable)))).flushBitString
      else written
    let (bitsLeft, written) := addBytes value (bitsInValue - bitsAvailable) written
    if bitsLeft ≠ 0 then
      written.store bitsLeft (UInt8.ofNat ((value &&& (1 <<< bitsLeft - 1)) <<< (8 - bitsLeft)))
    else written

/-- The bits written so far: those of the bytes in the buffer and the high ones of the stored
byte. -/
structure Holds (written : BitString) (content : List Bool) (top : Nat) : Prop where
  small : top < 2 ^ (written.numBits % 8)
  stored : written.bitsStore.toNat = top * 2 ^ (8 - written.numBits % 8)
  content : content = byteBits written.outbuf ++ bits (written.numBits % 8) top

def Wrote (content : List Bool) : Prop := ∃ top, written.Holds content top

theorem wrote_empty : (⟨0, 0, []⟩ : BitString).Wrote [] := ⟨0, by decide, rfl, rfl⟩

/-- Bits put into the stored byte, which is flushed when it is full. -/
theorem Wrote.store {written : BitString} {content : List Bool} (wrote : written.Wrote content)
    {count part : Nat} (pos : 0 < count) (room : written.numBits % 8 + count ≤ 8)
    (fits : part < 2 ^ count) :
    (written.store count (UInt8.ofNat (part * 2 ^ (8 - written.numBits % 8 - count)))).flushBitString.Wrote
        (content ++ bits count part) := by
  obtain ⟨top, small, stored, rfl⟩ := wrote
  obtain ⟨numBits, bitsStore, outbuf⟩ := written
  dsimp only [BitString.store] at *
  generalize position : numBits % 8 = used at *
  have joined : bits used top ++ bits count part = bits (used + count) (top * 2 ^ count + part) :=
    bits_join fits
  have bound : top * 2 ^ count + part < 2 ^ (used + count) := by
    rw [Nat.pow_add]
    calc top * 2 ^ count + part < (top + 1) * 2 ^ count := by rw [Nat.succ_mul]; omega
      _ ≤ 2 ^ used * 2 ^ count := Nat.mul_le_mul_right _ small
  have value : (bitsStore + UInt8.ofNat (part * 2 ^ (8 - used - count))).toNat =
      (top * 2 ^ count + part) * 2 ^ (8 - (used + count)) := by
    have whole : 2 ^ (8 - used) = 2 ^ count * 2 ^ (8 - (used + count)) := by
      rw [← Nat.pow_add]
      congr 1
      omega
    have inside : (top * 2 ^ count + part) * 2 ^ (8 - (used + count)) < 2 ^ 8 := by
      have top8 : 2 ^ (used + count) * 2 ^ (8 - (used + count)) = 2 ^ 8 := by
        rw [← Nat.pow_add]
        congr 1
        omega
      exact top8 ▸ Nat.mul_lt_mul_of_pos_right bound (Nat.two_pow_pos _)
    rw [UInt8.toNat_add, stored, UInt8.toNat_ofNat', Nat.add_mod_mod, Nat.sub_sub, whole,
      ← Nat.mul_assoc, ← Nat.add_mul, Nat.mod_eq_of_lt inside]
  unfold flushBitString
  dsimp only
  by_cases full : used + count = 8
  · have aligned : (numBits + count) % 8 = 0 := by omega
    rw [if_pos aligned]
    refine ⟨0, ?_, ?_, ?_⟩
    · exact Nat.two_pow_pos _
    · rw [Nat.zero_mul]; rfl
    · rw [aligned, bits_zero, List.append_nil, byteBits_append, List.append_assoc, joined,
        byteBits_cons, byteBits_nil, List.append_nil, value, full, Nat.sub_self, Nat.pow_zero,
        Nat.mul_one]
  · have next : (numBits + count) % 8 = used + count := by omega
    rw [if_neg (by omega)]
    refine ⟨top * 2 ^ count + part, ?_, ?_, ?_⟩
    · rwa [next]
    · rw [next, value]
    · rw [next, List.append_assoc, joined]

@[simp] theorem flushBitString_numBits :
    written.flushBitString.numBits = written.numBits := by
  unfold flushBitString
  split <;> rfl

@[simp] theorem store_numBits (count : Nat) (ch : UInt8) :
    (written.store count ch).numBits = written.numBits + count := rfl

theorem addBytes_left (value bitsLeft : Nat) (written : BitString) :
    (addBytes value bitsLeft written).1 = bitsLeft % 8 := by
  fun_induction addBytes value bitsLeft written with
  | case1 bitsLeft written whole ih =>
    rw [ih]
    omega
  | case2 bitsLeft written short =>
    rw [Nat.mod_eq_of_lt]
    omega

section

variable {value bitsLeft : Nat} {written : BitString} {content : List Bool}
  (wrote : written.Wrote content) (aligned : written.numBits % 8 = 0)

include wrote aligned

theorem Wrote.addBytes : (BitString.addBytes value bitsLeft written).2.numBits % 8 = 0 ∧
      (BitString.addBytes value bitsLeft written).2.Wrote
        (content ++ bits (bitsLeft / 8 * 8) (value >>> (bitsLeft % 8))) := by
  fun_induction BitString.addBytes value bitsLeft written generalizing content with
  | case1 bitsLeft written whole ih =>
    have part : value >>> (bitsLeft - 8) &&& 0xFF = value >>> (bitsLeft - 8) % 2 ^ 8 :=
      Nat.and_two_pow_sub_one_eq_mod _ 8
    have byte := wrote.store (by decide) (by rw [aligned])
      (Nat.mod_lt (value >>> (bitsLeft - 8)) (Nat.two_pow_pos 8))
    rw [aligned, Nat.sub_zero, Nat.sub_self, Nat.pow_zero, Nat.mul_one, ← part] at byte
    have later := ih byte (by simp [aligned])
    have rest : (bitsLeft - 8) % 8 = bitsLeft % 8 := by omega
    have above : value >>> (bitsLeft % 8) >>> ((bitsLeft - 8) / 8 * 8) = value >>> (bitsLeft - 8) := by
      rw [← Nat.shiftRight_add]
      congr 1
      omega
    have count : bitsLeft / 8 * 8 = 8 + (bitsLeft - 8) / 8 * 8 := by omega
    rw [part, bits_mod _ le_rfl, rest, List.append_assoc] at later
    rw [part, count, bits_append, above]
    exact later
  | case2 bitsLeft written short =>
    rw [Nat.div_eq_of_lt (by omega), Nat.zero_mul, bits_zero, List.append_nil]
    exact ⟨aligned, wrote⟩

/-- Whole bytes and the bits left after them, from a byte boundary on. -/
theorem Wrote.addAligned : (if (BitString.addBytes value bitsLeft written).1 ≠ 0 then
      (BitString.addBytes value bitsLeft written).2.store (BitString.addBytes value bitsLeft written).1
        (UInt8.ofNat ((value &&& (1 <<< (BitString.addBytes value bitsLeft written).1 - 1)) <<<
          (8 - (BitString.addBytes value bitsLeft written).1)))
    else (BitString.addBytes value bitsLeft written).2).Wrote (content ++ bits bitsLeft value) := by
  obtain ⟨boundary, bytes⟩ := @Wrote.addBytes value bitsLeft written content wrote aligned
  rw [addBytes_left]
  generalize (BitString.addBytes value bitsLeft written).2 = whole at *
  have parts := bits_append (bitsLeft / 8 * 8) (bitsLeft % 8) value
  rw [Nat.mul_comm, Nat.div_add_mod] at parts
  rw [Nat.mul_comm] at bytes
  have short := Nat.mod_lt bitsLeft (show 0 < 8 by decide)
  generalize bitsLeft % 8 = left at *
  by_cases zero : left = 0
  · subst zero
    rw [bits_zero, List.append_nil] at parts
    rwa [if_neg (by simp), parts]
  · have last := bytes.store (Nat.pos_of_ne_zero zero) (by omega)
      (Nat.mod_lt value (Nat.two_pow_pos left))
    rw [boundary, Nat.sub_zero, flushBitString, if_neg (by rw [store_numBits]; omega),
      bits_mod _ le_rfl, List.append_assoc, ← parts] at last
    rwa [if_pos zero, Nat.one_shiftLeft, Nat.and_two_pow_sub_one_eq_mod, Nat.shiftLeft_eq]

end

theorem Wrote.add {value bitsInValue : Nat} {written : BitString} {content : List Bool}
    (wrote : written.Wrote content) (pos : 0 < bitsInValue) (fits : value < 2 ^ bitsInValue) :
    (addValueToBitString value bitsInValue written).Wrote (content ++ bits bitsInValue value) := by
  have used : written.numBits &&& 0x7 = written.numBits % 8 := Nat.and_two_pow_sub_one_eq_mod _ 3
  have small := Nat.mod_lt written.numBits (show 0 < 8 by decide)
  unfold addValueToBitString
  rw [used]
  by_cases aligned : written.numBits % 8 = 0
  · simp only [aligned, ne_eq, not_true_eq_false, if_false, Nat.sub_zero, lt_irrefl,
      if_neg (Nat.not_le.mpr pos)]
    exact wrote.addAligned aligned
  · simp only [ne_eq, aligned, not_false_eq_true, if_true]
    by_cases inside : bitsInValue ≤ 8 - written.numBits % 8
    · rw [if_pos inside, Nat.shiftLeft_eq]
      exact wrote.store pos (by omega) fits
    · have room : 0 < 8 - written.numBits % 8 := by omega
      rw [if_neg inside, if_pos room]
      generalize available : 8 - written.numBits % 8 = bitsAvailable at *
      have high : value >>> (bitsInValue - bitsAvailable) < 2 ^ bitsAvailable := by
        rw [Nat.shiftRight_eq_div_pow, Nat.div_lt_iff_lt_mul (Nat.two_pow_pos _), ← Nat.pow_add]
        rwa [Nat.add_sub_cancel' (by omega)]
      have front := wrote.store room (by omega) high
      rw [available, Nat.sub_self, Nat.pow_zero, Nat.mul_one] at front
      have boundary : (written.store bitsAvailable (UInt8.ofNat
          (value >>> (bitsInValue - bitsAvailable)))).flushBitString.numBits % 8 = 0 := by
        rw [flushBitString_numBits, store_numBits]
        omega
      have parts := bits_append bitsAvailable (bitsInValue - bitsAvailable) value
      rw [Nat.add_sub_cancel' (by omega)] at parts
      rw [parts, ← List.append_assoc]
      exact front.addAligned boundary

theorem Wrote.flushLast {written : BitString} {content : List Bool} (wrote : written.Wrote content) :
    ∃ padding, padding.length < 8 ∧ byteBits written.flushLastBitString.outbuf = content ++ padding := by
  obtain ⟨top, small, stored, rfl⟩ := wrote
  unfold flushLastBitString
  by_cases aligned : written.numBits % 8 = 0
  · refine ⟨[], by decide, ?_⟩
    rw [if_neg (by simpa using aligned), aligned, bits_zero, List.append_nil, List.append_nil]
  · have used := Nat.mod_lt written.numBits (show 0 < 8 by decide)
    have split := @bits_join (written.numBits % 8) _ top _ (Nat.two_pow_pos (8 - written.numBits % 8))
    rw [Nat.add_sub_cancel' used.le, Nat.add_zero, ← stored] at split
    refine ⟨bits (8 - written.numBits % 8) 0, ?_, ?_⟩
    · rw [length_bits]
      omega
    · rw [if_pos aligned, byteBits_append, byteBits_cons, byteBits_nil, List.append_nil, ← split,
        List.append_assoc]

end BitString

structure BitReader where
  bitPos : Nat
  bitsStore : UInt8
  inbuf : List UInt8

namespace BitReader

/-- The next byte; what lies behind the buffer is not modelled and reads as 0. -/
def nextByte (inbuf : List UInt8) : UInt8 × List UInt8 := (inbuf.headD 0, inbuf.tail)

/-- At the first bit, with the byte it is in. -/
def start (inbuf : List UInt8) : BitReader :=
  let (bitsStore, inbuf) := nextByte inbuf
  ⟨0, bitsStore, inbuf⟩

def bit (reader : BitReader) : Nat :=
  reader.bitsStore.toNat >>> (7 - (reader.bitPos &&& 0x7)) &&& 1

def advance (reader : BitReader) : BitReader :=
  if (reader.bitPos + 1) % 8 = 0 then
    let (bitsStore, inbuf) := nextByte reader.inbuf
    ⟨reader.bitPos + 1, bitsStore, inbuf⟩
  else { reader with bitPos := reader.bitPos + 1 }

/-- The loop over the bits, with the 64 bits of `value`. -/
def readBits : Nat → Nat → BitReader → Nat × BitReader
  | 0, value, reader => (value, reader)
  | bitsToRead + 1, value, reader =>
    readBits bitsToRead ((value <<< 1 + reader.bit) % 2 ^ 64) reader.advance

def readValueFromBitString (bitsToRead : Nat) (reader : BitReader) : Nat × BitReader :=
  readBits bitsToRead 0 reader

/-- The bits from the position on. -/
def ahead (reader : BitReader) : List Bool :=
  (bits 8 reader.bitsStore.toNat).drop (reader.bitPos % 8) ++ byteBits reader.inbuf

theorem ahead_start (byte : UInt8) (inbuf : List UInt8) :
    (start (byte :: inbuf)).ahead = byteBits (byte :: inbuf) := rfl

theorem ahead_eq (reader : BitReader) :
    ∃ first later, reader.bit = first.toNat ∧ reader.ahead = first :: later ∧
      later <+: reader.advance.ahead := by
  have inside := Nat.mod_lt reader.bitPos (show 0 < 8 by decide)
  have used : reader.bitPos &&& 0x7 = reader.bitPos % 8 := Nat.and_two_pow_sub_one_eq_mod _ 3
  refine ⟨reader.bitsStore.toNat.testBit (7 - reader.bitPos % 8),
    (bits 8 reader.bitsStore.toNat).drop (reader.bitPos % 8 + 1) ++ byteBits reader.inbuf,
    ?_, ?_, ?_⟩
  · rw [bit, used, Nat.and_one_is_mod, Nat.toNat_testBit, Nat.shiftRight_eq_div_pow]
  · rw [ahead, drop_bits inside, List.cons_append]
  · unfold advance
    split
    · rename_i full
      have last : reader.bitPos % 8 + 1 = 8 := by omega
      have consumed : (bits 8 reader.bitsStore.toNat).drop 8 = [] :=
        List.drop_eq_nil_of_le (length_bits _ _).le
      rw [last, consumed, List.nil_append, ahead]
      dsimp only
      rw [full, List.drop_zero]
      cases reader.inbuf with
      | nil => exact List.nil_prefix
      | cons byte rest => exact List.prefix_rfl
    · rename_i more
      have next : (reader.bitPos + 1) % 8 = reader.bitPos % 8 + 1 := by omega
      rw [ahead]
      dsimp only
      rw [next]

theorem readBits_ahead {content later : List Bool} {value : Nat} {reader : BitReader}
    (small : (value + 1) * 2 ^ content.length ≤ 2 ^ 64) (begins : content ++ later <+: reader.ahead) :
    ∃ next, readBits content.length value reader =
        (value * 2 ^ content.length + bitsNat content, next) ∧ later <+: next.ahead := by
  induction content generalizing value reader with
  | nil => exact ⟨reader, by simp [readBits, bitsNat], begins⟩
  | cons head content ih =>
    obtain ⟨first, rest, read, found, kept⟩ := reader.ahead_eq
    rw [found, List.cons_append, List.cons_prefix_cons] at begins
    obtain ⟨rfl, begins⟩ := begins
    have bit := head.toNat_lt
    rw [List.length_cons, Nat.pow_succ, Nat.mul_comm (2 ^ _) 2, ← Nat.mul_assoc] at small
    have room : (value * 2 + head.toNat + 1) * 2 ^ content.length ≤ 2 ^ 64 :=
      (Nat.mul_le_mul_right _ (by omega)).trans small
    have fits : value * 2 + head.toNat < 2 ^ 64 :=
      Nat.lt_of_succ_le ((Nat.le_mul_of_pos_right _ (Nat.two_pow_pos _)).trans room)
    obtain ⟨next, done, later⟩ := ih room (begins.trans kept)
    refine ⟨next, ?_, later⟩
    rw [List.length_cons, readBits, read, Nat.shiftLeft_eq, Nat.pow_one, Nat.mod_eq_of_lt fits,
      done, bitsNat]
    congr 1
    ring

theorem readValueFromBitString_ahead {count value : Nat} {later : List Bool} {reader : BitReader}
    (narrow : count ≤ 64) (fits : value < 2 ^ count)
    (begins : bits count value ++ later <+: reader.ahead) :
    ∃ next, readValueFromBitString count reader = (value, next) ∧ later <+: next.ahead := by
  have room : (0 + 1) * 2 ^ (bits count value).length ≤ 2 ^ 64 := by
    rw [length_bits, Nat.zero_add, Nat.one_mul]
    exact Nat.pow_le_pow_right (by decide) narrow
  obtain ⟨next, done, later⟩ := readBits_ahead room begins
  rw [length_bits, Nat.zero_mul, Nat.zero_add, bitsNat_bits fits] at done
  exact ⟨next, done, later⟩

end BitReader

end OpenGauss.CStore
