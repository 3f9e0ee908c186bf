import OpenGauss.CStore.BitString
import OpenGauss.CStore.SequenceCodec

/-! Exclusive or of neighbouring words, `XORCodec` of `time_series_compress.cpp`. -/

namespace OpenGauss.CStore

open Lib

/-- `__builtin_clzll`, for a word that is not 0. -/
def countLeadingZeros (word : Nat) : Nat := 63 - word.log2

def trailingZerosWithin : Nat → Nat → Nat
  | 0, _ => 0
  | width + 1, word => if word % 2 = 1 then 0 else trailingZerosWithin width (word / 2) + 1

/-- `__builtin_ctzll`, for a word that is not 0. -/
def countTrailingZeros (word : Nat) : Nat := trailingZerosWithin 64 word

theorem lt_of_leadingZeros {word : Nat} (nonzero : word ≠ 0) (fits : word < 2 ^ 64) :
    word < 2 ^ (64 - countLeadingZeros word) ∧ countLeadingZeros word ≤ 63 := by
  have high : word.log2 < 64 := (Nat.log2_lt nonzero).mpr fits
  refine ⟨?_, Nat.sub_le _ _⟩
  have exponent : 64 - countLeadingZeros word = word.log2 + 1 := by
    rw [countLeadingZeros]
    omega
  rw [exponent]
  exact Nat.lt_log2_self

theorem trailingZerosWithin_dvd (width word : Nat) : 2 ^ trailingZerosWithin width word ∣ word := by
  fun_induction trailingZerosWithin width word with
  | case1 => exact one_dvd _
  | case2 => exact one_dvd _
  | case3 width word even ih =>
    have half : word = 2 * (word / 2) := by omega
    rw [Nat.pow_succ, Nat.mul_comm, half]
    exact Nat.mul_dvd_mul_left 2 (by rwa [Nat.mul_div_cancel_left _ (by decide)])

theorem trailingZeros_lt {word : Nat} (nonzero : word ≠ 0) (fits : word < 2 ^ 64) :
    countLeadingZeros word + countTrailingZeros word < 64 := by
  have most := Nat.le_of_dvd (Nat.pos_of_ne_zero nonzero) (trailingZerosWithin_dvd 64 word)
  have below := (Nat.pow_lt_pow_iff_right (by decide : 1 < 2)).mp
    (most.trans_lt (lt_of_leadingZeros nonzero fits).1)
  rw [countTrailingZeros]
  omega

namespace XORCodec

def kLeadingZerosLengthBits : Nat := 5

def kBlockSizeLengthBits : Nat := 6

def kMaxLeadingZerosLength : Nat := 1 <<< kLeadingZerosLengthBits - 1

def kBlockSizeAdjustment : Nat := 1

def floatSize : Nat := 64

end XORCodec

structure XORCodec extends BitString where
  previousValue : Nat
  previousValueLeadingZeros : Nat
  previousValueTrailingZeros : Nat

namespace XORCodec

def initial : XORCodec := ⟨⟨0, 0, []⟩, 0, 0, 0⟩

def addValueToBitString (value bitsInValue : Nat) (codec : XORCodec) : XORCodec :=
  { codec with toBitString := codec.toBitString.addValueToBitString value bitsInValue }

def appendValue (codec : XORCodec) (value : Nat) : XORCodec :=
  let xorWithPrevius := codec.previousValue ^^^ value
  if xorWithPrevius = 0 then codec.addValueToBitString 0 1
  else
    let codec := codec.addValueToBitString 1 1
    let leadingZeros :=
      if kMaxLeadingZerosLength < countLeadingZeros xorWithPrevius then kMaxLeadingZerosLength
      else countLeadingZeros xorWithPrevius
    let trailingZeros := countTrailingZeros xorWithPrevius
    let blockSize := floatSize - leadingZeros - trailingZeros
    let expectedSize := kLeadingZerosLengthBits + kBlockSizeLengthBits + blockSize
    let previousBlockInformationSize :=
      floatSize - codec.previousValueTrailingZeros - codec.previousValueLeadingZeros
    if codec.previousValueLeadingZeros ≤ leadingZeros ∧
        codec.previousValueTrailingZeros ≤ trailingZeros ∧
        previousBlockInformationSize < expectedSize then
      let codec := codec.addValueToBitString 1 1
      let blockValue := xorWithPrevius >>> codec.previousValueTrailingZeros
      let codec := codec.addValueToBitString blockValue previousBlockInformationSize
      { codec with previousValue := value }
    else
      let codec := codec.addValueToBitString 0 1
      let codec := codec.addValueToBitString leadingZeros kLeadingZerosLengthBits
      let codec := codec.addValueToBitString (blockSize - kBlockSizeAdjustment) kBlockSizeLengthBits
      let blockValue := xorWithPrevius >>> trailingZeros
      let codec := codec.addValueToBitString blockValue blockSize
      { codec with
        previousValueTrailingZeros := trailingZeros
        previousValueLeadingZeros := leadingZeros
        previousValue := value }

/-- The loop over the words, the first of which is always read. -/
def appendValues (dataSize : Nat) (positive : 0 < dataSize) (codec : XORCodec)
    (inbuf : List UInt8) : XORCodec :=
  let read := readData dataSize inbuf
  if dataSize ≤ read.2.length then
    appendValues dataSize positive (codec.appendValue read.1) read.2
  else codec.appendValue read.1
termination_by inbuf.length
decreasing_by
  simp only [read, readData, List.length_drop] at *
  omega

def compress (dataSize : Nat) (positive : 0 < dataSize) (inbuf : List UInt8) : List UInt8 :=
  (initial.appendValues dataSize positive inbuf).flushLastBitString.outbuf

end XORCodec

structure XORReader extends BitReader where
  previousValue : Nat
  previousLeadingZeros : Nat
  previousTrailingZeros : Nat

namespace XORReader

open XORCodec (floatSize kLeadingZerosLengthBits kBlockSizeLengthBits kBlockSizeAdjustment)

/-- The value, and the reader after it. The zeros of a window and its block are no more than
`floatSize` in what was compressed. -/
def readNextValue (reader : XORReader) : Nat × XORReader :=
  let (nonZeroValue, input) := reader.toBitReader.readValueFromBitString 1
  if nonZeroValue = 0 then (reader.previousValue, { reader with toBitReader := input })
  else
    let (usePreviousBlockInformation, input) := input.readValueFromBitString 1
    if usePreviousBlockInformation ≠ 0 then
      let (block, input) := input.readValueFromBitString
        (floatSize - reader.previousLeadingZeros - reader.previousTrailingZeros)
      let xorValue := block <<< reader.previousTrailingZeros % 2 ^ 64
      let value := xorValue ^^^ reader.previousValue
      (value, { reader with toBitReader := input, previousValue := value })
    else
      let (leadingZeros, input) := input.readValueFromBitString kLeadingZerosLengthBits
      let (lengthBits, input) := input.readValueFromBitString kBlockSizeLengthBits
      let blockSize := lengthBits + kBlockSizeAdjustment
      let trailingZeros := floatSize - blockSize - leadingZeros
      let (block, input) := input.readValueFromBitString blockSize
      let xorValue := block <<< trailingZeros % 2 ^ 64
      let value := xorValue ^^^ reader.previousValue
      (value, ⟨input, value, leadingZeros, trailingZeros⟩)

def readValues (dataSize : Nat) : Nat → XORReader → List UInt8
  | 0, _ => []
  | loopCount + 1, reader =>
    let (value, reader) := reader.readNextValue
    writeData dataSize value ++ readValues dataSize loopCount reader

end XORReader

def XORCodec.decompress (dataSize : Nat) (inbuf : List UInt8) (outsize : Nat) : List UInt8 :=
  XORReader.readValues dataSize (outsize / dataSize) ⟨BitReader.start inbuf, 0, 0, 0⟩

namespace XORCodec

/-- The bits of a difference that are written. -/
structure Window where
  leading : Nat
  trailing : Nat

namespace Window

variable (window : Window)

def size : Nat := 64 - window.trailing - window.leading

def around (difference : Nat) : Window :=
  ⟨min 31 (countLeadingZeros difference), countTrailingZeros difference⟩

/-- The difference is written in the window in use. -/
def Keeps (difference : Nat) : Prop :=
  window.leading ≤ (around difference).leading ∧
    window.trailing ≤ (around difference).trailing ∧ window.size < 11 + (around difference).size

instance (window : Window) (difference : Nat) : Decidable (window.Keeps difference) :=
  inferInstanceAs (Decidable (_ ∧ _ ∧ _))

def next (difference : Nat) : Window :=
  if difference = 0 ∨ window.Keeps difference then window else around difference

/-- How a difference is written. -/
def token (difference : Nat) : List Bool :=
  if difference = 0 then [false]
  else if window.Keeps difference then
    [true, true] ++ bits window.size (difference >>> window.trailing)
  else
    [true, false] ++ bits 5 (around difference).leading ++ bits 6 ((around difference).size - 1) ++
      bits (around difference).size (difference >>> (around difference).trailing)

def Valid : Prop := window.leading ≤ 31 ∧ window.leading + window.trailing < 64

theorem valid_zero : (⟨0, 0⟩ : Window).Valid := ⟨by decide, by decide⟩

variable {difference : Nat} {window : Window}

theorem valid_around (nonzero : difference ≠ 0) (fits : difference < 2 ^ 64) :
    (around difference).Valid := by
  have zeros := trailingZeros_lt nonzero fits
  refine ⟨min_le_left _ _, ?_⟩
  have fewer : (around difference).leading ≤ countLeadingZeros difference := min_le_right _ _
  change (around difference).leading + countTrailingZeros difference < 64
  omega

theorem valid_next (valid : window.Valid) (fits : difference < 2 ^ 64) : (window.next difference).Valid := by
  unfold next
  split
  · exact valid
  · rename_i other
    exact valid_around (fun zero => other (Or.inl zero)) fits

theorem Valid.size_pos (valid : window.Valid) : 0 < window.size ∧ window.size ≤ 64 := by
  obtain ⟨_, zeros⟩ := valid
  unfold size
  omega

/-- Inside the window there is all of the difference. -/
theorem block_eq (valid : window.Valid) (nonzero : difference ≠ 0) (fits : difference < 2 ^ 64)
    (leading : window.leading ≤ (around difference).leading)
    (trailing : window.trailing ≤ (around difference).trailing) :
    difference >>> window.trailing < 2 ^ window.size ∧
      (difference >>> window.trailing) <<< window.trailing % 2 ^ 64 = difference := by
  obtain ⟨high, _⟩ := lt_of_leadingZeros nonzero fits
  have fewer : (around difference).leading ≤ countLeadingZeros difference := min_le_right _ _
  have below : difference < 2 ^ (64 - window.leading) :=
    high.trans_le (Nat.pow_le_pow_right (by decide) (by omega))
  have whole : 2 ^ window.trailing ∣ difference :=
    (Nat.pow_dvd_pow 2 trailing).trans (trailingZerosWithin_dvd 64 difference)
  rw [Nat.shiftRight_eq_div_pow, Nat.shiftLeft_eq, Nat.div_mul_cancel whole, Nat.mod_eq_of_lt fits]
  refine ⟨?_, rfl⟩
  rw [Nat.div_lt_iff_lt_mul (Nat.two_pow_pos _), ← Nat.pow_add]
  have parts : window.size + window.trailing = 64 - window.leading := by
    obtain ⟨_, zeros⟩ := valid
    unfold size
    omega
  rwa [parts]

end Window

/-- How words are written, after the word and the window before them. -/
def encoded (window : Window) (previous : Nat) : List Nat → List Bool
  | [] => []
  | value :: values =>
    window.token (previous ^^^ value) ++ encoded (window.next (previous ^^^ value)) value values

def window (codec : XORCodec) : Window :=
  ⟨codec.previousValueLeadingZeros, codec.previousValueTrailingZeros⟩

theorem leadingZeros_eq (difference : Nat) :
    (if kMaxLeadingZerosLength < countLeadingZeros difference then kMaxLeadingZerosLength
      else countLeadingZeros difference) = (Window.around difference).leading := by
  change _ = min kMaxLeadingZerosLength (countLeadingZeros difference)
  split <;> omega

theorem blockSize_eq (difference : Nat) :
    floatSize - (Window.around difference).leading - countTrailingZeros difference =
      (Window.around difference).size :=
  Nat.sub_right_comm _ _ _

/-- A value is written as the token of its difference, and what is kept for the next one. -/
theorem appendValue_wrote {codec : XORCodec} {content : List Bool} {value : Nat}
    (wrote : codec.toBitString.Wrote content) (valid : codec.window.Valid)
    (fits : codec.previousValue ^^^ value < 2 ^ 64) :
    (codec.appendValue value).toBitString.Wrote
        (content ++ codec.window.token (codec.previousValue ^^^ value)) ∧
      (codec.appendValue value).window = codec.window.next (codec.previousValue ^^^ value) ∧
      (codec.appendValue value).previousValue = value := by
  unfold appendValue
  dsimp only
  rw [leadingZeros_eq, blockSize_eq]
  have equal : codec.previousValue ^^^ value = 0 ↔ codec.previousValue = value := Nat.xor_eq_zero_iff
  generalize codec.previousValue ^^^ value = difference at *
  unfold Window.token Window.next
  by_cases zero : difference = 0
  · rw [if_pos zero, if_pos zero, if_pos (Or.inl zero)]
    exact ⟨wrote.add (by decide) (by decide), rfl, equal.mp zero⟩
  · rw [if_neg zero, if_neg zero]
    have control : (codec.addValueToBitString 1 1).toBitString.Wrote (content ++ bits 1 1) :=
      wrote.add (by decide) (by decide)
    split
    · rename_i keeps
      have kept : codec.window.Keeps difference := keeps
      obtain ⟨block, _⟩ := Window.block_eq valid zero fits kept.1 kept.2.1
      have flagged := @BitString.Wrote.add 1 1 _ _ control (by decide) (by decide)
      have written := flagged.add valid.size_pos.1 block
      rw [if_pos kept, if_pos (Or.inr kept)]
      rw [List.append_assoc, List.append_assoc] at written
      exact ⟨written, rfl, rfl⟩
    · rename_i other
      have changed : ¬ codec.window.Keeps difference := other
      have around := Window.valid_around zero fits
      have sized := around.size_pos
      obtain ⟨block, _⟩ := Window.block_eq around zero fits le_rfl le_rfl
      have flagged := @BitString.Wrote.add 0 1 _ _ control (by decide) (by decide)
      have leading := @BitString.Wrote.add _ 5 _ _ flagged (by decide)
        (Nat.lt_of_le_of_lt around.1 (by decide))
      have size := @BitString.Wrote.add ((Window.around difference).size - 1) 6 _ _ leading
        (by decide) (by omega)
      have written := size.add sized.1 block
      rw [if_neg changed, if_neg (not_or.mpr ⟨zero, changed⟩)]
      rw [List.append_assoc, List.append_assoc, List.append_assoc, List.append_assoc] at written
      refine ⟨?_, rfl, rfl⟩
      rw [List.append_assoc, List.append_assoc]
      exact written

theorem xor_lt {value other : Nat} (first : value < 2 ^ 64) (second : other < 2 ^ 64) :
    value ^^^ other < 2 ^ 64 := Nat.xor_lt_two_pow first second

theorem appendValues_wrote {dataSize : Nat} {positive : 0 < dataSize} (narrow : dataSize ≤ 8)
    {codec : XORCodec} {content : List Bool} {value : Nat} {values : List Nat}
    (wrote : codec.toBitString.Wrote content) (valid : codec.window.Valid)
    (previous : codec.previousValue < 2 ^ 64)
    (fits : ∀ word ∈ value :: values, word < 256 ^ dataSize) :
    (codec.appendValues dataSize positive (leWords dataSize (value :: values))).toBitString.Wrote
        (content ++ encoded codec.window codec.previousValue (value :: values)) := by
  have width : 256 ^ dataSize ≤ 2 ^ 64 :=
    (Nat.pow_le_pow_right (by decide) narrow).trans (by decide)
  induction values generalizing codec content value with
  | nil =>
    have first := fits value List.mem_cons_self
    have below := xor_lt previous (first.trans_le width)
    rw [leWords_cons, appendValues, RleCoder.readData_leBytes first]
    dsimp only
    rw [if_neg (by rw [leWords_nil, List.length_nil]; omega), encoded, encoded, List.append_nil]
    exact (appendValue_wrote wrote valid below).1
  | cons next values ih =>
    obtain ⟨first, others⟩ := List.forall_mem_cons.mp fits
    have below := xor_lt previous (first.trans_le width)
    obtain ⟨written, window, kept⟩ := appendValue_wrote wrote valid below
    have later := ih written (window ▸ Window.valid_next valid below)
      (kept.trans_lt (first.trans_le width)) others
    rw [leWords_cons, appendValues, RleCoder.readData_leBytes first]
    dsimp only
    rw [if_pos (by simp), encoded, ← List.append_assoc]
    rwa [window, kept] at later

theorem xor_cancel (value other : Nat) : (other ^^^ value) ^^^ other = value := by
  rw [Nat.xor_comm, ← Nat.xor_assoc, Nat.xor_self, Nat.zero_xor]

end XORCodec

namespace XORReader

open XORCodec

def window (reader : XORReader) : Window :=
  ⟨reader.previousLeadingZeros, reader.previousTrailingZeros⟩

theorem readNextValue_token {reader : XORReader} {value : Nat} {later : List Bool}
    (valid : reader.window.Valid) (fits : reader.previousValue ^^^ value < 2 ^ 64)
    (begins : reader.window.token (reader.previousValue ^^^ value) ++ later <+: reader.ahead) :
    ∃ next : XORReader, reader.readNextValue = (value, next) ∧ later <+: next.ahead ∧
      next.window = reader.window.next (reader.previousValue ^^^ value) ∧
      next.previousValue = value := by
  have restored := xor_cancel value reader.previousValue
  have equal : reader.previousValue ^^^ value = 0 ↔ reader.previousValue = value := Nat.xor_eq_zero_iff
  generalize reader.previousValue ^^^ value = difference at *
  unfold Window.token at begins
  unfold readNextValue Window.next
  by_cases zero : difference = 0
  · rw [if_pos zero] at begins
    obtain ⟨input, read, rest⟩ := @BitReader.readValueFromBitString_ahead 1 0 _ _ (by decide)
      (by decide) begins
    rw [read, if_pos (Or.inl zero)]
    refine ⟨{ reader with toBitReader := input }, ?_, rest, rfl, equal.mp zero⟩
    dsimp only
    rw [if_pos rfl, equal.mp zero]
  · rw [if_neg zero] at begins
    by_cases kept : reader.window.Keeps difference
    · obtain ⟨below, block⟩ := Window.block_eq valid zero fits kept.1 kept.2.1
      rw [if_pos kept, List.append_assoc] at begins
      obtain ⟨input1, read1, begins⟩ := @BitReader.readValueFromBitString_ahead 1 1
        (bits 1 1 ++ (bits reader.window.size (difference >>> reader.window.trailing) ++ later)) _
        (by decide) (by decide) begins
      obtain ⟨input2, read2, begins⟩ := BitReader.readValueFromBitString_ahead (by decide)
        (by decide) begins
      obtain ⟨input3, read3, rest⟩ := BitReader.readValueFromBitString_ahead valid.size_pos.2 below begins
      have sized : floatSize - reader.previousLeadingZeros - reader.previousTrailingZeros =
          reader.window.size := Nat.sub_right_comm _ _ _
      have back : difference >>> reader.window.trailing <<< reader.previousTrailingZeros % 2 ^ 64 =
          difference := block
      rw [if_pos (Or.inr kept)]
      refine ⟨{ reader with toBitReader := input3, previousValue := value }, ?_, rest, rfl, rfl⟩
      simp only [read1, read2, sized, read3, back, restored]
      rfl
    · have around := Window.valid_around zero fits
      have sized := around.size_pos
      obtain ⟨below, block⟩ := Window.block_eq around zero fits le_rfl le_rfl
      rw [if_neg kept, List.append_assoc, List.append_assoc, List.append_assoc] at begins
      obtain ⟨input1, read1, begins⟩ := @BitReader.readValueFromBitString_ahead 1 1
        (bits 1 0 ++ (bits 5 (Window.around difference).leading ++
          (bits 6 ((Window.around difference).size - 1) ++ (bits (Window.around difference).size
              (difference >>> (Window.around difference).trailing) ++ later)))) _
        (by decide) (by decide) begins
      obtain ⟨input2, read2, begins⟩ := BitReader.readValueFromBitString_ahead (by decide)
        (by decide) begins
      obtain ⟨input3, read3, begins⟩ := BitReader.readValueFromBitString_ahead (by decide)
        (Nat.lt_of_le_of_lt around.1 (by decide)) begins
      obtain ⟨input4, read4, begins⟩ := BitReader.readValueFromBitString_ahead (by decide)
        (by omega) begins
      obtain ⟨input5, read5, rest⟩ := BitReader.readValueFromBitString_ahead sized.2 below begins
      have whole : (Window.around difference).size - 1 + kBlockSizeAdjustment =
          (Window.around difference).size := Nat.sub_add_cancel sized.1
      have trailing : floatSize - (Window.around difference).size -
          (Window.around difference).leading = (Window.around difference).trailing := by
        obtain ⟨_, zeros⟩ := around
        simp only [floatSize, Window.size]
        omega
      rw [if_neg (not_or.mpr ⟨zero, kept⟩)]
      refine ⟨⟨input5, value, (Window.around difference).leading,
        (Window.around difference).trailing⟩, ?_, rest, rfl, rfl⟩
      simp only [read1, read2, read3, read4, whole, read5, trailing, block, restored,
        kLeadingZerosLengthBits, kBlockSizeLengthBits]
      rfl

theorem readValues_encoded {dataSize : Nat} (narrow : dataSize ≤ 8) {reader : XORReader}
    {values : List Nat} {later : List Bool} (valid : reader.window.Valid)
    (previous : reader.previousValue < 2 ^ 64) (fits : ∀ word ∈ values, word < 256 ^ dataSize)
    (begins : encoded reader.window reader.previousValue values ++ later <+: reader.ahead) :
    readValues dataSize values.length reader = leWords dataSize values := by
  induction values generalizing reader with
  | nil => rfl
  | cons value values ih =>
    obtain ⟨first, others⟩ := List.forall_mem_cons.mp fits
    have wide : value < 2 ^ 64 := first.trans_le
      ((Nat.pow_le_pow_right (by decide) narrow).trans (by decide))
    have below := xor_lt previous wide
    rw [encoded, List.append_assoc] at begins
    obtain ⟨next, read, rest, window, kept⟩ := readNextValue_token valid below begins
    rw [← window, ← kept] at rest
    have more := ih (window ▸ Window.valid_next valid below) (kept.trans_lt wide) others rest
    rw [List.length_cons, readValues, read, leWords_cons, ← more]
    rfl

end XORReader

namespace XORCodec

/-- The bytes written are the bits of the words, filled up. -/
theorem compress_bits {dataSize : Nat} (positive : 0 < dataSize) (narrow : dataSize ≤ 8)
    {values : List Nat} (nonempty : values ≠ []) (fits : ∀ word ∈ values, word < 256 ^ dataSize) :
    ∃ padding, padding.length < 8 ∧ byteBits (compress dataSize positive (leWords dataSize values)) =
      encoded ⟨0, 0⟩ 0 values ++ padding := by
  obtain ⟨value, rest, rfl⟩ := List.exists_cons_of_ne_nil nonempty
  have written := @appendValues_wrote dataSize positive narrow initial [] value rest
    BitString.wrote_empty Window.valid_zero (Nat.two_pow_pos 64) fits
  exact written.flushLast

theorem encoded_ne_nil (window : Window) (previous : Nat) {values : List Nat}
    (nonempty : values ≠ []) : encoded window previous values ≠ [] := by
  obtain ⟨value, rest, rfl⟩ := List.exists_cons_of_ne_nil nonempty
  rw [encoded, Window.token]
  split
  · simp
  · split <;> simp

/-- Decompression restores the words, whatever lies behind the compressed bytes. -/
theorem decompress_compress {dataSize : Nat} (positive : 0 < dataSize) (narrow : dataSize ≤ 8)
    {source : List UInt8} (nonempty : source ≠ []) (whole : dataSize ∣ source.length)
    (behind : List UInt8) :
    decompress dataSize (compress dataSize positive source ++ behind) source.length = source := by
  obtain ⟨count, length⟩ := whole
  obtain ⟨values, counted, fits, rfl⟩ := exists_leWords (length.trans (Nat.mul_comm _ _))
  have filled : values ≠ [] := by
    rintro rfl
    exact nonempty rfl
  obtain ⟨padding, _, written⟩ := compress_bits positive narrow filled fits
  have loops : (leWords dataSize values).length / dataSize = values.length := by
    rw [length_leWords, Nat.mul_div_cancel _ positive]
  rw [decompress, loops]
  generalize compress dataSize positive (leWords dataSize values) = packed at written ⊢
  cases packed with
  | nil =>
    rw [byteBits_nil, eq_comm, List.append_eq_nil_iff] at written
    exact absurd written.1 (encoded_ne_nil _ _ filled)
  | cons byte packed =>
    have begins : encoded ⟨0, 0⟩ 0 values ++ (padding ++ byteBits behind) <+:
        (BitReader.start (byte :: (packed ++ behind))).ahead := by
      rw [BitReader.ahead_start, ← List.cons_append, byteBits_append, written, List.append_assoc]
    exact XORReader.readValues_encoded narrow Window.valid_zero (Nat.two_pow_pos 64) fits begins

theorem decompress_compress_words (dataSize : Nat) (size : dataSize = 4 ∨ dataSize = 8)
    (positive : 0 < dataSize) (source : List UInt8) (nonempty : source ≠ [])
    (whole : dataSize ∣ source.length) :
    decompress dataSize (compress dataSize positive source) source.length = source := by
  have restored := decompress_compress positive (by omega) nonempty whole []
  rwa [List.append_nil] at restored

theorem decompress_compress_words_sample :
    decompress 4 (compress 4 (by decide) [0, 0, 128, 63, 0, 0, 128, 63, 255, 255, 255, 255]) 12 =
      [0, 0, 128, 63, 0, 0, 128, 63, 255, 255, 255, 255] :=
  decompress_compress_words 4 (Or.inl rfl) (by decide) _ (by decide) ⟨3, rfl⟩

end XORCodec

end OpenGauss.CStore
