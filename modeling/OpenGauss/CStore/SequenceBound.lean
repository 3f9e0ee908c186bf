import OpenGauss.CStore.CUData
import OpenGauss.CStore.Delta2Codec
import OpenGauss.CStore.XORCodec

/-! The output buffer of `SequenceCodec` has one byte more than a value for each value, and eight
more. A double that opens a new window may take 76 bits. -/

namespace OpenGauss.CStore

open Lib

def delta2Codec : ValueCodec where
  compress size source := if positive : 0 < size then Delta2Codec.compress size positive source else []
  decompress size packed _ :=
    if positive : 0 < size then Delta2Codec.decompress size positive packed else []

def xorCodec : ValueCodec where
  compress size source := if positive : 0 < size then XORCodec.compress size positive source else []
  decompress size packed outsize := XORCodec.decompress size packed outsize

def sequenceCodecs : SequenceCodecs := ⟨delta2Codec, xorCodec⟩

namespace XORCodec

def Window.cost (window : Window) (difference : Nat) : Nat :=
  if difference = 0 then 1
  else if window.Keeps difference then 2 + window.size
  else 13 + (around difference).size

/-- What neighbouring words differ by, the first from `previous`. -/
def differences (previous : Nat) : List Nat → List Nat
  | [] => []
  | value :: values => (previous ^^^ value) :: differences value values

/-- What each difference takes in bits, from a window on. -/
def costs (window : Window) : List Nat → List Nat
  | [] => []
  | difference :: differences =>
    window.cost difference :: costs (window.next difference) differences

theorem Window.length_token (window : Window) (difference : Nat) :
    (window.token difference).length = window.cost difference := by
  unfold token cost
  split
  · rfl
  · split
    · rw [List.length_append, length_bits]
      rfl
    · simp only [List.length_append, length_bits]
      rfl

theorem length_encoded (window : Window) (previous : Nat) (values : List Nat) :
    (encoded window previous values).length = (costs window (differences previous values)).sum := by
  induction values generalizing window previous with
  | nil => rfl
  | cons value values ih =>
    rw [encoded, List.length_append, Window.length_token, ih, differences, costs, List.sum_cons]

/-- The bytes hold the bits, and no whole byte more. -/
theorem length_compress_le_iff {dataSize : Nat} (positive : 0 < dataSize) (narrow : dataSize ≤ 8)
    {values : List Nat} (nonempty : values ≠ []) (fits : ∀ word ∈ values, word < 256 ^ dataSize)
    (room : Nat) :
    (compress dataSize positive (leWords dataSize values)).length ≤ room ↔
      (costs ⟨0, 0⟩ (differences 0 values)).sum ≤ 8 * room := by
  obtain ⟨padding, short, written⟩ := compress_bits positive narrow nonempty fits
  have lengths := congrArg List.length written
  rw [length_byteBits, List.length_append, length_encoded] at lengths
  omega

/-- The bits a value has in the output buffer. -/
def share (dataSize : Nat) : Nat := 8 * (dataSize + 1)

def width (difference : Nat) : Nat := (Window.around difference).size

/-- The window of all differences of words of this size. -/
def fullWindow (dataSize : Nat) : Window := ⟨min kMaxLeadingZerosLength (64 - 8 * dataSize), 0⟩

/-- So narrow that the full window costs more than a new one. -/
def Narrow (dataSize difference : Nat) : Prop :=
  difference ≠ 0 ∧ width difference + 11 ≤ (fullWindow dataSize).size

instance (dataSize difference : Nat) : Decidable (Narrow dataSize difference) :=
  inferInstanceAs (Decidable (_ ∧ _))

/-- Differences between the last narrow one and the next that fills the full window are exposed: the
window in use need not hold them. -/
def exposedAfter (dataSize : Nat) (exposed : Bool) (difference : Nat) : Bool :=
  if Narrow dataSize difference then true
  else exposed && width difference != (fullWindow dataSize).size

/-- The bits by which new windows around the exposed differences exceed their shares. -/
def excess (dataSize : Nat) (exposed : Bool) : List Nat → Nat
  | [] => 0
  | difference :: differences =>
    (if exposed then 13 + width difference - share dataSize else 0) +
      excess dataSize (exposedAfter dataSize exposed difference) differences

theorem length_differences (previous : Nat) (values : List Nat) :
    (differences previous values).length = values.length := by
  induction values generalizing previous with
  | nil => rfl
  | cons value values ih => exact congrArg (· + 1) (ih value)

variable {dataSize difference : Nat} {exposed : Bool} {window : Window}

theorem differences_lt {previous : Nat} {values : List Nat} (before : previous < 256 ^ dataSize)
    (fits : ∀ word ∈ values, word < 256 ^ dataSize) :
    ∀ difference ∈ differences previous values, difference < 256 ^ dataSize := by
  induction values generalizing previous with
  | nil => exact fun _ held => absurd held List.not_mem_nil
  | cons value values ih =>
    obtain ⟨first, others⟩ := List.forall_mem_cons.mp fits
    refine List.forall_mem_cons.mpr ⟨?_, ih first others⟩
    rw [show 256 = 2 ^ 8 by rfl, ← Nat.pow_mul] at before first ⊢
    exact Nat.xor_lt_two_pow before first

theorem leading_fullWindow_le (nonzero : difference ≠ 0) (fits : difference < 256 ^ dataSize) :
    (fullWindow dataSize).leading ≤ (Window.around difference).leading := by
  have high : difference.log2 < 8 * dataSize := by
    rwa [Nat.log2_lt nonzero, Nat.pow_mul]
  change min 31 (64 - 8 * dataSize) ≤ min 31 (63 - difference.log2)
  omega

theorem size_fullWindow (whole : dataSize = 4 ∨ dataSize = 8) :
    0 < (fullWindow dataSize).size ∧ (fullWindow dataSize).size + 2 ≤ share dataSize ∧
      ((fullWindow dataSize).size + 11 ≤ 64 ∨ fullWindow dataSize = ⟨0, 0⟩) := by
  rcases whole with rfl | rfl
  · exact ⟨by decide, by decide, Or.inl (by decide)⟩
  · exact ⟨by decide, by decide, Or.inr rfl⟩

/-- Only what begins and ends with the full window is as wide. -/
theorem around_eq_fullWindow (whole : dataSize = 4 ∨ dataSize = 8) (fits : difference < 256 ^ dataSize)
    (wide : width difference = (fullWindow dataSize).size) :
    Window.around difference = fullWindow dataSize := by
  obtain ⟨positive, -⟩ := size_fullWindow whole
  rw [← wide] at positive
  have nonzero : difference ≠ 0 := by
    rintro rfl
    exact absurd positive (by decide)
  have leading := leading_fullWindow_le nonzero fits
  change 64 - countTrailingZeros difference - (Window.around difference).leading =
    64 - 0 - (fullWindow dataSize).leading at wide
  change 0 < 64 - countTrailingZeros difference - (Window.around difference).leading at positive
  have trailing : countTrailingZeros difference = 0 := by omega
  have same : (Window.around difference).leading = (fullWindow dataSize).leading := by omega
  change (⟨(Window.around difference).leading, countTrailingZeros difference⟩ : Window) = _
  rw [trailing, same]
  rfl

theorem keeps_fullWindow_iff (nonzero : difference ≠ 0) (fits : difference < 256 ^ dataSize) :
    (fullWindow dataSize).Keeps difference ↔ (fullWindow dataSize).size < 11 + width difference :=
  ⟨fun keeps => keeps.2.2, fun wide => ⟨leading_fullWindow_le nonzero fits, Nat.zero_le _, wide⟩⟩

theorem width_le_of_keeps (keeps : window.Keeps difference) : width difference ≤ window.size := by
  obtain ⟨leading, trailing, -⟩ := keeps
  unfold width Window.size
  omega

theorem width_le (fits : difference < 256 ^ dataSize) : width difference ≤ (fullWindow dataSize).size := by
  by_cases zero : difference = 0
  · rw [zero]
    exact Nat.zero_le _
  · have leading := leading_fullWindow_le zero fits
    change 64 - _ - (Window.around difference).leading ≤ 64 - 0 - (fullWindow dataSize).leading
    omega

theorem cost_le (window : Window) (difference : Nat) : window.cost difference ≤ 13 + width difference := by
  unfold Window.cost
  split
  · omega
  · split
    · rename_i keeps
      have kept : window.size < 11 + width difference := keeps.2.2
      omega
    · exact le_rfl

/-- The window in use: the initial one, or one for words of this size, and the full one where
differences are not exposed. -/
structure InUse (dataSize : Nat) (exposed : Bool) (window : Window) : Prop where
  leads : window = ⟨0, 0⟩ ∨ (fullWindow dataSize).leading ≤ window.leading
  full : exposed = false → window = fullWindow dataSize

theorem inUse_initial (whole : dataSize = 4 ∨ dataSize = 8) :
    InUse dataSize (dataSize == 4) ⟨0, 0⟩ := by
  refine ⟨Or.inl rfl, fun large => ?_⟩
  rcases whole with rfl | rfl
  · cases large
  · rfl

theorem exposedAfter_eq_false :
    exposedAfter dataSize exposed difference = false ↔ ¬ Narrow dataSize difference ∧
      (exposed = false ∨ width difference = (fullWindow dataSize).size) := by
  unfold exposedAfter
  split
  · rename_i narrow
    exact iff_of_false (by decide) fun both => both.1 narrow
  · rename_i other
    rw [Bool.and_eq_false_iff, bne_eq_false_iff_eq, and_iff_right other]

theorem InUse.next (whole : dataSize = 4 ∨ dataSize = 8) (inUse : InUse dataSize exposed window)
    (fits : difference < 256 ^ dataSize) :
    InUse dataSize (exposedAfter dataSize exposed difference) (window.next difference) := by
  unfold Window.next
  split
  · rename_i kept
    refine ⟨inUse.leads, fun hidden => ?_⟩
    obtain ⟨-, before | wide⟩ := exposedAfter_eq_false.mp hidden
    · exact inUse.full before
    · have around := around_eq_fullWindow whole fits wide
      obtain ⟨positive, -, initial⟩ := size_fullWindow whole
      obtain rfl | ⟨leading, trailing, size⟩ := kept
      · exact absurd (wide.trans_gt positive) (by decide)
      · rw [around] at leading trailing size
        rcases inUse.leads with rfl | leads
        · rcases initial with small | same
          · change 64 < _ at size
            omega
          · exact same.symm
        · obtain ⟨_, _⟩ := window
          exact congrArg₂ Window.mk (le_antisymm leading leads) (Nat.eq_zero_of_le_zero trailing)
  · rename_i changed
    obtain ⟨nonzero, other⟩ := not_or.mp changed
    refine ⟨Or.inr (leading_fullWindow_le nonzero fits), fun hidden => ?_⟩
    obtain ⟨broad, before | wide⟩ := exposedAfter_eq_false.mp hidden
    · rw [inUse.full before, keeps_fullWindow_iff nonzero fits] at other
      exact absurd ⟨nonzero, by omega⟩ broad
    · exact around_eq_fullWindow whole fits wide

/-- What is not exposed keeps within its share. -/
theorem InUse.cost_le (whole : dataSize = 4 ∨ dataSize = 8) (inUse : InUse dataSize exposed window)
    (fits : difference < 256 ^ dataSize) :
    window.cost difference ≤
      share dataSize + if exposed then 13 + width difference - share dataSize else 0 := by
  cases exposed with
  | true =>
    have most := XORCodec.cost_le window difference
    rw [if_pos rfl]
    omega
  | false =>
    obtain ⟨positive, room, -⟩ := size_fullWindow whole
    rw [inUse.full rfl, if_neg (by decide)]
    unfold Window.cost
    split
    · omega
    · rename_i nonzero
      split
      · omega
      · rename_i other
        rw [keeps_fullWindow_iff nonzero fits] at other
        change 13 + width difference ≤ _
        omega

theorem sum_costs_le (whole : dataSize = 4 ∨ dataSize = 8) {differences : List Nat}
    (inUse : InUse dataSize exposed window)
    (fits : ∀ difference ∈ differences, difference < 256 ^ dataSize) :
    (costs window differences).sum ≤
      differences.length * share dataSize + excess dataSize exposed differences := by
  induction differences generalizing exposed window with
  | nil => exact Nat.zero_le _
  | cons difference differences ih =>
    obtain ⟨first, others⟩ := List.forall_mem_cons.mp fits
    have cost := inUse.cost_le whole first
    have later := ih (inUse.next whole first) others
    rw [costs, List.sum_cons, excess, List.length_cons, Nat.succ_mul]
    omega

/-- The window that exposed differences meet, while no word has taken more than its share. -/
def Small (dataSize : Nat) (exposed : Bool) (window : Window) : Prop :=
  exposed = true → 13 + window.size ≤ share dataSize ∨ window = ⟨0, 0⟩ ∧ dataSize = 4

theorem InUse.small_next (inUse : InUse dataSize exposed window) (small : Small dataSize exposed window)
    (fits : difference < 256 ^ dataSize) (within : window.cost difference ≤ share dataSize) :
    Small dataSize (exposedAfter dataSize exposed difference) (window.next difference) := by
  unfold Window.next Window.cost at *
  split
  · rename_i kept
    intro exposes
    by_cases before : exposed = true
    · exact small before
    · have hidden := Bool.eq_false_of_not_eq_true before
      have narrow : Narrow dataSize difference := by
        by_contra broad
        rw [exposedAfter_eq_false.mpr ⟨broad, Or.inl hidden⟩] at exposes
        cases exposes
      have keeps := kept.resolve_left narrow.1
      rw [inUse.full hidden, keeps_fullWindow_iff narrow.1 fits] at keeps
      have most := narrow.2
      omega
  · rename_i changed
    obtain ⟨nonzero, other⟩ := not_or.mp changed
    rw [if_neg nonzero, if_neg other] at within
    exact fun _ => Or.inl within

theorem Small.excess_eq_zero (whole : dataSize = 4 ∨ dataSize = 8) (small : Small dataSize exposed window)
    (fits : difference < 256 ^ dataSize) (within : window.cost difference ≤ share dataSize) :
    (if exposed then 13 + width difference - share dataSize else 0) = 0 := by
  split
  · rename_i exposes
    unfold Window.cost at within
    split at within
    · rename_i zero
      subst zero
      rcases whole with rfl | rfl <;> decide
    · split at within
      · rename_i keeps
        have narrower := width_le_of_keeps keeps
        rcases small exposes with less | ⟨rfl, rfl⟩
        · omega
        · have most := width_le fits
          have wide : 64 < 11 + width difference := keeps.2.2
          have full : (fullWindow 4).size = 33 := by decide
          omega
      · exact Nat.sub_eq_zero_of_le within
  · rfl

/-- Where the exposed differences exceed their shares, some word takes more than its own. -/
theorem exists_share_lt (whole : dataSize = 4 ∨ dataSize = 8) {differences : List Nat}
    (inUse : InUse dataSize exposed window) (small : Small dataSize exposed window)
    (fits : ∀ difference ∈ differences, difference < 256 ^ dataSize)
    (exceeds : 0 < excess dataSize exposed differences) :
    ∃ bits ∈ costs window differences, share dataSize < bits := by
  induction differences generalizing exposed window with
  | nil => cases exceeds
  | cons difference differences ih =>
    obtain ⟨first, others⟩ := List.forall_mem_cons.mp fits
    rw [costs]
    by_cases within : window.cost difference ≤ share dataSize
    · have kept := small.excess_eq_zero whole first within
      rw [excess, kept, Nat.zero_add] at exceeds
      obtain ⟨bits, held, more⟩ := ih (inUse.next whole first)
        (inUse.small_next small first within) others exceeds
      exact ⟨bits, List.mem_cons_of_mem _ held, more⟩
    · exact ⟨_, List.mem_cons_self, Nat.lt_of_not_le within⟩

end XORCodec

namespace Delta2Codec

theorem length_writeValue_le (value : BitVec 64) : (writeValue value).length ≤ 9 := by
  by_cases zero : value = 0
  · rw [writeValue, if_pos zero]
    decide
  · rcases writeValue_cases zero with whole | ⟨bytes, _, few, ⟨_, _, written⟩ | ⟨_, _, written⟩⟩
    · rw [whole, List.length_cons, length_leBytes]
    · rw [written, List.length_cons, length_leBytes]
      omega
    · rw [written, List.length_cons, length_leBytes]
      omega

theorem length_appendValue_le {dataSize : Nat} (narrow : dataSize ≤ 8) (count : Nat)
    (preData preDelta value : BitVec 64) :
    (appendValue dataSize count preData preDelta value).1.length ≤ 9 := by
  unfold appendValue
  split
  · rw [writeData, length_leBytes]
    omega
  · split <;> exact length_writeValue_le _

theorem length_appendValues_le {dataSize : Nat} (positive : 0 < dataSize) (narrow : dataSize ≤ 8)
    {value : Nat} {values : List Nat} (fits : ∀ word ∈ value :: values, word < 256 ^ dataSize)
    (count : Nat) (preData preDelta : BitVec 64) :
    (appendValues dataSize positive count preData preDelta
      (leWords dataSize (value :: values))).length ≤ 9 * (values.length + 1) := by
  induction values generalizing value count preData preDelta with
  | nil =>
    have first := fits value List.mem_cons_self
    rw [leWords_cons, appendValues, RleCoder.readData_leBytes first]
    dsimp only
    rw [if_neg (by rw [leWords_nil, List.length_nil]; omega)]
    exact length_appendValue_le narrow _ _ _ _
  | cons next values ih =>
    obtain ⟨first, others⟩ := List.forall_mem_cons.mp fits
    have written := length_appendValue_le narrow count preData preDelta (BitVec.ofNat 64 value)
    rw [leWords_cons, appendValues, RleCoder.readData_leBytes first]
    dsimp only
    rw [if_pos (by simp), List.length_append, List.length_cons]
    have later := ih others (count + 1) (BitVec.ofNat 64 value)
      (appendValue dataSize count preData preDelta (BitVec.ofNat 64 value)).2
    omega

end Delta2Codec

namespace SequenceCodec

variable (codec : SequenceCodec)

/-- What `BufferHelperMalloc` makes of `(in.sz / value_size) * (value_size + 1)`. -/
def outputBuffer (insize : Nat) : Nat :=
  insize / codec.valueSize.1 * (codec.valueSize.1 + 1) + 8

/-- The types that are coded this way, with the width of their values. -/
def Sized : Prop :=
  (attIsTimestamp codec.dataType ∧ codec.valueSize.1.1 = 8) ∨
    (attIsFloat codec.dataType ∧ (codec.valueSize.1.1 = 4 ∨ codec.valueSize.1.1 = 8))

def words (source : List UInt8) : List Nat :=
  readWords codec.valueSize.1 (source.length / codec.valueSize.1) source

theorem words_leWords {values : List Nat}
    (fits : ∀ word ∈ values, word < 256 ^ codec.valueSize.1.1) :
    codec.words (leWords codec.valueSize.1 values) = values := by
  have back := readWords_leWords fits []
  rw [List.append_nil] at back
  rw [words, length_leWords, Nat.mul_div_cancel _ codec.valueSize.1.2.1]
  exact back

theorem not_timestamp_of_float {atttypid : Oid} (float : attIsFloat atttypid) :
    ¬ attIsTimestamp atttypid := by
  rw [attIsFloat, Bool.or_eq_true, beq_iff_eq, beq_iff_eq] at float
  rcases float with rfl | rfl <;> decide

theorem length_outputBuffer (count : Nat) :
    codec.outputBuffer (count * codec.valueSize.1) = count * (codec.valueSize.1 + 1) + 8 := by
  rw [outputBuffer, Nat.mul_div_cancel _ codec.valueSize.1.2.1]

/-- Differences of differences fit; for exclusive or it is a matter of the bits. -/
theorem length_pack_le_iff {codec : SequenceCodec} (sized : codec.Sized) {values : List Nat}
    (nonempty : values ≠ []) (fits : ∀ word ∈ values, word < 256 ^ codec.valueSize.1.1) :
    (codec.pack sequenceCodecs (leWords codec.valueSize.1 values)).length ≤
        codec.outputBuffer (values.length * codec.valueSize.1) ↔
      attIsTimestamp codec.dataType ∨
        (XORCodec.costs ⟨0, 0⟩ (XORCodec.differences 0 values)).sum ≤
          8 * codec.outputBuffer (values.length * codec.valueSize.1) := by
  have positive : 0 < codec.valueSize.1.1 := codec.valueSize.1.2.1
  unfold pack
  by_cases timestamp : attIsTimestamp codec.dataType
  · rw [if_pos timestamp]
    refine iff_of_true ?_ (Or.inl timestamp)
    have width : codec.valueSize.1.1 = 8 := by
      rcases sized with ⟨_, width⟩ | ⟨float, _⟩
      · exact width
      · exact absurd timestamp (not_timestamp_of_float float)
    obtain ⟨value, rest, rfl⟩ := List.exists_cons_of_ne_nil nonempty
    have written := Delta2Codec.length_appendValues_le positive width.le fits 0 0 0
    simp only [sequenceCodecs, delta2Codec, dif_pos positive, Delta2Codec.compress]
    have share : codec.valueSize.1.1 + 1 = 9 := congrArg (· + 1) width
    rw [length_outputBuffer, List.length_cons, share]
    omega
  · rcases sized with ⟨stamped, _⟩ | ⟨float, width⟩
    · exact absurd stamped timestamp
    · rw [if_neg timestamp, if_pos float, or_iff_right timestamp]
      simp only [sequenceCodecs, xorCodec, dif_pos positive]
      exact XORCodec.length_compress_le_iff positive (by omega) nonempty fits _

/-- The differences of the words of the input, the first word as it is. -/
def differences (codec : SequenceCodec) (source : List UInt8) : List Nat :=
  XORCodec.differences 0 (codec.words source)

/-- Timestamps, and floats with few wide differences behind narrow ones. -/
def Roomy (source : List UInt8) : Prop :=
  attIsTimestamp codec.dataType ∨
    XORCodec.excess codec.valueSize.1 (codec.valueSize.1.1 == 4) (codec.differences source) ≤ 64

instance (codec : SequenceCodec) (source : List UInt8) : Decidable (codec.Roomy source) :=
  inferInstanceAs (Decidable (_ ∨ _))

/-- What is written fits into the buffer if the wide differences behind narrow ones exceed their
shares by no more than its last 8 bytes; otherwise some word takes more than its share. -/
theorem length_pack_le_outputBuffer (codec : SequenceCodec) (sized : codec.Sized)
    (source : List UInt8) (nonempty : source ≠ []) (whole : codec.valueSize.1.1 ∣ source.length) :
    (codec.Roomy source → (codec.pack sequenceCodecs source).length ≤ codec.outputBuffer source.length) ∧
      (¬ codec.Roomy source → ∃ bits ∈ XORCodec.costs ⟨0, 0⟩ (codec.differences source),
        XORCodec.share codec.valueSize.1 < bits) := by
  obtain ⟨count, length⟩ := whole
  obtain ⟨values, counted, fits, rfl⟩ := exists_leWords (length.trans (Nat.mul_comm _ _))
  have held : values ≠ [] := by
    rintro rfl
    exact nonempty rfl
  rw [Roomy, differences, codec.words_leWords fits, length_leWords, length_pack_le_iff sized held fits,
    length_outputBuffer]
  by_cases timestamp : attIsTimestamp codec.dataType
  · exact ⟨fun _ => Or.inl timestamp, fun other => absurd (Or.inl timestamp) other⟩
  · have size : codec.valueSize.1.1 = 4 ∨ codec.valueSize.1.1 = 8 := by
      rcases sized with ⟨stamped, _⟩ | ⟨_, width⟩
      · exact absurd stamped timestamp
      · exact width
    have inUse := XORCodec.inUse_initial size
    have bounded := XORCodec.differences_lt (Nat.pow_pos (by decide)) fits
    rw [or_iff_right timestamp, or_iff_right timestamp]
    refine ⟨fun few => ?_, fun many => ?_⟩
    · have most := XORCodec.sum_costs_le size inUse bounded
      rw [XORCodec.length_differences, XORCodec.share] at most
      have spare : 8 * (values.length * (codec.valueSize.1.1 + 1) + 8) =
          values.length * (8 * (codec.valueSize.1.1 + 1)) + 64 := by ring
      omega
    · refine XORCodec.exists_share_lt size inUse (fun exposes => Or.inr ⟨rfl, ?_⟩) bounded (by omega)
      exact beq_iff_eq.mp exposes

def sampleCodec : SequenceCodec := ⟨int64Size, float8Oid⟩

/-- Doubles whose differences alternate between 63 bits that end at the second lowest and 63 that
begin at the second highest, after one of 53 bits. -/
def alternatingDoubles : List Nat :=
  (List.replicate 5 [0x10000000000001, 0x8010000000000003, 0xC010000000000002,
    0x4010000000000000]).flatten.take 19

/-- A narrow difference and two wide ones behind it. -/
theorem length_pack_le_outputBuffer_sample :
    sampleCodec.Roomy (leWords 8 (alternatingDoubles.take 3)) ∧
      (sampleCodec.pack sequenceCodecs (leWords 8 (alternatingDoubles.take 3))).length ≤
        sampleCodec.outputBuffer (leWords 8 (alternatingDoubles.take 3)).length :=
  have sized : sampleCodec.Sized := Or.inr ⟨by decide, Or.inr rfl⟩
  have roomy : sampleCodec.Roomy (leWords 8 (alternatingDoubles.take 3)) := by decide
  ⟨roomy, (length_pack_le_outputBuffer sampleCodec sized _ (by decide) ⟨3, rfl⟩).1 roomy⟩

/-- The 1434 bits of these 19 doubles take 180 bytes, one more than there is. -/
theorem pack_exceeds_outputBuffer :
    ¬ ∀ (codec : SequenceCodec) (source : List UInt8), codec.Sized → source ≠ [] →
      codec.valueSize.1.1 ∣ source.length →
        (codec.pack sequenceCodecs source).length ≤ codec.outputBuffer source.length := by
  intro all
  have fits : ∀ word ∈ alternatingDoubles, word < 256 ^ 8 := by decide
  have sized : sampleCodec.Sized := Or.inr ⟨by decide, Or.inr rfl⟩
  have written := all sampleCodec (leWords 8 alternatingDoubles) sized
    (by decide) ⟨19, by rw [length_leWords]; rfl⟩
  rw [length_leWords] at written
  rcases (length_pack_le_iff sized (by decide) fits).mp written with timestamp | few
  · exact absurd timestamp (by decide)
  · exact absurd few (by decide)

end SequenceCodec

end OpenGauss.CStore
