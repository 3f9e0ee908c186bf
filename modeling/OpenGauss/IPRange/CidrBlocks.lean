import OpenGauss.IPRange.Operators

namespace OpenGauss.IPRange

open IPV6

/-- The addresses that agree with the given one but for their `free` lowest bits. -/
def block (ip : IPV6) (free : Nat) : Set IPV6 :=
  {other | other.number / 2 ^ free = ip.number / 2 ^ free}

theorem div_eq_div_iff_between {number other free : Nat} : other / 2 ^ free = number / 2 ^ free ↔
      number / 2 ^ free * 2 ^ free ≤ other ∧ other ≤ number / 2 ^ free * 2 ^ free + (2 ^ free - 1) := by
  have positive : 0 < 2 ^ free := Nat.two_pow_pos free
  rw [Nat.div_eq_iff positive]
  omega

/-- The bits a mask leaves free in its word; the first entry of both tables frees none. -/
def freeBits (cidr : Nat) : Nat := (32 - cidr) % 32

variable {cidr : Nat} {range : Range} {ip : IPV6} {free : Nat}

theorem maskFromLut_getD (inside : cidr ≤ 32) :
    (maskFromLut.getD cidr 0).toNat = 2 ^ 32 - 2 ^ freeBits cidr := by
  interval_cases cidr <;> decide

theorem maskToLut_getD (inside : cidr < 32) : (maskToLut.getD cidr 0).toNat = 2 ^ freeBits cidr - 1 := by
  interval_cases cidr <;> decide

theorem freeBits_lt (cidr : Nat) : freeBits cidr < 32 := Nat.mod_lt _ (by decide)

theorem maskFrom_toNat (word : UInt32) (inside : cidr ≤ 32) :
    (maskFrom word cidr).toNat = word.toNat / 2 ^ freeBits cidr * 2 ^ freeBits cidr := by
  have free := freeBits_lt cidr
  have smaller : 2 ^ freeBits cidr - 1 < 2 ^ 32 :=
    (Nat.sub_le _ _).trans_lt (Nat.pow_lt_pow_right (by decide) free)
  have mask : 2 ^ 32 - 2 ^ freeBits cidr = 2 ^ 32 - (2 ^ freeBits cidr - 1 + 1) := by
    rw [Nat.sub_add_cancel Nat.one_le_two_pow]
  rw [maskFrom, UInt32.toNat_and, maskFromLut_getD inside]
  apply Nat.eq_of_testBit_eq
  intro bit
  rw [Nat.testBit_and, mask, Nat.testBit_two_pow_sub_succ smaller, Nat.testBit_mul_two_pow,
    Nat.testBit_div_two_pow, Nat.testBit_two_pow_sub_one]
  by_cases kept : freeBits cidr ≤ bit
  · rw [Nat.sub_add_cancel kept]
    by_cases high : bit < 32
    · simp [kept, high]
    · have clear : word.toNat.testBit bit = false := Nat.testBit_lt_two_pow
        (word.toNat_lt.trans_le (Nat.pow_le_pow_right (by decide) (not_lt.mp high)))
      simp [clear]
  · simp [kept, not_le.mp kept]

theorem maskTo_toNat (word : UInt32) (inside : cidr < 32) : (maskTo word cidr).toNat =
      word.toNat / 2 ^ freeBits cidr * 2 ^ freeBits cidr + (2 ^ freeBits cidr - 1) := by
  have last : 2 ^ freeBits cidr - 1 < 2 ^ freeBits cidr :=
    Nat.sub_lt (Nat.two_pow_pos _) Nat.one_pos
  rw [maskTo, UInt32.toNat_or, maskToLut_getD inside, Nat.mul_comm,
    Nat.two_pow_add_eq_or_of_lt last, Nat.mul_comm]
  apply Nat.eq_of_testBit_eq
  intro bit
  rw [Nat.testBit_or, Nat.testBit_or, Nat.testBit_mul_two_pow, Nat.testBit_div_two_pow,
    Nat.testBit_two_pow_sub_one]
  by_cases kept : freeBits cidr ≤ bit
  · simp [kept, Nat.sub_add_cancel kept]
  · simp [kept, not_le.mp kept]

/-- The two ends of a block. -/
def Spans (range : Range) (ip : IPV6) (free : Nat) : Prop :=
  range.fromIp.number = ip.number / 2 ^ free * 2 ^ free ∧
    range.toIp.number = ip.number / 2 ^ free * 2 ^ free + (2 ^ free - 1)

theorem exists_number {number : Nat} (bound : number < 2 ^ 128) : ∃ ip : IPV6, ip.number = number := by
  refine ⟨⟨.ofNat number, .ofNat (number / 2 ^ 32), .ofNat (number / 2 ^ 64), .ofNat (number / 2 ^ 96)⟩, ?_⟩
  simp only [number_eq, UInt32.toNat_ofNat']
  omega

theorem Spans.holds_eq (spans : Spans range ip free) : range.holds = block ip free := by
  ext other
  change _ ∧ _ ↔ _
  rw [spans.1, spans.2]
  exact div_eq_div_iff_between.symm

/-- A range that runs upwards is a block only with the ends of the block. -/
theorem spans_of_holds_eq (inside : free ≤ 128) (upwards : range.fromIp.number ≤ range.toIp.number)
    (same : range.holds = block ip free) :
    Spans range ip free := by
  have positive : 0 < 2 ^ free := Nat.two_pow_pos free
  have wide : 2 ^ (128 - free) * 2 ^ free = 2 ^ 128 := by
    rw [← pow_add, Nat.sub_add_cancel inside]
  have places : ip.number / 2 ^ free < 2 ^ (128 - free) := by
    rw [Nat.div_lt_iff_lt_mul positive, wide]
    exact ip.number_lt
  have bound : (ip.number / 2 ^ free + 1) * 2 ^ free ≤ 2 ^ 128 := by
    rw [← wide]
    exact Nat.mul_le_mul_right _ places
  rw [Nat.add_mul, one_mul] at bound
  obtain ⟨first, firstNumber⟩ := @exists_number (ip.number / 2 ^ free * 2 ^ free) (by omega)
  obtain ⟨last, lastNumber⟩ :=
    @exists_number (ip.number / 2 ^ free * 2 ^ free + (2 ^ free - 1)) (by omega)
  have firstIn : first ∈ range.holds := by
    rw [same]
    exact div_eq_div_iff_between.mpr (by omega)
  have lastIn : last ∈ range.holds := by
    rw [same]
    exact div_eq_div_iff_between.mpr (by omega)
  have fromIn : range.fromIp ∈ block ip free := same ▸ ⟨le_rfl, upwards⟩
  have toIn : range.toIp ∈ block ip free := same ▸ ⟨upwards, le_rfl⟩
  have fromBetween := div_eq_div_iff_between.mp fromIn
  have toBetween := div_eq_div_iff_between.mp toIn
  exact ⟨le_antisymm (firstNumber ▸ firstIn.1) fromBetween.1,
    le_antisymm toBetween.2 (lastNumber ▸ lastIn.2)⟩

theorem Spans.upwards (spans : Spans range ip free) : range.fromIp.number ≤ range.toIp.number := by
  rw [spans.1, spans.2]
  exact Nat.le_add_right _ _

theorem div_mul_low {word rest free : Nat} (inside : free ≤ 32) :
    (word + 2 ^ 32 * rest) / 2 ^ free * 2 ^ free = word / 2 ^ free * 2 ^ free + 2 ^ 32 * rest := by
  have split : 2 ^ 32 * rest = 2 ^ free * (2 ^ (32 - free) * rest) := by
    rw [← mul_assoc, ← pow_add, Nat.add_sub_cancel' inside]
  rw [split, Nat.add_mul_div_left _ _ (Nat.two_pow_pos free)]
  ring

theorem div_mul_high {low high below free : Nat} (small : low < 2 ^ below) :
    (low + 2 ^ below * high) / 2 ^ (below + free) * 2 ^ (below + free) =
      2 ^ below * (high / 2 ^ free * 2 ^ free) := by
  rw [pow_add, ← Nat.div_div_eq_div_mul, Nat.add_mul_div_left _ _ (Nat.two_pow_pos below),
    Nat.div_eq_of_lt small, Nat.zero_add]
  ring

theorem ones_add (below free : Nat) :
    2 ^ below * (2 ^ free - 1) + (2 ^ below - 1) = 2 ^ (below + free) - 1 := by
  have low : 1 ≤ 2 ^ below := Nat.one_le_two_pow
  have high : 1 ≤ 2 ^ free := Nat.one_le_two_pow
  rw [pow_add, Nat.mul_sub, mul_one]
  have wide : 2 ^ below * 1 ≤ 2 ^ below * 2 ^ free := Nat.mul_le_mul_left _ high
  omega

section Words

variable {ip : IPV6} {cidr : Nat}

theorem spans_a (inside : cidr < 32) :
    Spans ⟨{ ip with a := maskFrom ip.a cidr }, { ip with a := maskTo ip.a cidr }⟩ ip (freeBits cidr) := by
  have masked := @div_mul_low ip.a.toNat (ip.b.toNat + 2 ^ 32 * (ip.c.toNat + 2 ^ 32 * ip.d.toNat))
    (freeBits cidr) (freeBits_lt cidr).le
  have whole : ip.number =
      ip.a.toNat + 2 ^ 32 * (ip.b.toNat + 2 ^ 32 * (ip.c.toNat + 2 ^ 32 * ip.d.toNat)) := by
    rw [number_eq]
    ring
  unfold Spans
  rw [whole, masked]
  simp only [number_eq, maskFrom_toNat _ inside.le, maskTo_toNat _ inside]
  constructor <;> ring

/-- The words below the masked one are cleared and filled. -/
theorem spans_b (inside : cidr < 32) : Spans ⟨{ ip with b := maskFrom ip.b cidr, a := 0 },
      { ip with b := maskTo ip.b cidr, a := 0xFFFFFFFF }⟩ ip (32 + freeBits cidr) := by
  have word := ip.a.toNat_lt
  have masked := @div_mul_low ip.b.toNat (ip.c.toNat + 2 ^ 32 * ip.d.toNat)
    (freeBits cidr) (freeBits_lt cidr).le
  have whole : ip.number =
      ip.a.toNat + 2 ^ 32 * (ip.b.toNat + 2 ^ 32 * (ip.c.toNat + 2 ^ 32 * ip.d.toNat)) := by
    rw [number_eq]
    ring
  unfold Spans
  rw [whole, div_mul_high word, masked, ← ones_add]
  simp only [number_eq, maskFrom_toNat _ inside.le, maskTo_toNat _ inside, UInt32.reduceToNat]
  constructor <;> ring

theorem spans_c (inside : cidr < 32) : Spans ⟨{ ip with c := maskFrom ip.c cidr, b := 0, a := 0 },
      { ip with c := maskTo ip.c cidr, b := 0xFFFFFFFF, a := 0xFFFFFFFF }⟩ ip
      (64 + freeBits cidr) := by
  have masked := @div_mul_low ip.c.toNat ip.d.toNat (freeBits cidr) (freeBits_lt cidr).le
  have whole : ip.number = ip.lower + 2 ^ 64 * (ip.c.toNat + 2 ^ 32 * ip.d.toNat) := rfl
  unfold Spans
  rw [whole, div_mul_high ip.lower_lt, masked, ← ones_add]
  simp only [number_eq, maskFrom_toNat _ inside.le, maskTo_toNat _ inside, UInt32.reduceToNat]
  constructor <;> ring

theorem spans_d (inside : cidr < 32) : Spans ⟨{ ip with d := maskFrom ip.d cidr, c := 0, b := 0, a := 0 },
      { ip with d := maskTo ip.d cidr, c := 0xFFFFFFFF, b := 0xFFFFFFFF, a := 0xFFFFFFFF }⟩ ip
      (96 + freeBits cidr) := by
  have low := ip.lower_lt
  have word := ip.c.toNat_lt
  have small : ip.lower + 2 ^ 64 * ip.c.toNat < 2 ^ 96 := by omega
  have whole : ip.number = ip.lower + 2 ^ 64 * ip.c.toNat + 2 ^ 96 * ip.d.toNat := by
    rw [number, upper]
    ring
  unfold Spans
  rw [whole, div_mul_high small, ← ones_add]
  simp only [number_eq, maskFrom_toNat _ inside.le, maskTo_toNat _ inside, UInt32.reduceToNat]
  constructor <;> ring

end Words

theorem maskRange_spans_general {ip : IPV6} (general : ¬ ip.looksIPv4) {cidr : UInt16}
    (low : 1 ≤ cidr.toNat) (high : cidr.toNat ≤ 128) :
    ∃ range, maskRange ⟨ip, ip⟩ cidr = some range ∧ Spans range ip (128 - cidr.toNat) := by
  have inside : cidr.toNat % 32 < 32 := Nat.mod_lt _ (by decide)
  have valid : ¬ (cidr < 1 ∨ 128 < cidr) := by
    simp only [UInt16.lt_iff_toNat_lt, UInt16.reduceToNat]
    omega
  have free : freeBits (cidr.toNat % 32) = (32 - cidr.toNat % 32) % 32 := rfl
  unfold maskRange
  dsimp only
  rw [if_neg general, if_neg valid]
  simp only [UInt16.lt_iff_toNat_lt, UInt16.reduceToNat]
  split_ifs
  · refine ⟨_, rfl, ?_⟩
    rw [show 128 - cidr.toNat = freeBits (cidr.toNat % 32) by omega]
    exact spans_a inside
  · refine ⟨_, rfl, ?_⟩
    rw [show 128 - cidr.toNat = 32 + freeBits (cidr.toNat % 32) by omega]
    exact spans_b inside
  · refine ⟨_, rfl, ?_⟩
    rw [show 128 - cidr.toNat = 64 + freeBits (cidr.toNat % 32) by omega]
    exact spans_c inside
  · refine ⟨_, rfl, ?_⟩
    rw [show 128 - cidr.toNat = 96 + freeBits (cidr.toNat % 32) by omega]
    exact spans_d inside

/-- A prefix of all 32 bits fills the word it should leave alone. -/
theorem maskRange_ipv4 {ip : IPV6} (ipv4 : ip.looksIPv4) {cidr : UInt16}
    (low : 1 ≤ cidr.toNat) (high : cidr.toNat ≤ 32) :
    ∃ range, maskRange ⟨ip, ip⟩ cidr = some range ∧ (cidr.toNat < 32 → Spans range ip (32 - cidr.toNat)) ∧
      (cidr.toNat = 32 → range = ⟨ip, { ip with a := 0xFFFFFFFF }⟩) := by
  have valid : ¬ (cidr < 1 ∨ 32 < cidr) := by
    simp only [UInt16.lt_iff_toNat_lt, UInt16.reduceToNat]
    omega
  simp only [maskRange, if_pos ipv4, if_neg valid]
  refine ⟨_, rfl, fun inside => ?_, fun whole => ?_⟩
  · have free : freeBits cidr.toNat = (32 - cidr.toNat) % 32 := rfl
    rw [show 32 - cidr.toNat = freeBits cidr.toNat by omega]
    exact spans_a inside
  · have kept : maskFrom ip.a 32 = ip.a := UInt32.toNat_inj.mp <| by
      rw [maskFrom_toNat _ le_rfl]
      simp [freeBits]
    have filled : maskTo ip.a 32 = 0xFFFFFFFF := by
      have mask : maskToLut.getD 32 0 = 0xFFFFFFFF := by decide
      rw [maskTo, mask]
      exact UInt32.or_neg_one
    rw [whole, kept, filled]

theorem maskRange_invalid {range : Range} {cidr : UInt16}
    (invalid : cidr.toNat < 1 ∨ (if range.fromIp.looksIPv4 then 32 else 128) < cidr.toNat) :
    maskRange range cidr = none := by
  unfold maskRange
  dsimp only
  simp only [UInt16.lt_iff_toNat_lt, UInt16.reduceToNat]
  split_ifs at invalid ⊢ <;> rfl

section Text

variable (libc : Libc) (text : List UInt8) (ptr : Nat)

/-- The text before the slash, without its spaces. -/
def addressText : List UInt8 := cString ((text.take ptr).filter (· ≠ ' '.toUInt8))

/-- The number behind the slash. -/
def prefixLength : Int := libc.atoi (cString (text.drop (ptr + 1)))

instance (ip : IPV6) : Decidable ip.IsIPv4 :=
  inferInstanceAs (Decidable (ip.b = 0x0000FFFF ∧ ip.c = 0 ∧ ip.d = 0))

def familyBits (ip : IPV6) : Nat := if ip.IsIPv4 then 32 else 128

def ValidPrefix (ip : IPV6) (length : Int) : Prop := 1 ≤ length ∧ length ≤ familyBits ip

/-- The text is accepted just where its prefix length is valid, and then as the block that
the address and the prefix length name. -/
structure NamesBlock (ip : IPV6) : Prop where
  accepts : (parseRange libc text).isSome ↔ ValidPrefix ip (prefixLength libc text ptr)
  exact : ∀ range ∈ parseRange libc text,
    range.holds = block ip (familyBits ip - (prefixLength libc text ptr).toNat)

/-- A prefix length that the tables mask: not all bits of an IPv4 address but the last one, and
for an address that is taken for an IPv4 address without being one, all bits only. -/
def Masked (ip : IPV6) (length : Int) : Prop :=
  if ip.IsIPv4 then length ≠ 32 ∨ ip.a = 0xFFFFFFFF else ip.looksIPv4 → length = 128

variable {libc text ptr} {ip : IPV6} {length : Int}

theorem copyWithoutSpaces_take (short : text.length ≤ maxRangeLen) :
    copyWithoutSpaces (text.take ptr) = addressText text ptr := by
  have inside : (text.take ptr).length ≤ 100 := (List.length_take_le' _ _).trans short
  unfold copyWithoutSpaces addressText ipMaxLen
  split_ifs with absent
  · have empty : text.take ptr = [] := List.length_eq_zero_iff.mp (by omega)
    rw [empty]
    rfl
  · rfl

theorem parseRange_slash (slash : memchr text '/' = some ptr)
    (address : strToIp libc (addressText text ptr) = some ip) :
    parseRange libc text = if maxRangeLen < text.length then none
      else some
        ((maskRange ⟨ip, ip⟩ (UInt16.ofInt (prefixLength libc text ptr))).getD ⟨ip, ip⟩) := by
  rw [parseRange, slash]
  dsimp only
  rw [parseSlash]
  split_ifs with long
  · rfl
  · rw [copyWithoutSpaces_take (not_lt.mp long), address]
    rfl

theorem ofInt_toNat {length : Int} (low : 1 ≤ length) (high : length ≤ 128) :
    (UInt16.ofInt length).toNat = length.toNat := by
  rw [UInt16.ofInt, UInt16.toNat_ofNat']
  omega

/-- What is left of an invalid prefix length is the single address. -/
def maskedRange (ip : IPV6) (length : Int) : Range :=
  (maskRange ⟨ip, ip⟩ (UInt16.ofInt length)).getD ⟨ip, ip⟩

theorem looksIPv4_of_isIPv4 (ipv4 : ip.IsIPv4) : ip.looksIPv4 :=
  decide_eq_true ipv4.1

theorem number_fill (ip : IPV6) : number { ip with a := 0xFFFFFFFF } + ip.a.toNat =
    ip.number + (2 ^ 32 - 1) := by
  simp only [number_eq, UInt32.reduceToNat]
  omega

theorem maskedRange_general (general : ¬ ip.looksIPv4) (low : 1 ≤ length) (high : length ≤ 128) :
    Spans (maskedRange ip length) ip (128 - length.toNat) := by
  have count := ofInt_toNat low high
  obtain ⟨range, masked, spans⟩ := maskRange_spans_general general
    (by omega : 1 ≤ (UInt16.ofInt length).toNat) (by omega)
  rw [maskedRange, masked, ← count]
  exact spans

theorem maskedRange_below (looks : ip.looksIPv4) (low : 1 ≤ length) (high : length < 32) :
    Spans (maskedRange ip length) ip (32 - length.toNat) := by
  have count := ofInt_toNat low (by omega)
  obtain ⟨range, masked, spans, -⟩ := maskRange_ipv4 looks
    (by omega : 1 ≤ (UInt16.ofInt length).toNat) (by omega)
  rw [maskedRange, masked, ← count]
  exact spans (by omega)

theorem maskedRange_full (looks : ip.looksIPv4) : maskedRange ip 32 = ⟨ip, { ip with a := 0xFFFFFFFF }⟩ := by
  obtain ⟨range, masked, -, filled⟩ := @maskRange_ipv4 ip looks 32 (by decide) (by decide)
  have count : UInt16.ofInt 32 = 32 := rfl
  rw [maskedRange, count, masked]
  exact filled rfl

theorem maskedRange_beyond (looks : ip.looksIPv4) (low : 32 < length) (high : length ≤ 128) :
    maskedRange ip length = ⟨ip, ip⟩ := by
  have count := ofInt_toNat (by omega : 1 ≤ length) high
  rw [maskedRange, maskRange_invalid]
  · rfl
  · rw [if_pos looks]
    omega

theorem spans_full_iff : Spans ⟨ip, { ip with a := 0xFFFFFFFF }⟩ ip 0 ↔ ip.a = 0xFFFFFFFF := by
  have fill := number_fill ip
  have word : ip.a = 0xFFFFFFFF ↔ ip.a.toNat = 2 ^ 32 - 1 := by
    rw [← UInt32.toNat_inj]
    rfl
  rw [word]
  simp only [Spans, pow_zero, Nat.div_one, mul_one, Nat.sub_self, Nat.add_zero, true_and]
  omega

theorem spans_single_iff {free : Nat} : Spans ⟨ip, ip⟩ ip free ↔ free = 0 := by
  constructor
  · intro spans
    have last : 2 ^ free - 1 = 0 := by
      have low := spans.1
      have high := spans.2
      dsimp only at low high
      omega
    by_contra present
    have two : 2 ^ 1 ≤ 2 ^ free := Nat.pow_le_pow_right (by decide) (Nat.pos_iff_ne_zero.mpr present)
    omega
  · rintro rfl
    simp [Spans]

/-- The range keeps all words but the lowest, too few for a prefix of an IPv6 address. -/
theorem not_spans_of_close {range : Range} {free : Nat} (wide : 32 < free)
    (close : range.toIp.number < range.fromIp.number + 2 ^ 32) : ¬ Spans range ip free := by
  rintro ⟨low, high⟩
  have more : 2 ^ 33 ≤ 2 ^ free := Nat.pow_le_pow_right (by decide) wide
  omega

theorem Spans.close {range : Range} {free : Nat} (spans : Spans range ip free)
    (narrow : free ≤ 32) : range.toIp.number < range.fromIp.number + 2 ^ 32 := by
  have fewer : 2 ^ free ≤ 2 ^ 32 := Nat.pow_le_pow_right (by decide) narrow
  have positive := Nat.two_pow_pos free
  rw [spans.1, spans.2]
  omega

theorem maskedRange_upwards (low : 1 ≤ length) (high : length ≤ 128) :
    (maskedRange ip length).fromIp.number ≤ (maskedRange ip length).toIp.number := by
  by_cases looks : ip.looksIPv4
  · rcases lt_trichotomy length 32 with below | rfl | beyond
    · exact (maskedRange_below looks low below).upwards
    · have fill := number_fill ip
      have word := ip.a.toNat_lt
      rw [maskedRange_full looks]
      dsimp only
      omega
    · rw [maskedRange_beyond looks beyond high]
  · exact (maskedRange_general looks low high).upwards

theorem maskedRange_holds_iff (valid : ValidPrefix ip length) :
    (maskedRange ip length).holds = block ip (familyBits ip - length.toNat) ↔
      Masked ip length := by
  obtain ⟨low, high⟩ := valid
  have family : familyBits ip = if ip.IsIPv4 then 32 else 128 := rfl
  have bits : familyBits ip ≤ 128 := by
    rw [family]
    split <;> decide
  have spans_iff : (maskedRange ip length).holds = block ip (familyBits ip - length.toNat) ↔
      Spans (maskedRange ip length) ip (familyBits ip - length.toNat) :=
    ⟨spans_of_holds_eq (by omega) (maskedRange_upwards low (by omega)), Spans.holds_eq⟩
  rw [spans_iff, Masked]
  by_cases ipv4 : ip.IsIPv4
  · have looks := looksIPv4_of_isIPv4 ipv4
    rw [if_pos ipv4] at family ⊢
    rw [family] at high ⊢
    rcases (show length < 32 ∨ length = 32 by omega) with below | rfl
    · exact iff_of_true (maskedRange_below looks low below) (.inl below.ne)
    · rw [maskedRange_full looks]
      simpa using spans_full_iff
  · rw [if_neg ipv4] at family ⊢
    rw [family] at high ⊢
    by_cases looks : ip.looksIPv4
    · simp only [looks, true_imp_iff]
      rcases lt_trichotomy length 32 with below | rfl | beyond
      · have close := (maskedRange_below looks low below).close (by omega)
        exact iff_of_false (not_spans_of_close (by omega) close) (by omega)
      · have fill := number_fill ip
        rw [maskedRange_full looks]
        exact iff_of_false (not_spans_of_close (by decide) (by dsimp only; omega)) (by decide)
      · rw [maskedRange_beyond looks beyond high, spans_single_iff]
        omega
    · exact iff_of_true (maskedRange_general looks low high) fun claimed => absurd claimed looks

end Text

/-- Which prefix lengths of which addresses come out as the block they name; a text that is too
long is refused whatever it says. -/
theorem parseRange_namesBlock_iff (libc : Libc) (text : List UInt8) (ptr : Nat) (ip : IPV6)
    (slash : memchr text '/' = some ptr)
    (address : strToIp libc (addressText text ptr) = some ip) :
    NamesBlock libc text ptr ip ↔
      if maxRangeLen < text.length then ¬ ValidPrefix ip (prefixLength libc text ptr)
      else ValidPrefix ip (prefixLength libc text ptr) ∧
        Masked ip (prefixLength libc text ptr) := by
  have parsed := parseRange_slash slash address
  split_ifs with long
  · rw [if_pos long] at parsed
    constructor
    · intro names valid
      have accepted := names.accepts.mpr valid
      rw [parsed] at accepted
      cases accepted
    · intro invalid
      refine ⟨iff_of_false ?_ invalid, fun range found => ?_⟩
      · rw [parsed]
        decide
      · rw [parsed] at found
        cases found
  · rw [if_neg long] at parsed
    change _ = some (maskedRange ip (prefixLength libc text ptr)) at parsed
    constructor
    · intro names
      have valid := names.accepts.mp (by rw [parsed]; rfl)
      exact ⟨valid, (maskedRange_holds_iff valid).mp (names.exact _ parsed)⟩
    · rintro ⟨valid, masked⟩
      refine ⟨iff_of_true (by rw [parsed]; rfl) valid, fun range found => ?_⟩
      obtain rfl := Option.some.inj (parsed.symm.trans found)
      exact (maskedRange_holds_iff valid).mpr masked

/-- A library that knows the address `1.2.3.6` and the lengths `24` and `32`. -/
def prefixLibc : Libc where
  inetPton6 _ := none
  inetPton4 text := if text = [49, 46, 50, 46, 51, 46, 54] then some ![1, 2, 3, 6] else none
  atoi text := if text = [50, 52] then 24 else if text = [51, 50] then 32 else 0

theorem parseRange_namesBlock_iff_sample :
    NamesBlock prefixLibc [49, 46, 50, 46, 51, 46, 54, 47, 50, 52] 7 ⟨0x01020306, 0xFFFF, 0, 0⟩ :=
  (parseRange_namesBlock_iff prefixLibc [49, 46, 50, 46, 51, 46, 54, 47, 50, 52] 7
    ⟨0x01020306, 0xFFFF, 0, 0⟩ rfl rfl).mpr (by
      refine ⟨⟨by decide, by decide⟩, ?_⟩
      rw [Masked, if_pos ⟨rfl, rfl, rfl⟩]
      exact .inl (by decide))

/-- `1.2.3.6/32` holds `1.2.3.7` too. -/
theorem parseRange_single_grows : ¬ NamesBlock prefixLibc [49, 46, 50, 46, 51, 46, 54, 47, 51, 50] 7
      ⟨0x01020306, 0xFFFF, 0, 0⟩ := by
  intro names
  have same := names.exact ⟨⟨0x01020306, 0xFFFF, 0, 0⟩, ⟨0xFFFFFFFF, 0xFFFF, 0, 0⟩⟩ rfl
  have next : (⟨0x01020307, 0xFFFF, 0, 0⟩ : IPV6) ∈
      Range.holds ⟨⟨0x01020306, 0xFFFF, 0, 0⟩, ⟨0xFFFFFFFF, 0xFFFF, 0, 0⟩⟩ :=
    ⟨by decide, by decide⟩
  rw [same] at next
  have agree : number ⟨0x01020307, 0xFFFF, 0, 0⟩ / 2 ^ 0 = number ⟨0x01020306, 0xFFFF, 0, 0⟩ / 2 ^ 0 := next
  exact absurd agree (by decide)

end OpenGauss.IPRange
