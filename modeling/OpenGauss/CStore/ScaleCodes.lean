import Mathlib.Data.List.GetD
import Mathlib.Tactic

/-! Codes of adjusted numeric scales, three bits each, `cstore_compress.cpp`. -/

namespace OpenGauss.CStore

def ascalePack1 (value0 value1 value2 : UInt8) : UInt8 :=
  value0 <<< 5 ||| value1 <<< 2 ||| value2 >>> 1

def ascalePack2 (value2 value3 value4 value5 : UInt8) : UInt8 :=
  (value2 &&& 0x1) <<< 7 ||| value3 <<< 4 ||| value4 <<< 1 ||| (value5 &&& 0x4) >>> 2

def ascalePack3 (value5 value6 value7 : UInt8) : UInt8 :=
  (value5 &&& 0x3) <<< 6 ||| value6 <<< 3 ||| value7

/-- A group of eight after the other, then what remains; a code that is not there leaves its bits
unset. -/
def compactAscaleCodesBy3Bits : List UInt8 → List UInt8
  | v0 :: v1 :: v2 :: v3 :: v4 :: v5 :: v6 :: v7 :: inValues =>
    ascalePack1 v0 v1 v2 :: ascalePack2 v2 v3 v4 v5 :: ascalePack3 v5 v6 v7 ::
      compactAscaleCodesBy3Bits inValues
  | [v0, v1, v2, v3, v4, v5, v6] =>
    [ascalePack1 v0 v1 v2, ascalePack2 v2 v3 v4 v5, ascalePack3 v5 v6 0]
  | [v0, v1, v2, v3, v4, v5] =>
    [ascalePack1 v0 v1 v2, ascalePack2 v2 v3 v4 v5, ascalePack3 v5 0 0]
  | [v0, v1, v2, v3, v4] => [ascalePack1 v0 v1 v2, ascalePack2 v2 v3 v4 0]
  | [v0, v1, v2, v3] => [ascalePack1 v0 v1 v2, ascalePack2 v2 v3 0 0]
  | [v0, v1, v2] => [ascalePack1 v0 v1 v2, ascalePack2 v2 0 0 0]
  | [v0, v1] => [ascalePack1 v0 v1 0]
  | [v0] => [ascalePack1 v0 0 0]
  | [] => []

def ascaleCode0 (pack1 : UInt8) : UInt8 := pack1 >>> 5

def ascaleCode1 (pack1 : UInt8) : UInt8 := pack1 >>> 2 &&& 0x07

def ascaleCode2 (pack1 pack2 : UInt8) : UInt8 := (pack1 &&& 0x3) <<< 1 ||| (pack2 &&& 0x80) >>> 7

def ascaleCode3 (pack2 : UInt8) : UInt8 := pack2 >>> 4 &&& 0x07

def ascaleCode4 (pack2 : UInt8) : UInt8 := pack2 >>> 1 &&& 0x07

def ascaleCode5 (pack2 pack3 : UInt8) : UInt8 := (pack2 &&& 0x1) <<< 2 ||| (pack3 &&& 0xc0) >>> 6

def ascaleCode6 (pack3 : UInt8) : UInt8 := pack3 >>> 3 &&& 0x07

def ascaleCode7 (pack3 : UInt8) : UInt8 := pack3 &&& 0x07

/-- Seven codes, and the input after the three bytes they come from. -/
def parseAscaleCodes3Bytes (input : List UInt8) : List UInt8 × List UInt8 :=
  let pack1 := input.getD 0 0
  let pack2 := input.getD 1 0
  let pack3 := input.getD 2 0
  ([ascaleCode0 pack1, ascaleCode1 pack1, ascaleCode2 pack1 pack2, ascaleCode3 pack2,
    ascaleCode4 pack2, ascaleCode5 pack2 pack3, ascaleCode6 pack3], input.drop 3)

/-- `pack3` is the caller's variable: the bytes of a group are read into those of
`parseAscaleCodes3Bytes`. -/
def parseAscaleGroups (pack3 : UInt8) : Nat → List UInt8 → List UInt8 × List UInt8
  | 0, input => ([], input)
  | groups + 1, input =>
    let (codes, input) := parseAscaleCodes3Bytes input
    let (more, input) := parseAscaleGroups pack3 groups input
    (codes ++ ascaleCode7 pack3 :: more, input)

def parseAscaleRemain (remain : Nat) (input : List UInt8) : List UInt8 × List UInt8 :=
  let pack1 := input.getD 0 0
  let pack2 := input.getD 1 0
  let pack3 := input.getD 2 0
  match remain with
  | 7 => parseAscaleCodes3Bytes input
  | 6 => ([ascaleCode0 pack1, ascaleCode1 pack1, ascaleCode2 pack1 pack2, ascaleCode3 pack2,
      ascaleCode4 pack2, ascaleCode5 pack2 pack3], input.drop 3)
  | 5 => ([ascaleCode0 pack1, ascaleCode1 pack1, ascaleCode2 pack1 pack2, ascaleCode3 pack2,
      ascaleCode4 pack2], input.drop 2)
  | 4 => ([ascaleCode0 pack1, ascaleCode1 pack1, ascaleCode2 pack1 pack2, ascaleCode3 pack2],
      input.drop 2)
  | 3 => ([ascaleCode0 pack1, ascaleCode1 pack1, ascaleCode2 pack1 pack2], input.drop 2)
  | 2 => ([ascaleCode0 pack1, ascaleCode1 pack1], input.drop 1)
  | 1 => ([ascaleCode0 pack1], input.drop 1)
  | _ => ([], input)

/-- The codes, and the input after those read. -/
def parseAscaleCodesBy3Bits (inBuf : List UInt8) (nOutValues : Nat) : List UInt8 × List UInt8 :=
  let (codes, input) := parseAscaleGroups 0 (nOutValues >>> 3) inBuf
  let (more, input) := parseAscaleRemain (nOutValues &&& 0x7) input
  (codes ++ more, input)

/-- The codes with the eighth of every group lost. -/
def eighthsCleared : List UInt8 → List UInt8
  | v0 :: v1 :: v2 :: v3 :: v4 :: v5 :: v6 :: _ :: codes =>
    v0 :: v1 :: v2 :: v3 :: v4 :: v5 :: v6 :: 0 :: eighthsCleared codes
  | codes => codes

theorem exists_threeBits {code : UInt8} (small : code < 8) :
    ∃ bits : BitVec 3, code = ⟨bits.setWidth 8⟩ := by
  have bound : code.toNat < 8 := small
  refine ⟨code.toBitVec.setWidth 3, UInt8.toNat_inj.mp ?_⟩
  change code.toNat = ((code.toBitVec.setWidth 3).setWidth 8).toNat
  rw [BitVec.toNat_setWidth, BitVec.toNat_setWidth, UInt8.toNat_toBitVec]
  omega

/-- Whatever the eighth code is, the three bytes give the seven others. -/
theorem ascaleCodes_packed {v0 v1 v2 v3 v4 v5 v6 v7 : UInt8} (s0 : v0 < 8) (s1 : v1 < 8)
    (s2 : v2 < 8) (s3 : v3 < 8) (s4 : v4 < 8) (s5 : v5 < 8) (s6 : v6 < 8) (s7 : v7 < 8) :
    ascaleCode0 (ascalePack1 v0 v1 v2) = v0 ∧ ascaleCode1 (ascalePack1 v0 v1 v2) = v1 ∧
      ascaleCode2 (ascalePack1 v0 v1 v2) (ascalePack2 v2 v3 v4 v5) = v2 ∧
      ascaleCode3 (ascalePack2 v2 v3 v4 v5) = v3 ∧ ascaleCode4 (ascalePack2 v2 v3 v4 v5) = v4 ∧
      ascaleCode5 (ascalePack2 v2 v3 v4 v5) (ascalePack3 v5 v6 v7) = v5 ∧
      ascaleCode6 (ascalePack3 v5 v6 v7) = v6 := by
  obtain ⟨v0, rfl⟩ := exists_threeBits s0
  obtain ⟨v1, rfl⟩ := exists_threeBits s1
  obtain ⟨v2, rfl⟩ := exists_threeBits s2
  obtain ⟨v3, rfl⟩ := exists_threeBits s3
  obtain ⟨v4, rfl⟩ := exists_threeBits s4
  obtain ⟨v5, rfl⟩ := exists_threeBits s5
  obtain ⟨v6, rfl⟩ := exists_threeBits s6
  obtain ⟨v7, rfl⟩ := exists_threeBits s7
  unfold ascaleCode0 ascaleCode1 ascaleCode2 ascaleCode3 ascaleCode4 ascaleCode5 ascaleCode6
  unfold ascalePack1 ascalePack2 ascalePack3
  refine ⟨?_, ?_, ?_, ?_, ?_, ?_, ?_⟩
  all_goals
    apply UInt8.toBitVec_inj.mp
    ext index inside
    simp
    interval_cases index <;> simp

theorem parseAscaleCodesBy3Bits_group (pack1 pack2 pack3 : UInt8) (input : List UInt8)
    (count : Nat) :
    parseAscaleCodesBy3Bits (pack1 :: pack2 :: pack3 :: input) (count + 8) =
      ([ascaleCode0 pack1, ascaleCode1 pack1, ascaleCode2 pack1 pack2, ascaleCode3 pack2,
        ascaleCode4 pack2, ascaleCode5 pack2 pack3, ascaleCode6 pack3, 0] ++
          (parseAscaleCodesBy3Bits input count).1, (parseAscaleCodesBy3Bits input count).2) := by
  have groups : (count + 8) >>> 3 = count >>> 3 + 1 := by
    rw [Nat.shiftRight_eq_div_pow, Nat.shiftRight_eq_div_pow]
    omega
  have remain : (count + 8) &&& 0x7 = count &&& 0x7 := by
    rw [Nat.and_two_pow_sub_one_eq_mod _ 3, Nat.and_two_pow_sub_one_eq_mod _ 3]
    omega
  rw [parseAscaleCodesBy3Bits, groups, remain]
  rfl

theorem getD_small {codes : List UInt8} (small : ∀ code ∈ codes, code < 8) (index : Nat) :
    codes.getD index 0 < 8 := by
  by_cases inside : index < codes.length
  · rw [List.getD_eq_getElem _ _ inside]
    exact small _ (List.getElem_mem inside)
  · rw [List.getD_eq_default _ _ (Nat.not_lt.mp inside)]
    decide

/-- Parsing keeps all codes but the eighths, and stops after the bytes that were written. -/
theorem parseAscaleCodesBy3Bits_compact {codes : List UInt8} (small : ∀ code ∈ codes, code < 8)
    (input : List UInt8) :
    parseAscaleCodesBy3Bits (compactAscaleCodesBy3Bits codes ++ input) codes.length =
      (eighthsCleared codes, input) := by
  fun_induction compactAscaleCodesBy3Bits codes with
  | case1 v0 v1 v2 v3 v4 v5 v6 v7 codes ih =>
    have bound := getD_small small
    obtain ⟨c0, c1, c2, c3, c4, c5, c6⟩ := ascaleCodes_packed (bound 0) (bound 1) (bound 2)
      (bound 3) (bound 4) (bound 5) (bound 6) (bound 7)
    have rest : ∀ code ∈ codes, code < 8 := fun code member => small code (by simp [member])
    have group := parseAscaleCodesBy3Bits_group (ascalePack1 v0 v1 v2)
      (ascalePack2 v2 v3 v4 v5) (ascalePack3 v5 v6 v7)
      (compactAscaleCodesBy3Bits codes ++ input) codes.length
    simp only [List.getD_cons_zero, List.getD_cons_succ] at c0 c1 c2 c3 c4 c5 c6
    rw [c0, c1, c2, c3, c4, c5, c6, ih rest] at group
    exact group
  | _ =>
    -- the codes that are not there count as 0
    have bound := getD_small small
    have packed := ascaleCodes_packed (bound 0) (bound 1) (bound 2) (bound 3) (bound 4) (bound 5)
      (bound 6) (bound 7)
    simp only [List.getD_cons_zero, List.getD_cons_succ, List.getD_nil] at packed
    simp [parseAscaleCodesBy3Bits, parseAscaleGroups, parseAscaleRemain,
      parseAscaleCodes3Bytes, eighthsCleared, packed]

theorem eighthsCleared_eq_iff {codes : List UInt8} :
    eighthsCleared codes = codes ↔
      ∀ group code, codes[8 * group + 7]? = some code → code = 0 := by
  fun_induction eighthsCleared codes with
  | case1 v0 v1 v2 v3 v4 v5 v6 v7 codes ih =>
    simp only [List.cons.injEq, true_and, ih]
    constructor
    · rintro ⟨rfl, rest⟩ (_ | group) code read
      · exact (Option.some.inj read).symm
      · exact rest group code read
    · intro all
      exact ⟨(all 0 v7 rfl).symm, fun group code read => all (group + 1) code read⟩
  | case2 codes short =>
    refine iff_of_true rfl fun group code read => ?_
    obtain ⟨inside, _⟩ := List.getElem?_eq_some_iff.mp read
    match codes, short with
    | v0 :: v1 :: v2 :: v3 :: v4 :: v5 :: v6 :: v7 :: rest, short =>
      exact absurd rfl (short v0 v1 v2 v3 v4 v5 v6 v7 rest)

/-- The codes come back exactly when every eighth one is 0. -/
theorem parseAscaleCodesBy3Bits_iff (codes : List UInt8) (small : ∀ code ∈ codes, code < 8) :
    (parseAscaleCodesBy3Bits (compactAscaleCodesBy3Bits codes) codes.length).1 = codes ↔
      ∀ group code, codes[8 * group + 7]? = some code → code = 0 := by
  have parsed := parseAscaleCodesBy3Bits_compact small []
  rw [List.append_nil] at parsed
  rw [parsed, eighthsCleared_eq_iff]

theorem parseAscaleCodesBy3Bits_iff_sample :
    (parseAscaleCodesBy3Bits (compactAscaleCodesBy3Bits [1, 2, 3, 4, 5, 6, 7, 0, 7]) 9).1 =
        [1, 2, 3, 4, 5, 6, 7, 0, 7] ↔
      ∀ group code, ([1, 2, 3, 4, 5, 6, 7, 0, 7] : List UInt8)[8 * group + 7]? = some code →
        code = 0 :=
  parseAscaleCodesBy3Bits_iff [1, 2, 3, 4, 5, 6, 7, 0, 7] (by simp)

/-- Eight codes of 1 come back as seven. -/
theorem parseAscaleCodesBy3Bits_loses :
    ¬ ∀ codes : List UInt8, (∀ code ∈ codes, code < 8) →
      (parseAscaleCodesBy3Bits (compactAscaleCodesBy3Bits codes) codes.length).1 = codes := by
  intro all
  exact absurd (all [1, 1, 1, 1, 1, 1, 1, 1] (by simp)) (by decide)

end OpenGauss.CStore
