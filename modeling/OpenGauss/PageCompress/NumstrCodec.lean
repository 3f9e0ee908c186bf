import OpenGauss.CStore.NumberCU
import OpenGauss.CStore.ScalarVector

namespace OpenGauss.PageCompress

open Lib (leBytes leNat)
open CStore (varsizeAny vardataAny varlena4B varattIs4BU strlen setVarsize setVarsizeShort varhdrsz
  varhdrszShort varattShortMax)

/-- The lengths -1 and -2 of the types that vary in length. -/
inductive AttLen where
  | varlena
  | cstring
deriving DecidableEq, Repr

def isDigital (ch : UInt8) : Bool := 48 ≤ ch && ch ≤ 57

/-- The characters at a pointer; what can be read from there on may go on behind them. -/
def srcData : AttLen → List UInt8 → List UInt8
  | .varlena, src => vardataAny (src.take (varsizeAny src))
  | .cstring, src => src.take (strlen src)

/-- Two bytes combine to one byte, which is never 0. -/
def packPair (first second : UInt8) : UInt8 :=
  ((first - 48) ||| ((second - 48) <<< (4 : UInt8))) + 1

/-- The loop over the pairs, `none` where it meets another character. -/
def packPairs : List UInt8 → Option (List UInt8)
  | first :: second :: rest =>
    if isDigital first && isDigital second then (packPairs rest).map (packPair first second :: ·)
    else none
  | _ => some []

variable (attlen : AttLen)

def compressedHeader (destLen : Nat) : List UInt8 :=
  match attlen with
  | .varlena =>
    if destLen + varhdrszShort ≤ varattShortMax then setVarsizeShort (destLen + varhdrszShort)
    else setVarsize (destLen + varhdrsz)
  | .cstring => []

def terminator : AttLen → List UInt8
  | .varlena => []
  | .cstring => [0]

/-- What is stored for the value, `none` where `outSize` is 0. -/
def numstrCompress (src : List UInt8) : Option (List UInt8) :=
  let data := srcData attlen src
  match data.getLast? with
  | none => none
  | some last =>
    if data.length % 2 ≠ 0 ∧ !isDigital last then none
    else
      let evenLen := if data.length % 2 ≠ 0 then data.length - 1 else data.length
      let destLen := evenLen / 2 + data.length % 2
      -- The four highest bits tell the last byte of an odd length apart.
      let odd := if evenLen < data.length then [(last - 48) ||| 0xF0] else []
      (packPairs (data.take evenLen)).map fun packed =>
        compressedHeader attlen destLen ++ (packed ++ odd) ++ terminator attlen

def unpackByte (byte : UInt8) : List UInt8 :=
  [((byte - 1) &&& 0x0F) + 48, (((byte - 1) &&& 0xF0) >>> (4 : UInt8)) + 48]

structure Uncompressed where
  cmprValSize : Nat
  datum : List UInt8
  dataLenWithPadding : Option Nat
deriving DecidableEq, Repr

def attAlignNominal (address alignment : Nat) : Nat :=
  (address + (alignment - 1)) / alignment * alignment

/-- The buffer of the caller, if there is one, by its address and the alignment of the type. -/
def paddingSize (uncmprValBuf : Nat × Nat) : Nat :=
  match attlen with
  | .varlena => attAlignNominal uncmprValBuf.1 uncmprValBuf.2 - uncmprValBuf.1
  | .cstring => 0

/-- The header has four bytes whatever header the value had. -/
def uncompressedHeader (destLen : Nat) : List UInt8 :=
  match attlen with
  | .varlena => setVarsize (destLen + varhdrsz)
  | .cstring => []

def uncompressedLen (data : List UInt8) (lastByte : UInt8) : Nat :=
  if lastByte &&& 0xF0 = 0xF0 then (data.length - 1) * 2 + 1 else data.length * 2

/-- One byte splits into two bytes, but for the last one of an odd length. -/
def unpackBytes (data : List UInt8) (lastByte : UInt8) : List UInt8 :=
  data.dropLast.flatMap unpackByte ++
    if lastByte &&& 0xF0 = 0xF0 then [(lastByte &&& 0x0F) + 48] else unpackByte lastByte

/-- `none` where the source asserts that there is something to uncompress. -/
def numstrUncompress (src : List UInt8) (uncmprValBuf : Option (Nat × Nat)) :
    Option Uncompressed :=
  let data := srcData attlen src
  let cmprValSize := match attlen with
    | .varlena => varsizeAny src
    | .cstring => data.length + 1
  match data.getLast? with
  | none => none
  | some lastByte =>
    let datum := uncompressedHeader attlen (uncompressedLen data lastByte) ++
      unpackBytes data lastByte ++ terminator attlen
    some ⟨cmprValSize, datum, uncmprValBuf.map fun buf => paddingSize attlen buf + datum.length⟩

theorem exists_digit {ch : UInt8} (digit : isDigital ch) : ∃ value : Fin 10,
    ch = 48 + UInt8.ofNat value := by
  have range : 48 ≤ ch.toNat ∧ ch.toNat ≤ 57 := by
    simpa [isDigital, UInt8.le_iff_toNat_le] using digit
  refine ⟨⟨ch.toNat - 48, by omega⟩, UInt8.toNat_inj.mp ?_⟩
  rw [UInt8.toNat_add, UInt8.toNat_ofNat']
  change ch.toNat = (48 + (ch.toNat - 48) % 256) % 256
  omega

/-- A pair comes back, and its byte is neither the terminator nor the mark of an odd length. -/
theorem unpackByte_packPair {first second : UInt8} (digit : isDigital first) (other : isDigital second) :
    unpackByte (packPair first second) = [first, second] ∧
      packPair first second &&& 0xF0 ≠ 0xF0 ∧ packPair first second ≠ 0 := by
  obtain ⟨first, rfl⟩ := exists_digit digit
  obtain ⟨second, rfl⟩ := exists_digit other
  revert first second
  decide

variable {last : UInt8} {data packed : List UInt8} {len : Nat} {out : List UInt8}

theorem unpack_odd (digit : isDigital last) :
    (last - 48 ||| 0xF0) &&& 0xF0 = 0xF0 ∧ ((last - 48 ||| 0xF0) &&& 0x0F) + 48 = last := by
  obtain ⟨last, rfl⟩ := exists_digit digit
  revert last
  decide

theorem packPairs_spec (packs : packPairs data = some packed) (even : data.length % 2 = 0) :
    packed.flatMap unpackByte = data ∧ data.length = packed.length * 2 ∧
      ∀ byte ∈ packed, byte &&& 0xF0 ≠ 0xF0 ∧ byte ≠ 0 := by
  fun_induction packPairs data generalizing packed with
  | case1 first second rest digits hyp =>
    obtain ⟨digit, other⟩ := Bool.and_eq_true_iff.mp digits
    obtain ⟨packedRest, packsRest, rfl⟩ := Option.map_eq_some_iff.mp packs
    obtain ⟨unpacked, length, codes⟩ := hyp packsRest (by
      rw [List.length_cons, List.length_cons] at even
      omega)
    obtain ⟨pair, code⟩ := unpackByte_packPair digit other
    refine ⟨?_, ?_, List.forall_mem_cons.mpr ⟨code, codes⟩⟩
    · rw [List.flatMap_cons, pair, unpacked]
      rfl
    · simp only [List.length_cons, length]
      omega
  | case2 first second rest digits => cases packs
  | case3 data short =>
    obtain rfl := Option.some.inj packs
    match data, short, even with
    | [], _, _ => simp
    | first :: second :: rest, short, _ => exact absurd rfl (short first second rest)

/-- What a compressed value consists of. -/
structure Packs (body data : List UInt8) : Prop where
  nonempty : body ≠ []
  clear : 0 ∉ body
  shorter : body.length ≤ data.length
  unpacks : ∀ lastByte ∈ body.getLast?, unpackBytes body lastByte = data ∧
    uncompressedLen body lastByte = data.length

theorem packs_even (packs : packPairs data = some packed) (even : data.length % 2 = 0)
    (nonempty : data ≠ []) : Packs packed data := by
  obtain ⟨unpacked, length, codes⟩ := packPairs_spec packs even
  have pos : 0 < data.length := List.length_pos_iff.mpr nonempty
  refine ⟨List.ne_nil_of_length_pos (by omega), fun zero => (codes 0 zero).2 rfl, by omega,
    fun lastByte ends => ?_⟩
  obtain ⟨front, rfl⟩ := List.getLast?_eq_some_iff.mp ends
  have plain := (codes lastByte (by simp)).1
  rw [unpackBytes, uncompressedLen, if_neg plain, if_neg plain, List.dropLast_concat]
  refine ⟨?_, length.symm⟩
  rw [← unpacked, List.flatMap_append, List.flatMap_singleton]

theorem packs_odd {front packed : List UInt8} (packs : packPairs front = some packed)
    (even : front.length % 2 = 0) (digit : isDigital last) :
      Packs (packed ++ [(last - 48) ||| 0xF0]) (front ++ [last]) := by
  obtain ⟨unpacked, length, codes⟩ := packPairs_spec packs even
  obtain ⟨mark, back⟩ := unpack_odd digit
  refine ⟨by simp, fun zero => ?_, ?_, fun lastByte ends => ?_⟩
  · rcases List.mem_append.mp zero with inside | here
    · exact (codes 0 inside).2 rfl
    · rw [List.mem_singleton] at here
      rw [← here] at mark
      exact absurd mark (by decide)
  · simp only [List.length_append, List.length_singleton]
    omega
  · rw [List.getLast?_concat, Option.mem_some_iff] at ends
    subst ends
    rw [unpackBytes, uncompressedLen, if_pos mark, if_pos mark, List.dropLast_concat, back, unpacked]
    refine ⟨rfl, ?_⟩
    simp only [List.length_append, List.length_singleton]
    omega

theorem numstrCompress_eq {attlen : AttLen} {src out : List UInt8}
    (stored : numstrCompress attlen src = some out) :
    ∃ body, out = compressedHeader attlen body.length ++ body ++ terminator attlen ∧
      Packs body (srcData attlen src) := by
  unfold numstrCompress at stored
  generalize srcData attlen src = data at stored ⊢
  dsimp only at stored
  split at stored
  · cases stored
  · rename_i last ends
    obtain ⟨front, rfl⟩ := List.getLast?_eq_some_iff.mp ends
    have length : (front ++ [last]).length = front.length + 1 := by simp
    by_cases even : (front ++ [last]).length % 2 = 0
    · have plain : ¬ (front ++ [last]).length % 2 ≠ 0 := not_not.mpr even
      rw [if_neg fun refused => plain refused.1, if_neg plain, if_neg (lt_irrefl _),
        List.take_length, even] at stored
      obtain ⟨packed, packs, rfl⟩ := Option.map_eq_some_iff.mp stored
      have spec := (packPairs_spec packs even).2.1
      refine ⟨packed, ?_, packs_even packs even (by simp)⟩
      rw [List.append_nil, Nat.add_zero, spec, Nat.mul_div_cancel _ (by decide)]
    · have odd : (front ++ [last]).length % 2 = 1 := by omega
      have digit : isDigital last := by
        by_contra other
        rw [if_pos ⟨even, by simpa using other⟩] at stored
        cases stored
      rw [if_neg (by simp [digit]), if_pos even, length, Nat.add_sub_cancel, List.take_left,
        if_pos (Nat.lt_succ_self _)] at stored
      obtain ⟨packed, packs, rfl⟩ := Option.map_eq_some_iff.mp stored
      have spec := (packPairs_spec packs (by omega)).2.1
      refine ⟨packed ++ [(last - 48) ||| 0xF0], ?_, packs_odd packs (by omega) digit⟩
      rw [List.length_append, List.length_singleton,
        show front.length / 2 + (front.length + 1) % 2 = packed.length + 1 by omega]

theorem setVarsize_is4BU (len : Nat) (rest : List UInt8) : varattIs4BU (setVarsize len ++ rest) := by
  simp only [varattIs4BU, setVarsize, varhdrsz, leBytes, List.cons_append, List.getD_cons_zero,
    UInt8.toNat_ofNat']
  rw [Nat.and_two_pow_sub_one_eq_mod _ 2]
  omega

theorem varsizeAny_setVarsize (small : len < 2 ^ 30) (rest : List UInt8) :
    varsizeAny (setVarsize len ++ rest) = len ∧ vardataAny (setVarsize len ++ rest) = rest := by
  have four : (setVarsize len).length = 4 := Lib.length_leBytes _ _
  obtain ⟨size, -, data⟩ := CStore.varsizeAny_of_4BU (setVarsize_is4BU len rest)
  constructor
  · rw [size, List.take_left' four, setVarsize, Lib.leNat_leBytes (by rw [varhdrsz]; omega)]
    exact Nat.mul_div_cancel _ (by decide)
  · rw [data]
    exact List.drop_left' four

theorem varsizeAny_setVarsizeShort (filled : 1 ≤ len) (small : len ≤ varattShortMax) (rest : List UInt8) :
    varsizeAny (setVarsizeShort len ++ rest) = len ∧ vardataAny (setVarsizeShort len ++ rest) = rest := by
  rw [varattShortMax] at small
  have byte : (UInt8.ofNat (len * 2 + 1)).toNat = len * 2 + 1 := by
    rw [UInt8.toNat_ofNat', Nat.mod_eq_of_lt (by omega)]
  have other : len * 2 + 1 ≠ 0x01 := by omega
  have odd : len * 2 + 1 &&& 0x01 = 0x01 := by
    rw [Nat.and_one_is_mod]
    omega
  have size : (len * 2 + 1) >>> 1 &&& 0x7F = len := by
    rw [Nat.and_two_pow_sub_one_eq_mod _ 7, Nat.shiftRight_eq_div_pow]
    omega
  constructor
  · simp only [varsizeAny, setVarsizeShort, List.singleton_append, List.getD_cons_zero, byte,
      if_neg other, if_pos odd, size]
  · simp only [vardataAny, setVarsizeShort, List.singleton_append, List.getD_cons_zero, byte,
      if_neg other, if_pos odd, List.drop_succ_cons, List.drop_zero]

theorem varTagSize_le (tag : Nat) : CStore.varTagSize tag ≤ 18 := by
  unfold CStore.varTagSize
  split <;> decide

variable (value : CStore.Varlena)

theorem vardataAny_length_lt :
    (vardataAny value.bytes).length + varhdrsz < 2 ^ 30 := by
  have sized := value.sized []
  rw [List.append_nil] at sized
  unfold vardataAny varhdrsz
  rw [sized]
  unfold varsizeAny at sized
  dsimp only at sized ⊢
  split_ifs at sized ⊢
  · have tag := varTagSize_le (value.bytes.getD 1 0).toNat
    rw [List.length_take, List.length_drop]
    omega
  · have most := @Nat.and_le_right ((value.bytes.getD 0 0).toNat >>> 1) 0x7F
    rw [List.length_drop]
    omega
  · have most := @Nat.and_le_right (Lib.leNat (value.bytes.take 4) >>> 2) 0x3FFFFFFF
    rw [List.length_drop]
    omega

theorem srcData_varlena (behind : List UInt8) :
    srcData .varlena (value.bytes ++ behind) = vardataAny value.bytes := by
  rw [srcData, value.sized, List.take_left]

theorem srcData_cstring (value : CStore.Value .cstring) (behind : List UInt8) :
    srcData .cstring (value.bytes ++ behind) = CStore.text value := by
  obtain ⟨ended, clear⟩ := CStore.bytes_eq_text value
  rw [srcData, ended, List.append_assoc, List.singleton_append,
    CStore.strlen_append_terminator clear, List.take_left]

/-- The stored value tells its own size and gives back its body. -/
theorem srcData_compressed {body : List UInt8} (small : body.length + varhdrsz < 2 ^ 30)
    (rest : List UInt8) :
    varsizeAny (compressedHeader .varlena body.length ++ body ++ rest) =
        (compressedHeader .varlena body.length ++ body).length ∧
      srcData .varlena (compressedHeader .varlena body.length ++ body ++ rest) = body := by
  have size : varsizeAny (compressedHeader .varlena body.length ++ body ++ rest) =
        (compressedHeader .varlena body.length ++ body).length ∧
      vardataAny (compressedHeader .varlena body.length ++ body) = body := by
    rw [List.append_assoc]
    unfold compressedHeader
    dsimp only
    split_ifs with short
    · have whole := varsizeAny_setVarsizeShort (by rw [varhdrszShort]; omega) short
      refine ⟨(whole _).1.trans ?_, (whole _).2⟩
      rw [List.length_append, setVarsizeShort, List.length_singleton, varhdrszShort, Nat.add_comm]
    · have whole := varsizeAny_setVarsize small
      refine ⟨(whole _).1.trans ?_, (whole _).2⟩
      rw [List.length_append, setVarsize, Lib.length_leBytes, Nat.add_comm]
  refine ⟨size.1, ?_⟩
  rw [srcData, size.1, List.take_left, size.2]

theorem numstrUncompress_varlena (behind rest : List UInt8) (buf : Option (Nat × Nat))
    (stored : numstrCompress .varlena (value.bytes ++ behind) = some out) :
    numstrUncompress .varlena (out ++ rest) buf =
      some ⟨out.length, varlena4B (vardataAny value.bytes), buf.map fun buf =>
        paddingSize .varlena buf + (varlena4B (vardataAny value.bytes)).length⟩ := by
  obtain ⟨body, rfl, packs⟩ := numstrCompress_eq stored
  rw [srcData_varlena] at packs
  have bound := vardataAny_length_lt value
  have shorter := packs.shorter
  have small : body.length + varhdrsz < 2 ^ 30 := by omega
  obtain ⟨size, data⟩ := srcData_compressed small rest
  have ends := List.getLast?_eq_some_getLast packs.nonempty
  obtain ⟨unpacked, length⟩ := packs.unpacks _ ends
  rw [terminator, List.append_nil, numstrUncompress, data, size]
  dsimp only
  rw [ends]
  dsimp only
  rw [unpacked, length, uncompressedHeader, terminator, List.append_nil]
  rfl

theorem numstrUncompress_cstring (value : CStore.Value .cstring) (behind rest : List UInt8)
    (buf : Option (Nat × Nat)) (stored : numstrCompress .cstring (value.bytes ++ behind) = some out) :
    numstrUncompress .cstring (out ++ rest) buf = some ⟨out.length, value.bytes, buf.map fun buf =>
        paddingSize .cstring buf + value.bytes.length⟩ := by
  obtain ⟨body, rfl, packs⟩ := numstrCompress_eq stored
  rw [srcData_cstring] at packs
  have ends := List.getLast?_eq_some_getLast packs.nonempty
  obtain ⟨unpacked, length⟩ := packs.unpacks _ ends
  have data : srcData .cstring (body ++ [0] ++ rest) = body := by
    rw [srcData, List.append_assoc, List.singleton_append,
      CStore.strlen_append_terminator packs.clear, List.take_left]
  rw [compressedHeader, terminator, List.nil_append, numstrUncompress, data]
  dsimp only
  rw [ends]
  dsimp only
  rw [unpacked, uncompressedHeader, terminator, List.nil_append,
    ← (CStore.bytes_eq_text value).1, List.length_append, List.length_singleton]

/-- Every accepted value comes back: a varlena as its data under an uncompressed header of four
bytes, so unchanged where it had such a header, and a C string unchanged. -/
theorem numstrUncompress_numstrCompress (behind rest : List UInt8) (buf : Option (Nat × Nat)) :
    (∀ (value : CStore.Varlena) (out : List UInt8),
      numstrCompress .varlena (value.bytes ++ behind) = some out →
        ∃ result, numstrUncompress .varlena (out ++ rest) buf = some result ∧
          result.cmprValSize = out.length ∧
          result.datum = varlena4B (vardataAny value.bytes) ∧
          (varattIs4BU value.bytes → result.datum = value.bytes)) ∧
      ∀ (value : CStore.Value .cstring) (out : List UInt8),
        numstrCompress .cstring (value.bytes ++ behind) = some out →
          ∃ result, numstrUncompress .cstring (out ++ rest) buf = some result ∧
            result.cmprValSize = out.length ∧ result.datum = value.bytes := by
  refine ⟨fun value out stored => ?_, fun value out stored => ?_⟩
  · exact ⟨_, numstrUncompress_varlena value behind rest buf stored, rfl, rfl, CStore.varlena4B_vardataAny⟩
  · exact ⟨_, numstrUncompress_cstring value behind rest buf stored, rfl, rfl⟩

theorem numstrUncompress_numstrCompress_sample :
    ∃ result, numstrUncompress .varlena ([7, 0x22, 0xF3] ++ [9]) none = some result ∧
      result.datum = [28, 0, 0, 0, 49, 50, 51] := by
  obtain ⟨result, back, -, -, same⟩ := (numstrUncompress_numstrCompress [] [9] none).1
    ⟨[28, 0, 0, 0, 49, 50, 51], by decide, by simp [varsizeAny, leNat]⟩ [7, 0x22, 0xF3] (by decide)
  exact ⟨result, back, same (by decide)⟩

/-- The string `12` under a header of one byte comes back under one of four bytes. -/
theorem numstrUncompress_short_header : ∃ value : CStore.Varlena, ∃ out result,
      numstrCompress .varlena value.bytes = some out ∧
        numstrUncompress .varlena out none = some result ∧ result.datum ≠ value.bytes :=
  ⟨⟨[7, 49, 50], by decide, by simp [varsizeAny]⟩, [5, 0x22],
    ⟨2, [24, 0, 0, 0, 49, 50], none⟩, by decide, by decide, by decide⟩

end OpenGauss.PageCompress
