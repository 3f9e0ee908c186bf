import OpenGauss.PageCompress.DeltaCodec
import OpenGauss.PageCompress.DictCodec

/-! The compression header of a row page and the attributes that are compressed with it,
`pagecompress.cpp`. -/

namespace OpenGauss.PageCompress

open Lib (leBytes leNat)
open CStore (varsizeAny vardataAny varlena4B varattIs4BU strlen varhdrsz)

def blcksz : Nat := 8192

def maxPrefixLen : Nat := 256

def NumberTypeOpt.attlen : NumberTypeOpt → Nat
  | int16 => 2
  | int32 => 4
  | uint32 => 4
  | int64 => 8

/-- A column of numbers, which are passed by value, of another type of fixed length, or of a type that
varies in length. -/
inductive Attribute where
  | number (opt : NumberTypeOpt)
  | fixed (attlen : Nat)
  | vary (attlen : AttLen)
deriving DecidableEq, Repr

/-- A value that is not null: its datum, or the bytes that its datum points to. -/
inductive AttVal where
  | byVal (datum : Datum)
  | pointer (bytes : List UInt8)
deriving DecidableEq, Repr

namespace AttVal

def datum : AttVal → Datum
  | byVal datum => datum
  | pointer _ => 0

def bytes : AttVal → List UInt8
  | byVal _ => []
  | pointer bytes => bytes

end AttVal

def storeAttByval (attlen : Nat) (newdatum : Datum) : List UInt8 := leBytes attlen newdatum.toNat

def fetchAtt (attlen : Nat) (start : List UInt8) : Datum := UInt64.ofNat (leNat (start.take attlen))

/-- A cast to `int16`. -/
def castInt16 (size : Nat) : Nat := (Int16.ofNat size).toInt.toNat

def varattIs4BC (bytes : List UInt8) : Prop := (bytes.getD 0 0).toNat &&& 0x03 = 0x02

instance (bytes : List UInt8) : Decidable (varattIs4BC bytes) :=
  inferInstanceAs (Decidable (_ = _))

/-- `VARATT_IS_1B_E` -/
def varattIsExternal (bytes : List UInt8) : Prop := (bytes.getD 0 0).toNat = 0x01

/-- A varlena within a tuple that is not toasted. Compressed data gives at most 273 bytes for each of
its own. -/
structure Inline (value : CStore.Varlena) : Prop where
  size : value.bytes.length < blcksz
  inline : ¬ varattIsExternal value.bytes
  rawsize : varattIs4BC value.bytes →
    8 ≤ value.bytes.length ∧ leNat ((value.bytes.drop 4).take 4) ≤ 273 * value.bytes.length

namespace Attribute

/-- A value that a tuple of the table can have in the column. -/
def IsVal : Attribute → AttVal → Prop
  | number opt, .byVal datum => opt.IsDatum datum
  | fixed attlen, .pointer bytes => bytes.length = attlen
  | vary .varlena, .pointer bytes => ∃ value : CStore.Varlena, value.bytes = bytes ∧ Inline value
  | vary .cstring, .pointer bytes =>
    ∃ value : CStore.Value .cstring, value.bytes = bytes ∧ bytes.length < blcksz
  | _, _ => False

/-- The size of an item of a dictionary. -/
def itemSize (attr : Attribute) (itemData : List UInt8) : Nat :=
  match attr with
  | number opt => opt.attlen
  | fixed attlen => attlen
  | vary .varlena => castInt16 (varsizeAny itemData)
  | vary .cstring => castInt16 (strlen itemData + 1)

def fillHashKey (attr : Attribute) (attval : AttVal) : DictKey :=
  match attr with
  | number opt => storeAttByval opt.attlen attval.datum
  | attr => attval.bytes.take (attr.itemSize attval.bytes)

end Attribute

inductive CmprMode where
  | none
  | delta
  | dict
  | prefixed
  | numstr
deriving DecidableEq, Repr

/-- A method with what it needs. -/
inductive AttrCmprMeta where
  | none
  | delta (deltaInfo : DeltaCmprMeta)
  | dict (dictItems : List DictKey)
  | prefixed (prefixStr : List UInt8)
  | numstr
deriving DecidableEq, Repr

/-- The loop of `NumstrEvaluate` over the values that are not null. Three strings of digits are
enough. -/
def numstrEvaluate (attlen : AttLen) (numStr : Nat) : List (List UInt8) → Bool
  | [] => numStr ≠ 0
  | val :: rest =>
    let data := srcData attlen val
    if data = [] then numstrEvaluate attlen numStr rest
    else if !data.all isDigital then false
    else if 2 < numStr + 1 then true
    else numstrEvaluate attlen (numStr + 1) rest

variable (attr : Attribute)

/-- `none` where the method does not suit the column. The other types of fixed length are never given
one. -/
def Attribute.setCmprMethod (dictMiss : Nat) (colArray : List (Option AttVal))
    (mode : CmprMode) : Option AttrCmprMeta :=
  match mode, attr with
  | .none, _ => some .none
  | .delta, .number opt =>
    (deltaGetCmprMeta (colArray.map (Option.map AttVal.datum)) opt).bind fun deltaInfo =>
      if opt.attlen ≤ deltaInfo.bytes then none else some (.delta deltaInfo)
  | .dict, .number _ | .dict, .vary _ =>
    (dictGetCmprMeta dictMiss (colArray.map (Option.map attr.fillHashKey))).1.map .dict
  | .prefixed, .vary attlen =>
    (prefixGetCmprMeta (some attlen) (colArray.map (Option.map AttVal.bytes))).bind fun prefixStr =>
      if prefixStr.length < maxPrefixLen then some (.prefixed prefixStr) else none
  | .numstr, .vary attlen =>
    if numstrEvaluate attlen 0 (colArray.reduceOption.map AttVal.bytes) then some .numstr else none
  | _, _ => none

/-- A column of a page with the method it got. -/
structure CmprColumn where
  attr : Attribute
  colArray : List (Option AttVal)
  metaInfo : AttrCmprMeta
  valued : ∀ val, some val ∈ colArray → attr.IsVal val
  chosen : ∃ dictMiss mode, attr.setCmprMethod dictMiss colArray mode = some metaInfo

/-- What `SetCmprHeaderData` writes for a column. -/
def Attribute.cmprHeaderData (metaInfo : AttrCmprMeta) : List UInt8 :=
  match metaInfo, attr with
  | .none, _ => [0]
  | .delta deltaInfo, .number opt =>
    1 :: UInt8.ofNat deltaInfo.bytes :: storeAttByval opt.attlen deltaInfo.minVal
  | .delta _, _ => [1]
  | .dict dictItems, _ => 2 :: UInt8.ofNat dictItems.length :: dictItems.flatten
  | .prefixed prefixStr, _ => 3 :: UInt8.ofNat prefixStr.length :: prefixStr
  | .numstr, _ => [4]

variable (cols : List CmprColumn)

def setCmprHeaderData : List UInt8 :=
  cols.flatMap fun col => col.attr.cmprHeaderData col.metaInfo

/-- There is no header where no column is compressed. -/
def cmprHeaderSize : Nat :=
  let rawCols := cols.countP fun col => col.metaInfo = .none
  if cols.length = rawCols then 0 else attAlignNominal (setCmprHeaderData cols).length 8

/-- A signed character as a number. -/
def charGet (byte : UInt8) : Nat := byte.toInt8.toInt.toNat

def Attribute.fetchItems (attr : Attribute) : Nat → List UInt8 → List DictKey
  | 0, _ => []
  | dictItemNum + 1, itemData =>
    itemData.take (attr.itemSize itemData) ::
      attr.fetchItems dictItemNum (itemData.drop (attr.itemSize itemData))

/-- The metadata of a column and its size; `none` where the source asserts. The greatest value is what
the thread had there before. -/
def Attribute.fetchAttrCmprMeta (maxVal : Datum) (attr : Attribute) (metaStart : List UInt8) :
    Option (AttrCmprMeta × Nat) :=
  let count := metaStart.getD 1 0
  let data := metaStart.drop 2
  match (metaStart.getD 0 0).toNat, attr with
  | 0, _ => some (.none, 1)
  | 1, .number opt =>
    some (.delta ⟨fetchAtt opt.attlen data, maxVal, charGet count⟩, 2 + opt.attlen)
  | 2, attr =>
    let dictItems := attr.fetchItems (charGet count) data
    some (.dict dictItems, 2 + dictItems.flatten.length)
  | 3, .vary _ => some (.prefixed (data.take count.toNat), 2 + count.toNat)
  | 4, _ => some (.numstr, 1)
  | _, _ => none

/-- The header column by column, as `nocache_cmprs_get_attr` goes through it. -/
def fetchCmprMetas (maxVal : Datum) : List Attribute → List UInt8 → Option (List AttrCmprMeta)
  | [], _ => some []
  | attr :: attrs, cmprsInfo =>
    (attr.fetchAttrCmprMeta maxVal cmprsInfo).bind fun (metaInfo, metaSize) =>
      (fetchCmprMetas maxVal attrs (cmprsInfo.drop metaSize)).map (metaInfo :: ·)

/-- What is stored for a value that is not null, `none` where it stays as it is. -/
def Attribute.compressOneAttr (metaInfo : AttrCmprMeta) (val : AttVal) :
    Option (List UInt8) :=
  match metaInfo, attr with
  | .delta deltaInfo, .number opt => deltaCompress deltaInfo opt val.datum
  | .dict dictItems, attr =>
    (buildHashTbl dictItems (attr.fillHashKey val)).map fun dictItemId =>
      if dictItems.length = 1 then [] else [dictItemId]
  | .prefixed prefixStr, .vary attlen =>
    if varattIs4BC val.bytes then none else prefixCompress attlen prefixStr val.bytes
  | .numstr, .vary attlen => numstrCompress attlen val.bytes
  | _, _ => none

def Attribute.dictUncompress (dictItems : List DictKey) (id : UInt8) : Option AttVal :=
  dictItems[id.toNat]?.map fun itemData =>
    match attr with
    | .number opt => .byVal (fetchAtt opt.attlen itemData)
    | _ => .pointer itemData

namespace AttrCmprMeta

def needExternalBuf : AttrCmprMeta → Bool
  | prefixed _ => true
  | numstr => true
  | _ => false

/-- `UncompressOneAttr` of the methods that need a buffer, which is the caller's if there is one. -/
def uncompressInto (metaInfo : AttrCmprMeta) (attlen : AttLen) (attrStart : List UInt8)
    (uncmprValBuf : Option (Nat × Nat)) : Option Uncompressed :=
  match metaInfo with
  | prefixed prefixStr => some (prefixUncompress attlen prefixStr attrStart uncmprValBuf)
  | numstr => numstrUncompress attlen attrStart uncmprValBuf
  | _ => Option.none

end AttrCmprMeta

/-- The value and the size of what was stored for it; `none` where the source asserts. -/
def Attribute.uncompressOneAttr (attr : Attribute) (metaInfo : AttrCmprMeta) (attrStart : List UInt8) :
    Option (AttVal × Nat) :=
  match metaInfo, attr with
  | .delta deltaInfo, .number opt =>
    (uncompressOneAttrDelta deltaInfo (some opt) attrStart).map fun (datum, size) =>
      (.byVal datum, size)
  | .dict dictItems, attr =>
    if dictItems.length = 1 then (attr.dictUncompress dictItems 0).map (·, 0)
    else (attr.dictUncompress dictItems (attrStart.getD 0 0)).map (·, 1)
  | metaInfo, .vary attlen =>
    (metaInfo.uncompressInto attlen attrStart none).map fun result =>
      (.pointer result.datum, result.cmprValSize)
  | _, _ => none

/-- How much of the tuple the value of another column takes. -/
def Attribute.getAttrCmprValSize (metaInfo : AttrCmprMeta) (attrStart : List UInt8) :
    Option Nat :=
  match metaInfo, attr with
  | .delta deltaInfo, _ => some deltaInfo.bytes
  | .dict dictItems, _ => some (if dictItems.length = 1 then 0 else 1)
  | .prefixed _, .vary .varlena | .numstr, .vary .varlena => some (varsizeAny attrStart)
  | .prefixed _, .vary .cstring | .numstr, .vary .cstring => some (strlen attrStart + 1)
  | _, _ => none

/-- The value is back: it is unchanged, or it is a varlena with the same data under a header of four
bytes. -/
def Attribute.Restores (val restored : AttVal) : Prop :=
  restored = val ∨ attr = .vary .varlena ∧ ¬ varattIs4BC val.bytes ∧
    restored = .pointer (varlena4B (vardataAny val.bytes))

theorem castInt16_of_lt {size : Nat} (small : size < blcksz) : castInt16 size = size := by
  rw [blcksz] at small
  rw [castInt16, Int16.toInt_ofNat_of_lt (by omega), Int.toNat_natCast]

theorem fetchAtt_storeAttByval {opt : NumberTypeOpt} {datum : Datum} (valued : opt.IsDatum datum)
    (rest : List UInt8) : fetchAtt opt.attlen (storeAttByval opt.attlen datum ++ rest) = datum := by
  have fits : datum.toNat < 256 ^ opt.attlen := by
    cases opt with
    | int16 =>
      obtain ⟨val, rfl⟩ := valued
      exact val.toUInt16.toNat_lt
    | int32 =>
      obtain ⟨val, rfl⟩ := valued
      exact val.toUInt32.toNat_lt
    | uint32 =>
      obtain ⟨val, rfl⟩ := valued
      exact val.toNat_lt
    | int64 => exact datum.toNat_lt
  rw [fetchAtt, storeAttByval, List.take_left' (Lib.length_leBytes _ _), Lib.leNat_leBytes fits,
    UInt64.ofNat_toNat]

namespace Attribute

/-- The item of a value that varies in length is the value. -/
theorem fillHashKey_vary {attlen : AttLen} {val : AttVal} (valued : (vary attlen).IsVal val) :
    val = .pointer ((vary attlen).fillHashKey val) ∧
      ∀ rest, (vary attlen).itemSize ((vary attlen).fillHashKey val ++ rest) =
        ((vary attlen).fillHashKey val).length := by
  cases val with
  | byVal datum => cases attlen <;> exact valued.elim
  | pointer bytes =>
    have sized : ∀ rest, (vary attlen).itemSize (bytes ++ rest) = bytes.length := by
      intro rest
      cases attlen with
      | varlena =>
        obtain ⟨value, rfl, inline⟩ := valued
        rw [itemSize, value.sized, castInt16_of_lt inline.size]
      | cstring =>
        obtain ⟨value, rfl, small⟩ := valued
        have size : strlen (value.bytes ++ rest) + 1 = value.bytes.length := value.sized rest
        rw [itemSize, size, castInt16_of_lt small]
    have whole : (vary attlen).fillHashKey (.pointer bytes) = bytes := by
      have size := sized []
      rw [List.append_nil] at size
      rw [fillHashKey, AttVal.bytes, size, List.take_length]
      intro opt same
      cases same
    rw [whole]
    exact ⟨rfl, sized⟩

theorem itemSize_fillHashKey {attr : Attribute} {val : AttVal} (valued : attr.IsVal val)
    (rest : List UInt8) :
    attr.itemSize (attr.fillHashKey val ++ rest) = (attr.fillHashKey val).length := by
  cases attr with
  | number opt => exact (Lib.length_leBytes _ _).symm
  | fixed attlen =>
    cases val with
    | byVal datum => exact valued.elim
    | pointer bytes =>
      change attlen = (bytes.take attlen).length
      rw [List.length_take, show bytes.length = attlen from valued, min_self]
  | vary attlen => exact (fillHashKey_vary valued).2 rest

theorem fetchItems_flatten {attr : Attribute} {dictItems : List DictKey} (rest : List UInt8)
    (sized : ∀ item ∈ dictItems, ∀ rest, attr.itemSize (item ++ rest) = item.length) :
    attr.fetchItems dictItems.length (dictItems.flatten ++ rest) = dictItems := by
  induction dictItems with
  | nil => rfl
  | cons item dictItems hyp =>
    have size := sized item List.mem_cons_self (dictItems.flatten ++ rest)
    rw [List.length_cons, List.flatten_cons, List.append_assoc, fetchItems, size, List.take_left,
      List.drop_left, hyp fun other member => sized other (List.mem_cons_of_mem _ member)]

end Attribute

theorem charGet_ofNat {count : Nat} (small : count < 128) : charGet (UInt8.ofNat count) = count := by
  interval_cases count <;> rfl

/-- What a method knows of a column that got it. -/
def Attribute.Formed : AttrCmprMeta → Prop
  | .none => True
  | .delta deltaInfo => ∃ opt, attr = .number opt ∧ opt.IsDatum deltaInfo.minVal ∧
      deltaInfo.bytes < numberMaxValueInBytes
  | .dict dictItems => dictItems.length < 128 ∧
      ∀ item ∈ dictItems, ∃ val, attr.IsVal val ∧ attr.fillHashKey val = item
  | .prefixed prefixStr => prefixStr.length < maxPrefixLen ∧
      ∃ attlen, attr = .vary attlen ∧ (attlen = .cstring → 0 ∉ prefixStr)
  | .numstr => ∃ attlen, attr = .vary attlen

theorem mem_of_map {colArray : List (Option AttVal)} {α : Type} {f : AttVal → α} {found : α}
    (member : some found ∈ colArray.map (Option.map f)) : ∃ val, some val ∈ colArray ∧ f val = found := by
  obtain ⟨entry, held, mapped⟩ := List.mem_map.mp member
  obtain ⟨val, rfl, same⟩ := Option.map_eq_some_iff.mp mapped
  exact ⟨val, held, same⟩

namespace CmprColumn

theorem formed_dict {attr : Attribute} {dictMiss : Nat} {colArray : List (Option AttVal)}
    {metaInfo : AttrCmprMeta} (valued : ∀ val, some val ∈ colArray → attr.IsVal val)
    (chosen : (dictGetCmprMeta dictMiss (colArray.map (Option.map attr.fillHashKey))).1.map .dict =
      some metaInfo) : attr.Formed metaInfo := by
  obtain ⟨dictItems, built, rfl⟩ := Option.map_eq_some_iff.mp chosen
  obtain ⟨-, -, members, few⟩ := dictGetCmprMeta_spec built
  refine ⟨few, fun item member => ?_⟩
  obtain ⟨val, held, same⟩ := mem_of_map (members item member)
  exact ⟨val, valued val held, same⟩

theorem formed (col : CmprColumn) : col.attr.Formed col.metaInfo := by
  obtain ⟨attr, colArray, metaInfo, valued, dictMiss, mode, chosen⟩ := col
  dsimp only
  unfold Attribute.setCmprMethod at chosen
  split at chosen
  · obtain rfl := Option.some.inj chosen
    trivial
  · rename_i opt
    obtain ⟨deltaInfo, built, taken⟩ := Option.bind_eq_some_iff.mp chosen
    split_ifs at taken
    obtain rfl := Option.some.inj taken
    obtain ⟨member, narrow⟩ := deltaGetCmprMeta_spec built
    obtain ⟨val, held, same⟩ := mem_of_map member
    refine ⟨opt, rfl, ?_, narrow⟩
    have datum := valued val held
    cases val with
    | byVal datum => exact same ▸ datum
    | pointer bytes => exact datum.elim
  · exact formed_dict valued chosen
  · exact formed_dict valued chosen
  · rename_i attlen
    obtain ⟨prefixStr, built, taken⟩ := Option.bind_eq_some_iff.mp chosen
    split_ifs at taken with short
    obtain rfl := Option.some.inj taken
    refine ⟨short, attlen, rfl, ?_⟩
    rintro rfl
    exact prefixGetCmprMeta_clear built
  · rename_i attlen
    split_ifs at chosen
    obtain rfl := Option.some.inj chosen
    exact ⟨attlen, rfl⟩
  · cases chosen

end CmprColumn

/-- What is not stored of the metadata. -/
def AttrCmprMeta.withMaxVal (maxVal : Datum) : AttrCmprMeta → AttrCmprMeta
  | delta deltaInfo => delta { deltaInfo with maxVal }
  | other => other

theorem Attribute.fetchAttrCmprMeta_cmprHeaderData {attr : Attribute} {metaInfo : AttrCmprMeta}
    (formed : attr.Formed metaInfo) (maxVal : Datum) (rest : List UInt8) :
    attr.fetchAttrCmprMeta maxVal (attr.cmprHeaderData metaInfo ++ rest) =
      some (metaInfo.withMaxVal maxVal, (attr.cmprHeaderData metaInfo).length) := by
  cases metaInfo with
  | none => rfl
  | delta deltaInfo =>
    obtain ⟨opt, rfl, based, narrow⟩ := formed
    have width : charGet (UInt8.ofNat deltaInfo.bytes) = deltaInfo.bytes :=
      charGet_ofNat (lt_trans narrow (by decide))
    have base := fetchAtt_storeAttByval based rest
    have length : (storeAttByval opt.attlen deltaInfo.minVal).length = opt.attlen :=
      Lib.length_leBytes _ _
    change some (AttrCmprMeta.delta ⟨fetchAtt opt.attlen (storeAttByval opt.attlen deltaInfo.minVal ++ rest),
      maxVal, charGet (UInt8.ofNat deltaInfo.bytes)⟩, 2 + opt.attlen) = some (_,
        (storeAttByval opt.attlen deltaInfo.minVal).length + 1 + 1)
    rw [base, width, length, Nat.add_comm 2]
    rfl
  | dict dictItems =>
    obtain ⟨few, members⟩ := formed
    have back : attr.fetchItems dictItems.length (dictItems.flatten ++ rest) = dictItems := by
      refine fetchItems_flatten rest fun item member rest => ?_
      obtain ⟨val, valued, rfl⟩ := members item member
      exact itemSize_fillHashKey valued rest
    have read : attr.fetchItems (charGet (UInt8.ofNat dictItems.length)) (dictItems.flatten ++ rest) =
        dictItems := by rw [charGet_ofNat few, back]
    change some (AttrCmprMeta.dict (attr.fetchItems (charGet (UInt8.ofNat dictItems.length))
      (dictItems.flatten ++ rest)), 2 + (attr.fetchItems (charGet (UInt8.ofNat dictItems.length))
        (dictItems.flatten ++ rest)).flatten.length) = some (_, dictItems.flatten.length + 1 + 1)
    rw [read, Nat.add_comm 2]
    rfl
  | prefixed prefixStr =>
    obtain ⟨short, attlen, rfl, -⟩ := formed
    have count : (UInt8.ofNat prefixStr.length).toNat = prefixStr.length := by
      rw [maxPrefixLen] at short
      rw [UInt8.toNat_ofNat', Nat.mod_eq_of_lt short]
    change some (AttrCmprMeta.prefixed ((prefixStr ++ rest).take (UInt8.ofNat prefixStr.length).toNat),
      2 + (UInt8.ofNat prefixStr.length).toNat) = some (_, prefixStr.length + 1 + 1)
    rw [count, List.take_left, Nat.add_comm 2]
    rfl
  | numstr => rfl

/-- Column by column the metadata that was written is read. -/
theorem fetchCmprMetas_setCmprHeaderData (maxVal : Datum) (rest : List UInt8) :
    fetchCmprMetas maxVal (cols.map (·.attr)) (setCmprHeaderData cols ++ rest) =
      some (cols.map fun col => col.metaInfo.withMaxVal maxVal) := by
  induction cols with
  | nil => rfl
  | cons col cols hyp =>
    have first := Attribute.fetchAttrCmprMeta_cmprHeaderData col.formed maxVal
      (setCmprHeaderData cols ++ rest)
    rw [setCmprHeaderData, List.flatMap_cons, List.append_assoc, ← setCmprHeaderData, List.map_cons,
      fetchCmprMetas, first, Option.bind_some]
    dsimp only
    rw [List.drop_left, hyp]
    rfl

/-- What the page has for a header: the buffer up to the size that was set. -/
def cmprHeader (behind : List UInt8) : List UInt8 :=
  (setCmprHeaderData cols ++ behind).take (cmprHeaderSize cols)

theorem length_le_cmprHeaderSize {cols : List CmprColumn} (used : cmprHeaderSize cols ≠ 0) :
    (setCmprHeaderData cols).length ≤ cmprHeaderSize cols := by
  unfold cmprHeaderSize at used ⊢
  dsimp only at used ⊢
  split_ifs at used ⊢
  · exact absurd rfl used
  · rw [attAlignNominal]
    omega

theorem cmprHeaderSize_eq_zero {cols : List CmprColumn} (unused : cmprHeaderSize cols = 0) {col : CmprColumn}
    (member : col ∈ cols) : col.metaInfo = .none := by
  have filled : 0 < (setCmprHeaderData cols).length := by
    rw [setCmprHeaderData, List.length_flatMap, ← Nat.ne_zero_iff_zero_lt]
    intro absent
    have each := List.sum_eq_zero_iff.mp absent _ (List.mem_map_of_mem member)
    unfold Attribute.cmprHeaderData at each
    split at each <;> simp at each
  unfold cmprHeaderSize at unused
  dsimp only at unused
  split_ifs at unused with raw
  · exact of_decide_eq_true (List.countP_eq_length.mp raw.symm col member)
  · rw [attAlignNominal] at unused
    omega

theorem zero_notMem_unpackByte (byte : UInt8) : 0 ∉ unpackByte byte := by
  have digit {code : UInt8} (small : code.toNat ≤ 15) : 0 ≠ code + 48 := by
    intro zero
    have value := congrArg UInt8.toNat zero
    rw [UInt8.toNat_add] at value
    change 0 = (code.toNat + 48) % 256 at value
    omega
  have low : ((byte - 1) &&& 0x0F).toNat ≤ 15 := by
    rw [UInt8.toNat_and]
    exact Nat.and_le_right
  have high : (((byte - 1) &&& 0xF0) >>> (4 : UInt8)).toNat ≤ 15 := by
    have most : (byte - 1).toNat &&& 240 ≤ 240 := Nat.and_le_right
    rw [UInt8.toNat_shiftRight, UInt8.toNat_and]
    change ((byte - 1).toNat &&& 240) >>> 4 ≤ 15
    rw [Nat.shiftRight_eq_div_pow]
    omega
  simp only [unpackByte, List.mem_cons, List.not_mem_nil, or_false, not_or]
  exact ⟨digit low, digit high⟩

theorem zero_notMem_unpackBytes (data : List UInt8) (lastByte : UInt8) : 0 ∉ unpackBytes data lastByte := by
  intro zero
  rcases List.mem_append.mp zero with front | last
  · obtain ⟨byte, -, here⟩ := List.mem_flatMap.mp front
    exact zero_notMem_unpackByte byte here
  · split_ifs at last with odd
    · -- The one digit of a last byte of an odd length is the first of the two it could have.
      have first := zero_notMem_unpackByte (lastByte + 1)
      rw [unpackByte, UInt8.add_sub_cancel] at first
      exact first (List.mem_cons.mpr (.inl (List.mem_singleton.mp last)))
    · exact zero_notMem_unpackByte lastByte last

/-- The size that compressed data begins with has a zero in its last byte. -/
theorem zero_mem_vardataAny {value : CStore.Varlena} (inline : Inline value)
    (compressed : varattIs4BC value.bytes) : 0 ∈ vardataAny value.bytes := by
  obtain ⟨long, raw⟩ := inline.rawsize compressed
  have small := inline.size
  rw [blcksz] at small
  have low : (value.bytes.getD 0 0).toNat % 4 = 2 :=
    (Nat.and_two_pow_sub_one_eq_mod _ 2).symm.trans compressed
  have other : (value.bytes.getD 0 0).toNat ≠ 0x01 := by omega
  have even : ¬ (value.bytes.getD 0 0).toNat &&& 0x01 = 0x01 := by
    rw [Nat.and_one_is_mod]
    omega
  have data : vardataAny value.bytes = value.bytes.drop 4 := by
    unfold vardataAny
    dsimp only
    rw [if_neg other, if_neg even, varhdrsz]
  have four : 4 ≤ (value.bytes.drop 4).length := by
    rw [List.length_drop]
    omega
  rw [data]
  generalize value.bytes.drop 4 = stream at raw four
  rcases stream with _ | ⟨first, _ | ⟨second, _ | ⟨third, _ | ⟨last, rest⟩⟩⟩⟩
  iterate 4 simp at four
  simp only [List.take_succ_cons, List.take_zero, leNat] at raw
  have zero : last = 0 := by
    refine UInt8.toNat_inj.mp ?_
    change last.toNat = 0
    omega
  simp [zero]

/-- Data that is compressed already is no string of digits. -/
theorem numstrCompress_4BC {value : CStore.Varlena} (inline : Inline value)
    (compressed : varattIs4BC value.bytes) : numstrCompress .varlena value.bytes = none := by
  by_contra accepted
  obtain ⟨out, stored⟩ := Option.ne_none_iff_exists'.mp accepted
  obtain ⟨body, -, packs⟩ := numstrCompress_eq stored
  have whole := srcData_varlena value []
  rw [List.append_nil] at whole
  rw [whole] at packs
  have ends := List.getLast?_eq_some_getLast packs.nonempty
  obtain ⟨unpacked, -⟩ := packs.unpacks _ ends
  exact zero_notMem_unpackBytes _ _ (unpacked ▸ zero_mem_vardataAny inline compressed)

namespace Attribute

/-- What a reader gets from where a stored value starts. -/
structure Back (attr : Attribute) (metaInfo : AttrCmprMeta) (val : AttVal) (attrStart : List UInt8)
    (size : Nat) (restored : AttVal) : Prop where
  restores : attr.Restores val restored
  uncompressed : attr.uncompressOneAttr metaInfo attrStart = some (restored, size)
  skipped : attr.getAttrCmprValSize metaInfo attrStart = some size
  buffered : ∀ attlen buf, attr = .vary attlen → metaInfo.needExternalBuf →
    metaInfo.uncompressInto attlen attrStart (some buf) =
      some ⟨size, restored.bytes, some (paddingSize attlen buf + restored.bytes.length)⟩

variable {attr : Attribute} {metaInfo : AttrCmprMeta} {val : AttVal} {out : List UInt8}

theorem back_delta {opt : NumberTypeOpt} {deltaInfo : DeltaCmprMeta} (based : opt.IsDatum deltaInfo.minVal)
    (narrow : deltaInfo.bytes < numberMaxValueInBytes) (valued : (number opt).IsVal val)
    (accepted : deltaCompress deltaInfo opt val.datum = some out) (behind : List UInt8) :
    (number opt).Back (.delta deltaInfo) val (out ++ behind) out.length val := by
  cases val with
  | pointer bytes => exact valued.elim
  | byVal datum =>
    have back := (uncompressOneAttr_of_deltaCompress based valued narrow accepted behind).1
    have width : out.length = deltaInfo.bytes := by
      rw [(deltaCompress_eq narrow accepted).1, length_storeDelta]
    refine ⟨.inl rfl, ?_, congrArg some width.symm, fun attlen buf same => by cases same⟩
    rw [uncompressOneAttr, back]
    rfl

theorem dictUncompress_fillHashKey {dictItems : List DictKey} {id : UInt8} (valued : attr.IsVal val)
    (found : dictItems[id.toNat]? = some (attr.fillHashKey val)) :
    attr.dictUncompress dictItems id = some val := by
  rw [dictUncompress, found, Option.map_some, Option.some.injEq]
  cases attr with
  | number opt =>
    cases val with
    | pointer bytes => exact valued.elim
    | byVal datum =>
      have back := fetchAtt_storeAttByval valued []
      rw [List.append_nil] at back
      exact congrArg AttVal.byVal back
  | fixed attlen =>
    cases val with
    | byVal datum => exact valued.elim
    | pointer bytes =>
      change AttVal.pointer (bytes.take attlen) = _
      rw [List.take_of_length_le (le_of_eq valued)]
  | vary attlen => exact (fillHashKey_vary valued).1.symm

theorem back_dict {dictItems : List DictKey} (few : dictItems.length < 128) (valued : attr.IsVal val)
    (accepted : attr.compressOneAttr (.dict dictItems) val = some out) (behind : List UInt8) :
    attr.Back (.dict dictItems) val (out ++ behind) out.length val := by
  have accepted : (buildHashTbl dictItems (attr.fillHashKey val)).map
      (fun dictItemId => if dictItems.length = 1 then [] else [dictItemId]) = some out := by
    cases attr <;> exact accepted
  obtain ⟨id, found, rfl⟩ := Option.map_eq_some_iff.mp accepted
  have place := buildHashTbl_spec (by omega) found
  have back := dictUncompress_fillHashKey valued place
  have size : attr.getAttrCmprValSize (.dict dictItems) = fun _ =>
      some (if dictItems.length = 1 then 0 else 1) := by
    funext start
    cases attr <;> rfl
  have read (start : List UInt8) : attr.uncompressOneAttr (.dict dictItems) start =
      if dictItems.length = 1 then (attr.dictUncompress dictItems 0).map (·, 0)
      else (attr.dictUncompress dictItems (start.getD 0 0)).map (·, 1) := by
    cases attr <;> rfl
  refine ⟨.inl rfl, ?_, ?_, fun attlen buf _ external => by cases external⟩
  · rw [read]
    split_ifs with one
    · -- With one item nothing is stored, and its number can only be zero.
      have inside := (List.getElem?_eq_some_iff.mp place).1
      have zero : id = 0 := by
        refine UInt8.toNat_inj.mp ?_
        change id.toNat = 0
        omega
      rw [← zero, back]
      rfl
    · rw [List.singleton_append, List.getD_cons_zero, back]
      rfl
  · rw [size]
    split_ifs <;> rfl

theorem length_srcData_cstring (src : List UInt8) : (srcData .cstring src).length = strlen src := by
  have inside : strlen src ≤ src.length := List.findIdx_le_length
  rw [srcData, List.length_take, min_eq_left inside]

/-- The size is found without uncompressing. -/
theorem getAttrCmprValSize_of_uncompressInto {attlen : AttLen} {attrStart : List UInt8}
    {buf : Option (Nat × Nat)} {result : Uncompressed}
    (back : metaInfo.uncompressInto attlen attrStart buf = some result) :
    (vary attlen).getAttrCmprValSize metaInfo attrStart = some result.cmprValSize := by
  cases metaInfo with
  | none | delta | dict => cases back
  | prefixed prefixStr =>
    obtain rfl := Option.some.inj back
    cases attlen with
    | varlena => rfl
    | cstring =>
      change some (strlen attrStart + 1) = some ((srcData .cstring attrStart).length + 1)
      rw [length_srcData_cstring]
  | numstr =>
    change numstrUncompress attlen attrStart buf = some result at back
    unfold numstrUncompress at back
    dsimp only at back
    split at back
    · cases back
    · obtain rfl := Option.some.inj back
      cases attlen with
      | varlena => rfl
      | cstring =>
        change some (strlen attrStart + 1) = some ((srcData .cstring attrStart).length + 1)
        rw [length_srcData_cstring]

section

variable {attlen : AttLen} (formed : (vary attlen).Formed metaInfo)
  (external : metaInfo.needExternalBuf) (valued : (vary attlen).IsVal val)
  (accepted : (vary attlen).compressOneAttr metaInfo val = some out) (behind : List UInt8)

include formed external valued accepted behind

/-- The methods for strings give back the same data, into whatever buffer. -/
theorem uncompressInto_back : ∃ datum, (vary attlen).Restores val (.pointer datum) ∧
      ∀ buf, metaInfo.uncompressInto attlen (out ++ behind) buf =
        some ⟨out.length, datum, buf.map fun buf => paddingSize attlen buf + datum.length⟩ := by
  cases val with
  | byVal datum => cases attlen <;> exact valued.elim
  | pointer bytes =>
    cases metaInfo with
    | none | delta | dict => cases external
    | prefixed prefixStr =>
      change (if varattIs4BC bytes then none else prefixCompress attlen prefixStr bytes) = _ at accepted
      split_ifs at accepted with compressed
      cases attlen with
      | varlena =>
        obtain ⟨value, rfl, -⟩ := valued
        rw [← List.append_nil value.bytes] at accepted
        exact ⟨_, .inr ⟨rfl, compressed, rfl⟩, fun buf =>
          congrArg some (prefixUncompress_varlena value [] behind buf accepted)⟩
      | cstring =>
        obtain ⟨value, rfl, -⟩ := valued
        obtain ⟨-, attlen, same, clear⟩ := formed
        rw [← List.append_nil value.bytes] at accepted
        exact ⟨_, .inl rfl, fun buf => congrArg some
          (prefixUncompress_cstring value [] behind buf (clear (vary.inj same).symm) accepted)⟩
    | numstr =>
      change numstrCompress attlen bytes = _ at accepted
      cases attlen with
      | varlena =>
        obtain ⟨value, rfl, inline⟩ := valued
        have plain : ¬ varattIs4BC value.bytes := by
          intro compressed
          rw [numstrCompress_4BC inline compressed] at accepted
          cases accepted
        rw [← List.append_nil value.bytes] at accepted
        exact ⟨_, .inr ⟨rfl, plain, rfl⟩, fun buf => numstrUncompress_varlena value [] behind buf accepted⟩
      | cstring =>
        obtain ⟨value, rfl, -⟩ := valued
        rw [← List.append_nil value.bytes] at accepted
        exact ⟨_, .inl rfl, fun buf => numstrUncompress_cstring value [] behind buf accepted⟩

theorem back_external : ∃ restored, (vary attlen).Back metaInfo val (out ++ behind) out.length restored := by
  obtain ⟨datum, restores, back⟩ := uncompressInto_back formed external valued accepted behind
  have read : (vary attlen).uncompressOneAttr metaInfo (out ++ behind) =
      (metaInfo.uncompressInto attlen (out ++ behind) none).map fun result =>
        (.pointer result.datum, result.cmprValSize) := by
    cases metaInfo with
    | none | delta | dict => cases external
    | prefixed prefixStr => rfl
    | numstr => rfl
  refine ⟨.pointer datum, restores, ?_, getAttrCmprValSize_of_uncompressInto (back none), ?_⟩
  · rw [read, back none]
    rfl
  · rintro attlen buf same -
    obtain rfl := vary.inj same
    exact back (some buf)

end

theorem back (formed : attr.Formed metaInfo) (valued : attr.IsVal val)
    (accepted : attr.compressOneAttr metaInfo val = some out) (behind : List UInt8) :
    ∃ restored, attr.Back metaInfo val (out ++ behind) out.length restored := by
  cases metaInfo with
  | none => cases attr <;> cases accepted
  | delta deltaInfo =>
    obtain ⟨opt, rfl, based, narrow⟩ := formed
    exact ⟨val, back_delta based narrow valued accepted behind⟩
  | dict dictItems => exact ⟨val, back_dict formed.1 valued accepted behind⟩
  | prefixed prefixStr =>
    obtain ⟨attlen, rfl, -⟩ := formed.2
    exact back_external formed rfl valued accepted behind
  | numstr =>
    obtain ⟨attlen, same⟩ := id formed
    subst same
    exact back_external formed rfl valued accepted behind

theorem Back.withMaxVal {attrStart : List UInt8} {size : Nat} {restored : AttVal}
    (back : attr.Back metaInfo val attrStart size restored) (maxVal : Datum) :
    attr.Back (metaInfo.withMaxVal maxVal) val attrStart size restored := by
  cases metaInfo with
  | delta deltaInfo =>
    cases attr with
    | number opt => exact ⟨back.restores, back.uncompressed, back.skipped, back.buffered⟩
    | fixed | vary => cases back.uncompressed
  | none | dict | prefixed | numstr => exact back

end Attribute

/-- Whatever methods the columns of a page got, the reader finds their metadata in its header, and every
attribute that is stored with them comes back from it. A page without a header has nothing compressed. -/
theorem uncompressOneAttr_compressOneAttr (cols : List CmprColumn) (behind rest : List UInt8)
    (maxVal : Datum) :
    (cmprHeaderSize cols = 0 ∧ (∀ col ∈ cols, ∀ val, col.attr.compressOneAttr col.metaInfo val = none) ∨
      fetchCmprMetas maxVal (cols.map (·.attr)) (cmprHeader cols behind ++ rest) =
        some (cols.map fun col => col.metaInfo.withMaxVal maxVal)) ∧
    ∀ col ∈ cols, ∀ val out, col.attr.IsVal val → col.attr.compressOneAttr col.metaInfo val = some out →
        ∃ restored, col.attr.Back (col.metaInfo.withMaxVal maxVal) val (out ++ behind) out.length
          restored := by
  refine ⟨?_, fun col _ val out valued accepted => ?_⟩
  · by_cases unused : cmprHeaderSize cols = 0
    · refine .inl ⟨unused, fun col member val => ?_⟩
      rw [cmprHeaderSize_eq_zero unused member]
      cases col.attr <;> rfl
    · right
      rw [cmprHeader, List.take_append, List.take_of_length_le (length_le_cmprHeaderSize unused),
        List.append_assoc]
      exact fetchCmprMetas_setCmprHeaderData cols maxVal _
  · obtain ⟨restored, back⟩ := Attribute.back col.formed valued accepted behind
    exact ⟨restored, back.withMaxVal maxVal⟩

/-- A page that holds 3 and 200 in a column of integers. -/
def numberColumn : CmprColumn where
  attr := .number .int32
  colArray := [some (.byVal 200), none, some (.byVal 3)]
  metaInfo := .delta ⟨3, 200, 1⟩
  valued := by
    intro val member
    simp only [List.mem_cons, Option.some.injEq, reduceCtorEq, List.not_mem_nil, false_or,
      or_false] at member
    rcases member with rfl | rfl
    · exact ⟨200, rfl⟩
    · exact ⟨3, rfl⟩
  chosen := ⟨0, .delta, by decide⟩

theorem inline_sampleString (last : UInt8) : Inline (sampleString last) where
  size := by simp [sampleString, blcksz]
  inline := by simp [sampleString, varattIsExternal]
  rawsize packed := absurd packed (by simp [sampleString, varattIs4BC])

/-- Its strings `abc` and `abd` have a prefix. -/
def stringColumn : CmprColumn where
  attr := .vary .varlena
  colArray := [some (.pointer [9, 97, 98, 99]), none, some (.pointer [9, 97, 98, 100])]
  metaInfo := .prefixed [97, 98]
  valued := by
    intro val member
    simp only [List.mem_cons, Option.some.injEq, reduceCtorEq, List.not_mem_nil, false_or,
      or_false] at member
    rcases member with rfl | rfl
    · exact ⟨sampleString 99, rfl, inline_sampleString 99⟩
    · exact ⟨sampleString 100, rfl, inline_sampleString 100⟩
  chosen := ⟨0, .prefixed, by decide⟩

/-- Both methods are found in the header. 100 is one byte, and of `abz` the last character is stored. -/
theorem uncompressOneAttr_compressOneAttr_sample :
    fetchCmprMetas 0 [.number .int32, .vary .varlena] (cmprHeader [numberColumn, stringColumn] [9] ++ []) =
        some [.delta ⟨3, 0, 1⟩, .prefixed [97, 98]] ∧
      (∃ restored, (Attribute.number .int32).Back (.delta ⟨3, 0, 1⟩) (.byVal 100) ([97] ++ [9]) 1 restored) ∧
      ∃ restored, (Attribute.vary .varlena).Back (.prefixed [97, 98]) (.pointer [9, 97, 98, 122])
        ([5, 122] ++ [9]) 2 restored := by
  obtain ⟨header, back⟩ := uncompressOneAttr_compressOneAttr [numberColumn, stringColumn] [9] [] 0
  exact ⟨header.resolve_left fun unused => absurd unused.1 (by decide),
    back numberColumn (by simp) (.byVal 100) [97] ⟨100, rfl⟩ (by decide),
    back stringColumn (by simp) (.pointer [9, 97, 98, 122]) [5, 122]
      ⟨sampleString 122, rfl, inline_sampleString 122⟩ (by decide)⟩

end OpenGauss.PageCompress
