import OpenGauss.CStore.RleCoder
import OpenGauss.Lib.SelfSized

/-! Dictionary coding, `DicCoder` of `compress_kits.cpp`. -/

namespace OpenGauss.CStore

open Lib

/-- `VARTAG_SIZE`; an unknown tag gives the value `TrapMacro` has without assertions. -/
def varTagSize (tag : Nat) : Nat :=
  match tag % 128 with
  | 1 => 8
  | 18 => 16
  | 8 => 18
  | 28 => 16
  | _ => 1

/-- `VARSIZE_ANY` on a little-endian machine. -/
def varsizeAny (datum : List UInt8) : Nat :=
  let header := (datum.getD 0 0).toNat
  if header = 0x01 then 2 + varTagSize (datum.getD 1 0).toNat
  else if header &&& 0x01 = 0x01 then (header >>> 1) &&& 0x7F
  else (leNat (datum.take 4) >>> 2) &&& 0x3FFFFFFF

/-- A value of a variable-length type, header included. -/
abbrev Varlena := SelfSized varsizeAny

def dictGetMaxNumber (number : Nat) : Nat := number / 4 + 1

def invalidPosition : Nat := 0xFFFFFFFF

def freeHashSlot : Nat := 0xFFFF

def sizeOfDictHeader : Nat := 8

def sizeOfDicCodeType : Nat := 2

/-- The dictionary in memory; `data` is the used part of the item area. -/
structure DicData where
  itemsMaxSize : Nat
  itemUsedSize : Nat
  maxItemCount : Nat
  curItemCount : Nat
  itemOffset : List Nat
  slots : List Nat
  data : List UInt8

namespace DicData

def init (itemsMaxSize itemsMaxCount : Nat) : DicData where
  itemsMaxSize := itemsMaxSize
  itemUsedSize := 0
  maxItemCount := itemsMaxCount % 2 ^ 16
  curItemCount := 0
  itemOffset := 0 :: List.replicate itemsMaxCount invalidPosition
  slots := List.replicate (itemsMaxCount % 2 ^ 16 * 2) freeHashSlot
  data := []

def getHashSlotsCount (dict : DicData) : Nat := dict.maxItemCount * 2

def isEnoughToAppend (dict : DicData) (appendSize : Nat) : Bool :=
  dict.itemUsedSize + appendSize ≤ dict.itemsMaxSize ∧ dict.curItemCount < dict.maxItemCount

def append (dict : DicData) (slotIndex : Nat) (datum : List UInt8) : DicData :=
  { dict with
    curItemCount := dict.curItemCount + 1
    slots := dict.slots.set slotIndex dict.curItemCount
    data := dict.data ++ datum
    itemUsedSize := dict.itemUsedSize + datum.length
    itemOffset := dict.itemOffset.set (dict.curItemCount + 1)
      (dict.itemOffset.getD dict.curItemCount invalidPosition + datum.length) }

/-- The search from a slot, over as many slots as there are; `none` where the value cannot be
coded. -/
def probe (dict : DicData) (datum : List UInt8) : Nat → Nat → Option (DicData × Nat)
  | 0, _ => none
  | conflicts + 1, slotIndex =>
    let dictItemIdx := dict.slots.getD slotIndex freeHashSlot
    if dictItemIdx = freeHashSlot then
      if dict.isEnoughToAppend datum.length then
        some (dict.append slotIndex datum, dict.curItemCount)
      else none
    else
      let dicDatumChars := dict.data.drop (dict.itemOffset.getD dictItemIdx invalidPosition)
      let dicDatumLen := varsizeAny dicDatumChars
      if dicDatumLen = datum.length ∧ dicDatumChars.take datum.length = datum then
        some (dict, dictItemIdx)
      else probe dict datum conflicts ((slotIndex + 1) % dict.getHashSlotsCount)

/-- The datum is what stands at a position of the input. -/
def encodeOneValue (hashAny : List UInt8 → UInt32) (dict : DicData) (datum : List UInt8) :
    Option (DicData × Nat) :=
  let datumChars := datum.take (varsizeAny datum)
  dict.probe datumChars dict.getHashSlotsCount ((hashAny datumChars).toNat % dict.getHashSlotsCount)

/-- The loop of `Compress`: the dictionary and the codes so far, and what is left of the input. A
value takes at least one byte, so that as many passes as there are bytes are enough. -/
def encodeLoop (hashAny : List UInt8 → UInt32) :
    Nat → DicData → List Nat → List UInt8 → DicData × List Nat × List UInt8
  | 0, dict, codes, input => (dict, codes, input)
  | passes + 1, dict, codes, input =>
    if input = [] then (dict, codes, input)
    else
      match encodeOneValue hashAny dict input with
      | some (next, code) =>
        encodeLoop hashAny passes next (codes ++ [code]) (input.drop (varsizeAny input))
      | none => (dict, codes, input)

/-- The constructor for a buffer of values and `Compress` on it: the dictionary and the codes,
`none` where dictionary coding is given up. -/
def compress (hashAny : List UInt8 → UInt32) (inBuf : List UInt8) (numVals : Nat) :
    Option (DicData × List Nat) :=
  let dict := init (dictGetMaxNumber inBuf.length) (dictGetMaxNumber numVals)
  let (dict, codes, rest) := encodeLoop hashAny inBuf.length dict [] inBuf
  if rest = [] ∧ dict.itemUsedSize + sizeOfDictHeader < inBuf.length then some (dict, codes)
  else none

def totalSize (dict : DicData) : Nat := sizeOfDictHeader + dict.itemUsedSize

/-- The dictionary as it is stored: its header and its items. -/
def onDisk (dict : DicData) : List UInt8 :=
  leBytes 4 dict.totalSize ++ leBytes 4 dict.curItemCount ++ dict.data

end DicData

/-- A stored dictionary with the places of its items. -/
structure DiskDict where
  totalSize : Nat
  itemsCount : Nat
  itemOffset : List Nat
  data : List UInt8

namespace DiskDict

/-- The loop over the stored items, from the offset of one of them. -/
def offsets (data : List UInt8) (dictDataSize : Nat) : Nat → Nat → List Nat
  | 0, offset => [offset]
  | passes + 1, offset =>
    if offset < dictDataSize then
      offset :: offsets data dictDataSize passes (offset + varsizeAny (data.drop offset))
    else [offset]

def ofDisk (dictInDisk : List UInt8) : DiskDict :=
  let totalSize := leNat (dictInDisk.take 4)
  let data := dictInDisk.drop sizeOfDictHeader
  let dictDataSize := totalSize - sizeOfDictHeader
  { totalSize := totalSize
    itemsCount := leNat ((dictInDisk.drop 4).take 4)
    itemOffset := offsets data dictDataSize dictDataSize 0
    data := data }

def decodeOneValue (dict : DiskDict) (itemIndx : Nat) : List UInt8 :=
  let pItem := dict.data.drop (dict.itemOffset.getD itemIndx invalidPosition)
  pItem.take (varsizeAny pItem)

/-- The codes are counted in 16 bits. -/
def decompress (dict : DiskDict) (itemIndex : List Nat) : List UInt8 :=
  (itemIndex.take (itemIndex.length % 2 ^ 16)).flatMap dict.decodeOneValue

end DiskDict

open SelfSized

namespace DicData

/-- A dictionary and the items in it: the items are stored in order, their places are recorded, and
every slot is free or refers to one of them. -/
structure Holds (dict : DicData) (items : List Varlena) : Prop where
  count : dict.curItemCount = items.length
  most : dict.curItemCount ≤ dict.maxItemCount
  stored : dict.data = joined items
  used : dict.itemUsedSize = (joined items).length
  room : dict.maxItemCount < dict.itemOffset.length
  places : ∀ position ≤ items.length, dict.itemOffset.getD position invalidPosition = start items position
  referred : ∀ slot ∈ dict.slots, slot = freeHashSlot ∨ slot < items.length

theorem holds_init (itemsMaxSize : Nat) {itemsMaxCount : Nat} (small : itemsMaxCount < 2 ^ 16) :
    (init itemsMaxSize itemsMaxCount).Holds [] where
  count := rfl
  most := Nat.zero_le _
  stored := rfl
  used := rfl
  room := by
    simp only [init, List.length_cons, List.length_replicate, Nat.mod_eq_of_lt small]
    exact Nat.lt_succ_self _
  places position inside := by
    obtain rfl := Nat.le_zero.mp inside
    rfl
  referred slot member := Or.inl (List.eq_of_mem_replicate member)

variable {items : List Varlena} {code : Nat} {dict next : DicData}

theorem Holds.append {dict : DicData} (holds : dict.Holds items) (item : Varlena) (slotIndex : Nat)
    (enough : dict.isEnoughToAppend item.bytes.length) :
    (dict.append slotIndex item.bytes).Holds (items ++ [item]) := by
  have few : dict.curItemCount < dict.maxItemCount := (of_decide_eq_true enough).2
  have here : (items ++ [item])[items.length]? = some item := by simp
  have joinedItem : joined [item] = item.bytes := List.append_nil _
  have last := holds.places items.length le_rfl
  refine ⟨?_, few, ?_, ?_, ?_, ?_, ?_⟩
  · simp [DicData.append, holds.count]
  · rw [joined_append, joinedItem, ← holds.stored]
    rfl
  · rw [joined_append, joinedItem, List.length_append, ← holds.used]
    rfl
  · simpa [DicData.append] using holds.room
  · intro position inside
    rw [List.length_append, List.length_singleton] at inside
    have bound := holds.room
    simp only [DicData.append, List.getD_eq_getElem?_getD, List.getElem?_set]
    by_cases same : dict.curItemCount + 1 = position
    · subst same
      rw [if_pos rfl, if_pos (by omega), Option.getD_some, holds.count, start_succ here,
        start_append le_rfl, ← List.getD_eq_getElem?_getD, last]
    · have old : position ≤ items.length := by
        have count := holds.count
        omega
      rw [if_neg same, start_append old, ← List.getD_eq_getElem?_getD]
      exact holds.places position old
  · intro slot member
    rw [List.length_append, List.length_singleton]
    rcases List.mem_or_eq_of_mem_set member with old | rfl
    · rcases holds.referred slot old with free | inside
      · exact Or.inl free
      · exact Or.inr (by omega)
    · exact Or.inr (by rw [holds.count]; exact Nat.lt_succ_self _)

theorem Holds.item_at {dict : DicData} (holds : dict.Holds items) {item : Varlena}
    (found : items[code]? = some item) :
    dict.data.drop (dict.itemOffset.getD code invalidPosition) =
      item.bytes ++ joined (items.drop (code + 1)) := by
  obtain ⟨inside, _⟩ := List.getElem?_eq_some_iff.mp found
  rw [holds.places code inside.le, holds.stored]
  exact drop_start found

private theorem mem_of_getD_ne {slots : List Nat} {index absent : Nat}
    (present : slots.getD index absent ≠ absent) : slots.getD index absent ∈ slots := by
  by_cases inside : index < slots.length
  · rw [List.getD_eq_getElem _ _ inside]
    exact List.getElem_mem inside
  · exact absurd (List.getD_eq_default _ _ (Nat.not_lt.mp inside)) present

/-- A code is given only for an item with the bytes of the value. -/
theorem Holds.probe (holds : dict.Holds items) (item : Varlena) {conflicts slotIndex code : Nat}
    (coded : dict.probe item.bytes conflicts slotIndex = some (next, code)) :
    ∃ more found, next.Holds (items ++ more) ∧ (items ++ more)[code]? = some found ∧
      found.bytes = item.bytes ∧ next.maxItemCount = dict.maxItemCount := by
  induction conflicts generalizing slotIndex with
  | zero => cases coded
  | succ conflicts ih =>
    unfold DicData.probe at coded
    dsimp only at coded
    split at coded
    · split at coded
      · rename_i enough
        obtain ⟨rfl, rfl⟩ := Prod.mk.inj (Option.some.inj coded)
        exact ⟨[item], item, holds.append item slotIndex enough, by simp [holds.count], rfl, rfl⟩
      · cases coded
    · rename_i occupied
      split at coded
      · rename_i equal
        obtain ⟨rfl, rfl⟩ := Prod.mk.inj (Option.some.inj coded)
        have member := mem_of_getD_ne occupied
        have inside := (holds.referred _ member).resolve_left occupied
        obtain ⟨found, here⟩ : ∃ found, items[dict.slots.getD slotIndex freeHashSlot]? = some found :=
          ⟨_, List.getElem?_eq_getElem inside⟩
        obtain ⟨length, same⟩ := equal
        rw [holds.item_at here, found.sized] at length
        rw [holds.item_at here, ← length, List.take_left] at same
        refine ⟨[], found, (List.append_nil items).symm ▸ holds, ?_, same, rfl⟩
        rw [List.append_nil]
        exact here
      · exact ih coded

theorem Holds.encodeOneValue {hashAny : List UInt8 → UInt32} (holds : dict.Holds items) (item : Varlena)
    (rest : List UInt8) (coded : encodeOneValue hashAny dict (item.bytes ++ rest) = some (next, code)) :
    ∃ more found, next.Holds (items ++ more) ∧ (items ++ more)[code]? = some found ∧
      found.bytes = item.bytes ∧ next.maxItemCount = dict.maxItemCount := by
  unfold DicData.encodeOneValue at coded
  dsimp only at coded
  rw [item.sized, List.take_left] at coded
  exact holds.probe item coded

/-- The item of each code has the bytes of the value it stands for. -/
def Codes (items : List Varlena) (codes : List Nat) (values : List Varlena) : Prop :=
  List.Forall₂ (fun code value => ∃ found, items[code]? = some found ∧ found.bytes = value.bytes)
    codes values

section

variable {items : List Varlena} {codes : List Nat} {values : List Varlena} (coded : Codes items codes values)

include coded

theorem Codes.grow (more : List Varlena) : Codes (items ++ more) codes values := by
  refine List.Forall₂.imp ?_ coded
  rintro code value ⟨found, here, same⟩
  have inside := (List.getElem?_eq_some_iff.mp here).1
  exact ⟨found, by rw [List.getElem?_append_left inside]; exact here, same⟩

theorem Codes.inside : ∀ code ∈ codes, code < items.length := by
  induction coded with
  | nil => simp
  | cons first _ ih =>
    obtain ⟨found, here, _⟩ := first
    exact List.forall_mem_cons.mpr ⟨(List.getElem?_eq_some_iff.mp here).1, ih⟩

end

theorem eq_nil_of_joined {items : List Varlena} (empty : joined items = []) : items = [] := by
  have bound := length_le_joined items
  rw [empty, List.length_nil] at bound
  exact List.eq_nil_of_length_eq_zero (Nat.le_zero.mp bound)

/-- Where the loop ends at the end of the input, every value has its code. -/
theorem Holds.encodeLoop {hashAny : List UInt8 → UInt32} {passes : Nat} {dict next : DicData}
    {items values ahead : List Varlena} {codes allCodes : List Nat} (holds : dict.Holds items)
    (coded : Codes items codes values)
    (done : encodeLoop hashAny passes dict codes (joined ahead) = (next, allCodes, [])) :
    ∃ allItems, next.Holds allItems ∧ Codes allItems allCodes (values ++ ahead) ∧
      next.maxItemCount = dict.maxItemCount := by
  induction passes generalizing dict items values ahead codes with
  | zero =>
    obtain ⟨rfl, same⟩ := Prod.mk.inj done
    obtain ⟨rfl, empty⟩ := Prod.mk.inj same
    obtain rfl := eq_nil_of_joined empty
    exact ⟨items, holds, (List.append_nil values).symm ▸ coded, rfl⟩
  | succ passes ih =>
    unfold DicData.encodeLoop at done
    split at done
    · rename_i empty
      obtain ⟨rfl, same⟩ := Prod.mk.inj done
      obtain ⟨rfl, _⟩ := Prod.mk.inj same
      obtain rfl := eq_nil_of_joined empty
      exact ⟨items, holds, (List.append_nil values).symm ▸ coded, rfl⟩
    · rename_i occupied
      cases ahead with
      | nil => exact absurd rfl occupied
      | cons value ahead =>
        rw [joined_cons] at done
        split at done
        · rename_i grown code encoded
          obtain ⟨more, found, kept, here, same, limit⟩ :=
            holds.encodeOneValue value (joined ahead) encoded
          rw [value.sized, List.drop_left] at done
          have coded' : Codes (items ++ more) (codes ++ [code]) (values ++ [value]) :=
            List.rel_append (coded.grow more) (.cons ⟨found, here, same⟩ .nil)
          obtain ⟨allItems, all, allCoded, allLimit⟩ := ih kept coded' done
          rw [List.append_assoc] at allCoded
          exact ⟨allItems, all, allCoded, allLimit.trans limit⟩
        · have left := congrArg (fun result => result.2.2) done
          exact absurd left (by
            have positive := value.positive
            simp only [List.append_eq_nil_iff, not_and]
            intro absent
            rw [absent, List.length_nil] at positive
            omega)

/-- What dictionary coding gives for an array of values. -/
theorem compress_spec {hashAny : List UInt8 → UInt32} {values : List Varlena} {dict : DicData}
    {codes : List Nat} (few : values.length ≤ 60000)
    (compressed : compress hashAny (joined values) values.length = some (dict, codes)) :
    ∃ items, dict.Holds items ∧ Codes items codes values ∧ dict.curItemCount ≤ 15001 ∧
      dict.totalSize < (joined values).length := by
  have small : dictGetMaxNumber values.length ≤ 15001 := by
    unfold dictGetMaxNumber
    omega
  have start := holds_init (dictGetMaxNumber (joined values).length)
    (show dictGetMaxNumber values.length < 2 ^ 16 by omega)
  unfold DicData.compress at compressed
  dsimp only at compressed
  cases looped : DicData.encodeLoop hashAny (joined values).length
    (init (dictGetMaxNumber (joined values).length) (dictGetMaxNumber values.length)) []
    (joined values) with
  | mk last rest =>
    obtain ⟨lastCodes, left⟩ := rest
    rw [looped] at compressed
    dsimp only at compressed
    split at compressed
    · rename_i ended
      obtain ⟨rfl, smaller⟩ := ended
      obtain ⟨rfl, rfl⟩ := Prod.mk.inj (Option.some.inj compressed)
      obtain ⟨items, holds, coded, limit⟩ := start.encodeLoop .nil looped
      have most := holds.most
      have bound : (init (dictGetMaxNumber (joined values).length)
        (dictGetMaxNumber values.length)).maxItemCount ≤ 15001 := (Nat.mod_le _ _).trans small
      exact ⟨items, holds, coded, by omega, by unfold totalSize; omega⟩
    · cases compressed

end DicData

/-- The places found by walking over the items are the places they were stored at. -/
theorem DiskDict.offsets_getD {items : List Varlena} (tail : List UInt8) {passes position : Nat}
    (inside : position ≤ items.length) (enough : items.length ≤ position + passes) :
    ∀ further, position + further ≤ items.length →
      (offsets (joined items ++ tail) (joined items).length passes
        (start items position)).getD further invalidPosition = start items (position + further) := by
  induction passes generalizing position with
  | zero =>
    intro further bound
    obtain rfl : further = 0 := by omega
    rfl
  | succ passes ih =>
    intro further bound
    unfold offsets
    by_cases last : position = items.length
    · subst last
      obtain rfl : further = 0 := by omega
      rw [if_neg (by rw [start_length]; exact lt_irrefl _)]
      rfl
    · have here : position < items.length := by omega
      obtain ⟨item, found⟩ : ∃ item, items[position]? = some item :=
        ⟨_, List.getElem?_eq_getElem here⟩
      have positive := item.positive
      have next := start_succ found
      have behind : (joined items ++ tail).drop (start items position) =
          item.bytes ++ (joined (items.drop (position + 1)) ++ tail) := by
        rw [List.drop_append_of_le_length (start_le items position), drop_start found, List.append_assoc]
      have before : start items position < (joined items).length := by
        have bound := start_le items (position + 1)
        omega
      rw [if_pos before, behind, item.sized, ← next]
      cases further with
      | zero => rfl
      | succ further =>
        rw [List.getD_cons_succ, ih here (by omega) further (by omega)]
        congr 1
        omega

theorem DicData.Holds.length_onDisk {dict : DicData} {items : List Varlena}
    (holds : dict.Holds items) : dict.onDisk.length = dict.totalSize := by
  simp only [DicData.onDisk, DicData.totalSize, sizeOfDictHeader, List.length_append,
    length_leBytes, holds.stored, holds.used]

/-- A stored dictionary, whatever follows it, restores the values from their codes. -/
theorem DiskDict.decompress_ofDisk {dict : DicData} {items values : List Varlena}
    {codes : List Nat} (holds : dict.Holds items) (coded : DicData.Codes items codes values)
    (few : values.length ≤ 60000) (small : dict.totalSize < 2 ^ 31) (tail : List UInt8) :
    (ofDisk (dict.onDisk ++ tail)).totalSize = dict.totalSize ∧
      (dict.onDisk ++ tail).drop dict.totalSize = tail ∧
      (ofDisk (dict.onDisk ++ tail)).decompress codes = joined values := by
  have size : dict.totalSize = 8 + (joined items).length := congrArg (8 + ·) holds.used
  have total : leNat (leBytes 4 dict.totalSize) = dict.totalSize :=
    leNat_leBytes (by norm_num; omega)
  have onDisk : dict.onDisk ++ tail = leBytes 4 dict.totalSize ++
      (leBytes 4 dict.curItemCount ++ (joined items ++ tail)) := by
    simp [DicData.onDisk, holds.stored]
  have length : (leBytes 4 dict.totalSize).length = 4 := length_leBytes _ _
  have behind : (dict.onDisk ++ tail).drop sizeOfDictHeader = joined items ++ tail := by
    rw [onDisk, ← List.append_assoc]
    exact List.drop_left' (by simp [sizeOfDictHeader])
  have totalRead : (ofDisk (dict.onDisk ++ tail)).totalSize = dict.totalSize := by
    simp only [ofDisk]
    rw [onDisk, List.take_left' length, total]
  have dataSize : (ofDisk (dict.onDisk ++ tail)).totalSize - sizeOfDictHeader = (joined items).length := by
    rw [totalRead, size, sizeOfDictHeader, Nat.add_sub_cancel_left]
  have decodes {code : Nat} {found : Varlena} (here : items[code]? = some found) :
      (ofDisk (dict.onDisk ++ tail)).decodeOneValue code = found.bytes := by
    have inside := (List.getElem?_eq_some_iff.mp here).1
    have data : (ofDisk (dict.onDisk ++ tail)).data = joined items ++ tail := behind
    have offset : (ofDisk (dict.onDisk ++ tail)).itemOffset.getD code invalidPosition =
        start items code := by
      change (offsets ((dict.onDisk ++ tail).drop sizeOfDictHeader)
        ((ofDisk (dict.onDisk ++ tail)).totalSize - sizeOfDictHeader)
        ((ofDisk (dict.onDisk ++ tail)).totalSize - sizeOfDictHeader) 0).getD code _ = _
      have walked := @offsets_getD items tail (joined items).length 0 (Nat.zero_le _)
        (by rw [Nat.zero_add]; exact length_le_joined items) code (by omega)
      rw [start_zero, Nat.zero_add] at walked
      rw [behind, dataSize]
      exact walked
    rw [decodeOneValue, data, offset,
      List.drop_append_of_le_length (start_le items code), drop_start here, List.append_assoc,
      found.sized, List.take_left]
  refine ⟨totalRead, ?_, ?_⟩
  · rw [size, ← List.drop_drop]
    exact (congrArg (List.drop (joined items).length) behind).trans List.drop_left
  · have count := coded.length_eq
    rw [decompress, Nat.mod_eq_of_lt (by omega), List.take_length]
    clear few count
    induction coded with
    | nil => rfl
    | cons first _ ih =>
      obtain ⟨found, here, same⟩ := first
      rw [List.flatMap_cons, decodes here, same, ih, joined_cons]

end OpenGauss.CStore
