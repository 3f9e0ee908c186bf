import OpenGauss.UStore.SlotDeform

/-! Where the columns of a tuple lie, and that a stored value is read back. -/

namespace OpenGauss.UStore

open CStore (varsizeAny varTagSize strlen varattIs1B varattIs4BU varhdrsz varhdrszShort varattShortMax
  setVarsizeShort strlen_append_terminator)
open Lib (leNat)

/-- How many bytes a value takes, which is read from its beginning. -/
def attSize (att : FormPgAttribute) (val : List UInt8) : Nat :=
  if 0 < att.attlen then att.attlen.toNat
  else if att.attlen = lenVarlena then varsizeAny val
  else strlen val + 1

/-- A value is there as a whole, and a header of four bytes counts itself. -/
structure Fits (att : FormPgAttribute) (val : List UInt8) : Prop where
  whole : attSize att val ≤ val.length
  header : att.attlen = lenVarlena → varattIs1B val = false → varhdrsz ≤ varsizeAny val

/-- The header of a varlena is made shorter where it is stored. -/
def shortens (att : FormPgAttribute) (val : List UInt8) : Bool :=
  att.attlen = lenVarlena ∧ varattIs1B val = false ∧ att.attstorage ≠ .plain ∧ varattCanMakeShort val

/-- A value without the padding before it. -/
def stored (att : FormPgAttribute) (val : List UInt8) : List UInt8 :=
  if shortens att val then
    setVarsizeShort (varsizeAny val - varhdrsz + varhdrszShort) ++
      (val.drop varhdrsz).take (varsizeAny val - varhdrsz + varhdrszShort - 1)
  else val.take (attSize att val)

/-- No padding is put before the value. -/
def unaligned (att : FormPgAttribute) (val : List UInt8) : Bool :=
  att.attbyval || att.attlen == lenCstring || att.attlen == lenVarlena && (varattIs1B val || shortens att val)

section Values

variable {att : FormPgAttribute} {val : List UInt8}

theorem attAddlengthPointer_eq (att : FormPgAttribute) (off : Int) (val : List UInt8) :
    attAddlengthPointer off att.attlen val = off + attSize att val := by
  unfold attAddlengthPointer attSize
  split_ifs
  · omega
  · rfl
  · rfl

theorem attbyval_eq_false (att : FormPgAttribute) (varwidth : ¬ 0 < att.attlen) : att.attbyval = false := by
  by_contra byval
  exact varwidth (att.byval (Bool.eq_true_of_not_eq_false byval))

theorem shortens_eq_false (other : att.attlen ≠ lenVarlena) : shortens att val = false :=
  decide_eq_false fun held => other held.1

theorem attSize_varlena (varlena : att.attlen = lenVarlena) (val : List UInt8) :
    attSize att val = varsizeAny val := by
  rw [attSize, if_neg (by rw [varlena]; decide), if_pos varlena]

theorem attSize_cstring (cstring : att.attlen = lenCstring) (val : List UInt8) :
    attSize att val = strlen val + 1 := by
  rw [attSize, if_neg (by rw [cstring]; decide), if_neg (by rw [cstring]; decide)]

theorem storeAtt_eq (att : FormPgAttribute) (off : Nat) (val : List UInt8) : storeAtt att off val =
      (if unaligned att val then [] else padding off att.attalign) ++ stored att val := by
  rcases att.length with varlena | cstring | fixed
  · have byref := attbyval_eq_false att (by rw [varlena]; decide)
    have other : (att.attlen == lenCstring) = false := by rw [varlena]; rfl
    have own : (att.attlen == lenVarlena) = true := by rw [varlena]; rfl
    rw [storeAtt, if_neg (by rw [byref]; decide), if_pos varlena, storeVarlena, unaligned, stored, byref, other,
      own, attSize_varlena varlena]
    cases short : varattIs1B val with
    | true =>
      have same : shortens att val = false := decide_eq_false fun held => by
        rw [short] at held
        exact absurd held.2.1 (by decide)
      rw [same]
      rfl
    | false =>
      by_cases made : att.attstorage ≠ .plain ∧ varattCanMakeShort val
      · have shorter : shortens att val = true := decide_eq_true ⟨varlena, short, made⟩
        rw [if_neg (by decide), if_pos made, shorter]
        rfl
      · have same : shortens att val = false := decide_eq_false fun held => made held.2.2
        rw [if_neg (by decide), if_neg made, same]
        rfl
  · have byref := attbyval_eq_false att (by rw [cstring]; decide)
    have other : att.attlen ≠ lenVarlena := by rw [cstring]; decide
    have aligned : unaligned att val = true := by
      rw [unaligned, byref, cstring]
      rfl
    rw [storeAtt, if_neg (by rw [byref]; decide), if_neg other, if_pos cstring, aligned, if_pos rfl, stored,
      shortens_eq_false other, attSize_cstring cstring]
    rfl
  · have other : att.attlen ≠ lenVarlena := by rw [lenVarlena]; omega
    have another : att.attlen ≠ lenCstring := by rw [lenCstring]; omega
    have size : attSize att val = att.attlen.toNat := if_pos fixed
    rw [storeAtt, if_neg other, if_neg another, unaligned, stored, shortens_eq_false other, size,
      beq_eq_false_iff_ne.mpr other, beq_eq_false_iff_ne.mpr another]
    cases att.attbyval <;> rfl

theorem getD_take_append {count place : Nat} (val rest : List UInt8) (inside : place < count)
    (whole : count ≤ val.length) : (val.take count ++ rest).getD place 0 = val.getD place 0 := by
  rw [List.getD_append _ _ _ _ (by rw [List.length_take]; omega), List.getD_eq_getElem?_getD,
    List.getElem?_take_of_lt inside, ← List.getD_eq_getElem?_getD]

theorem take_take_append {count few : Nat} (val rest : List UInt8) (inside : few ≤ count)
    (whole : count ≤ val.length) : (val.take count ++ rest).take few = val.take few := by
  rw [List.take_append_of_le_length (by rw [List.length_take]; omega), List.take_take, Nat.min_eq_left inside]

theorem varsizeAny_pos {val : List UInt8} (short : varattIs1B val = true) : 0 < varsizeAny val := by
  rw [varattIs1B, beq_iff_eq] at short
  unfold varsizeAny
  have byte := (val.getD 0 0).toNat_lt
  simp only
  split_ifs with external
  · omega
  · rw [Nat.and_one_is_mod] at short
    rw [Nat.shiftRight_eq_div_pow, show 0x7F = 2 ^ 7 - 1 by rfl, Nat.and_two_pow_sub_one_eq_mod]
    omega

theorem varsizeAny_take {val : List UInt8} (whole : varsizeAny val ≤ val.length)
    (header : varattIs1B val = false → varhdrsz ≤ varsizeAny val) (rest : List UInt8) :
    varsizeAny (val.take (varsizeAny val) ++ rest) = varsizeAny val := by
  obtain ⟨size, same⟩ : ∃ size, size = varsizeAny val := ⟨_, rfl⟩
  rw [← same] at whole header ⊢
  refine Eq.trans ?_ same.symm
  cases short : varattIs1B val with
  | true =>
    have positive := varsizeAny_pos short
    have first := getD_take_append val rest (same ▸ positive) whole
    rw [varattIs1B, beq_iff_eq] at short
    unfold varsizeAny at same ⊢
    rw [first]
    simp only at same ⊢
    by_cases external : (val.getD 0 0).toNat = 0x01
    · rw [if_pos external] at same
      rw [if_pos external, if_pos external, getD_take_append val rest (by omega) whole]
    · rw [if_neg external, if_neg external, if_pos short, if_pos short]
  | false =>
    have enough := header short
    rw [varhdrsz] at enough
    have first := getD_take_append val rest (Nat.lt_of_lt_of_le four_pos enough) whole
    have word := take_take_append val rest enough whole
    have other : (val.getD 0 0).toNat ≠ 0x01 := by
      intro external
      rw [varattIs1B, external] at short
      exact absurd short (by decide)
    unfold varsizeAny
    rw [first, word]
    simp only
    rw [if_neg other, if_neg other]

theorem strlen_take {val : List UInt8} (whole : strlen val + 1 ≤ val.length) (rest : List UInt8) :
    strlen (val.take (strlen val + 1) ++ rest) = strlen val := by
  unfold strlen at *
  obtain ⟨place, same⟩ : ∃ place, place = val.findIdx (· == 0) := ⟨_, rfl⟩
  rw [← same] at whole ⊢
  have inside : place < (val.take (place + 1) ++ rest).length := by
    rw [List.length_append, List.length_take]
    omega
  have found := (List.findIdx_eq (Nat.lt_of_succ_le whole)).mp same.symm
  rw [List.findIdx_eq inside]
  have byte (index : Nat) (before : index < place + 1) (first : index < (val.take (place + 1) ++ rest).length) :
      (val.take (place + 1) ++ rest)[index] = val[index] := by
    rw [List.getElem_append_left (by rw [List.length_take]; omega), List.getElem_take]
  refine ⟨by rw [byte _ (Nat.lt_succ_self _)]; exact found.1, fun index before => ?_⟩
  rw [byte index (Nat.lt_succ_of_lt before)]
  exact found.2 index before

theorem attSize_take (fits : Fits att val) (rest : List UInt8) :
    attSize att (val.take (attSize att val) ++ rest) = attSize att val := by
  have whole := fits.whole
  rcases att.length with varlena | cstring | fixed
  · rw [attSize_varlena varlena] at whole ⊢
    rw [attSize_varlena varlena]
    exact varsizeAny_take whole (fits.header varlena) rest
  · rw [attSize_cstring cstring] at whole ⊢
    rw [attSize_cstring cstring, strlen_take whole]
  · rw [attSize, if_pos fixed, attSize, if_pos fixed]

theorem attSize_pos (fits : Fits att val) : 0 < attSize att val := by
  rcases att.length with varlena | cstring | fixed
  · rw [attSize_varlena varlena]
    cases short : varattIs1B val with
    | true => exact varsizeAny_pos short
    | false => exact Nat.lt_of_lt_of_le four_pos (fits.header varlena short)
  · rw [attSize_cstring cstring]
    exact Nat.succ_pos _
  · rw [attSize, if_pos fixed]
    omega

theorem stored_of_not_shortens (long : shortens att val = false) :
    stored att val = val.take (attSize att val) := by
  rw [stored, long]
  rfl

theorem shortens_take (fits : Fits att val) (rest : List UInt8) :
    shortens att (val.take (attSize att val) ++ rest) = shortens att val := by
  have first := getD_take_append val rest (attSize_pos fits) fits.whole
  by_cases varlena : att.attlen = lenVarlena
  · have size := attSize_take fits rest
    rw [attSize_varlena varlena, attSize_varlena varlena] at size
    rw [attSize_varlena varlena] at first
    have long : varattIs1B (val.take (varsizeAny val) ++ rest) = varattIs1B val := by
      rw [varattIs1B, varattIs1B, first]
    have made : varattCanMakeShort (val.take (varsizeAny val) ++ rest) = varattCanMakeShort val := by
      rw [varattCanMakeShort, varattCanMakeShort, varattIs4BU, varattIs4BU, size, first]
    rw [attSize_varlena varlena, shortens, shortens, decide_eq_decide, long, made]
  · rw [shortens_eq_false varlena, shortens_eq_false varlena]

/-- The stored form of a value is read from its own bytes. -/
theorem stored_take (fits : Fits att val) (rest : List UInt8) :
    stored att (val.take (attSize att val) ++ rest) = stored att val := by
  have whole := fits.whole
  have size := attSize_take fits rest
  cases short : shortens att val with
  | true =>
    have held := of_decide_eq_true short
    have header := fits.header held.1 held.2.1
    rw [attSize_varlena held.1] at whole
    rw [stored, shortens_take fits, stored, short, if_pos rfl, if_pos rfl, ← attSize_varlena held.1, size,
      attSize_varlena held.1]
    congr 1
    rw [List.drop_append_of_le_length (by rw [List.length_take]; omega), List.drop_take]
    exact take_take_append _ _ (by rw [varhdrszShort]; omega) (by rw [List.length_drop]; omega)
  | false =>
    rw [stored, shortens_take fits, stored, short, if_neg (by decide), if_neg (by decide), size]
    exact take_take_append _ _ le_rfl whole

/-- The header that is made shorter, and the data behind it. -/
theorem stored_shortens (fits : Fits att val) (short : shortens att val = true) :
    ∃ len data, stored att val = UInt8.ofNat (len * 2 + 1) :: data ∧ len < 128 ∧ data.length + 1 = len := by
  have held := of_decide_eq_true short
  have whole := fits.whole
  have header := fits.header held.1 held.2.1
  rw [attSize_varlena held.1] at whole
  have small := held.2.2.2.2
  rw [varattShortMax] at small
  refine ⟨varsizeAny val - varhdrsz + varhdrszShort,
    (val.drop varhdrsz).take (varsizeAny val - varhdrsz + varhdrszShort - 1), ?_, by omega, ?_⟩
  · rw [stored, short, if_pos rfl]
    rfl
  · rw [List.length_take, List.length_drop, varhdrszShort]
    omega

theorem attSize_stored (fits : Fits att val) (rest : List UInt8) :
    attSize att (stored att val ++ rest) = (stored att val).length := by
  cases short : shortens att val with
  | true =>
    obtain ⟨len, data, same, small, size⟩ := stored_shortens fits short
    rw [attSize_varlena (of_decide_eq_true short).1, same]
    unfold varsizeAny
    have header : (UInt8.ofNat (len * 2 + 1)).toNat = len * 2 + 1 := by
      rw [UInt8.toNat_ofNat', Nat.mod_eq_of_lt (by omega)]
    rw [List.cons_append, List.getD_cons_zero, header, List.length_cons, size]
    simp only
    rw [if_neg (by omega), if_pos (by rw [Nat.and_one_is_mod]; omega), Nat.shiftRight_eq_div_pow,
      show 0x7F = 2 ^ 7 - 1 by rfl, Nat.and_two_pow_sub_one_eq_mod]
    omega
  | false =>
    have whole := fits.whole
    rw [stored_of_not_shortens short, attSize_take fits, List.length_take]
    omega

/-- A header of one byte does not look like padding. -/
theorem getD_ne_zero {val : List UInt8} (short : varattIs1B val = true) : val.getD 0 0 ≠ 0 := by
  intro clear
  rw [varattIs1B, clear] at short
  exact absurd short (by decide)

theorem varattIs1B_stored (fits : Fits att val) (rest : List UInt8) :
    varattIs1B (stored att val ++ rest) = (varattIs1B val || shortens att val) := by
  cases short : shortens att val with
  | true =>
    obtain ⟨len, data, same, small, -⟩ := stored_shortens fits short
    rw [same, Bool.or_true, varattIs1B, List.cons_append, List.getD_cons_zero, UInt8.toNat_ofNat',
      Nat.mod_eq_of_lt (by omega), Nat.and_one_is_mod, beq_iff_eq]
    omega
  | false =>
    rw [stored_of_not_shortens short, Bool.or_false, varattIs1B, varattIs1B,
      getD_take_append val rest (attSize_pos fits) fits.whole]

theorem shortens_stored {older : FormPgAttribute} (fits : Fits older val) (same : older.attlen = att.attlen)
    (rest : List UInt8) :
    shortens att (stored older val ++ rest) = (shortens att val && !shortens older val) := by
  cases short : shortens older val with
  | true =>
    have free := varattIs1B_stored fits rest
    rw [short, Bool.or_true] at free
    rw [Bool.not_true, Bool.and_false]
    exact decide_eq_false fun held => by
      rw [free] at held
      exact absurd held.2.1 (by decide)
  | false =>
    have size : attSize older val = attSize att val := by rw [attSize, attSize, same]
    have also : Fits att val := ⟨size ▸ fits.whole, fun varlena => fits.header (same.trans varlena)⟩
    rw [stored_of_not_shortens short, size, shortens_take also, Bool.not_false, Bool.and_true]

theorem fits_stored (fits : Fits att val) (rest : List UInt8) : Fits att (stored att val ++ rest) := by
  refine ⟨?_, fun varlena long => ?_⟩
  · rw [attSize_stored fits, List.length_append]
    exact Nat.le_add_right _ _
  · rw [varattIs1B_stored fits, Bool.or_eq_false_iff] at long
    have size := attSize_take fits rest
    rw [stored_of_not_shortens long.2, ← attSize_varlena varlena, size, attSize_varlena varlena]
    exact fits.header varlena long.1

end Values

/-- Attributes of two descriptors of a table that are the same but for how values are stored from now on. -/
structure SameLayout (older att : FormPgAttribute) : Prop where
  attlen : older.attlen = att.attlen
  attbyval : older.attbyval = att.attbyval
  attalign : older.attalign = att.attalign

variable {older att : FormPgAttribute} {off : Nat} {tup : UHeapDiskTuple}

theorem SameLayout.attSize (same : SameLayout older att) (val : List UInt8) :
    UStore.attSize older val = UStore.attSize att val := by
  rw [UStore.attSize, UStore.attSize, same.attlen]

theorem SameLayout.fits (same : SameLayout older att) {val : List UInt8} (fits : Fits older val) :
    Fits att val :=
  ⟨same.attSize val ▸ fits.whole, fun varlena => fits.header (same.attlen.trans varlena)⟩

theorem le_attAlignNominal (off : Nat) (attalign : AttAlign) : (off : Int) ≤ attAlignNominal off attalign := by
  unfold attAlignNominal
  cases attalign <;> simp only [AttAlign.width] <;> omega

theorem attAlignNominal_char (off : Int) : attAlignNominal off .char = off := by
  unfold attAlignNominal
  simp only [AttAlign.width]
  omega

theorem length_padding (off : Nat) (attalign : AttAlign) :
    (off : Int) + (padding off attalign).length = attAlignNominal off attalign := by
  have order := le_attAlignNominal off attalign
  rw [padding, List.length_replicate]
  omega

theorem tupPtr_add (tup : UHeapDiskTuple) (inside : sizeOfUHeapDiskTupleData ≤ off) (more : Nat) :
    tup.tupPtr ((off : Int) + more) = (tup.tupPtr off).drop more := by
  unfold UHeapDiskTuple.tupPtr
  rw [if_neg (by omega), if_neg (by omega), List.drop_drop]
  congr 1
  omega

/-- The columns are behind the header and the bitmap. -/
theorem tupPtr_tHoff {bitmap columns : List UInt8} (data : tup.data = bitmap ++ columns)
    (hoff : tup.tHoff = sizeOfUHeapDiskTupleData + bitmap.length) : tup.tupPtr tup.tHoff = columns := by
  rw [UHeapDiskTuple.tupPtr, if_neg (by omega), hoff, data]
  exact List.drop_left' (by omega)

/-- Padding is skipped. Where there is none the offset has the alignment, and it does not matter what is
there. -/
theorem attAlignPointer_padding (off : Nat) (attalign : AttAlign) (val : List UInt8) :
    attAlignPointer off attalign (padding off attalign ++ val) = attAlignNominal off attalign := by
  have size := length_padding off attalign
  unfold attAlignPointer
  cases pad : padding off attalign with
  | nil =>
    rw [pad, List.length_nil] at size
    rw [← size]
    split_ifs
    · exact (add_zero _).symm
    · rfl
  | cons byte behind =>
    have zero : byte = 0 := by
      have member : byte ∈ padding off attalign := pad ▸ List.mem_cons_self
      exact (List.mem_replicate.mp member).2
    rw [zero, List.cons_append, List.getD_cons_zero, if_neg (by decide)]

/-- A value that is stored at an offset is found behind its padding. -/
theorem attStart_stored (inside : sizeOfUHeapDiskTupleData ≤ off) (same : SameLayout older att)
    {val rest : List UInt8} (fits : Fits older val) (here : tup.tupPtr off = storeAtt older off val ++ rest) :
    tup.tupPtr (attStart tup att off) = stored older val ++ rest ∧
      attStart tup att off + (stored older val).length = (off : Int) + (storeAtt older off val).length := by
  rw [storeAtt_eq, List.append_assoc] at here
  rw [storeAtt_eq, List.length_append]
  have behind (pad : List UInt8) (read : tup.tupPtr off = pad ++ (stored older val ++ rest))
      (start : attStart tup att off = (off : Int) + pad.length) :
      tup.tupPtr (attStart tup att off) = stored older val ++ rest ∧
        attStart tup att off + (stored older val).length =
          (off : Int) + ((pad.length + (stored older val).length : Nat) : Int) := by
    refine ⟨?_, by rw [start]; omega⟩
    rw [start, tupPtr_add tup inside, read, List.drop_left]
  refine behind _ here ?_
  rcases att.length with varlena | cstring | fixed
  · have byref := attbyval_eq_false older (by rw [same.attlen, varlena]; decide)
    have other : (older.attlen == lenCstring) = false := by rw [same.attlen, varlena]; rfl
    have own : (older.attlen == lenVarlena) = true := by rw [same.attlen, varlena]; rfl
    have short := varattIs1B_stored fits rest
    rw [attStart, if_pos varlena, attAlignPointer]
    rw [unaligned, byref, other, own, Bool.false_or, Bool.false_or, Bool.true_and, ← short] at here ⊢
    cases free : varattIs1B (stored older val ++ rest) with
    | true =>
      rw [free, if_pos rfl, List.nil_append] at here
      rw [here, if_pos (getD_ne_zero free), if_pos rfl]
      exact (add_zero _).symm
    | false =>
      rw [free, if_neg (by decide)] at here
      have pointer := attAlignPointer_padding off older.attalign (stored older val ++ rest)
      rw [← here, attAlignPointer, same.attalign] at pointer
      rw [pointer, if_neg (by decide), length_padding, same.attalign]
  · have byref := attbyval_eq_false att (by rw [cstring]; decide)
    have free : unaligned older val = true := by
      rw [unaligned, same.attlen, cstring, show (lenCstring == lenCstring) = true by rfl, Bool.or_true,
        Bool.true_or]
    rw [attStart, if_neg (by rw [cstring]; decide), if_neg (by rw [byref]; decide), att.cstring cstring,
      attAlignNominal_char, free]
    exact (add_zero _).symm
  · have other : (older.attlen == lenCstring) = false := by
      rw [same.attlen, beq_eq_false_iff_ne, lenCstring]
      omega
    have another : (older.attlen == lenVarlena) = false := by
      rw [same.attlen, beq_eq_false_iff_ne, lenVarlena]
      omega
    have notVarlena : att.attlen ≠ lenVarlena := by
      rw [lenVarlena]
      omega
    rw [attStart, if_neg notVarlena, unaligned, other, another, Bool.or_false, Bool.false_and, Bool.or_false,
      same.attbyval]
    cases att.attbyval with
    | true => exact (add_zero _).symm
    | false =>
      rw [if_neg (by decide), if_neg (by decide), ← same.attalign]
      exact (length_padding off older.attalign).symm

/-- The columns before the `count`-th, of a tuple with a header of `hoff` bytes. -/
def columnsOf (attrs : Nat → FormPgAttribute) (isnull keeps : Nat → Bool) (val : Nat → List UInt8)
    (hoff : Nat) :
    Nat → List UInt8
  | 0 => []
  | count + 1 =>
    let columns := columnsOf attrs isnull keeps val hoff count
    columns ++ if isnull count then if keeps count then List.replicate (attrs count).attlen.toNat 0 else []
      else storeAtt (attrs count) (hoff + columns.length) (val count)

/-- Where a tuple with these columns has a column or the padding before it. -/
def columnOff (tup : UHeapDiskTuple) (attrs : Nat → FormPgAttribute) (isnull keeps : Nat → Bool)
    (val : Nat → List UInt8) (i : Nat) : Int :=
  tup.tHoff + (columnsOf attrs isnull keeps val tup.tHoff i).length

/-- A tuple whose first columns are these, as a descriptor reads it that may have been changed since. -/
structure LaidOut (desc : TupleDesc) (tup : UHeapDiskTuple) (older : Nat → FormPgAttribute)
    (isnull keeps : Nat → Bool) (val : Nat → List UInt8) (count : Nat) : Prop where
  tHoff : sizeOfUHeapDiskTupleData ≤ tup.tHoff
  columns : columnsOf older isnull keeps val tup.tHoff count <+: tup.tupPtr tup.tHoff
  same : ∀ i < count, SameLayout (older i) (desc.attrs i)
  nulls : ∀ i < count, (tup.hasNulls && attIsnull i tup.data) = isnull i
  reserveBits : ∀ i < count, isnull i = true →
    (nAttrsReserveSpace tup.natts && !attIsnull (tup.natts + nullsBefore isnull i) tup.data) = keeps i
  keeps : ∀ i < count, isnull i = true → keeps i = true → 0 < (older i).attlen
  fits : ∀ i < count, isnull i = false → Fits (older i) (val i)

section Columns

variable {desc : TupleDesc} {tup : UHeapDiskTuple} {older : Nat → FormPgAttribute} {isnull keeps : Nat → Bool}
  {val : Nat → List UInt8} {count hoff : Nat}

theorem columnsOf_prefix {i : Nat} (order : i ≤ count) :
    columnsOf older isnull keeps val hoff i <+: columnsOf older isnull keeps val hoff count := by
  induction order with
  | refl => exact List.prefix_rfl
  | step _ hyp => exact hyp.trans (List.prefix_append _ _)

section

variable (laidOut : LaidOut desc tup older isnull keeps val count)

include laidOut

/-- A value is found behind the columns before it, and the next column behind it. -/
theorem LaidOut.read {i : Nat} (inside : i < count) (value : isnull i = false) {off : Int}
    (here : off = columnOff tup older isnull keeps val i) :
    (∃ rest, tup.tupPtr (attStart tup (desc.attrs i) off) = stored (older i) (val i) ++ rest) ∧
      attStart tup (desc.attrs i) off + (stored (older i) (val i)).length =
        columnOff tup older isnull keeps val (i + 1) := by
  have header := laidOut.tHoff
  obtain ⟨rest, whole⟩ := ( columnsOf_prefix inside).trans laidOut.columns
  have more : columnsOf older isnull keeps val tup.tHoff (i + 1) =
      columnsOf older isnull keeps val tup.tHoff i ++
        storeAtt (older i) (tup.tHoff + (columnsOf older isnull keeps val tup.tHoff i).length) (val i) := by
    rw [columnsOf, value]
    rfl
  have behind : tup.tupPtr off =
      storeAtt (older i) (tup.tHoff + (columnsOf older isnull keeps val tup.tHoff i).length)
      (val i) ++ rest := by
    rw [here, columnOff, tupPtr_add tup header, ← whole, more, List.append_assoc, List.drop_left]
  rw [columnOff] at here ⊢
  rw [more, List.length_append]
  generalize columnsOf older isnull keeps val tup.tHoff i = columns at here behind ⊢
  obtain rfl : off = ((tup.tHoff + columns.length : Nat) : Int) := here
  obtain ⟨read, stop⟩ := attStart_stored (by omega) (laidOut.same i inside) (laidOut.fits i inside value) behind
  exact ⟨⟨rest, read⟩, by rw [stop]; omega⟩

theorem LaidOut.next {i : Nat} (inside : i < count) (value : isnull i = false) {off : Int}
    (here : off = columnOff tup older isnull keeps val i) :
    attStart tup (desc.attrs i) off + attSize (desc.attrs i) (tup.tupPtr (attStart tup (desc.attrs i) off)) =
      columnOff tup older isnull keeps val (i + 1) := by
  obtain ⟨⟨rest, read⟩, stop⟩ := laidOut.read inside value here
  rw [read, ← (laidOut.same i inside).attSize, attSize_stored (laidOut.fits i inside value), stop]

theorem LaidOut.skip {i : Nat} (inside : i < count) (null : isnull i = true) :
    (if keeps i then columnOff tup older isnull keeps val i + (desc.attrs i).attlen
    else columnOff tup older isnull keeps val i) = columnOff tup older isnull keeps val (i + 1) := by
  rw [columnOff, columnOff, columnsOf, null, if_pos rfl]
  cases keep : keeps i with
  | true =>
    have positive := laidOut.keeps i inside null keep
    have size : (((older i).attlen.toNat : Nat) : Int) = (desc.attrs i).attlen := by
      rw [← (laidOut.same i inside).attlen]
      omega
    rw [if_pos rfl, if_pos rfl, List.length_append, List.length_replicate, ← size]
    omega
  | false => rw [if_neg (by decide), if_neg (by decide), List.append_nil]

theorem LaidOut.loop (old : Nat → Option Datum) {i : Nat} (inside : i ≤ count) :
    (deformLoop desc tup { off := tup.tHoff, values := old } 0 i).off =
        columnOff tup older isnull keeps val i ∧
      (deformLoop desc tup { off := tup.tHoff, values := old } 0 i).nullcount = nullsBefore isnull i := by
  induction i with
  | zero => exact ⟨(add_zero _).symm, rfl⟩
  | succ i hyp =>
    obtain ⟨off, nullcount⟩ := hyp (Nat.le_of_succ_le inside)
    rw [deformLoop_succ _ (Nat.zero_le i), nullsBefore_succ]
    generalize deformLoop desc tup _ 0 i = state at off nullcount ⊢
    have here := laidOut.nulls i inside
    cases null : isnull i with
    | true =>
      rw [null] at here
      rw [deformAttr_null here]
      refine ⟨?_, congrArg (· + 1) nullcount⟩
      have kept := laidOut.reserveBits i inside null
      rw [← nullcount] at kept
      change nullSkip tup _ state.nullcount state.off = _
      rw [nullSkip, kept, off, laidOut.skip inside null]
    | false =>
      rw [null] at here
      rw [deformAttr_value here]
      refine ⟨?_, nullcount⟩
      change attAddlengthPointer _ _ _ = _
      rw [attAddlengthPointer_eq, laidOut.next inside null off]

end

end Columns

section FormTuple

variable {desc : TupleDesc} {values : Nat → List UInt8} {isnull : Nat → Bool}

variable {hasnull enableReserve : Bool} {begin count : Nat} {reserveSpace : Bool} {tup : UHeapDiskTuple}

theorem columns_foldl {bitmap : List UInt8} {reserve : Nat}
    (known : ∀ i < count, (hasnull && isnull i) = isnull i) :
    ((List.range count).foldl (fillAttr desc values isnull hasnull begin enableReserve)
        { bitmap, reserve }).columns =
      columnsOf desc.attrs isnull (reserved desc enableReserve) values begin count := by
  induction count with
  | zero => rfl
  | succ count hyp =>
    have before := hyp fun i inside => known i (Nat.lt_succ_of_lt inside)
    rw [List.range_succ, List.foldl_append, List.foldl_cons, List.foldl_nil, columnsOf, ← before, fillAttr,
      known count (Nat.lt_succ_self count)]
    cases isnull count with
    | true =>
      cases reserved desc enableReserve count with
      | true => rfl
      | false => exact (List.append_nil _).symm
    | false => rfl

theorem length_bitmap_foldl {start : FillState} :
    ((List.range count).foldl (fillAttr desc values isnull hasnull begin enableReserve) start).bitmap.length =
      start.bitmap.length := by
  induction count with
  | zero => rfl
  | succ count hyp =>
    rw [List.range_succ, List.foldl_append, List.foldl_cons, List.foldl_nil, ← hyp, fillAttr]
    split_ifs
    all_goals simp only [length_setBit]

theorem tupPtr_uheapFormTuple (formed : uheapFormTuple desc reserveSpace values isnull = some tup) :
    tup.tupPtr tup.tHoff = columnsOf desc.attrs isnull
      (reserved desc (reserveSpace && nAttrsReserveSpace desc.natts)) values tup.tHoff desc.natts := by
  have facts := uheapFormTuple_formed formed
  rw [uheapFormTuple] at formed
  split_ifs at formed with many
  have hoff := hoff_lt (Nat.not_lt.mp many) (nullsBefore_le isnull desc.natts)
  obtain rfl := Option.some.inj formed
  have known (i : Nat) (inside : i < desc.natts) :
      (decide (0 < nullsBefore isnull desc.natts) && isnull i) = isnull i := by
    by_cases pos : 0 < nullsBefore isnull desc.natts
    · rw [decide_eq_true pos, Bool.true_and]
    · have absent := List.countP_eq_zero.mp (Nat.eq_zero_of_not_pos pos) i (List.mem_range.mpr inside)
      rw [Bool.eq_false_iff.mpr absent, Bool.and_false]
  simp only [Nat.mod_eq_of_lt hoff]
  refine tupPtr_tHoff (congrArg (_ ++ ·) (columns_foldl known)) ?_
  rw [length_bitmap_foldl, List.length_replicate]

theorem laidOut_uheapFormTuple {desc0 : TupleDesc}
    (formed : uheapFormTuple desc0 reserveSpace values isnull = some tup)
    (same : ∀ i < desc0.natts, SameLayout (desc0.attrs i) (desc.attrs i))
    (fits : ∀ i < desc0.natts, isnull i = false → Fits (desc0.attrs i) (values i)) :
    LaidOut desc tup desc0.attrs isnull (reserved desc0 (reserveSpace && nAttrsReserveSpace desc0.natts)) values
      desc0.natts := by
  have facts := uheapFormTuple_formed formed
  refine ⟨facts.tHoff, ?_, same, facts.nulls, fun i inside null => ?_, fun i _ _ kept => ?_, fits⟩
  · rw [tupPtr_uheapFormTuple formed]
  · rw [facts.natts]
    have total : nullsBefore isnull (i + 1) ≤ nullsBefore isnull desc0.natts := nullsBefore_mono isnull inside
    rw [BitsFilled.nullsBefore_null null] at total
    have own := reserveList_getD (reserved desc0 (reserveSpace && nAttrsReserveSpace desc0.natts)) inside null
    cases reverse : nAttrsReserveSpace desc0.natts with
    | true =>
      have read := facts.reserveBits reverse (nullsBefore isnull i) (by omega)
      rw [reserves, own] at read
      rw [read, Bool.not_not, Bool.true_and, reverse]
    | false => rw [reserved, Bool.and_false, Bool.false_and, Bool.false_and, Bool.false_and]
  · rw [reserved, Bool.and_eq_true, Bool.and_eq_true] at kept
    exact (desc0.attrs i).byval kept.1.2

/-- The bitmap of a formed tuple, with all the bits that are read, and the columns behind it. -/
theorem bitmap_uheapFormTuple (formed : uheapFormTuple desc reserveSpace values isnull = some tup) :
    ∃ bitmap columns, tup.data = bitmap ++ columns ∧ tup.tHoff = sizeOfUHeapDiskTupleData + bitmap.length ∧
      tup.tHoff < 256 ∧ (tup.hasNulls = true → desc.natts ≤ bitmap.length * 8 ∧
        (nAttrsReserveSpace desc.natts = true →
          desc.natts + nullsBefore isnull desc.natts ≤ bitmap.length * 8)) := by
  rw [uheapFormTuple] at formed
  split_ifs at formed with many
  have hoff := hoff_lt (Nat.not_lt.mp many) (nullsBefore_le isnull desc.natts)
  obtain rfl := Option.some.inj formed
  refine ⟨_, _, rfl, ?_, Nat.mod_lt _ (by decide), fun nulls => ?_⟩
  · rw [length_bitmap_foldl, List.length_replicate]
    exact Nat.mod_eq_of_lt hoff
  · rw [length_bitmap_foldl, List.length_replicate, if_neg (Nat.ne_of_gt (of_decide_eq_true nulls))]
    unfold bitmapLen
    split_ifs with reverse
    · exact ⟨by omega, fun _ => by omega⟩
    · exact ⟨by omega, fun also => absurd also reverse⟩

/-- A tuple that begins like another, with its header and its data, is laid out alike. -/
theorem LaidOut.of_part {older : Nat → FormPgAttribute} {keeps : Nat → Bool} {row : UHeapDiskTuple}
    (laidOut : LaidOut desc tup older isnull keeps values count) (natts : row.natts = tup.natts)
    (hasNulls : row.hasNulls = tup.hasNulls) (tHoff : row.tHoff = tup.tHoff) (data : tup.data <+: row.data)
    (nullBits : tup.hasNulls = true → ∀ i < count, i / isnullAttrsPerByte < tup.data.length)
    (reserveBits : tup.hasNulls = true → nAttrsReserveSpace tup.natts = true → ∀ i < count, isnull i = true →
      (tup.natts + nullsBefore isnull i) / isnullAttrsPerByte < tup.data.length) :
    LaidOut desc row older isnull keeps values count := by
  obtain ⟨rest, data⟩ := data
  have bit {att : Nat} (inside : att / isnullAttrsPerByte < tup.data.length) :
      attIsnull att row.data = attIsnull att tup.data := by
    rw [← data, attIsnull_append inside]
  refine ⟨by rw [tHoff]; exact laidOut.tHoff, ?_, laidOut.same, fun i inside => ?_, fun i inside null => ?_,
    laidOut.keeps, laidOut.fits⟩
  · rw [tHoff]
    refine laidOut.columns.trans ?_
    unfold UHeapDiskTuple.tupPtr
    split_ifs
    · exact List.prefix_rfl
    · rw [← data]
      exact (List.prefix_append _ _).drop _
  · rw [← laidOut.nulls i inside, hasNulls]
    cases nulls : tup.hasNulls with
    | false => rfl
    | true => rw [bit (nullBits nulls i inside)]
  · have nulls : tup.hasNulls = true := by
      have set := laidOut.nulls i inside
      rw [null, Bool.and_eq_true] at set
      exact set.1
    rw [← laidOut.reserveBits i inside null, natts]
    cases reverse : nAttrsReserveSpace tup.natts with
    | false => rfl
    | true => rw [bit (reserveBits nulls reverse i inside null)]

end FormTuple

def FormPgAttribute.extended (att : FormPgAttribute) : FormPgAttribute := { att with attstorage := .extended }

/-- A value up to the length of its header, which depends on how it is stored. -/
def attContent (att : FormPgAttribute) (val : List UInt8) : List UInt8 := stored att.extended val

def Datum.content (att : FormPgAttribute) (tup : UHeapDiskTuple) : Datum → List UInt8
  | .value bytes => bytes
  | .pointer off => attContent att (tup.tupPtr off)
  | .initDefVal bytes => attContent att bytes

theorem attContent_fetchatt (att : FormPgAttribute) (tup : UHeapDiskTuple) (off : Int) :
    (fetchatt att tup off).content att tup = attContent att (tup.tupPtr off) := by
  unfold fetchatt
  split_ifs with byval
  · have fixed := att.byval byval
    have other : att.attlen ≠ lenVarlena := by
      rw [lenVarlena]
      omega
    have size : attSize att.extended (tup.tupPtr off) = att.attlen.toNat := if_pos fixed
    have long : shortens att.extended (tup.tupPtr off) = false := shortens_eq_false other
    rw [attContent, stored_of_not_shortens long, size]
    rfl
  · rfl

theorem attContent_stored {att : FormPgAttribute} {val : List UInt8} (fits : Fits att val) (rest : List UInt8) :
    attContent att (stored att val ++ rest) = attContent att val := by
  have extended : Fits att.extended val := ⟨fits.whole, fits.header⟩
  unfold attContent
  cases short : shortens att val with
  | true =>
    have held := of_decide_eq_true short
    have also : shortens att.extended val = true :=
      decide_eq_true ⟨held.1, held.2.1, nofun, held.2.2.2⟩
    have same : stored att val = stored att.extended val := by
      rw [stored, stored, short, also]
      rfl
    have size := attSize_stored extended rest
    have free := varattIs1B_stored extended rest
    rw [also, Bool.or_true] at free
    have long : shortens att.extended (stored att.extended val ++ rest) = false :=
      decide_eq_false fun again => by
        rw [free] at again
        exact absurd again.2.1 (by decide)
    rw [same, stored_of_not_shortens long, size, List.take_left]
  | false =>
    rw [stored_of_not_shortens short]
    exact stored_take extended rest

theorem uheapDeformTuple_initDefVal {desc : TupleDesc} {tup : UHeapDiskTuple} (old : Nat → Option Datum)
    {attnum : Nat} (added : tup.natts ≤ attnum) (known : attnum < desc.natts) :
    uheapDeformTuple desc tup old attnum = heapGetInitDefVal desc attnum :=
  if_pos ⟨(Nat.min_le_left _ _).trans added, known⟩

end OpenGauss.UStore
