import OpenGauss.BigInteger.Compare
import OpenGauss.Lib.DecimalText

namespace OpenGauss.BigInteger

open Lib

/-- The options of `behavior_compat_flags` that numerals are subject to. -/
structure OutFlags where
  displayLeadingZero : Bool
  hideTailingZero : Bool
  truncNumericTailZero : Bool
deriving DecidableEq

def maxBi64Len : Nat := 25

def maxBi128Len : Nat := 45

def text (digits : List Nat) : List Char := digits.map decimalChar

/-- What is in the buffer with the zero behind it, `none` where that does not fit. -/
def buffered (len : Nat) (str : List Char) : Option (List Char) :=
  if str.length < len then some str else none

variable (displayLeadingZero : Bool)

/-- The form of all numerals: nothing stands before the decimal point where 0 is suppressed, and
there is no decimal point without a scale. -/
def pointForm (preVal postVal scale : Nat)
    (preText postText : List Char) : List Char :=
  if 0 < scale then
    if preVal = 0 ∧ postVal ≠ 0 ∧ displayLeadingZero = false then '.' :: postText
    else preText ++ '.' :: postText
  else preText

/-- The decimal point in the least value, which is kept as a string. -/
def splitMinStr (minStr : List Char) (scale : Nat) : List Char :=
  if 0 < scale then
    minStr.take (minStr.length - scale) ++ '.' :: minStr.drop (minStr.length - scale)
  else minStr

def int64MinStr : List Char := "-9223372036854775808".toList

def int128MinStr : List Char := "-170141183460469231731687303715884105728".toList

def signText (data : Int) : List Char := if 0 ≤ data then [] else ['-']

def bi64Out (data : Int) (scale : Nat) : Option (List Char) :=
  if data = int64Min then buffered maxBi64Len (splitMinStr int64MinStr scale)
  else
    let preVal := data.natAbs / 10 ^ scale
    let postVal := data.natAbs % 10 ^ scale
    buffered maxBi64Len (signText data ++ pointForm displayLeadingZero preVal postVal scale
      (text (plain preVal)) (text (padded scale postVal)))

def p10Int64 : Nat := 10 ^ 18

/-- As many numbers of 64 bits as the value needs; a width is given where zeros are put in front. -/
def int128ToString (width : Option Nat) (data : Nat) : List Char :=
  let print (used value : Nat) : List Nat :=
    match width with
    | some scale => padded (scale - used) value
    | none => plain value
  if data < 2 ^ 63 then text (print 0 data)
  else
    let trailing := data % p10Int64
    let num := data / p10Int64
    if num < 2 ^ 63 then text (print 18 num) ++ text (padded 18 trailing)
    else
      let middle := num % p10Int64
      let leading := num / p10Int64
      text (print 36 leading) ++ text (padded 18 middle) ++ text (padded 18 trailing)

def bi128Out (data : Int) (scale : Nat) : Option (List Char) :=
  if data = int128Min then buffered maxBi128Len (splitMinStr int128MinStr scale)
  else
    let preVal := data.natAbs / 10 ^ scale
    let postVal := data.natAbs % 10 ^ scale
    buffered maxBi128Len (signText data ++ pointForm displayLeadingZero preVal postVal scale
      (int128ToString none preVal) (int128ToString (some scale) postVal))

def biOut : BiNumeric → Option (List Char)
  | .bi64 num => bi64Out displayLeadingZero num.value num.scale
  | .bi128 num => bi128Out displayLeadingZero num.value num.scale

/-- The digit at an index from the first one, 0 beyond the ones that are stored. -/
def NumericData.digitAt (n : NumericData) (d : Int) : Nat :=
  if 0 ≤ d then n.nData.getD d.toNat 0 else 0

def putDigits (dig : Nat) : List Nat :=
  let d1 := dig / 1000
  let dig1 := dig - d1 * 1000
  let d2 := dig1 / 100
  let dig2 := dig1 - d2 * 100
  let d3 := dig2 / 10
  [d1, d2, d3, dig2 - d3 * 10]

/-- Those of the first digit, without zeros in front. -/
def putFirstDigits (dig : Nat) : List Nat :=
  let d1 := dig / 1000
  let dig1 := dig - d1 * 1000
  let d2 := dig1 / 100
  let dig2 := dig1 - d2 * 100
  let d3 := dig2 / 10
  (if 0 < d1 then [d1] else []) ++ (if 0 < d1 ∨ 0 < d2 then [d2] else []) ++
    (if 0 < d1 ∨ 0 < d2 ∨ 0 < d3 then [d3] else []) ++ [dig2 - d3 * 10]

/-- What stands before the decimal point. -/
def NumericData.preText (n : NumericData) (displayLeadingZero : Bool) : List Char :=
  if n.weight < 0 then if displayLeadingZero then ['0'] else []
  else
    text ((List.range (n.weight.toNat + 1)).flatMap fun d : Nat =>
      if 0 < d then putDigits (n.digitAt d) else putFirstDigits (n.digitAt d))

/-- What stands behind it: whole digits, cut off at the display scale. -/
def NumericData.postText (n : NumericData) : List Char :=
  text (((List.range ((n.dscale + 3) / 4)).flatMap fun i : Nat =>
    putDigits (n.digitAt (n.weight + 1 + i))).take n.dscale)

/-- Zeros at the end of a fraction, and the decimal point if nothing stands behind it any more. -/
def removeTailZero (ascii : List Char) : List Char :=
  if '.' ∈ ascii then
    let stripped := ascii.rdropWhile (· == '0')
    let cut := if stripped.getLast? = some '.' then stripped.dropLast else stripped
    if cut = [] then ['0'] else cut
  else ascii

variable (flags : OutFlags)

def getStrFromVar (n : NumericData) : List Char :=
  let str := (if n.negative then ['-'] else []) ++ n.preText flags.displayLeadingZero ++
    (if 0 < n.dscale then '.' :: n.postText else [])
  if flags.hideTailingZero then removeTailZero str else str

def numericOutWithZero : NumericDatum → Option (List Char)
  | .nan => some "NaN".toList
  | .bi num => biOut flags.displayLeadingZero num
  | .normal n => some (getStrFromVar flags n)

def numericOut (num : NumericDatum) : Option (List Char) := do
  let ans ← numericOutWithZero flags num
  some (if flags.truncNumericTailZero then removeTailZero ans else ans)

/-- The numeral of a number at a scale, with as many digits behind the decimal point. -/
def numeral (value : Int) (scale : Nat) : List Char :=
  (if value < 0 then ['-'] else []) ++
    pointForm displayLeadingZero (value.natAbs / 10 ^ scale) (value.natAbs % 10 ^ scale) scale
      (text (plain (value.natAbs / 10 ^ scale))) (text (padded scale (value.natAbs % 10 ^ scale)))

theorem text_append (digits rest : List Nat) : text (digits ++ rest) = text digits ++ text rest :=
  List.map_append

theorem int128ToString_plain (data : Nat) : int128ToString none data = text (plain data) := by
  unfold int128ToString
  dsimp only
  split_ifs with one two
  · rfl
  · rw [← text_append, p10Int64, ← plain_append (by decide)]
    rw [p10Int64] at two
    omega
  · rw [p10Int64] at two
    have first : data / 10 ^ 18 ≠ 0 := by omega
    have second : data / 10 ^ 18 / 10 ^ 18 ≠ 0 := by omega
    rw [p10Int64, plain_append (by decide : 0 < 18) first,
      plain_append (by decide : 0 < 18) second, text_append, text_append]

theorem int128ToString_padded {data scale : Nat} (below : data < 10 ^ scale) :
    int128ToString (some scale) data = text (padded scale data) := by
  have wide : ∀ bound, 10 ^ bound ≤ data → bound < scale := fun bound reached =>
    (Nat.pow_lt_pow_iff_right (by decide : 1 < 10)).mp (reached.trans_lt below)
  unfold int128ToString
  dsimp only
  split_ifs with one two
  · rfl
  · rw [p10Int64, padded_append (by decide : 0 < 18) (wide 18 (by omega)) below, text_append]
  · rw [p10Int64] at two
    have more := wide 36 (by omega)
    have front : data / 10 ^ 18 < 10 ^ (scale - 18) := by
      apply Nat.div_lt_of_lt_mul
      rwa [← pow_add, Nat.add_sub_cancel' (by omega)]
    have rest : scale - 18 - 18 = scale - 36 := by omega
    rw [p10Int64, padded_append (by decide : 0 < 18) (wide 18 (by omega)) below,
      padded_append (by decide : 0 < 18) (by omega) front, text_append, text_append, rest]

theorem length_text (digits : List Nat) : (text digits).length = digits.length := List.length_map _

theorem numeral_length {value : Int} {scale width : Nat} (below : value.natAbs < 10 ^ width)
    (fine : scale ≤ width) (displayLeadingZero : Bool) :
    (numeral displayLeadingZero value scale).length ≤ width + 3 := by
  have pre : (plain (value.natAbs / 10 ^ scale)).length ≤ max (width - scale) 1 := by
    rw [length_plain_le (by omega)]
    have rest : value.natAbs / 10 ^ scale < 10 ^ (width - scale) := by
      apply Nat.div_lt_of_lt_mul
      rwa [← pow_add, Nat.add_sub_cancel' fine]
    exact rest.trans_le (Nat.pow_le_pow_right (by decide) (le_max_left _ _))
  have post : 0 < scale → (padded scale (value.natAbs % 10 ^ scale)).length = scale :=
    fun present => length_padded present (Nat.mod_lt _ (by positivity))
  have sign : (if value < 0 then ['-'] else []).length ≤ 1 := by split_ifs <;> simp
  have form : (pointForm displayLeadingZero (value.natAbs / 10 ^ scale)
      (value.natAbs % 10 ^ scale) scale (text (plain (value.natAbs / 10 ^ scale)))
      (text (padded scale (value.natAbs % 10 ^ scale)))).length ≤ width + 2 := by
    unfold pointForm
    split_ifs with present suppressed
    · have exact := post present
      rw [List.length_cons, length_text]
      omega
    · have exact := post present
      rw [List.length_append, List.length_cons, length_text, length_text]
      omega
    · rw [length_text]
      omega
  rw [numeral, List.length_append]
  omega

theorem pointForm_of_pre {displayLeadingZero : Bool} {preVal postVal scale : Nat}
    {preText postText : List Char} (pos : 0 < scale) (nonzero : preVal ≠ 0) :
    pointForm displayLeadingZero preVal postVal scale preText postText = preText ++ '.' :: postText := by
  rw [pointForm, if_pos pos, if_neg (by simp [nonzero])]

/-- The decimal point is put where it belongs as long as a digit is left in front of it. -/
theorem splitMinStr_eq {value scale : Nat} (reached : 10 ^ scale ≤ value) (displayLeadingZero : Bool) :
    splitMinStr ('-' :: text (plain value)) scale = numeral displayLeadingZero (-value) scale := by
  have pre : value / 10 ^ scale ≠ 0 := (Nat.div_pos reached (by positivity)).ne'
  have positive : 0 < value := (Nat.pow_pos (by decide)).trans_le reached
  have negative : (-(value : Int)) < 0 := by omega
  unfold splitMinStr numeral
  rw [if_pos negative, Int.natAbs_neg, Int.natAbs_natCast]
  by_cases pos : 0 < scale
  · have behind := length_padded pos (Nat.mod_lt value (by positivity : 0 < 10 ^ scale))
    have length : ('-' :: text (plain value)).length - scale =
        ('-' :: text (plain (value / 10 ^ scale))).length := by
      rw [plain_append pos pre, text_append, List.length_cons, List.length_append, length_text,
        length_text, behind, List.length_cons, length_text]
      omega
    rw [if_pos pos, pointForm_of_pre pos pre, length, plain_append pos pre, text_append,
      ← List.cons_append, List.take_left, List.drop_left]
    rfl
  · obtain rfl : scale = 0 := by omega
    rw [if_neg pos, pointForm, if_neg pos, pow_zero, Nat.div_one]
    rfl

theorem int64MinStr_eq : int64MinStr = '-' :: text (plain (2 ^ 63)) := by decide

theorem int128MinStr_eq : int128MinStr = '-' :: text (plain (2 ^ 127)) := by decide

theorem natAbs_lt_of_inSigned {bits width : Nat} {data : Int} (inside : InSigned bits data)
    (more : 2 ^ (bits - 1) < 10 ^ width) : data.natAbs < 10 ^ width := by
  have bound := abs_le_of_inSigned inside
  rw [Int.abs_eq_natAbs] at bound
  exact (by exact_mod_cast bound : data.natAbs ≤ 2 ^ (bits - 1)).trans_lt more

theorem buffered_numeral {data : Int} {scale width len : Nat} (below : data.natAbs < 10 ^ width)
    (fine : scale ≤ width) (fits : width + 3 < len) (displayLeadingZero : Bool) :
    buffered len (numeral displayLeadingZero data scale) = some (numeral displayLeadingZero data scale) := by
  have length := numeral_length below fine displayLeadingZero
  exact if_pos (by omega)

/-- What is printed of a value that is not the least one. -/
theorem signText_pointForm (data : Int) (scale : Nat) :
    signText data ++ pointForm displayLeadingZero (data.natAbs / 10 ^ scale)
      (data.natAbs % 10 ^ scale) scale (text (plain (data.natAbs / 10 ^ scale)))
      (text (padded scale (data.natAbs % 10 ^ scale))) = numeral displayLeadingZero data scale := by
  unfold numeral signText
  by_cases negative : data < 0
  · rw [if_pos negative, if_neg (by omega)]
  · rw [if_neg negative, if_pos (by omega)]

theorem bi128Out_eq {data : Int} {scale : Nat} (inside : InSigned 128 data)
    (fine : scale ≤ maxInt128Digit) (displayLeadingZero : Bool) :
    bi128Out displayLeadingZero data scale = some (numeral displayLeadingZero data scale) := by
  have below := @natAbs_lt_of_inSigned 128 39 data inside (by decide)
  rw [maxInt128Digit] at fine
  unfold bi128Out
  split_ifs with least
  · have reached : 10 ^ scale ≤ 2 ^ 127 :=
      (Nat.pow_le_pow_right (by decide) fine).trans (by decide)
    rw [int128MinStr_eq, splitMinStr_eq reached displayLeadingZero]
    have same : data = -((2 ^ 127 : Nat) : Int) := by rw [least, int128Min]; norm_num
    rw [← same]
    exact buffered_numeral below (by omega) (by decide) displayLeadingZero
  · have behind : data.natAbs % 10 ^ scale < 10 ^ scale := Nat.mod_lt _ (by positivity)
    dsimp only
    rw [int128ToString_plain, int128ToString_padded behind, signText_pointForm]
    exact buffered_numeral below (by omega) (by decide) displayLeadingZero

/-- The least value at its last scale, whose numeral has 0 in front of the decimal point. -/
def DropsLeadingZero : BiNumeric → Prop
  | .bi64 num => displayLeadingZero = true ∧ num.value = int64Min ∧ num.scale = maxInt64Digit
  | .bi128 _ => False

theorem bi64Out_eq {displayLeadingZero : Bool} {data : Int} {scale : Nat}
    (inside : InSigned 64 data) (fine : scale ≤ maxInt64Digit)
    (other : ¬ (data = int64Min ∧ scale = maxInt64Digit)) :
    bi64Out displayLeadingZero data scale = some (numeral displayLeadingZero data scale) := by
  have below := @natAbs_lt_of_inSigned 64 19 data inside (by decide)
  rw [maxInt64Digit] at fine other
  unfold bi64Out
  split_ifs with least
  · have reached : 10 ^ scale ≤ 2 ^ 63 :=
      (Nat.pow_le_pow_right (by decide) (by omega : scale ≤ 18)).trans (by decide)
    rw [int64MinStr_eq, splitMinStr_eq reached displayLeadingZero]
    have same : data = -((2 ^ 63 : Nat) : Int) := by rw [least, int64Min]; norm_num
    rw [← same]
    exact buffered_numeral below (by omega) (by decide) displayLeadingZero
  · dsimp only
    rw [signText_pointForm]
    exact buffered_numeral below (by omega) (by decide) displayLeadingZero

theorem biOut_iff (num : BiNumeric) : biOut displayLeadingZero num =
        some (numeral displayLeadingZero num.int128GetVal num.scale) ↔
      ¬ DropsLeadingZero displayLeadingZero num := by
  cases num with
  | bi64 num =>
    change bi64Out displayLeadingZero num.value num.scale =
      some (numeral displayLeadingZero num.value num.scale) ↔
      ¬ (displayLeadingZero = true ∧ num.value = int64Min ∧ num.scale = maxInt64Digit)
    by_cases special : num.value = int64Min ∧ num.scale = maxInt64Digit
    · rw [special.1, special.2]
      cases displayLeadingZero <;> decide
    · refine iff_of_true (bi64Out_eq num.inRange num.admissible special) ?_
      exact fun drops => special drops.2
  | bi128 num => exact iff_of_true (bi128Out_eq num.inRange num.admissible _) id

theorem putDigits_spec {dig : Nat} (small : dig < nbase) :
    (putDigits dig).length = 4 ∧ (∀ digit ∈ putDigits dig, digit < 10) ∧
      decimalValue (putDigits dig) = dig := by
  rw [nbase] at small
  refine ⟨rfl, ?_, ?_⟩
  · intro digit member
    simp only [putDigits, List.mem_cons, List.not_mem_nil, or_false] at member
    omega
  · simp only [putDigits, decimalValue, List.reverse_cons, List.reverse_nil, List.nil_append,
      List.cons_append, Nat.ofDigits_cons, Nat.ofDigits_nil]
    omega

/-- The decimal digits of several digits are those of the number that they stand for. -/
theorem flatMap_putDigits {digits : List Nat} (small : ∀ digit ∈ digits, digit < nbase) :
    (digits.flatMap putDigits).length = 4 * digits.length ∧
      (∀ digit ∈ digits.flatMap putDigits, digit < 10) ∧
      decimalValue (digits.flatMap putDigits) = digitsNat digits := by
  induction digits with
  | nil => exact ⟨rfl, by simp, rfl⟩
  | cons digit digits ih =>
    obtain ⟨first, others⟩ := List.forall_mem_cons.mp small
    obtain ⟨length, tens, value⟩ := ih others
    obtain ⟨length1, tens1, value1⟩ := putDigits_spec first
    rw [List.flatMap_cons]
    refine ⟨?_, ?_, ?_⟩
    · rw [List.length_append, length, length1, List.length_cons]
      omega
    · exact fun other member => (List.mem_append.mp member).elim (tens1 other) (tens other)
    · rw [decimalValue_append, value1, value, length, digitsNat_cons, nbase_eq, decDigits, pow_mul]

theorem putFirstDigits_eq {dig : Nat} (small : dig < nbase) : putFirstDigits dig = plain dig := by
  rw [nbase] at small
  by_cases zero : dig = 0
  · rw [zero]
    decide
  · have value : decimalValue (putFirstDigits dig) = dig := by
      unfold putFirstDigits
      dsimp only
      split_ifs <;> simp [decimalValue, Nat.ofDigits] <;> omega
    rw [← @plain_of (putFirstDigits dig), value]
    · simp [putFirstDigits]
    · unfold putFirstDigits
      dsimp only
      split_ifs <;> simp <;> omega
    · intro digit member
      unfold putFirstDigits at member
      dsimp only at member
      split_ifs at member <;> simp at member <;> omega

namespace NumericData

def groups (n : NumericData) (start : Int) (count : Nat) : List Nat :=
  (List.range count).map fun i : Nat => n.digitAt (start + i)

theorem groups_append (n : NumericData) (start : Int) (count more : Nat) :
    n.groups start (count + more) = n.groups start count ++ n.groups (start + count) more := by
  simp only [groups, List.range_add, List.map_append, List.map_map]
  congr 1
  apply List.map_congr_left
  intro i _
  simp only [Function.comp_apply]
  congr 1
  push_cast
  ring

theorem groups_lt {n : NumericData} (small : ∀ digit ∈ n.nData, digit < nbase) {start : Int}
    {count digit : Nat} (member : digit ∈ n.groups start count) : digit < nbase := by
  obtain ⟨i, -, rfl⟩ := List.mem_map.mp member
  unfold digitAt
  split_ifs
  · rw [List.getD_eq_getElem?_getD]
    cases found : n.nData[(start + i).toNat]? with
    | none => exact (by decide : 0 < nbase)
    | some digit => exact small digit (List.mem_of_getElem? found)
  · decide

theorem groups_eq {n : NumericData} {zeros count : Nat} (enough : zeros + n.nData.length ≤ count) :
    n.groups (-zeros) count = List.replicate zeros 0 ++ n.nData ++
      List.replicate (count - zeros - n.nData.length) 0 := by
  apply List.ext_getElem
  · simp [groups]
    omega
  · intro i inside other
    simp only [groups, List.getElem_map, List.getElem_range, digitAt]
    simp only [List.getElem_append, List.getElem_replicate, List.length_append, List.length_replicate]
    by_cases before : i < zeros
    · rw [if_neg (by omega), dif_pos (by omega), dif_pos before]
    · have index : (-(zeros : Int) + i).toNat = i - zeros := by omega
      rw [if_pos (by omega), index]
      by_cases stored : i - zeros < n.nData.length
      · rw [dif_pos (by omega), dif_neg before, List.getD_eq_getElem?_getD,
          List.getElem?_eq_getElem stored]
        rfl
      · rw [dif_neg (by omega), List.getD_eq_getElem?_getD, List.getElem?_eq_none (by omega)]
        rfl

end NumericData

theorem digitsNat_zeros (count : Nat) : digitsNat (List.replicate count 0) = 0 := by
  rw [digitsNat, List.reverse_replicate, Nat.ofDigits_replicate_zero]

/-- The digits before and behind the decimal point, as many as the display scale needs. -/
theorem digitsNat_groups {n : NumericData} (canonical : n.Canonical) {data : Nat}
    (shown : n.magnitude = (data : ℚ) / 10 ^ n.dscale) :
    digitsNat (n.groups (min 0 (n.weight + 1)) ((n.weight + 1).toNat + (n.dscale + 3) / 4)) =
      data * 10 ^ ((n.dscale + 3) / 4 * 4 - n.dscale) := by
  have start : min 0 (n.weight + 1) = -((-(n.weight + 1)).toNat : Int) := by omega
  have hidden : n.nData = [] ∨ -4 < n.scaleDiff := by
    by_cases empty : n.nData = []
    · exact .inl empty
    · exact .inr (canonical.scaleDiff_gt empty)
  have weight : n.nData = [] → n.weight = 0 := fun empty => (canonical.zero empty).1
  have diff : n.scaleDiff = n.dscale - ((n.nData.length : Int) - n.weight - 1) * 4 := rfl
  have enough : (-(n.weight + 1)).toNat + n.nData.length ≤ (n.weight + 1).toNat + (n.dscale + 3) / 4 := by
    obtain empty | shownAll := hidden
    · have zero := weight empty
      rw [empty, List.length_nil]
      omega
    · omega
  have whole := NumericData.scaled shown
  rw [start, NumericData.groups_eq enough, digitsNat_append, digitsNat_append, digitsNat_zeros,
    digitsNat_zeros, zero_mul, zero_add, add_zero, List.length_replicate, nbase_eq, ← pow_mul]
  have exponent : ((decDigits * ((n.weight + 1).toNat + (n.dscale + 3) / 4 -
      (-(n.weight + 1)).toNat - n.nData.length) : Nat) : Int) =
      n.scaleDiff + ((n.dscale + 3) / 4 * 4 - n.dscale : Nat) := by
    rw [decDigits]
    omega
  have scaled : (digitsNat n.nData : ℚ) * 10 ^ (decDigits * ((n.weight + 1).toNat +
      (n.dscale + 3) / 4 - (-(n.weight + 1)).toNat - n.nData.length)) =
      data * 10 ^ ((n.dscale + 3) / 4 * 4 - n.dscale) := by
    rw [← zpow_natCast, exponent, zpow_add₀ (by norm_num), ← mul_assoc, whole, zpow_natCast]
  exact_mod_cast scaled

theorem data_zero {n : NumericData} {data : Nat}
    (shown : n.magnitude = (data : ℚ) / 10 ^ n.dscale) (empty : n.nData = []) : data = 0 := by
  rw [NumericData.magnitude, empty, digitsValue, eq_comm, div_eq_zero_iff] at shown
  exact_mod_cast shown.resolve_right (by positivity)

section Digits

variable {n : NumericData} (canonical : n.Canonical) {data : Nat}
  (shown : n.magnitude = (data : ℚ) / 10 ^ n.dscale)
include canonical shown

/-- The decimal point parts the digits as it parts the number. -/
theorem digitsNat_parts :
    digitsNat (n.groups (min 0 (n.weight + 1)) (n.weight + 1).toNat) = data / 10 ^ n.dscale ∧
      digitsNat (n.groups (n.weight + 1) ((n.dscale + 3) / 4)) =
        data % 10 ^ n.dscale * 10 ^ ((n.dscale + 3) / 4 * 4 - n.dscale) := by
  have total := digitsNat_groups canonical shown
  have start : min 0 (n.weight + 1) + ((n.weight + 1).toNat : Int) = n.weight + 1 := by omega
  have below := @digitsNat_lt (n.groups (n.weight + 1) ((n.dscale + 3) / 4))
    fun digit member => NumericData.groups_lt canonical.small member
  have length : (n.groups (n.weight + 1) ((n.dscale + 3) / 4)).length = (n.dscale + 3) / 4 := by
    simp [NumericData.groups]
  have whole : nbase ^ ((n.dscale + 3) / 4) = 10 ^ n.dscale * 10 ^ ((n.dscale + 3) / 4 * 4 - n.dscale) := by
    rw [nbase_eq, decDigits, ← pow_mul, ← pow_add]
    congr 1
    omega
  rw [NumericData.groups_append, digitsNat_append, start, length, whole] at total
  rw [length, whole] at below
  have positive : 0 < 10 ^ ((n.dscale + 3) / 4 * 4 - n.dscale) := by positivity
  constructor
  · rw [← Nat.mul_div_mul_right data (10 ^ n.dscale) positive, ← total, Nat.add_comm,
      Nat.add_mul_div_right _ _ (by positivity), Nat.div_eq_of_lt below, zero_add]
  · rw [← Nat.mul_mod_mul_right, ← total, Nat.mul_add_mod_of_lt below]

theorem postText_eq (pos : 0 < n.dscale) : n.postText = text (padded n.dscale (data % 10 ^ n.dscale)) := by
  obtain ⟨-, value⟩ := digitsNat_parts canonical shown
  obtain ⟨length, small, decimal⟩ := @flatMap_putDigits (n.groups (n.weight + 1) ((n.dscale + 3) / 4))
    fun digit member => NumericData.groups_lt canonical.small member
  have groups : (n.groups (n.weight + 1) ((n.dscale + 3) / 4)).flatMap putDigits =
      (List.range ((n.dscale + 3) / 4)).flatMap fun i : Nat =>
        putDigits (n.digitAt (n.weight + 1 + i)) := List.flatMap_map _ _ _
  have count : (n.groups (n.weight + 1) ((n.dscale + 3) / 4)).length = (n.dscale + 3) / 4 := by
    simp [NumericData.groups]
  rw [groups] at length small decimal
  rw [count] at length
  unfold NumericData.postText
  generalize ((List.range ((n.dscale + 3) / 4)).flatMap fun i : Nat =>
    putDigits (n.digitAt (n.weight + 1 + i))) = digits at *
  have taken : (digits.take n.dscale).length = n.dscale := by
    rw [List.length_take]
    omega
  have rest : (digits.drop n.dscale).length = (n.dscale + 3) / 4 * 4 - n.dscale := by
    rw [List.length_drop]
    omega
  have below := @decimalValue_lt (digits.drop n.dscale)
    fun digit member => small digit (List.mem_of_mem_drop member)
  have cut : decimalValue (digits.take n.dscale) = data % 10 ^ n.dscale := by
    have whole := decimalValue_append (digits.take n.dscale) (digits.drop n.dscale)
    rw [List.take_append_drop, decimal, value, rest] at whole
    rw [rest] at below
    have quotient := congrArg (· / 10 ^ ((n.dscale + 3) / 4 * 4 - n.dscale)) whole
    rw [Nat.mul_div_cancel _ (by positivity), Nat.mul_comm, Nat.mul_add_div (by positivity),
      Nat.div_eq_of_lt below, add_zero] at quotient
    exact quotient.symm
  rw [← cut, padded_of taken pos fun digit member => small digit (List.mem_of_mem_take member)]

theorem data_pos (nonempty : n.nData ≠ []) : 0 < data := by
  have positive := magnitude_pos canonical nonempty
  rw [shown] at positive
  by_contra zero
  obtain rfl : data = 0 := by omega
  simp at positive

theorem preText_eq (displayLeadingZero : Bool) : n.preText displayLeadingZero =
      if data / 10 ^ n.dscale = 0 ∧ data % 10 ^ n.dscale ≠ 0 ∧ displayLeadingZero = false then []
      else text (plain (data / 10 ^ n.dscale)) := by
  obtain ⟨value, -⟩ := digitsNat_parts canonical shown
  unfold NumericData.preText
  by_cases fraction : n.weight < 0
  · have absent : (n.weight + 1).toNat = 0 := by omega
    have pre : data / 10 ^ n.dscale = 0 := by
      rw [← value, absent]
      rfl
    have nonempty : n.nData ≠ [] := fun empty => by
      have zero := (canonical.zero empty).1
      omega
    have positive := data_pos canonical shown nonempty
    have post : data % 10 ^ n.dscale ≠ 0 := by
      have whole := Nat.div_add_mod data (10 ^ n.dscale)
      rw [pre] at whole
      omega
    rw [if_pos fraction, pre]
    cases displayLeadingZero with
    | false => exact (if_pos ⟨rfl, post, rfl⟩).symm
    | true => exact (if_neg (by simp)).symm
  · obtain ⟨last, weight⟩ := Int.eq_ofNat_of_zero_le (not_lt.mp fraction)
    have start : min 0 (n.weight + 1) = 0 := by omega
    have count : (n.weight + 1).toNat = last + 1 := by omega
    have index : n.weight.toNat = last := by omega
    have all : n.groups 0 (last + 1) = n.digitAt 0 :: n.groups 1 last := by
      have parts := n.groups_append 0 1 last
      rw [Nat.add_comm] at parts
      simpa [NumericData.groups] using parts
    have small : ∀ digit ∈ n.digitAt 0 :: n.groups 1 last, digit < nbase := by
      rw [← all]
      exact fun digit member => NumericData.groups_lt canonical.small member
    obtain ⟨first, others⟩ := List.forall_mem_cons.mp small
    rw [start, count, all] at value
    have printed : ((List.range (n.weight.toNat + 1)).flatMap fun d : Nat =>
        if 0 < d then putDigits (n.digitAt d) else putFirstDigits (n.digitAt d)) =
        plain (n.digitAt 0) ++ (n.groups 1 last).flatMap putDigits := by
      rw [index, List.range_succ_eq_map, List.flatMap_cons, List.flatMap_map, NumericData.groups,
        List.flatMap_map, if_neg (lt_irrefl 0), Nat.cast_zero, putFirstDigits_eq first]
      congr 2
      funext i
      rw [if_pos (Nat.succ_pos i), Nat.cast_succ, add_comm]
    rw [if_neg fraction, printed]
    obtain ⟨length, tens, decimal⟩ := flatMap_putDigits others
    by_cases empty : n.nData = []
    · have zero := (canonical.zero empty).1
      have gone : last = 0 := by omega
      have digit : n.digitAt 0 = 0 := by rw [NumericData.digitAt, empty]; rfl
      rw [data_zero shown empty, gone, digit, Nat.zero_div, Nat.zero_mod, if_neg (by simp)]
      rfl
    · have nonzero : n.digitAt 0 ≠ 0 := by
        obtain ⟨digit, rest, digits, first⟩ := canonical.exists_first empty
        intro zero
        rw [NumericData.digitAt, digits] at zero
        exact first zero
      have whole : decimalValue (plain (n.digitAt 0) ++ (n.groups 1 last).flatMap putDigits) =
          data / 10 ^ n.dscale := by
        rw [decimalValue_append, decimalValue_plain, decimal, length, pow_mul, ← value,
          digitsNat_cons, nbase_eq, decDigits]
      have pre : data / 10 ^ n.dscale ≠ 0 := by
        rw [← value, digitsNat_cons]
        have power : 0 < nbase ^ (n.groups 1 last).length := Nat.pow_pos (by decide)
        have product := Nat.mul_pos (Nat.pos_of_ne_zero nonzero) power
        omega
      rw [if_neg (by simp [pre]), ← whole, plain_of]
      · simp [plain_ne_nil]
      · rw [List.head?_append_of_ne_nil _ (plain_ne_nil _)]
        exact head_plain nonzero
      · exact fun digit member => (List.mem_append.mp member).elim plain_lt (tens digit)

/-- The digits of a canonical numeric are printed as its numeral. -/
theorem getStrFromVar_eq (displayLeadingZero truncNumericTailZero : Bool) :
    getStrFromVar ⟨displayLeadingZero, false, truncNumericTailZero⟩ n =
      numeral displayLeadingZero (withSign n.negative data) n.dscale := by
  have sign : (if withSign n.negative data < 0 then ['-'] else []) =
      if n.negative then ['-'] else [] := by
    cases negative : n.negative with
    | false => exact if_neg (by simp [withSign])
    | true =>
      have nonempty : n.nData ≠ [] := fun empty => by
        have plus := (canonical.zero empty).2
        rw [negative] at plus
        exact Bool.noConfusion plus
      have positive := data_pos canonical shown nonempty
      exact if_pos (by simp [withSign]; omega)
  unfold getStrFromVar numeral pointForm
  dsimp only
  rw [if_neg Bool.false_ne_true, natAbs_withSign, sign, preText_eq canonical shown, List.append_assoc]
  congr 1
  by_cases pos : 0 < n.dscale
  · rw [if_pos pos, if_pos pos, postText_eq canonical shown pos]
    split_ifs <;> rfl
  · obtain zero : n.dscale = 0 := by omega
    rw [if_neg pos, if_neg pos, zero, pow_zero, Nat.mod_one, if_neg (by simp), List.append_nil]

end Digits

/-- Digits of the same number at the same scale give the numeral of the integer. -/
theorem getStrFromVar_converts {num : BiNumeric} {n : NumericData} (same : Converts num n)
    (displayLeadingZero truncNumericTailZero : Bool) :
    getStrFromVar ⟨displayLeadingZero, false, truncNumericTailZero⟩ n =
      numeral displayLeadingZero num.int128GetVal num.scale := by
  obtain ⟨canonical, value, dscale⟩ := same
  obtain ⟨data, displayed⟩ := canonical.displayed
  have shown := displayed
  have integer : withSign n.negative data = num.int128GetVal := by
    apply (rational_strictMono num.scale).injective
    rw [dscale] at shown
    exact (NumericData.rational_withSign shown).trans value
  rw [getStrFromVar_eq canonical displayed, integer, dscale]

theorem point_not_mem_text {digits : List Nat} (small : ∀ digit ∈ digits, digit < 10) :
    '.' ∉ text digits := by
  intro member
  obtain ⟨digit, inside, shown⟩ := List.mem_map.mp member
  have every : ∀ digit < 10, decimalChar digit ≠ '.' := by decide
  exact every digit (small digit inside) shown

theorem removeTailZero_of_not_mem {ascii : List Char} (whole : '.' ∉ ascii) :
    removeTailZero ascii = ascii := if_neg whole

section TailZero

variable {front behind : List Char} (one : '.' ∉ front) (only : '.' ∉ behind)

theorem rdropWhile_point (front behind : List Char) : (front ++ '.' :: behind).rdropWhile (· == '0') =
      front ++ '.' :: behind.rdropWhile (· == '0') := by
  rw [List.rdropWhile, List.reverse_append, List.reverse_cons, List.append_assoc, List.dropWhile_append]
  split_ifs with empty
  · have absent : behind.rdropWhile (· == '0') = [] := by
      rw [List.rdropWhile, List.isEmpty_iff.mp empty, List.reverse_nil]
    rw [absent, List.singleton_append, List.dropWhile_cons_of_neg (by decide)]
    simp
  · simp [List.rdropWhile]

include only in
theorem removeTailZero_point : removeTailZero (front ++ '.' :: behind) =
      if behind.rdropWhile (· == '0') = [] then if front = [] then ['0'] else front
      else front ++ '.' :: behind.rdropWhile (· == '0') := by
  unfold removeTailZero
  dsimp only
  rw [if_pos (by simp), rdropWhile_point]
  by_cases absent : behind.rdropWhile (· == '0') = []
  · have last : (front ++ ['.']).getLast? = some '.' := List.getLast?_concat
    rw [absent, if_pos last, List.dropLast_concat, if_pos rfl]
  · have last : (front ++ '.' :: behind.rdropWhile (· == '0')).getLast? ≠ some '.' := by
      intro point
      rw [List.getLast?_append_of_ne_nil _ (by simp), List.getLast?_cons,
        List.getLast?_eq_getLast_of_ne_nil absent] at point
      have inside := List.getLast_mem absent
      have last : (behind.rdropWhile (· == '0')).getLast absent = '.' := Option.some.inj point
      rw [last] at inside
      exact only ((List.rdropWhile_prefix _ _).subset inside)
    rw [if_neg absent, if_neg last, if_neg (by simp)]

include one only

theorem removeTailZero_idem : removeTailZero (removeTailZero (front ++ '.' :: behind)) =
      removeTailZero (front ++ '.' :: behind) := by
  rw [removeTailZero_point only]
  by_cases absent : behind.rdropWhile (· == '0') = []
  · rw [if_pos absent]
    apply removeTailZero_of_not_mem
    split_ifs with empty
    · decide
    · exact one
  · have kept : '.' ∉ behind.rdropWhile (· == '0') :=
      fun inside => only ((List.rdropWhile_prefix _ _).subset inside)
    rw [if_neg absent, removeTailZero_point kept, List.rdropWhile_idempotent, if_neg absent]

omit one in
theorem removeTailZero_eq_self (nonempty : behind ≠ []) :
    removeTailZero (front ++ '.' :: behind) = front ++ '.' :: behind ↔ behind.getLast nonempty ≠ '0' := by
  have kept : behind.rdropWhile (· == '0') = behind ↔ behind.getLast nonempty ≠ '0' := by
    rw [List.rdropWhile_eq_self_iff]
    simp [nonempty]
  rw [removeTailZero_point only, ← kept]
  by_cases absent : behind.rdropWhile (· == '0') = []
  · have length := List.length_pos_of_ne_nil nonempty
    rw [if_pos absent, absent]
    refine iff_of_false (fun same => ?_) nonempty.symm
    have lengths := congrArg List.length same
    rw [List.length_append, List.length_cons] at lengths
    split_ifs at lengths with empty
    · rw [empty, List.length_singleton, List.length_nil] at lengths
      omega
    · omega
  · rw [if_neg absent]
    simp

end TailZero

variable (displayLeadingZero : Bool) (value : Int) (scale : Nat)

/-- What stands behind the decimal point are as many digits as the scale says. -/
theorem numeral_point {scale : Nat} (pos : 0 < scale) :
    ∃ front, '.' ∉ front ∧ numeral displayLeadingZero value scale =
      front ++ '.' :: text (padded scale (value.natAbs % 10 ^ scale)) := by
  have sign : '.' ∉ (if value < 0 then ['-'] else []) := by split_ifs <;> decide
  have pre : '.' ∉ text (plain (value.natAbs / 10 ^ scale)) :=
    point_not_mem_text fun digit member => plain_lt member
  unfold numeral pointForm
  rw [if_pos pos]
  by_cases suppressed : value.natAbs / 10 ^ scale = 0 ∧ value.natAbs % 10 ^ scale ≠ 0 ∧
    displayLeadingZero = false
  · rw [if_pos suppressed]
    exact ⟨_, sign, rfl⟩
  · rw [if_neg suppressed, ← List.append_assoc]
    exact ⟨_, fun member => (List.mem_append.mp member).elim sign pre, rfl⟩

theorem numeral_whole :
    '.' ∉ numeral displayLeadingZero value 0 := by
  have sign : '.' ∉ (if value < 0 then ['-'] else []) := by split_ifs <;> decide
  exact fun member => (List.mem_append.mp member).elim sign
    (point_not_mem_text fun digit inside => plain_lt inside)

theorem getLast_padded {scale value : Nat} (nonempty : text (padded scale value) ≠ []) :
    (text (padded scale value)).getLast nonempty = '0' ↔ 10 ∣ value := by
  have digits : padded scale value ≠ [] := fun empty => nonempty (by rw [empty]; rfl)
  have small := @padded_lt scale value _ (List.getLast_mem digits)
  have whole := decimalValue_append (padded scale value).dropLast [(padded scale value).getLast digits]
  rw [List.dropLast_append_getLast digits, decimalValue_padded, List.length_singleton, pow_one] at whole
  have single : decimalValue [(padded scale value).getLast digits] =
      (padded scale value).getLast digits := by simp [decimalValue]
  have every : ∀ digit < 10, decimalChar digit = '0' ↔ digit = 0 := by decide
  rw [single] at whole
  rw [show (text (padded scale value)).getLast nonempty =
    decimalChar ((padded scale value).getLast digits) from List.getLast_map _, every _ small]
  omega

/-- Whether zeros are hidden in digits only, and there are some. -/
def HidesTailZero (num : BiNumeric) : Prop :=
  flags.hideTailingZero = true ∧ flags.truncNumericTailZero = false ∧ 0 < num.scale ∧ 10 ∣ num.int128GetVal

theorem removeTailZero_numeral :
    removeTailZero (numeral displayLeadingZero value scale) =
        numeral displayLeadingZero value scale ↔ ¬ (0 < scale ∧ 10 ∣ value) := by
  by_cases pos : 0 < scale
  · obtain ⟨front, -, parts⟩ := numeral_point displayLeadingZero value pos
    have behind : value.natAbs % 10 ^ scale < 10 ^ scale := Nat.mod_lt _ (by positivity)
    have digits : text (padded scale (value.natAbs % 10 ^ scale)) ≠ [] := by
      intro empty
      have length := length_padded pos behind
      rw [← length_text, empty] at length
      exact pos.ne length
    have power : 10 ∣ 10 ^ scale := dvd_pow_self 10 pos.ne'
    have tens : 10 ∣ value.natAbs % 10 ^ scale ↔ 10 ∣ value := by
      rw [Nat.dvd_mod_iff power]
      omega
    rw [parts, removeTailZero_eq_self
      (point_not_mem_text fun digit member => padded_lt member) digits, Ne, getLast_padded, tens]
    simp [pos]
  · obtain rfl : scale = 0 := by omega
    exact iff_of_true (removeTailZero_of_not_mem (numeral_whole _ _)) (by simp)

theorem removeTailZero_numeral_idem :
    removeTailZero (removeTailZero (numeral displayLeadingZero value scale)) =
      removeTailZero (numeral displayLeadingZero value scale) := by
  by_cases pos : 0 < scale
  · obtain ⟨front, one, parts⟩ := numeral_point displayLeadingZero value pos
    rw [parts, removeTailZero_idem one (point_not_mem_text fun digit member => padded_lt member)]
  · obtain rfl : scale = 0 := by omega
    have fixed := removeTailZero_of_not_mem (numeral_whole displayLeadingZero value)
    rw [fixed, fixed]

/-- The numeral, in the form that the same number has where it is kept in digits. -/
def Prints (num : BiNumeric) : Prop :=
  biOut flags.displayLeadingZero num = some (numeral flags.displayLeadingZero num.int128GetVal num.scale) ∧
    ∀ n, Converts num n → numericOut flags (.bi num) = numericOut flags (.normal n)

theorem numericOut_same_iff {flags : OutFlags} {num : BiNumeric} {n : NumericData}
    (printed : biOut flags.displayLeadingZero num =
      some (numeral flags.displayLeadingZero num.int128GetVal num.scale))
    (same : Converts num n) :
    numericOut flags (.bi num) = numericOut flags (.normal n) ↔ ¬ HidesTailZero flags num := by
  obtain ⟨displayLeadingZero, hideTailingZero, truncNumericTailZero⟩ := flags
  have digits := getStrFromVar_converts same displayLeadingZero truncNumericTailZero
  have hidden : getStrFromVar ⟨displayLeadingZero, true, truncNumericTailZero⟩ n =
      removeTailZero (numeral displayLeadingZero num.int128GetVal num.scale) :=
    congrArg removeTailZero digits
  have idem := removeTailZero_numeral_idem displayLeadingZero num.int128GetVal num.scale
  have tail := removeTailZero_numeral displayLeadingZero num.int128GetVal num.scale
  unfold numericOut numericOutWithZero
  dsimp only at printed ⊢
  rw [printed]
  cases hideTailingZero with
  | false =>
    rw [digits]
    exact iff_of_true rfl fun hides => Bool.noConfusion hides.1
  | true =>
    rw [hidden]
    cases truncNumericTailZero with
    | true =>
      refine iff_of_true ?_ fun hides => Bool.noConfusion hides.2.1
      exact congrArg some idem.symm
    | false =>
      have condition : HidesTailZero ⟨displayLeadingZero, true, false⟩ num ↔
          0 < num.scale ∧ 10 ∣ num.int128GetVal := by simp [HidesTailZero]
      rw [condition, ← tail]
      exact ⟨fun equal => (Option.some.inj equal).symm, fun equal => congrArg some equal.symm⟩

/-- An integer with a scale is printed in the form of its digits but for the least value at its
last scale, and where only digits hide the zeros at their end. -/
theorem prints_iff (flags : OutFlags) (num : BiNumeric) : Prints flags num ↔
      ¬ DropsLeadingZero flags.displayLeadingZero num ∧ ¬ HidesTailZero flags num := by
  obtain ⟨n, -, same⟩ := makeNumericNormal_converts num
  rw [← biOut_iff]
  constructor
  · intro prints
    exact ⟨prints.1, (numericOut_same_iff prints.1 same).mp (prints.2 n same)⟩
  · intro ⟨printed, shows⟩
    exact ⟨printed, fun n same => (numericOut_same_iff printed same).mpr shows⟩

def leastBi64 : BiNumeric := .bi64 ⟨int64Min, 19, by decide, by decide⟩

/-- The 0 in front of the decimal point is displayed in digits only. -/
theorem not_prints_leastBi64 : biOut true leastBi64 = some "-.9223372036854775808".toList ∧
      ((makeNumericNormal leastBi64).bind fun n => numericOut ⟨true, false, false⟩ (.normal n)) =
        some "-0.9223372036854775808".toList ∧
      ¬ Prints ⟨true, false, false⟩ leastBi64 := by
  have written : numeral true leastBi64.int128GetVal leastBi64.scale =
      "-0.9223372036854775808".toList := by decide
  refine ⟨by decide, ?_, fun prints => ?_⟩
  · obtain ⟨n, made, same⟩ := makeNumericNormal_converts leastBi64
    rw [made, Option.bind_some, ← written]
    exact congrArg some (getStrFromVar_converts same true false)
  · have printed := prints.1
    rw [written] at printed
    exact absurd printed (by decide)

end OpenGauss.BigInteger
