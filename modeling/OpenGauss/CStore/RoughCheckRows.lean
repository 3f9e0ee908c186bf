import OpenGauss.CStore.RoughCheck

/-! Which rows of a CU the rough check keeps: its bounds are values of the CU, so all that can be
lost is what the check and the operator compare differently. -/

namespace OpenGauss.CStore

open Lib

/-- Both bounds are values, and no value lies outside of them. -/
structure CUBounds {Value Key : Type} [LE Key] (key : Value → Key) (values : List Value)
    (bounds : CUMinMax Value) : Prop where
  minMem : bounds.cuMin ∈ values
  maxMem : bounds.cuMax ∈ values
  least : ∀ value ∈ values, key bounds.cuMin ≤ key value
  greatest : ∀ value ∈ values, key value ≤ key bounds.cuMax

section
variable {Value Key : Type} [LinearOrder Key] {key : Value → Key} {less : Value → Value → Bool}

theorem CUBounds.singleton (value : Value) : CUBounds key [value] ⟨value, value⟩ where
  minMem := List.mem_singleton_self value
  maxMem := List.mem_singleton_self value
  least := fun other here => le_of_eq (by rw [List.mem_singleton.mp here])
  greatest := fun other here => le_of_eq (by rw [List.mem_singleton.mp here])

theorem CUBounds.widen {values : List Value} {bounds : CUMinMax Value}
    (keyed : ∀ left right, less left right = true ↔ key left < key right)
    (known : CUBounds key values bounds) (value : Value) :
    ∃ wider, CStore.widen less (some bounds) value = some wider ∧
      CUBounds key (values ++ [value]) wider := by
  have old : ∀ {member : Value}, member ∈ values → member ∈ values ++ [value] :=
    List.mem_append_left [value]
  have new : value ∈ values ++ [value] := List.mem_append_right values (by simp)
  have each : ∀ member ∈ values ++ [value], member ∈ values ∨ member = value := by
    intro member here
    simpa using here
  have inside : key bounds.cuMin ≤ key bounds.cuMax := known.greatest _ known.minMem
  simp only [CStore.widen]
  by_cases below : less value bounds.cuMin = true
  · rw [if_pos below]
    have smaller := (keyed value bounds.cuMin).mp below
    refine ⟨_, rfl, new, old known.maxMem, fun member here => ?_, fun member here => ?_⟩
    · rcases each member here with stored | rfl
      · exact le_trans (le_of_lt smaller) (known.least member stored)
      · exact le_refl _
    · rcases each member here with stored | rfl
      · exact known.greatest member stored
      · exact le_trans (le_of_lt smaller) inside
  · rw [if_neg below]
    have notBelow : key bounds.cuMin ≤ key value := not_lt.mp (mt (keyed _ _).mpr below)
    by_cases above : less bounds.cuMax value = true
    · rw [if_pos above]
      have greater := (keyed bounds.cuMax value).mp above
      refine ⟨_, rfl, old known.minMem, new, fun member here => ?_, fun member here => ?_⟩
      · rcases each member here with stored | rfl
        · exact known.least member stored
        · exact notBelow
      · rcases each member here with stored | rfl
        · exact le_trans (known.greatest member stored) (le_of_lt greater)
        · exact le_refl _
    · rw [if_neg above]
      have notAbove : key value ≤ key bounds.cuMax := not_lt.mp (mt (keyed _ _).mpr above)
      refine ⟨_, rfl, old known.minMem, old known.maxMem, fun member here => ?_,
        fun member here => ?_⟩
      · rcases each member here with stored | rfl
        · exact known.least member stored
        · exact notBelow
      · rcases each member here with stored | rfl
        · exact known.greatest member stored
        · exact notAbove

/-- Every CU with a value has bounds. -/
theorem foldl_widen (keyed : ∀ left right, less left right = true ↔ key left < key right)
    (values : List Value) :
    values = [] ∨ ∃ bounds, values.foldl (widen less) none = some bounds ∧
      CUBounds key values bounds := by
  induction values using List.reverseRecOn with
  | nil => exact Or.inl rfl
  | append_singleton values value ih =>
    right
    rw [List.foldl_append]
    rcases ih with rfl | ⟨bounds, run, known⟩
    · exact ⟨⟨value, value⟩, rfl, CUBounds.singleton value⟩
    · rw [run]
      exact known.widen keyed value

end

theorem fixedBounds_spec (type : FixedType) (values : List Datum) :
    values = [] ∨ ∃ bounds, fixedBounds type values = some bounds ∧
      CUBounds id (values.map type.storedValue) bounds := by
  rcases foldl_widen (fun left right => decide_eq_true_iff (p := left < right))
    (values.map type.storedValue) with empty | found
  · exact Or.inl (List.map_eq_nil_iff.mp empty)
  · exact Or.inr found

/-- What is kept of the strings of a CU. -/
def keptBytes (values : List (List UInt8)) : List (List UInt8) :=
  values.map fun value => value.take minMaxBytes

theorem stringBounds_spec (values : List (List UInt8)) :
    values = [] ∨ ∃ bounds, stringBounds values = some bounds ∧
      CUBounds byteKey (keptBytes values) bounds := by
  have mapped : stringBounds values = (keptBytes values).foldl (widen bytesLess) none := by
    rw [keptBytes, List.foldl_map]
    rfl
  rw [mapped]
  rcases foldl_widen (fun left right => @bytesLess_iff left right) (keptBytes values) with empty | found
  · exact Or.inl (List.map_eq_nil_iff.mp empty)
  · exact Or.inr found

variable (strategy : CStoreStrategy)

theorem ordered_compare {Key : Type} [LinearOrder Key] (left right : Key) :
    ordered strategy (compare left right) ↔ match strategy with
      | .less => left < right
      | .lessEqual => left ≤ right
      | .equal => left = right
      | .greaterEqual => right ≤ left
      | .greater => right < left
      | .invalid => True := by
  cases strategy with
  | less => exact compare_lt_iff_lt
  | lessEqual => exact compare_le_iff_le
  | equal => exact compare_eq_iff_eq
  | greaterEqual => exact compare_ge_iff_ge
  | greater => exact compare_gt_iff_gt
  | invalid => exact Iff.rfl

section

variable {strategy : CStoreStrategy} {stored : List Int} {bounds : CUMinMax Int} {arg : Int}
  (known : CUBounds id stored bounds)

include known

/-- The check lets a CU through when one of its values, as stored, satisfies the key. -/
theorem roughCheckIntCU_of_stored (row : ∃ value ∈ stored, ordered strategy (compare value arg)) :
    roughCheckIntCU strategy bounds.cuMin bounds.cuMax arg = true := by
  obtain ⟨value, here, holds⟩ := row
  have low : bounds.cuMin ≤ value := known.least value here
  have high : value ≤ bounds.cuMax := known.greatest value here
  rw [ordered_compare] at holds
  cases strategy <;> simp [roughCheckIntCU] at holds ⊢ <;> omega

/-- Except for equality that is all it lets through. -/
theorem stored_of_roughCheckIntCU (inequality : strategy ≠ .equal)
    (passes : roughCheckIntCU strategy bounds.cuMin bounds.cuMax arg = true) :
    ∃ value ∈ stored, ordered strategy (compare value arg) := by
  have minCase (holds : ordered strategy (compare bounds.cuMin arg)) :
      ∃ value ∈ stored, ordered strategy (compare value arg) := ⟨_, known.minMem, holds⟩
  have maxCase (holds : ordered strategy (compare bounds.cuMax arg)) :
      ∃ value ∈ stored, ordered strategy (compare value arg) := ⟨_, known.maxMem, holds⟩
  rw [ordered_compare] at minCase maxCase
  cases strategy with
  | equal => exact absurd rfl inequality
  | invalid => exact minCase trivial
  | less => exact minCase (by simpa [roughCheckIntCU] using passes)
  | lessEqual => exact minCase (by simpa [roughCheckIntCU] using passes)
  | greaterEqual => exact maxCase (by simpa [roughCheckIntCU] using passes)
  | greater => exact maxCase (by simpa [roughCheckIntCU] using passes)

end

theorem roughCheckFixed_of_stored {type : FixedType} {strategy : CStoreStrategy}
    {values : List Datum} {arg : Datum}
    (row : ∃ v ∈ values, ordered strategy (compare (type.storedValue v) (type.argValue arg))) :
    roughCheckFixed type strategy values arg = true := by
  rcases fixedBounds_spec type values with rfl | ⟨bounds, found, known⟩
  · rfl
  · obtain ⟨v, here, holds⟩ := row
    rw [roughCheckFixed, found]
    exact roughCheckIntCU_of_stored known ⟨_, List.mem_map_of_mem here, holds⟩

theorem stored_of_roughCheckFixed {type : FixedType} {strategy : CStoreStrategy}
    {values : List Datum} {arg : Datum} (inhabited : values ≠ []) (inequality : strategy ≠ .equal)
    (passes : roughCheckFixed type strategy values arg = true) :
    ∃ v ∈ values, ordered strategy (compare (type.storedValue v) (type.argValue arg)) := by
  rcases fixedBounds_spec type values with empty | ⟨bounds, found, known⟩
  · exact absurd empty inhabited
  · rw [roughCheckFixed, found] at passes
    obtain ⟨value, here, holds⟩ := stored_of_roughCheckIntCU known inequality passes
    obtain ⟨v, inValues, rfl⟩ := List.mem_map.mp here
    exact ⟨v, inValues, holds⟩

/-- Both are in the lower half of the characters, or both in the upper one. -/
def sameHalf (v arg : Datum) : Prop :=
  (v.setWidth 8).toNat < 128 ↔ (arg.setWidth 8).toNat < 128

theorem charSigned (v : Datum) : (v.setWidth 8).toInt = (v.setWidth 8).toNat ∧ (v.setWidth 8).toNat < 128 ∨
      (v.setWidth 8).toInt = (v.setWidth 8).toNat - 256 ∧ 128 ≤ (v.setWidth 8).toNat := by
  rw [BitVec.toInt_eq_toNat_cond]
  split <;> omega

/-- Within one half the two orders agree. -/
theorem signed_iff_of_sameHalf {v arg : Datum} (half : sameHalf v arg) :
    ordered strategy (compare (FixedType.char.storedValue v) (FixedType.char.argValue arg)) ↔
      satisfiesFixed .char strategy v arg := by
  rw [satisfiesFixed, ordered_compare, ordered_compare]
  unfold sameHalf at half
  simp only [FixedType.storedValue, FixedType.argValue, FixedType.rowValue, FixedType.keyValue]
  rcases charSigned v with ⟨row, rowHalf⟩ | ⟨row, rowHalf⟩ <;>
    rcases charSigned arg with ⟨key, keyHalf⟩ | ⟨key, keyHalf⟩ <;>
    cases strategy <;> simp only [row, key] <;> omega

/-- Of two rows in the other half, no one satisfies an inequality as unsigned and the other one as
signed. -/
theorem not_signed_of_halves {v row arg : Datum} {strategy : CStoreStrategy}
    (half : ¬ sameHalf v arg) (rowHalf : ¬ sameHalf row arg)
    (known : strategy ≠ .invalid) (holds : satisfiesFixed .char strategy row arg) :
    ¬ ordered strategy (compare (FixedType.char.storedValue v) (FixedType.char.argValue arg)) := by
  rw [ordered_compare]
  rw [satisfiesFixed, ordered_compare] at holds
  unfold sameHalf at half rowHalf
  simp only [FixedType.storedValue, FixedType.argValue, FixedType.rowValue, FixedType.keyValue] at holds ⊢
  rcases charSigned v with ⟨signed, range⟩ | ⟨signed, range⟩ <;>
    rcases charSigned arg with ⟨key, keyRange⟩ | ⟨key, keyRange⟩ <;>
    cases strategy <;> simp only [signed, key] at holds ⊢ <;>
    first | omega | exact absurd rfl known

/-- An inequality on characters that some row satisfies is satisfied within the half of its
argument. -/
def CharInHalf (values : List Datum) (arg : Datum) : Prop :=
  strategy ≠ .equal → strategy ≠ .invalid → (∃ v ∈ values, satisfiesFixed .char strategy v arg) →
    ∃ v ∈ values, satisfiesFixed .char strategy v arg ∧ sameHalf v arg

theorem sat_iff_stored {type : FixedType} (other : type ≠ .char) (strategy : CStoreStrategy)
    (v arg : Datum) :
    satisfiesFixed type strategy v arg ↔
      ordered strategy (compare (type.storedValue v) (type.argValue arg)) := by
  cases type with
  | char => exact absurd rfl other
  | _ => exact Iff.rfl

theorem satisfiesFixed_char_equal (v arg : Datum) : satisfiesFixed .char .equal v arg ↔
      ordered .equal (compare (FixedType.char.storedValue v) (FixedType.char.argValue arg)) := by
  rw [satisfiesFixed, ordered_compare, ordered_compare]
  simp only [FixedType.storedValue, FixedType.argValue, FixedType.rowValue, FixedType.keyValue]
  rw [BitVec.toInt_inj, Int.natCast_inj, BitVec.toNat_inj]

theorem roughCheckFixed_sound {type : FixedType} (other : type ≠ .char)
    {strategy : CStoreStrategy} {values : List Datum} {arg : Datum}
    (row : ∃ v ∈ values, satisfiesFixed type strategy v arg) :
    roughCheckFixed type strategy values arg = true := by
  obtain ⟨v, here, holds⟩ := row
  exact roughCheckFixed_of_stored ⟨v, here, (sat_iff_stored other strategy v arg).mp holds⟩

theorem roughCheckChar_iff (values : List Datum) (arg : Datum) :
    ((∃ v ∈ values, satisfiesFixed .char strategy v arg) →
      roughCheckFixed .char strategy values arg = true) ↔ CharInHalf strategy values arg := by
  constructor
  · intro sound inequality known row
    obtain ⟨v, here, signed⟩ :=
      stored_of_roughCheckFixed (List.ne_nil_of_mem row.choose_spec.1) inequality (sound row)
    obtain ⟨satisfied, inRows, holds⟩ := row
    by_cases rowHalf : sameHalf satisfied arg
    · exact ⟨satisfied, inRows, holds, rowHalf⟩
    · by_cases half : sameHalf v arg
      · exact ⟨v, here, (signed_iff_of_sameHalf strategy half).mp signed, half⟩
      · exact absurd signed (not_signed_of_halves half rowHalf known holds)
  · intro inHalf row
    by_cases equality : strategy = .equal
    · subst equality
      obtain ⟨v, here, holds⟩ := row
      exact roughCheckFixed_of_stored ⟨v, here, (satisfiesFixed_char_equal v arg).mp holds⟩
    · by_cases unknown : strategy = .invalid
      · subst unknown
        obtain ⟨v, here, _⟩ := row
        exact roughCheckFixed_of_stored ⟨v, here, trivial⟩
      · obtain ⟨v, here, holds, half⟩ := inHalf equality unknown row
        exact roughCheckFixed_of_stored ⟨v, here, (signed_iff_of_sameHalf strategy half).mpr holds⟩

/-- The strategies that are checked against the minimum, and those against the maximum. -/
def CStoreStrategy.usesMin : CStoreStrategy → Prop
  | .less | .lessEqual | .equal => True
  | _ => False

def CStoreStrategy.usesMax : CStoreStrategy → Prop
  | .equal | .greaterEqual | .greater => True
  | _ => False

theorem roughCheckStringCU_iff {strategy : CStoreStrategy} {low high arg : List UInt8} :
    roughCheckStringCU strategy low high arg = true ↔
      (strategy.usesMin → memcmp low arg ≠ .gt) ∧ (strategy.usesMax → memcmp high arg ≠ .lt) := by
  cases strategy <;> simp [roughCheckStringCU, CStoreStrategy.usesMin, CStoreStrategy.usesMax]

theorem roughCheckString_iff {collation : Collation} {strategy : CStoreStrategy}
    {rows : List (List UInt8)} {bounds : CUMinMax (List UInt8)} {arg : List UInt8}
    (found : stringBounds rows = some bounds) :
    roughCheckString collation strategy rows arg = true ↔ (collation = .c ∨ strategy = .equal →
      roughCheckStringCU strategy bounds.cuMin bounds.cuMax arg = true) := by
  rw [roughCheckString, found]
  cases collation with
  | c => simp
  | other compare => cases strategy <;> simp

/-- The kept bytes of a row are not smaller at a first difference, and not so few that others which
continue them may be. -/
def StartsAbove (row arg : List UInt8) : Prop :=
  memcmp (row.take minMaxBytes) arg ≠ .lt ∧ (row <+: arg → min minMaxBytes arg.length ≤ row.length)

/-- What the bounds are checked for holds of the row. -/
def RowInOrder (row arg : List UInt8) : Prop :=
  (strategy.usesMin → memcmp (row.take minMaxBytes) arg ≠ .gt) ∧
    (strategy.usesMax → StartsAbove row arg)

theorem StartsAbove.max {row arg high : List UInt8} (starts : StartsAbove row arg)
    (short : high.length ≤ minMaxBytes) (below : bytesLess high (row.take minMaxBytes) = false) :
    memcmp high arg ≠ .lt := by
  intro less
  rcases memcmp_lt_of_le less below with smaller | ⟨inside, part⟩
  · exact starts.1 smaller
  · by_cases cut : minMaxBytes ≤ row.length
    · have whole : row.take minMaxBytes = high := by
        refine inside.eq_of_length_le ?_
        rwa [List.length_take_of_le cut]
      rw [← whole] at less
      exact starts.1 less
    · rw [List.take_of_length_le (Nat.le_of_not_le cut)] at inside part
      have reaches := starts.2 part
      have equal : row = arg := part.eq_of_length_le (by omega)
      rw [equal] at inside
      rw [memcmp_of_prefix_right inside] at less
      cases less

theorem RowInOrder.kept {collation : Collation} {strategy : CStoreStrategy} {row arg : List UInt8}
    (inOrder : collation = .c ∨ strategy = .equal → RowInOrder strategy row arg)
    {rows : List (List UInt8)} (here : row ∈ rows) :
    roughCheckString collation strategy rows arg = true := by
  rcases stringBounds_spec rows with empty | ⟨bounds, found, known⟩
  · exact absurd empty (List.ne_nil_of_mem here)
  · rw [roughCheckString_iff found]
    intro compared
    obtain ⟨below, above⟩ := inOrder compared
    have kept := List.mem_map_of_mem (f := fun value : List UInt8 => value.take minMaxBytes) here
    refine roughCheckStringCU_iff.mpr ⟨fun low greater => ?_, fun high => ?_⟩
    · exact below low (memcmp_gt_of_le greater (not_bytesLess_iff.mpr (known.least _ kept)))
    · obtain ⟨largest, -, same⟩ := List.mem_map.mp known.maxMem
      refine (above high).max ?_ (not_bytesLess_iff.mpr (known.greatest _ kept))
      rw [← same]
      exact List.length_take_le _ _

/-- What an operator that compares bytes says of the values. -/
theorem satisfiesString_order {type : StringType} {collation : Collation} {strategy : CStoreStrategy}
    {row arg : List UInt8} (compared : collation = .c ∨ strategy = .equal)
    (holds : satisfiesString type collation strategy row arg) :
    (strategy.usesMin → varstrCmp .c (type.compared row) (type.compared arg) ≠ .gt) ∧
      (strategy.usesMax → varstrCmp .c (type.compared row) (type.compared arg) ≠ .lt) := by
  by_cases equality : strategy = .equal
  · subst equality
    have same : type.compared row = type.compared arg := holds
    rw [same, varstrCmp, memcmp_of_prefix (List.prefix_refl _), compare_eq_iff_eq.mpr rfl]
    exact ⟨fun _ => by decide, fun _ => by decide⟩
  · obtain rfl := compared.resolve_right equality
    cases strategy with
    | equal => exact absurd rfl equality
    | invalid => exact ⟨False.elim, False.elim⟩
    | less =>
      refine ⟨fun _ => ?_, False.elim⟩
      rw [show varstrCmp .c _ _ = .lt from holds]
      decide
    | lessEqual => exact ⟨fun _ => holds, False.elim⟩
    | greaterEqual => exact ⟨False.elim, fun _ => holds⟩
    | greater =>
      refine ⟨False.elim, fun _ => ?_⟩
      rw [show varstrCmp .c _ _ = .gt from holds]
      decide

/-- Where blanks count, a row that satisfies the key is in order as it is stored. -/
theorem rowInOrder_of_blanksCount {type : StringType} (blanksCount : type ≠ .bpchar)
    {collation : Collation} {strategy : CStoreStrategy} {row arg : List UInt8}
    (compared : collation = .c ∨ strategy = .equal)
    (holds : satisfiesString type collation strategy row arg) : RowInOrder strategy row arg := by
  have whole (bytes : List UInt8) : type.compared bytes = bytes := by
    cases type with
    | bpchar => exact absurd rfl blanksCount
    | varchar => rfl
    | text => rfl
  obtain ⟨below, above⟩ := satisfiesString_order compared holds
  rw [whole, whole] at below above
  refine ⟨fun low greater => below low ?_, fun high => ⟨fun less => above high ?_, fun part => ?_⟩⟩
  · rw [varstrCmp, memcmp_of_take (by rw [greater]; decide), greater]
    rfl
  · rw [varstrCmp, memcmp_of_take (by rw [less]; decide), less]
    rfl
  · have notLess := above high
    rw [varstrCmp, memcmp_of_prefix part] at notLess
    have longer : arg.length ≤ row.length := not_lt.mp (mt compare_lt_iff_lt.mpr notLess)
    omega

/-- Behind the same bytes, a blank on the left and a smaller byte on the right. -/
def BlankMeetsLower (left right : List UInt8) : Prop :=
  ∃ common byte, common ++ [32] <+: left ∧ common ++ [byte] <+: right ∧ byte < 32

/-- What a `bpchar` row that satisfies a key needs: its blanks, where they do not count, do not make
its kept bytes greater, or smaller, than the argument, and they are not cut off where the argument
has more of them. -/
def BlanksInOrder (row arg : List UInt8) : Prop :=
  (strategy.usesMin → ¬ BlankMeetsLower (row.take minMaxBytes) arg) ∧
    (strategy.usesMax → ¬ BlankMeetsLower arg (row.take minMaxBytes) ∧
      (row <+: arg → min minMaxBytes arg.length ≤ row.length))

section

variable {left right row arg : List UInt8} {common : List UInt8} {byte other : UInt8}

theorem prefix_compared (nonblank : byte ≠ 32) (inside : common ++ [byte] <+: left) :
    common ++ [byte] <+: StringType.bpchar.compared left := by
  obtain ⟨rest, rfl⟩ := inside
  induction rest using List.reverseRecOn with
  | nil =>
    rw [List.append_nil, StringType.compared, List.rdropWhile_concat_neg _ _ _ (by simpa using nonblank)]
  | append_singleton rest last ih =>
    rw [StringType.compared, ← List.append_assoc, List.rdropWhile_concat]
    split
    · exact ih
    · rw [List.append_assoc]
      exact List.prefix_append _ _

/-- A difference by a byte that is no blank is one of the values. -/
theorem varstrCmp_of_difference (nonblank : byte ≠ 32) (inside : common ++ [byte] <+: left)
    (inOther : common ++ [other] <+: right) (order : other < byte) :
    varstrCmp .c (StringType.bpchar.compared left) (StringType.bpchar.compared right) = .gt := by
  have whole := prefix_compared nonblank inside
  have part : StringType.bpchar.compared right <+: right := List.rdropWhile_prefix _ _
  rw [varstrCmp]
  by_cases here : common ++ [other] <+: StringType.bpchar.compared right
  · rw [memcmp_eq_gt_iff.mpr ⟨common, byte, other, whole, here, order⟩]
    rfl
  · have shorter : StringType.bpchar.compared right <+: common := by
      rcases List.prefix_or_prefix_of_prefix part inOther with ended | longer
      · rcases List.prefix_concat_iff.mp ended with same | ended
        · exact absurd (same ▸ List.prefix_refl _) here
        · exact ended
      · exact absurd longer here
    have upTo := shorter.trans ((List.prefix_append common [byte]).trans whole)
    have longer := shorter.length_le.trans_lt (by simpa using whole.length_le)
    rw [memcmp_of_prefix_right upTo, compare_gt_iff_gt.mpr longer]
    rfl

/-- Of values in order, parts are out of order by their blanks only. -/
theorem memcmp_gt_iff {start begin : List UInt8} (part : start <+: left) (partOther : begin <+: right)
    (ordered : varstrCmp .c (StringType.bpchar.compared left) (StringType.bpchar.compared right) ≠ .gt) :
    memcmp start begin = .gt ↔ BlankMeetsLower start begin := by
  rw [memcmp_eq_gt_iff]
  constructor
  · rintro ⟨common, byte, other, inside, inOther, order⟩
    by_cases blank : byte = 32
    · subst blank
      exact ⟨common, other, inside, inOther, order⟩
    · exact absurd (varstrCmp_of_difference blank (inside.trans part) (inOther.trans partOther) order)
        ordered
  · rintro ⟨common, byte, inside, inOther, lower⟩
    exact ⟨common, 32, byte, inside, inOther, lower⟩

end

theorem varstrCmp_swap (left right : List UInt8) :
    (varstrCmp .c left right).swap = varstrCmp .c right left := by
  rw [varstrCmp, varstrCmp, Ordering.swap_then, memcmp_swap, ← Std.OrientedCmp.eq_swap]

/-- A value that is only a part of the bytes of one it is not less than lacks blanks. -/
theorem next_blank {row arg : List UInt8} {next : UInt8} (continued : row ++ [next] <+: arg)
    (notLess : varstrCmp .c (StringType.bpchar.compared row) (StringType.bpchar.compared arg) ≠ .lt) :
    next = 32 := by
  by_contra nonblank
  have whole := prefix_compared nonblank continued
  have part : StringType.bpchar.compared row <+: row := List.rdropWhile_prefix _ _
  have upTo := part.trans ((List.prefix_append row [next]).trans whole)
  have longer := part.length_le.trans_lt (by simpa using whole.length_le)
  rw [varstrCmp, memcmp_of_prefix upTo, compare_lt_iff_lt.mpr longer] at notLess
  exact notLess rfl

theorem rowInOrder_iff {collation : Collation} {strategy : CStoreStrategy} {row arg : List UInt8}
    (compared : collation = .c ∨ strategy = .equal)
    (holds : satisfiesString .bpchar collation strategy row arg) :
    RowInOrder strategy row arg ↔ BlanksInOrder strategy row arg := by
  have part : row.take minMaxBytes <+: row := List.take_prefix _ _
  obtain ⟨below, above⟩ := satisfiesString_order compared holds
  refine and_congr (forall_congr' fun low => ?_) (forall_congr' fun high => ?_)
  · exact not_congr (memcmp_gt_iff part (List.prefix_refl arg) (below low))
  · have turned := above high
    rw [← varstrCmp_swap, ne_eq, Ordering.swap_eq_lt] at turned
    rw [StartsAbove, ← memcmp_gt_iff (List.prefix_refl arg) part turned,
      ← memcmp_swap (row.take minMaxBytes), Ordering.swap_eq_gt]

theorem rowInOrder_of_kept {collation : Collation} {strategy : CStoreStrategy} {row arg : List UInt8}
    (compared : collation = .c ∨ strategy = .equal)
    (holds : satisfiesString .bpchar collation strategy row arg)
    (kept : ∀ rows, row ∈ rows → roughCheckString collation strategy rows arg = true) :
    RowInOrder strategy row arg := by
  have bounded {rows : List (List UInt8)} {bounds : CUMinMax (List UInt8)}
      (found : stringBounds rows = some bounds) (here : row ∈ rows) :=
    roughCheckStringCU_iff.mp ((roughCheckString_iff found).mp (kept rows here) compared)
  obtain ⟨below, above⟩ := bounded (show stringBounds [row] = some _ from rfl) List.mem_cons_self
  refine ⟨below, fun high => ⟨above high, fun part => ?_⟩⟩
  by_contra short
  obtain ⟨rest, rfl⟩ := part
  cases rest with
  | nil => simp at short
  | cons next rest =>
    have continued : row ++ [next] <+: row ++ next :: rest := by simp
    obtain rfl := next_blank continued ((satisfiesString_order compared holds).2 high)
    have few : row.take minMaxBytes = row := List.take_of_length_le (by omega)
    have more : (row ++ [0]).take minMaxBytes = row ++ [0] := by
      refine List.take_of_length_le ?_
      rw [List.length_append, List.length_singleton]
      omega
    have found : stringBounds [row, row ++ [0]] = some ⟨row, row ++ [0]⟩ := by
      change compareVarStrType (some ⟨row.take minMaxBytes, row.take minMaxBytes⟩) (row ++ [0]) = _
      rw [compareVarStrType, few, more, widen]
      have same := memcmp_of_prefix (List.prefix_append row [0])
      have turned := memcmp_of_prefix_right (List.prefix_append row [0])
      simp [bytesLess, same, turned]
    refine (bounded found List.mem_cons_self).2 high ?_
    rw [← memcmp_swap, Ordering.swap_eq_lt, memcmp_eq_gt_iff]
    exact ⟨row, 32, 0, continued, List.prefix_refl _, by decide⟩

/-- No CU with a row of the key is pruned, but for characters across the halves and `bpchar` rows
whose trailing blanks put them out of order. -/
theorem roughCheck_keeps_iff (strategy : CStoreStrategy) (type : FixedType) (values : List Datum)
    (arg : Datum) (stringType : StringType) (collation : Collation) (row bytes : List UInt8) :
    (((∃ v ∈ values, satisfiesFixed type strategy v arg) → roughCheckFixed type strategy values arg = true) ↔
      (type = .char → CharInHalf strategy values arg)) ∧
    ((satisfiesString stringType collation strategy row bytes →
        ∀ rows, row ∈ rows → roughCheckString collation strategy rows bytes = true) ↔
      (satisfiesString stringType collation strategy row bytes → stringType = .bpchar →
        collation = .c ∨ strategy = .equal → BlanksInOrder strategy row bytes)) := by
  constructor
  · by_cases char : type = .char
    · subst char
      rw [roughCheckChar_iff]
      exact ⟨fun inHalf _ => inHalf, fun inHalf => inHalf rfl⟩
    · exact iff_of_true (roughCheckFixed_sound char) fun here => absurd here char
  · refine forall_congr' fun holds => ⟨?_, fun inOrder rows here => ?_⟩
    · rintro kept rfl compared
      exact (rowInOrder_iff compared holds).mp (rowInOrder_of_kept compared holds kept)
    · refine RowInOrder.kept (fun compared => ?_) here
      by_cases blanks : stringType = .bpchar
      · subst blanks
        exact (rowInOrder_iff compared holds).mpr (inOrder rfl compared)
      · exact rowInOrder_of_blanksCount blanks compared holds

/-- The character `0x80` is greater than `z`, and a letter before a control character is greater than
the same letter before a blank that does not count: both CUs are pruned. -/
theorem roughCheck_prunes : ¬ ((∃ v ∈ [0x61, 0x80], satisfiesFixed .char .greater v 0x7A) →
      roughCheckFixed .char .greater [0x61, 0x80] 0x7A = true) ∧
    ¬ ((∃ row ∈ [[97, 31, 32]], satisfiesString .bpchar .c .greater row [97, 32]) →
      roughCheckString .c .greater [[97, 31, 32]] [97, 32] = true) := by
  constructor
  · intro sound
    exact absurd (sound ⟨0x80, by decide, by decide⟩) (by decide)
  · intro sound
    exact absurd (sound ⟨[97, 31, 32], by decide, by decide⟩) (by decide)

end OpenGauss.CStore
