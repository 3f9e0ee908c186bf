import OpenGauss.BigInteger.NumericConvert

namespace OpenGauss.BigInteger

open Lib

section Answers

variable {α β : Type*} [LinearOrder α] [LinearOrder β]

def threeWay (left right : α) : Int := if right < left then 1 else if left < right then -1 else 0

inductive CmpOp where
  | bieq
  | bineq
  | bile
  | bilt
  | bige
  | bigt
  | bicmp

/-- The `switch` over the operators, for two values that are compared directly. -/
def CmpOp.answer (op : CmpOp) (left right : α) : Int :=
  match op with
  | bieq => if left = right then 1 else 0
  | bineq => if left ≠ right then 1 else 0
  | bile => if left ≤ right then 1 else 0
  | bilt => if left < right then 1 else 0
  | bige => if right ≤ left then 1 else 0
  | bigt => if right < left then 1 else 0
  | bicmp => threeWay left right

theorem CmpOp.answer_map {f : α → β} (mono : StrictMono f) (op : CmpOp) (left right : α) :
    op.answer (f left) (f right) = op.answer left right := by
  cases op <;> simp only [answer, threeWay, mono.lt_iff_lt, mono.le_iff_le, mono.injective.eq_iff, ne_eq]

/-- The answer is the one that the order of three ways gives. -/
theorem CmpOp.answer_threeWay (op : CmpOp) (left right : α) :
    op.answer (threeWay left right) 0 = op.answer left right := by
  rcases lt_trichotomy left right with less | same | more
  · cases op <;> simp [answer, threeWay, less, less.le, less.ne, less.not_ge, less.not_gt]
  · cases op <;> simp [answer, threeWay, same]
  · cases op <;> simp [answer, threeWay, more, more.le, more.ne', more.not_ge]

end Answers

/-- The loop over the digits above the weight of the other number, `none` at one that is not 0. -/
def skipHigher (otherWeight : Int) : Int → List Nat → Option (Int × List Nat)
  | weight, [] => some (weight, [])
  | weight, digit :: digits =>
    if otherWeight < weight then
      if digit ≠ 0 then none else skipHigher otherWeight (weight - 1) digits
    else some (weight, digit :: digits)

/-- The loops over the digits that one side has left. -/
def cmpRest (digits1 digits2 : List Nat) : Int :=
  if digits1.any (· ≠ 0) then 1 else if digits2.any (· ≠ 0) then -1 else 0

/-- The loop over digits of one weight. -/
def cmpDigits : List Nat → List Nat → Int
  | digit1 :: digits1, digit2 :: digits2 =>
    if digit1 = digit2 then cmpDigits digits1 digits2
    else if digit2 < digit1 then 1 else -1
  | digits1, digits2 => cmpRest digits1 digits2

def cmpAbsCommon (digits1 : List Nat) (weight1 : Int) (digits2 : List Nat) (weight2 : Int) : Int :=
  match skipHigher weight2 weight1 digits1 with
  | none => 1
  | some (weight1, digits1) =>
    match skipHigher weight1 weight2 digits2 with
    | none => -1
    | some (weight2, digits2) =>
      if weight1 = weight2 then cmpDigits digits1 digits2 else cmpRest digits1 digits2

def cmpVarCommon (var1 var2 : NumericData) : Int :=
  if var1.nData = [] then
    if var2.nData = [] then 0 else if var2.negative then 1 else -1
  else if var2.nData = [] then
    if !var1.negative then 1 else -1
  else if !var1.negative then
    if var2.negative then 1
    else cmpAbsCommon var1.nData var1.weight var2.nData var2.weight
  else if !var2.negative then -1
  else cmpAbsCommon var2.nData var2.weight var1.nData var1.weight

variable (weight : Int) (digits : List Nat)

theorem digitsValue_nonneg : 0 ≤ digitsValue weight digits := by
  rw [digitsValue_eq]
  positivity

theorem any_nonzero_iff :
    digits.any (· ≠ 0) = true ↔ 0 < digitsValue weight digits := by
  induction digits generalizing weight with
  | nil => simp [digitsValue]
  | cons digit digits ih =>
    have power : (0 : ℚ) < (nbase : ℚ) ^ weight := zpow_pos (by norm_num [nbase]) _
    have others := digitsValue_nonneg (weight - 1) digits
    rw [List.any_cons, Bool.or_eq_true, ih (weight - 1), digitsValue]
    by_cases nonzero : digit = 0
    · simp [nonzero]
    · have first : (0 : ℚ) < digit * (nbase : ℚ) ^ weight := by positivity
      simp only [ne_eq, nonzero, not_false_eq_true, decide_true, true_or, true_iff]
      linarith

variable {digits1 digits2 : List Nat} {left right : ℚ}

theorem cmpRest_spec (weight1 weight2 : Int) (out : digits1 = [] ∨ digits2 = []) :
    cmpRest digits1 digits2 = threeWay (digitsValue weight1 digits1) (digitsValue weight2 digits2) := by
  have nonneg1 := digitsValue_nonneg weight1 digits1
  have nonneg2 := digitsValue_nonneg weight2 digits2
  have zero : ∀ weight, digitsValue weight [] = 0 := fun _ => rfl
  unfold cmpRest threeWay
  obtain rfl | rfl := out
  · rw [zero, if_neg (by simp), if_neg nonneg2.not_gt]
    exact if_congr (any_nonzero_iff _ _) rfl rfl
  · rw [zero, if_neg nonneg1.not_gt, List.any_nil, if_neg Bool.false_ne_true]
    exact if_congr (any_nonzero_iff _ _) rfl rfl

theorem threeWay_lt (less : left < right) : threeWay left right = -1 := by
  rw [threeWay, if_neg less.not_gt, if_pos less]

theorem threeWay_gt (more : right < left) : threeWay left right = 1 :=
  if_pos more

/-- A greater first digit outweighs all that follow. -/
theorem digitsValue_lt {digit1 digit2 : Nat} (small : ∀ digit ∈ digits1, digit < nbase)
    (less : digit1 < digit2) :
    digitsValue weight (digit1 :: digits1) < digitsValue weight (digit2 :: digits2) := by
  have power : (0 : ℚ) < (nbase : ℚ) ^ weight := zpow_pos (by norm_num [nbase]) _
  obtain ⟨-, below⟩ := @digitsValue_bounds (weight - 1) digits1 small
  have others := digitsValue_nonneg (weight - 1) digits2
  have step : (digit1 : ℚ) + 1 ≤ digit2 := by exact_mod_cast less
  rw [sub_add_cancel] at below
  rw [digitsValue, digitsValue]
  calc (digit1 : ℚ) * (nbase : ℚ) ^ weight + digitsValue (weight - 1) digits1
      < (digit1 + 1) * (nbase : ℚ) ^ weight := by rw [add_mul, one_mul]; linarith
    _ ≤ digit2 * (nbase : ℚ) ^ weight := mul_le_mul_of_nonneg_right step power.le
    _ ≤ digit2 * (nbase : ℚ) ^ weight + digitsValue (weight - 1) digits2 := by linarith

theorem threeWay_add_left (same left right : ℚ) :
    threeWay (same + left) (same + right) = threeWay left right := by
  simp only [threeWay, add_lt_add_iff_left]

theorem cmpDigits_spec (small1 : ∀ digit ∈ digits1, digit < nbase)
    (small2 : ∀ digit ∈ digits2, digit < nbase) :
    cmpDigits digits1 digits2 = threeWay (digitsValue weight digits1) (digitsValue weight digits2) := by
  induction digits1, digits2 using cmpDigits.induct generalizing weight with
  | case1 digits1 digit digits2 ih =>
    rw [cmpDigits, if_pos rfl, digitsValue, digitsValue, threeWay_add_left]
    exact ih (weight - 1) (List.forall_mem_cons.mp small1).2 (List.forall_mem_cons.mp small2).2
  | case2 digit1 digits1 digit2 digits2 differ more =>
    rw [cmpDigits, if_neg differ, if_pos more,
      threeWay_gt (digitsValue_lt weight (List.forall_mem_cons.mp small2).2 more)]
  | case3 digit1 digits1 digit2 digits2 differ less =>
    rw [cmpDigits, if_neg differ, if_neg less,
      threeWay_lt (digitsValue_lt weight (List.forall_mem_cons.mp small1).2 (by omega))]
  | case4 digits1 digits2 out =>
    have ended : digits1 = [] ∨ digits2 = [] := by
      cases digits1 with
      | nil => exact .inl rfl
      | cons digit1 digits1 =>
        cases digits2 with
        | nil => exact .inr rfl
        | cons digit2 digits2 => exact absurd rfl (out _ _ _ _ rfl)
    rw [cmpDigits.eq_2 _ _ out]
    exact cmpRest_spec weight weight ended

/-- Skipping keeps the number, and stops at the other weight or at the end. -/
def Skipped (otherWeight weight : Int) (digits : List Nat) : Option (Int × List Nat) → Prop
  | none => (nbase : ℚ) ^ (otherWeight + 1) ≤ digitsValue weight digits
  | some (rest, others) => digitsValue rest others = digitsValue weight digits ∧
      (∀ digit ∈ others, digit < nbase) ∧ (others = [] ∨ rest ≤ otherWeight) ∧
      (otherWeight ≤ weight → otherWeight ≤ rest)

theorem skipHigher_spec (otherWeight : Int) {weight : Int} {digits : List Nat}
    (small : ∀ digit ∈ digits, digit < nbase) :
    Skipped otherWeight weight digits (skipHigher otherWeight weight digits) := by
  induction digits generalizing weight with
  | nil => exact ⟨rfl, small, .inl rfl, id⟩
  | cons digit digits ih =>
    rw [skipHigher]
    by_cases higher : otherWeight < weight
    · rw [if_pos higher]
      by_cases nonzero : digit ≠ 0
      · have power : (nbase : ℚ) ^ (otherWeight + 1) ≤ (nbase : ℚ) ^ weight :=
          zpow_le_zpow_right₀ (by norm_num [nbase]) higher
        have one : (1 : ℚ) ≤ digit := by exact_mod_cast Nat.pos_of_ne_zero nonzero
        have positive : (0 : ℚ) < (nbase : ℚ) ^ weight := zpow_pos (by norm_num [nbase]) _
        have others := digitsValue_nonneg (weight - 1) digits
        rw [if_pos nonzero, Skipped, digitsValue]
        have first := mul_le_mul_of_nonneg_right one positive.le
        linarith
      · have zero := not_not.mp nonzero
        have next := @ih (weight - 1) (List.forall_mem_cons.mp small).2
        have value : digitsValue weight (digit :: digits) = digitsValue (weight - 1) digits := by
          rw [digitsValue, zero, Nat.cast_zero, zero_mul, zero_add]
        rw [if_neg nonzero]
        unfold Skipped at *
        rw [value]
        cases result : skipHigher otherWeight (weight - 1) digits with
        | none =>
          rw [result] at next
          exact next
        | some rest =>
          rw [result] at next
          obtain ⟨same, inside, stop, above⟩ := next
          exact ⟨same, inside, stop, fun _ => above (by omega)⟩
    · rw [if_neg higher]
      exact ⟨rfl, small, .inr (not_lt.mp higher), id⟩

theorem cmpAbsCommon_spec {weight1 weight2 : Int} (small1 : ∀ digit ∈ digits1, digit < nbase)
    (small2 : ∀ digit ∈ digits2, digit < nbase) :
    cmpAbsCommon digits1 weight1 digits2 weight2 =
      threeWay (digitsValue weight1 digits1) (digitsValue weight2 digits2) := by
  have first := @skipHigher_spec weight2 weight1 digits1 small1
  unfold cmpAbsCommon
  cases skipped1 : skipHigher weight2 weight1 digits1 with
  | none =>
    rw [skipped1] at first
    exact (threeWay_gt ((digitsValue_bounds small2).2.trans_le first)).symm
  | some rest1 =>
    rw [skipped1] at first
    obtain ⟨same1, inside1, stop1, above1⟩ := first
    have second := @skipHigher_spec rest1.1 weight2 digits2 small2
    dsimp only
    rw [← same1]
    cases skipped2 : skipHigher rest1.1 weight2 digits2 with
    | none =>
      rw [skipped2] at second
      exact (threeWay_lt ((digitsValue_bounds inside1).2.trans_le second)).symm
    | some rest2 =>
      rw [skipped2] at second
      obtain ⟨same2, inside2, stop2, above2⟩ := second
      dsimp only
      rw [← same2]
      by_cases level : rest1.1 = rest2.1
      · rw [if_pos level, level]
        exact cmpDigits_spec _ inside1 inside2
      · rw [if_neg level]
        refine cmpRest_spec _ _ ?_
        obtain ended | lower := stop1
        · exact .inl ended
        · exact .inr (stop2.resolve_right fun back => level (le_antisymm (above2 lower) back))

theorem magnitude_pos {n : NumericData} (canonical : n.Canonical) (nonempty : n.nData ≠ []) :
    0 < n.magnitude := by
  obtain ⟨first, others, digits, nonzero⟩ := canonical.exists_first nonempty
  rw [NumericData.magnitude, ← any_nonzero_iff, digits]
  simp [nonzero]

theorem threeWay_neg (left right : ℚ) : threeWay (-left) (-right) = threeWay right left := by
  simp only [threeWay, neg_lt_neg_iff]

/-- The comparison of canonical numerics is the one of their values. -/
theorem cmpVarCommon_spec {var1 var2 : NumericData} (canonical1 : var1.Canonical)
    (canonical2 : var2.Canonical) : cmpVarCommon var1 var2 = threeWay var1.value var2.value := by
  have sign : ∀ n : NumericData, n.Canonical → n.nData ≠ [] →
      (n.negative = true → n.value = -n.magnitude ∧ n.value < 0) ∧
        (n.negative = false → n.value = n.magnitude ∧ 0 < n.value) := by
    intro n canonical nonempty
    have positive := magnitude_pos canonical nonempty
    refine ⟨fun negative => ?_, fun negative => ?_⟩ <;> rw [NumericData.value, negative]
    · exact ⟨rfl, neg_lt_zero.mpr positive⟩
    · exact ⟨rfl, positive⟩
  unfold cmpVarCommon
  by_cases empty1 : var1.nData = []
  · rw [if_pos empty1, NumericData.value_of_nil empty1]
    by_cases empty2 : var2.nData = []
    · rw [if_pos empty2, NumericData.value_of_nil empty2]
      rfl
    · obtain ⟨minus, plus⟩ := sign var2 canonical2 empty2
      rw [if_neg empty2]
      cases negative : var2.negative with
      | false => exact (threeWay_lt (plus negative).2).symm
      | true => exact (threeWay_gt (minus negative).2).symm
  · obtain ⟨minus1, plus1⟩ := sign var1 canonical1 empty1
    rw [if_neg empty1]
    by_cases empty2 : var2.nData = []
    · rw [if_pos empty2, NumericData.value_of_nil empty2]
      cases negative : var1.negative with
      | false => exact (threeWay_gt (plus1 negative).2).symm
      | true => exact (threeWay_lt (minus1 negative).2).symm
    · obtain ⟨minus2, plus2⟩ := sign var2 canonical2 empty2
      rw [if_neg empty2]
      cases negative1 : var1.negative <;> cases negative2 : var2.negative
      · obtain ⟨value1, -⟩ := plus1 negative1
        obtain ⟨value2, -⟩ := plus2 negative2
        rw [value1, value2]
        exact cmpAbsCommon_spec canonical1.small canonical2.small
      · exact (threeWay_gt ((minus2 negative2).2.trans (plus1 negative1).2)).symm
      · exact (threeWay_lt ((minus1 negative1).2.trans (plus2 negative2).2)).symm
      · obtain ⟨value1, -⟩ := minus1 negative1
        obtain ⟨value2, -⟩ := minus2 negative2
        rw [value1, value2, threeWay_neg]
        exact cmpAbsCommon_spec canonical2.small canonical1.small

def bi64cmp64 (op : CmpOp) (larg rarg : Bi 64 maxInt64Digit) : Option Int := do
  let (resScale, overflow) ←
    adjustBi64ToSameScale larg.value larg.scale rarg.value rarg.scale
  match overflow, op with
  | .adjusted leftvalScaled rightScaled, op => some (op.answer leftvalScaled rightScaled)
  | _, .bieq => some 0
  | _, .bineq => some 1
  | .rightOutOfBound, op => do
      let rightScaled ← signed 128 (rarg.value * getScaleMultiplier (resScale - rarg.scale))
      some (op.answer larg.value rightScaled)
  | .leftOutOfBound, op => do
      let leftvalScaled ← signed 128 (larg.value * getScaleMultiplier (resScale - larg.scale))
      some (op.answer leftvalScaled rarg.value)

def bi128cmp128 (op : CmpOp) (larg rarg : BiNumeric) : Option Int := do
  let (_, overflow) ←
    adjustBi128ToSameScale larg.int128GetVal larg.scale rarg.int128GetVal rarg.scale
  match overflow, op with
  | .adjusted leftvalScaled rightScaled, op => some (op.answer leftvalScaled rightScaled)
  | _, .bieq => some 0
  | _, .bineq => some 1
  | _, op => do
      let num1 ← makeNumericNormal larg
      let num2 ← makeNumericNormal rarg
      match op with
      | .bicmp => some (cmpVarCommon num1 num2)
      | op => some (op.answer (cmpVarCommon num1 num2) 0)

/-- The entry of `BiFunMatrix` for the sizes of the operands. -/
def biCompare (op : CmpOp) : BiNumeric → BiNumeric → Option Int
  | .bi64 larg, .bi64 rarg => bi64cmp64 op larg rarg
  | larg, rarg => bi128cmp128 op larg rarg

namespace NumericDatum

def bitonumeric : NumericDatum → Option NumericDatum
  | bi num => (makeNumericNormal num).map normal
  | val => some val

end NumericDatum

/-- A NaN is equal to NaN and greater than all others. -/
def cmpNumerics (num1 num2 : NumericDatum) : Option Int := do
  match ← num1.bitonumeric, ← num2.bitonumeric with
  | .nan, .nan => some 0
  | .nan, _ => some 1
  | _, .nan => some (-1)
  | .normal leftarg, .normal rightarg => some (cmpVarCommon leftarg rightarg)
  | _, _ => none

variable (getSmaller : Bool)

/-- The smaller or the larger, the second one where they compare equal. -/
def numericMinMax (num1 num2 : NumericDatum) : Option NumericDatum := do
  let num1 ← num1.bitonumeric
  let num2 ← num2.bitonumeric
  let order ← cmpNumerics num1 num2
  let first := if getSmaller then decide (order < 0) else decide (0 < order)
  some (if first then num1 else num2)

def numericSmaller (num1 num2 : NumericDatum) : Option NumericDatum := numericMinMax true num1 num2

def numericLarger (num1 num2 : NumericDatum) : Option NumericDatum := numericMinMax false num1 num2

/-- Whether the value that is stored stays. -/
def keepsLeft (leftval rightval : Int) : Bool :=
  if getSmaller then decide (leftval ≤ rightval) else decide (rightval ≤ leftval)

/-- What is stored at the end, for two values of 64 bits. -/
def bi64MinMax (larg rarg : Bi 64 maxInt64Digit) : Option NumericDatum := do
  let (resScale, overflow) ←
    adjustBi64ToSameScale larg.value larg.scale rarg.value rarg.scale
  let (leftvalScaled, rightScaled) ←
    match overflow with
    | .adjusted leftvalScaled rightScaled => some (leftvalScaled, rightScaled)
    | .rightOutOfBound => do
        let rightScaled ← signed 128 (rarg.value * getScaleMultiplier (resScale - rarg.scale))
        some (larg.value, rightScaled)
    | .leftOutOfBound => do
        let leftvalScaled ← signed 128 (larg.value * getScaleMultiplier (resScale - larg.scale))
        some (leftvalScaled, rarg.value)
  some (.bi (.bi64 (if keepsLeft getSmaller leftvalScaled rightScaled then larg else rarg)))

def bi64cmp64Smaller (larg rarg : Bi 64 maxInt64Digit) : Option NumericDatum :=
  bi64MinMax true larg rarg

def bi64cmp64Larger (larg rarg : Bi 64 maxInt64Digit) : Option NumericDatum :=
  bi64MinMax false larg rarg

/-- A value of either size in the place of one of 128 bits. -/
def BiNumeric.widen (num : BiNumeric) : Bi 128 maxInt128Digit where
  value := num.int128GetVal
  scale := num.scale
  inRange := num.valid.1
  admissible := num.valid.2

/-- What is stored at the end, for values of both sizes. -/
def bi128MinMax (larg rarg : BiNumeric) : Option NumericDatum := do
  let (_, overflow) ←
    adjustBi128ToSameScale larg.int128GetVal larg.scale rarg.int128GetVal rarg.scale
  match overflow with
  | .adjusted leftvalScaled rightScaled =>
    if keepsLeft getSmaller leftvalScaled rightScaled then some (.bi larg)
    else
      match larg with
      | .bi128 _ => some (.bi (.bi128 rarg.widen))
      | .bi64 _ => some (.bi rarg)
  | _ => numericMinMax getSmaller (.bi larg) (.bi rarg)

def bi128cmp128Smaller (larg rarg : BiNumeric) : Option NumericDatum := bi128MinMax true larg rarg

def bi128cmp128Larger (larg rarg : BiNumeric) : Option NumericDatum := bi128MinMax false larg rarg

/-- The entry of `BiAggFunMatrix` for the sizes of the operands. -/
def biAggFunMatrix : BiNumeric → BiNumeric → Option NumericDatum
  | .bi64 larg, .bi64 rarg =>
    if getSmaller then bi64cmp64Smaller larg rarg else bi64cmp64Larger larg rarg
  | larg, rarg => if getSmaller then bi128cmp128Smaller larg rarg else bi128cmp128Larger larg rarg

/-- One input of the aggregate, given what is stored. -/
def vnumericMinMaxStep : NumericDatum → NumericDatum → Option NumericDatum
  | .bi larg, .bi rarg => biAggFunMatrix getSmaller larg rarg
  | larg, rarg => if getSmaller then numericSmaller larg rarg else numericLarger larg rarg

/-- The aggregate over a group, whose first input is stored as it is. -/
def vnumericMinMax (first : NumericDatum) (inputs : List NumericDatum) :
    Option NumericDatum :=
  inputs.foldlM (vnumericMinMaxStep getSmaller) first

/-- Where the bound does not admit a value, its multiple is out of range. -/
def Excludes (bits digits : Nat) (outOfBound : Nat → Int) : Prop :=
  ∀ value scale, scale ≤ digits → -|value| < outOfBound scale → ¬ InSigned bits (value * 10 ^ scale)

theorem excludes_bi64 : Excludes 64 maxInt64Digit int64MultiOutOfBound := by
  intro value scale _ many
  unfold int64MultiOutOfBound at many
  by_cases top : scale = 19
  · rw [if_pos top, Left.neg_neg_iff] at many
    rintro inside
    have bound := abs_le_of_inSigned inside
    rw [abs_mul, top] at bound
    norm_num at bound
    omega
  · have power : scaleMultipler scale = 10 ^ scale := if_neg top
    rw [if_neg top, power] at many
    exact not_inSigned_mul_pow_ten many

theorem excludes_bi128 : Excludes 128 maxInt128Digit getScaleQuotient :=
  fun _ _ _ many => not_inSigned_mul_pow_ten many

/-- An operand that is not aligned would be out of range. -/
theorem outOfRange {bits digits : Nat} {multiplier outOfBound : Nat → Int}
    (excludes : Excludes bits digits outOfBound) {x y : Int} {xScale yScale resScale : Nat}
    (xIn : InSigned bits x) (yIn : InSigned bits y) (xSmall : xScale ≤ digits)
    (ySmall : yScale ≤ digits) {adjust : BiAdjustScale}
    (aligned : adjustToSameScale bits multiplier outOfBound x xScale y yScale = some (resScale, adjust)) :
    (adjust = .rightOutOfBound → ¬ InSigned bits (y * 10 ^ (xScale - yScale))) ∧
      (adjust = .leftOutOfBound → ¬ InSigned bits (x * 10 ^ (yScale - xScale))) := by
  unfold adjustToSameScale at aligned
  rw [negativeVal_eq xIn, negativeVal_eq yIn] at aligned
  simp only [Option.bind_eq_bind, Option.bind_some] at aligned
  split_ifs at aligned with order few few
  · obtain ⟨yScaled, -, same⟩ := Option.bind_eq_some_iff.mp aligned
    cases same
    exact ⟨fun other => absurd other (by simp), fun other => absurd other (by simp)⟩
  · cases aligned
    exact ⟨fun _ => excludes y _ (by omega) (not_le.mp few), fun other => absurd other (by simp)⟩
  · obtain ⟨xScaled, -, same⟩ := Option.bind_eq_some_iff.mp aligned
    cases same
    exact ⟨fun other => absurd other (by simp), fun other => absurd other (by simp)⟩
  · cases aligned
    exact ⟨fun other => absurd other (by simp), fun _ => excludes x _ (by omega) (not_le.mp few)⟩

theorem rational_strictMono (scale : Nat) : StrictMono (rational · scale) := by
  intro left right less
  have positive : (0 : ℚ) < 10 ^ scale := by positivity
  exact div_lt_div_of_pos_right (by exact_mod_cast less) positive

section Scaled

variable (left right : Int) (leftScale rightScale : Nat)

theorem answer_scaled (op : CmpOp) : op.answer (left * 10 ^ (max leftScale rightScale - leftScale))
        (right * 10 ^ (max leftScale rightScale - rightScale)) =
      op.answer (rational left leftScale) (rational right rightScale) := by
  rw [← op.answer_map (rational_strictMono (max leftScale rightScale)),
    rational_scaled (le_max_left _ _), rational_scaled (le_max_right _ _)]

theorem rational_ne_of_scaled (differ : left * 10 ^ (max leftScale rightScale - leftScale) ≠
    right * 10 ^ (max leftScale rightScale - rightScale)) :
    rational left leftScale ≠ rational right rightScale := by
  intro same
  apply differ
  apply (rational_strictMono (max leftScale rightScale)).injective
  dsimp only
  rw [rational_scaled (le_max_left _ _), rational_scaled (le_max_right _ _), same]

end Scaled

theorem inSigned_scaled {value : Int} {scale : Nat} (inside : InSigned 64 value)
    (small : scale ≤ maxInt64Digit) : InSigned 128 (value * 10 ^ scale) :=
  (additive_add.inSigned_scaled inside (inSigned_zero 64) small).1

variable (op : CmpOp) (larg rarg : BiNumeric)

theorem bi64cmp64_exact (larg rarg : Bi 64 maxInt64Digit) : bi64cmp64 op larg rarg =
      some (op.answer (rational larg.value larg.scale) (rational rarg.value rarg.scale)) := by
  obtain ⟨left, leftScale, leftIn, leftSmall⟩ := larg
  obtain ⟨right, rightScale, rightIn, rightSmall⟩ := rarg
  obtain ⟨adjust, aligned, cases⟩ := adjusted aligns_bi64 leftIn rightIn leftSmall rightSmall
  obtain ⟨outRight, outLeft⟩ :=
    outOfRange excludes_bi64 leftIn rightIn leftSmall rightSmall aligned
  have scaled := answer_scaled left right leftScale rightScale op
  have differ := rational_ne_of_scaled left right leftScale rightScale
  unfold bi64cmp64
  dsimp only
  rw [adjustBi64ToSameScale, aligned, Option.bind_eq_bind, Option.bind_some]
  cases cases with
  | adjusted xIn yIn => exact congrArg some scaled
  | left finer =>
    have most : max leftScale rightScale = rightScale := max_eq_right finer.le
    have inside := inSigned_scaled leftIn (by omega : rightScale - leftScale ≤ maxInt64Digit)
    rw [most, Nat.sub_self, pow_zero, mul_one] at scaled differ
    have distinct := differ fun same => outLeft rfl (by rwa [same])
    cases op with
    | bieq => exact congrArg some (if_neg distinct).symm
    | bineq => exact congrArg some (if_pos distinct).symm
    | _ =>
      dsimp only
      rw [most, getScaleMultiplier, signed_of_in inside, Option.bind_eq_bind, Option.bind_some, scaled]
  | right finer =>
    have most : max leftScale rightScale = leftScale := max_eq_left finer
    have inside := inSigned_scaled rightIn (by omega : leftScale - rightScale ≤ maxInt64Digit)
    rw [most, Nat.sub_self, pow_zero, mul_one] at scaled differ
    have distinct := differ fun same => outRight rfl (by rwa [← same])
    cases op with
    | bieq => exact congrArg some (if_neg distinct).symm
    | bineq => exact congrArg some (if_pos distinct).symm
    | _ =>
      dsimp only
      rw [most, getScaleMultiplier, signed_of_in inside, Option.bind_eq_bind, Option.bind_some, scaled]

theorem bi128cmp128_exact :
    bi128cmp128 op larg rarg = some (op.answer larg.rational rarg.rational) := by
  obtain ⟨leftIn, leftSmall⟩ := larg.valid
  obtain ⟨rightIn, rightSmall⟩ := rarg.valid
  obtain ⟨num1, made1, canonical1, value1, -⟩ := makeNumericNormal_converts larg
  obtain ⟨num2, made2, canonical2, value2, -⟩ := makeNumericNormal_converts rarg
  have normal := cmpVarCommon_spec canonical1 canonical2
  rw [value1, value2] at normal
  obtain ⟨adjust, aligned, cases⟩ := adjusted aligns_bi128 leftIn rightIn leftSmall rightSmall
  obtain ⟨outRight, outLeft⟩ :=
    outOfRange excludes_bi128 leftIn rightIn leftSmall rightSmall aligned
  have differ := rational_ne_of_scaled larg.int128GetVal rarg.int128GetVal larg.scale rarg.scale
  have order := op.answer_threeWay larg.rational rarg.rational
  unfold bi128cmp128
  rw [adjustBi128ToSameScale, aligned, Option.bind_eq_bind, Option.bind_some]
  cases cases with
  | adjusted xIn yIn => exact congrArg some (answer_scaled _ _ _ _ op)
  | left finer =>
    rw [max_eq_right finer.le, Nat.sub_self, pow_zero, mul_one] at differ
    have distinct := differ fun same => outLeft rfl (by rwa [same])
    cases op with
    | bieq => exact congrArg some (if_neg distinct).symm
    | bineq => exact congrArg some (if_pos distinct).symm
    | bicmp =>
      dsimp only
      rw [made1, made2, Option.bind_eq_bind, Option.bind_some, Option.bind_some, normal]
      rfl
    | _ =>
      dsimp only
      rw [made1, made2, Option.bind_eq_bind, Option.bind_some, Option.bind_some, normal, order]
  | right finer =>
    rw [max_eq_left finer, Nat.sub_self, pow_zero, mul_one] at differ
    have distinct := differ fun same => outRight rfl (by rwa [← same])
    cases op with
    | bieq => exact congrArg some (if_neg distinct).symm
    | bineq => exact congrArg some (if_pos distinct).symm
    | bicmp =>
      dsimp only
      rw [made1, made2, Option.bind_eq_bind, Option.bind_some, Option.bind_some, normal]
      rfl
    | _ =>
      dsimp only
      rw [made1, made2, Option.bind_eq_bind, Option.bind_some, Option.bind_some, normal, order]

theorem biCompare_answer :
    biCompare op larg rarg = some (op.answer larg.rational rarg.rational) := by
  cases larg with
  | bi64 larg =>
    cases rarg with
    | bi64 rarg => exact bi64cmp64_exact op larg rarg
    | bi128 rarg => exact bi128cmp128_exact op (.bi64 larg) (.bi128 rarg)
  | bi128 larg => exact bi128cmp128_exact op (.bi128 larg) rarg

namespace NumericDatum

/-- The number, if it is one. -/
def number : NumericDatum → Option ℚ
  | nan => none
  | bi num => some num.rational
  | normal n => some n.value

def Canonical : NumericDatum → Prop
  | normal n => n.Canonical
  | _ => True

structure Is (val : NumericDatum) (number : ℚ) : Prop where
  canonical : val.Canonical
  number : val.number = some number

theorem Is.bitonumeric {val : NumericDatum} {number : ℚ} (is : val.Is number) :
    ∃ n, val.bitonumeric = some (.normal n) ∧ n.Canonical ∧ n.value = number := by
  obtain ⟨canonical, same⟩ := is
  cases val with
  | nan => simp [NumericDatum.number] at same
  | bi num =>
    obtain ⟨n, made, valid, value, -⟩ := makeNumericNormal_converts num
    exact ⟨n, by rw [NumericDatum.bitonumeric, made]; rfl, valid,
      value.trans (Option.some.inj same)⟩
  | normal n => exact ⟨n, rfl, canonical, Option.some.inj same⟩

end NumericDatum

/-- The smaller or the larger of two numbers. -/
def choose (left right : ℚ) : ℚ :=
  if getSmaller then min left right else max left right

theorem choose_of_keepsLeft {getSmaller : Bool} {left right : Int} {leftScale rightScale : Nat} :
    choose getSmaller (rational left leftScale) (rational right rightScale) =
      if keepsLeft getSmaller (left * 10 ^ (max leftScale rightScale - leftScale))
        (right * 10 ^ (max leftScale rightScale - rightScale)) then rational left leftScale
      else rational right rightScale := by
  have order : ∀ a b, rational a (max leftScale rightScale) ≤
      rational b (max leftScale rightScale) ↔ a ≤ b :=
    fun a b => (rational_strictMono (max leftScale rightScale)).le_iff_le
  have leftSame := @rational_scaled left _ _ (le_max_left leftScale rightScale)
  have rightSame := @rational_scaled right _ _ (le_max_right leftScale rightScale)
  unfold choose keepsLeft
  cases getSmaller with
  | false =>
    simp only [Bool.false_eq_true, if_false, decide_eq_true_eq]
    rw [max_comm, max_def]
    exact if_congr (by rw [← order, leftSame, rightSame]) rfl rfl
  | true =>
    simp only [if_true, decide_eq_true_eq]
    rw [min_def]
    exact if_congr (by rw [← order, leftSame, rightSame]) rfl rfl

theorem threeWay_lt_zero (left right : ℚ) : threeWay left right < 0 ↔ left < right := by
  unfold threeWay
  split_ifs with more less
  · simp [more.le]
  · simp [less]
  · simp [less]

theorem threeWay_pos (left right : ℚ) : 0 < threeWay left right ↔ right < left := by
  unfold threeWay
  split_ifs with more less
  · simp [more]
  · simp [less.le]
  · simp [more]

variable (getSmaller : Bool) (larg rarg : BiNumeric)

theorem numericMinMax_spec {num1 num2 : NumericDatum} {left right : ℚ} (is1 : num1.Is left)
    (is2 : num2.Is right) :
    ∃ result, numericMinMax getSmaller num1 num2 = some result ∧
      result.Is (choose getSmaller left right) := by
  obtain ⟨n1, made1, canonical1, value1⟩ := is1.bitonumeric
  obtain ⟨n2, made2, canonical2, value2⟩ := is2.bitonumeric
  have order : cmpNumerics (.normal n1) (.normal n2) = some (threeWay left right) := by
    rw [← value1, ← value2, ← cmpVarCommon_spec canonical1 canonical2]
    rfl
  have first : (NumericDatum.normal n1).Is left := ⟨canonical1, congrArg some value1⟩
  have second : (NumericDatum.normal n2).Is right := ⟨canonical2, congrArg some value2⟩
  unfold numericMinMax
  rw [made1, made2, Option.bind_eq_bind, Option.bind_some, Option.bind_eq_bind, Option.bind_some,
    order, Option.bind_some]
  refine ⟨_, rfl, ?_⟩
  cases getSmaller with
  | false =>
    simp only [Bool.false_eq_true, if_false, decide_eq_true_eq, threeWay_pos, choose]
    split_ifs with more
    · rwa [max_eq_left more.le]
    · rwa [max_eq_right (not_lt.mp more)]
  | true =>
    simp only [if_true, decide_eq_true_eq, threeWay_lt_zero, choose]
    split_ifs with less
    · rwa [min_eq_left less.le]
    · rwa [min_eq_right (not_lt.mp less)]

theorem bi64MinMax_spec (larg rarg : Bi 64 maxInt64Digit) :
    ∃ result, bi64MinMax getSmaller larg rarg = some result ∧ result.Is
      (choose getSmaller (rational larg.value larg.scale) (rational rarg.value rarg.scale)) := by
  obtain ⟨adjust, aligned, cases⟩ :=
    adjusted aligns_bi64 larg.inRange rarg.inRange larg.admissible rarg.admissible
  have leftSmall := larg.admissible
  have rightSmall := rarg.admissible
  have chosen := @choose_of_keepsLeft getSmaller larg.value rarg.value larg.scale rarg.scale
  have stored : ∀ keeps : Bool, (NumericDatum.bi (.bi64 (if keeps then larg else rarg))).Is
      (if keeps then rational larg.value larg.scale else rational rarg.value rarg.scale) := by
    intro keeps
    cases keeps <;> exact ⟨trivial, rfl⟩
  unfold bi64MinMax
  rw [adjustBi64ToSameScale, aligned, Option.bind_eq_bind, Option.bind_some, chosen]
  cases cases with
  | adjusted xIn yIn => exact ⟨_, rfl, stored _⟩
  | left finer =>
    have inside := inSigned_scaled larg.inRange (by omega : rarg.scale - larg.scale ≤ maxInt64Digit)
    rw [max_eq_right finer.le, Nat.sub_self, pow_zero, mul_one]
    dsimp only
    rw [getScaleMultiplier, signed_of_in inside]
    exact ⟨_, rfl, stored _⟩
  | right finer =>
    have inside := inSigned_scaled rarg.inRange (by omega : larg.scale - rarg.scale ≤ maxInt64Digit)
    rw [max_eq_left finer, Nat.sub_self, pow_zero, mul_one]
    dsimp only
    rw [getScaleMultiplier, signed_of_in inside]
    exact ⟨_, rfl, stored _⟩

theorem bi128MinMax_spec :
    ∃ result, bi128MinMax getSmaller larg rarg = some result ∧
      result.Is (choose getSmaller larg.rational rarg.rational) := by
  obtain ⟨leftIn, leftSmall⟩ := larg.valid
  obtain ⟨rightIn, rightSmall⟩ := rarg.valid
  obtain ⟨adjust, aligned, cases⟩ := adjusted aligns_bi128 leftIn rightIn leftSmall rightSmall
  have called := @numericMinMax_spec getSmaller (.bi larg) (.bi rarg) _ _ ⟨trivial, rfl⟩ ⟨trivial, rfl⟩
  unfold bi128MinMax
  rw [adjustBi128ToSameScale, aligned, Option.bind_eq_bind, Option.bind_some]
  cases cases with
  | adjusted xIn yIn =>
    rw [BiNumeric.rational, BiNumeric.rational, choose_of_keepsLeft]
    dsimp only
    split_ifs with keeps
    · exact ⟨_, rfl, trivial, rfl⟩
    · cases larg with
      | bi64 larg => exact ⟨_, rfl, trivial, rfl⟩
      | bi128 larg => exact ⟨_, rfl, trivial, rfl⟩
  | left finer => exact called
  | right finer => exact called

theorem biAggFunMatrix_spec :
    ∃ result, biAggFunMatrix getSmaller larg rarg = some result ∧
      result.Is (choose getSmaller larg.rational rarg.rational) := by
  cases larg with
  | bi64 larg =>
    cases rarg with
    | bi64 rarg =>
      have stored := bi64MinMax_spec getSmaller larg rarg
      cases getSmaller <;> exact stored
    | bi128 rarg =>
      have stored := bi128MinMax_spec getSmaller (.bi64 larg) (.bi128 rarg)
      cases getSmaller <;> exact stored
  | bi128 larg =>
    have stored := bi128MinMax_spec getSmaller (.bi128 larg) rarg
    cases getSmaller <;> exact stored

theorem vnumericMinMaxStep_spec {stored input : NumericDatum} {left right : ℚ} (is1 : stored.Is left)
    (is2 : input.Is right) :
    ∃ result, vnumericMinMaxStep getSmaller stored input = some result ∧
      result.Is (choose getSmaller left right) := by
  have called := numericMinMax_spec getSmaller is1 is2
  cases stored with
  | nan => cases getSmaller <;> exact called
  | normal n => cases getSmaller <;> exact called
  | bi larg =>
    cases input with
    | nan => cases getSmaller <;> exact called
    | normal n => cases getSmaller <;> exact called
    | bi rarg =>
      obtain rfl := Option.some.inj is1.number
      obtain rfl := Option.some.inj is2.number
      exact biAggFunMatrix_spec getSmaller larg rarg

/-- The least or the greatest of some numbers. -/
structure Extreme (getSmaller : Bool) (numbers : List ℚ) (number : ℚ) : Prop where
  member : number ∈ numbers
  bound : ∀ other ∈ numbers, if getSmaller then number ≤ other else other ≤ number

theorem Extreme.choose {getSmaller : Bool} {left right number : ℚ} {others : List ℚ}
    (extreme : Extreme getSmaller (choose getSmaller left right :: others) number) :
    Extreme getSmaller (left :: right :: others) number := by
  obtain ⟨member, bound⟩ := extreme
  have bounds := bound _ (List.mem_cons_self)
  constructor
  · obtain same | other := List.mem_cons.mp member
    · rw [same, BigInteger.choose]
      cases getSmaller with
      | false => rcases max_choice left right with is | is <;> simp [is]
      | true => rcases min_choice left right with is | is <;> simp [is]
    · exact List.mem_cons_of_mem _ (List.mem_cons_of_mem _ other)
  · intro other present
    obtain rfl | rfl | later : other = left ∨ other = right ∨ other ∈ others := by
      simpa using present
    · cases getSmaller with
      | false => exact (le_max_left _ _).trans bounds
      | true => exact bounds.trans (min_le_left _ _)
    · cases getSmaller with
      | false => exact (le_max_right _ _).trans bounds
      | true => exact bounds.trans (min_le_right _ _)
    · exact bound other (List.mem_cons_of_mem _ later)

theorem vnumericMinMax_spec (inputs : List BiNumeric) {stored : NumericDatum} {left : ℚ}
    (is : stored.Is left) :
    ∃ result number, vnumericMinMax getSmaller stored (inputs.map .bi) = some result ∧
      result.Is number ∧ Extreme getSmaller (left :: inputs.map BiNumeric.rational) number := by
  induction inputs generalizing stored left with
  | nil =>
    refine ⟨stored, left, rfl, is, List.mem_cons_self, fun other present => ?_⟩
    rw [List.mem_singleton.mp present]
    split_ifs <;> exact le_rfl
  | cons input inputs ih =>
    have same : (NumericDatum.bi input).Is input.rational := ⟨trivial, rfl⟩
    obtain ⟨next, taken, nextIs⟩ := vnumericMinMaxStep_spec getSmaller is same
    obtain ⟨result, number, rest, resultIs, extreme⟩ := ih nextIs
    refine ⟨result, number, ?_, resultIs, extreme.choose⟩
    rw [List.map_cons, vnumericMinMax, List.foldlM_cons, taken]
    exact rest

/-- The operators answer as the numbers compare, whatever the sizes and the scales, and the
aggregates keep the least and the greatest of what they are given. -/
theorem biCompare_minMax_exact :
    (∀ op larg rarg, biCompare op larg rarg = some (op.answer larg.rational rarg.rational)) ∧
      ∀ getSmaller first inputs, ∃ result number,
        vnumericMinMax getSmaller (.bi first) (inputs.map .bi) = some result ∧ result.Is number ∧
          Extreme getSmaller ((first :: inputs).map BiNumeric.rational) number :=
  ⟨biCompare_answer, fun getSmaller _ inputs =>
    vnumericMinMax_spec getSmaller inputs ⟨trivial, rfl⟩⟩

end OpenGauss.BigInteger
