import OpenGauss.Lib.SignedInt

/-! Numerics kept as one integer and a scale, `biginteger.cpp`: addition, subtraction and
multiplication in 64 bits, in 128 bits, or by the routines of `numeric.cpp`. -/

namespace OpenGauss.BigInteger

open Lib

def maxInt64Digit : Nat := 19

def maxInt128Digit : Nat := 38

/-- An integer of a signed type and its scale. -/
structure Bi (bits digits : Nat) where
  value : Int
  scale : Nat
  inRange : InSigned bits value
  admissible : scale ≤ digits

/-- A numeric of either size. -/
inductive BiNumeric where
  | bi64 (num : Bi 64 maxInt64Digit)
  | bi128 (num : Bi 128 maxInt128Digit)

namespace BiNumeric

def int128GetVal : BiNumeric → Int
  | bi64 num => num.value
  | bi128 num => num.value

def scale : BiNumeric → Nat
  | bi64 num => num.scale
  | bi128 num => num.scale

end BiNumeric

/-- What an operation returns: an integer with its scale, or what the routine of `numeric.cpp`
returns for both operands. -/
inductive Outcome where
  | makeNumeric64 (value : Int) (scale : Nat)
  | makeNumeric128 (value : Int) (scale : Nat)
  | numericRoutine
deriving DecidableEq

def int64Min : Int := -2 ^ 63

def int128Min : Int := -2 ^ 127

/-- `10 ^ 19` is out of range. -/
def scaleMultipler (scale : Nat) : Int := if scale = 19 then 0 else 10 ^ scale

def int64MultiOutOfBound (scale : Nat) : Int :=
  if scale = 19 then 0 else int64Min.tdiv (scaleMultipler scale)

def getScaleMultiplier (scale : Nat) : Int := 10 ^ scale

def getScaleQuotient (scale : Nat) : Int := int128Min.tdiv (getScaleMultiplier scale)

inductive BiAdjustScale where
  | adjusted (xScaled yScaled : Int)
  | leftOutOfBound
  | rightOutOfBound

/-- `(val < 0) ? val : -val`, the least value having no negative. -/
def negativeVal (bits : Nat) (val : Int) : Option Int :=
  if val < 0 then some val else signed bits (-val)

/-- The scale of the result and the operands at it; `none` where an operation of the type
overflows. -/
def adjustToSameScale (bits : Nat) (multiplier outOfBound : Nat → Int) (x : Int) (xScale : Nat)
    (y : Int) (yScale : Nat) : Option (Nat × BiAdjustScale) :=
  if yScale ≤ xScale then do
    let tmpval ← negativeVal bits y
    if outOfBound (xScale - yScale) ≤ tmpval then
      let yScaled ← signed bits (y * multiplier (xScale - yScale))
      some (xScale, .adjusted x yScaled)
    else some (xScale, .rightOutOfBound)
  else do
    let tmpval ← negativeVal bits x
    if outOfBound (yScale - xScale) ≤ tmpval then
      let xScaled ← signed bits (x * multiplier (yScale - xScale))
      some (yScale, .adjusted xScaled y)
    else some (yScale, .leftOutOfBound)

def adjustBi64ToSameScale (x : Int) (xScale : Nat) (y : Int) (yScale : Nat) : Option (Nat × BiAdjustScale) :=
  adjustToSameScale 64 scaleMultipler int64MultiOutOfBound x xScale y yScale

def adjustBi128ToSameScale (x : Int) (xScale : Nat) (y : Int) (yScale : Nat) :
    Option (Nat × BiAdjustScale) :=
  adjustToSameScale 128 getScaleMultiplier getScaleQuotient x xScale y yScale

/-- Addition and subtraction of 64 bits, `op` being the one or the other. An aggregate has the same
result stored at its place. -/
def bi64Additive (op : Int → Int → Int) (larg rarg : Bi 64 maxInt64Digit) : Option Outcome := do
  let (resScale, overflow) ←
    adjustBi64ToSameScale larg.value larg.scale rarg.value rarg.scale
  match overflow with
  | .adjusted leftvalScaled rightScaled =>
    match signed 64 (op leftvalScaled rightScaled) with
    | some result => some (.makeNumeric64 result resScale)
    | none =>
      let bigResult ← signed 128 (op leftvalScaled rightScaled)
      some (.makeNumeric128 bigResult resScale)
  | .rightOutOfBound =>
    let rightScaled ← signed 128 (rarg.value * getScaleMultiplier (resScale - rarg.scale))
    let bigResult ← signed 128 (op larg.value rightScaled)
    some (.makeNumeric128 bigResult resScale)
  | .leftOutOfBound =>
    let leftvalScaled ← signed 128 (larg.value * getScaleMultiplier (resScale - larg.scale))
    let bigResult ← signed 128 (op leftvalScaled rarg.value)
    some (.makeNumeric128 bigResult resScale)

variable (larg rarg : Bi 64 maxInt64Digit)

def bi64add64 : Option Outcome := bi64Additive (· + ·) larg rarg

def bi64sub64 : Option Outcome := bi64Additive (· - ·) larg rarg

def bi128Additive (op : Int → Int → Int) (larg rarg : BiNumeric) : Option Outcome := do
  let (resScale, overflow) ←
    adjustBi128ToSameScale larg.int128GetVal larg.scale rarg.int128GetVal rarg.scale
  match overflow with
  | .adjusted leftvalScaled rightScaled =>
    match signed 128 (op leftvalScaled rightScaled) with
    | some result => some (.makeNumeric128 result resScale)
    | none => some .numericRoutine
  | _ => some .numericRoutine

def bi128add128 (larg rarg : BiNumeric) : Option Outcome := bi128Additive (· + ·) larg rarg

def bi128sub128 (larg rarg : BiNumeric) : Option Outcome := bi128Additive (· - ·) larg rarg

def bi64mul64 : Option Outcome :=
  let resScale := larg.scale + rarg.scale
  match if resScale ≤ maxInt64Digit then signed 64 (larg.value * rarg.value) else none with
  | some result => some (.makeNumeric64 result resScale)
  | none => do
      let result ← signed 128 (larg.value * rarg.value)
      some (.makeNumeric128 result resScale)

def bi128mul128 (larg rarg : BiNumeric) : Option Outcome :=
  let resScale := larg.scale + rarg.scale
  match if resScale ≤ maxInt128Digit then signed 128 (larg.int128GetVal * rarg.int128GetVal)
    else none with
  | some result => some (.makeNumeric128 result resScale)
  | none => some .numericRoutine

inductive BiOp where
  | add
  | sub
  | mul

/-- The entry of `BiFunMatrix` for the sizes of the operands. -/
def biFunMatrix : BiOp → BiNumeric → BiNumeric → Option Outcome
  | .add, .bi64 larg, .bi64 rarg => bi64add64 larg rarg
  | .add, larg, rarg => bi128add128 larg rarg
  | .sub, .bi64 larg, .bi64 rarg => bi64sub64 larg rarg
  | .sub, larg, rarg => bi128sub128 larg rarg
  | .mul, .bi64 larg, .bi64 rarg => bi64mul64 larg rarg
  | .mul, larg, rarg => bi128mul128 larg rarg

/-- Where the bound admits a value, its multiple is exact and in range. -/
def Aligns (bits digits : Nat) (multiplier outOfBound : Nat → Int) : Prop :=
  ∀ value scale, InSigned bits value → scale ≤ digits → outOfBound scale ≤ -|value| →
    value * multiplier scale = value * 10 ^ scale ∧ InSigned bits (value * 10 ^ scale)

theorem aligns_bi64 : Aligns 64 maxInt64Digit scaleMultipler int64MultiOutOfBound := by
  intro value scale inside _ few
  unfold int64MultiOutOfBound at few
  by_cases top : scale = 19
  · rw [if_pos top, Left.nonneg_neg_iff] at few
    obtain rfl : value = 0 := abs_nonpos_iff.mp few
    rw [zero_mul, zero_mul]
    exact ⟨rfl, inside⟩
  · have power : scaleMultipler scale = 10 ^ scale := if_neg top
    rw [if_neg top, power] at few
    rw [power]
    exact ⟨rfl, inside.mul_pow_ten few⟩

theorem aligns_bi128 : Aligns 128 maxInt128Digit getScaleMultiplier getScaleQuotient :=
  fun _ _ inside _ few => ⟨rfl, inside.mul_pow_ten few⟩

/-- What aligning the operands may give. -/
inductive Adjusted (bits : Nat) (x : Int) (xScale : Nat) (y : Int) (yScale : Nat) : BiAdjustScale → Prop
  | adjusted (xIn : InSigned bits (x * 10 ^ (max xScale yScale - xScale)))
      (yIn : InSigned bits (y * 10 ^ (max xScale yScale - yScale))) :
      Adjusted bits x xScale y yScale (.adjusted (x * 10 ^ (max xScale yScale - xScale))
        (y * 10 ^ (max xScale yScale - yScale)))
  | left (finer : xScale < yScale) : Adjusted bits x xScale y yScale .leftOutOfBound
  | right (finer : yScale ≤ xScale) : Adjusted bits x xScale y yScale .rightOutOfBound

theorem negativeVal_eq {bits : Nat} {value : Int} (inside : InSigned bits value) :
    negativeVal bits value = some (-|value|) := by
  unfold negativeVal
  by_cases negative : value < 0
  · rw [if_pos negative, abs_of_neg negative, neg_neg]
  · rw [if_neg negative, signed_of_in (inside.neg (not_lt.mp negative)), abs_of_nonneg (not_lt.mp negative)]

/-- No operation overflows while the operands are aligned. -/
theorem adjusted {bits digits : Nat} {multiplier outOfBound : Nat → Int}
    (aligns : Aligns bits digits multiplier outOfBound) {x y : Int} {xScale yScale : Nat}
    (xIn : InSigned bits x) (yIn : InSigned bits y) (xSmall : xScale ≤ digits)
    (ySmall : yScale ≤ digits) :
    ∃ adjust, adjustToSameScale bits multiplier outOfBound x xScale y yScale =
      some (max xScale yScale, adjust) ∧ Adjusted bits x xScale y yScale adjust := by
  unfold adjustToSameScale
  by_cases order : yScale ≤ xScale
  · have most : max xScale yScale = xScale := max_eq_left order
    rw [if_pos order, negativeVal_eq yIn, most]
    by_cases few : outOfBound (xScale - yScale) ≤ -|y|
    · obtain ⟨same, inside⟩ := aligns y _ yIn (by omega) few
      refine ⟨.adjusted x (y * 10 ^ (xScale - yScale)), ?_, ?_⟩
      · simp only [Option.bind_eq_bind, Option.bind_some, if_pos few, same, signed_of_in inside]
      · have whole := @Adjusted.adjusted bits x xScale y yScale
        rw [most, Nat.sub_self, pow_zero, mul_one] at whole
        exact whole xIn inside
    · refine ⟨.rightOutOfBound, ?_, .right order⟩
      simp only [Option.bind_eq_bind, Option.bind_some, if_neg few]
  · have finer : xScale < yScale := not_le.mp order
    have most : max xScale yScale = yScale := max_eq_right finer.le
    rw [if_neg order, negativeVal_eq xIn, most]
    by_cases few : outOfBound (yScale - xScale) ≤ -|x|
    · obtain ⟨same, inside⟩ := aligns x _ xIn (by omega) few
      refine ⟨.adjusted (x * 10 ^ (yScale - xScale)) y, ?_, ?_⟩
      · simp only [Option.bind_eq_bind, Option.bind_some, if_pos few, same, signed_of_in inside]
      · have whole := @Adjusted.adjusted bits x xScale y yScale
        rw [most, Nat.sub_self, pow_zero, mul_one] at whole
        exact whole inside yIn
    · refine ⟨.leftOutOfBound, ?_, .left finer⟩
      simp only [Option.bind_eq_bind, Option.bind_some, if_neg few]

theorem BiNumeric.valid (num : BiNumeric) : InSigned 128 num.int128GetVal ∧ num.scale ≤ maxInt128Digit := by
  cases num with
  | bi64 num => exact ⟨num.inRange.widen (by decide), num.admissible.trans (by decide)⟩
  | bi128 num => exact ⟨num.inRange, num.admissible⟩

/-- The number that an integer stands for at a scale. -/
def rational (value : Int) (scale : Nat) : ℚ := value / 10 ^ scale

def BiNumeric.rational (num : BiNumeric) : ℚ := BigInteger.rational num.int128GetVal num.scale

namespace BiOp

def apply : BiOp → ℚ → ℚ → ℚ
  | add => (· + ·)
  | sub => (· - ·)
  | mul => (· * ·)

/-- The display scale that `add_var` and `sub_var` give their result, and the one `numeric_mul` asks
`mul_var` for. -/
def resultScale : BiOp → Nat → Nat → Nat
  | add => max
  | sub => max
  | mul => (· + ·)

end BiOp

/-- A number at a scale, unless the routine of `numeric.cpp` is left to give it. -/
def Outcome.Exact (number : ℚ) (scale : Nat) : Outcome → Prop
  | makeNumeric64 value resScale =>
    InSigned 64 value ∧ resScale ≤ maxInt64Digit ∧ resScale = scale ∧ rational value resScale = number
  | makeNumeric128 value resScale =>
    InSigned 128 value ∧ resScale ≤ maxInt128Digit ∧ resScale = scale ∧ rational value resScale = number
  | numericRoutine => True

theorem rational_scaled {value : Int} {scale wide : Nat} (coarser : scale ≤ wide) :
    rational (value * 10 ^ (wide - scale)) wide = rational value scale := by
  have split : (10 : ℚ) ^ wide = 10 ^ (wide - scale) * 10 ^ scale := by
    rw [← pow_add, Nat.sub_add_cancel coarser]
  rw [rational, rational, split]
  push_cast
  field_simp

/-- An operation on integers that is exact at one scale, as addition and subtraction are. -/
structure Additive (op : Int → Int → Int) (exact : ℚ → ℚ → ℚ) : Prop where
  exact : ∀ left right scale,
    rational (op left right) scale = exact (rational left scale) (rational right scale)
  bound : ∀ left right, |op left right| ≤ |left| + |right|

theorem additive_add : Additive (· + ·) (· + ·) where
  exact left right scale := by
    simp only [rational]
    rw [Int.cast_add, add_div]
  bound := abs_add_le

theorem additive_sub : Additive (· - ·) (· - ·) where
  exact left right scale := by
    simp only [rational]
    rw [Int.cast_sub, sub_div]
  bound := abs_sub

theorem rational_mul (left right : Int) (scale other : Nat) :
    rational (left * right) (scale + other) = rational left scale * rational right other := by
  rw [rational, rational, rational, Int.cast_mul, pow_add, div_mul_div_comm]

section Additive

variable {op : Int → Int → Int} {exact : ℚ → ℚ → ℚ} (additive : Additive op exact)
include additive

theorem Additive.scaled (left right : Int) (leftScale rightScale : Nat) :
    rational (op (left * 10 ^ (max leftScale rightScale - leftScale))
        (right * 10 ^ (max leftScale rightScale - rightScale))) (max leftScale rightScale) =
      exact (rational left leftScale) (rational right rightScale) := by
  rw [additive.exact, rational_scaled (le_max_left _ _), rational_scaled (le_max_right _ _)]

/-- A value of 64 bits at a scale of 64 bits, and the operation with another value of 64 bits, are
in the range of 128 bits. -/
theorem Additive.inSigned_scaled {value other : Int} {scale : Nat} (inside : InSigned 64 value)
    (otherIn : InSigned 64 other) (small : scale ≤ maxInt64Digit) :
    InSigned 128 (value * 10 ^ scale) ∧ InSigned 128 (op (value * 10 ^ scale) other) ∧
      InSigned 128 (op other (value * 10 ^ scale)) := by
  have first := abs_le_of_inSigned inside
  have second := abs_le_of_inSigned otherIn
  have power : (10 : Int) ^ scale ≤ 10 ^ 19 := pow_le_pow_right₀ (by decide) small
  have positive : (0 : Int) < 10 ^ scale := by positivity
  have product : |value * 10 ^ scale| ≤ 2 ^ 63 * 10 ^ 19 := by
    rw [abs_mul, abs_of_pos positive]
    exact mul_le_mul first power positive.le (by positivity)
  have before := additive.bound (value * 10 ^ scale) other
  have behind := additive.bound other (value * 10 ^ scale)
  refine ⟨inSigned_of_abs_lt ?_, inSigned_of_abs_lt ?_, inSigned_of_abs_lt ?_⟩
  all_goals norm_num at *; omega

theorem bi64Additive_exact (larg rarg : Bi 64 maxInt64Digit) :
    ∃ outcome, bi64Additive op larg rarg = some outcome ∧
      outcome.Exact (exact (rational larg.value larg.scale) (rational rarg.value rarg.scale))
        (max larg.scale rarg.scale) := by
  obtain ⟨left, leftScale, leftIn, leftSmall⟩ := larg
  obtain ⟨right, rightScale, rightIn, rightSmall⟩ := rarg
  obtain ⟨adjust, aligned, cases⟩ := adjusted aligns_bi64 leftIn rightIn leftSmall rightSmall
  have scaled := additive.scaled left right leftScale rightScale
  have most : max leftScale rightScale ≤ maxInt64Digit := max_le leftSmall rightSmall
  have wide : max leftScale rightScale ≤ maxInt128Digit := most.trans (by decide)
  unfold bi64Additive adjustBi64ToSameScale
  dsimp only
  rw [aligned]
  simp only [Option.bind_eq_bind, Option.bind_some]
  cases cases with
  | adjusted xIn yIn =>
    by_cases fits : InSigned 64 (op (left * 10 ^ (max leftScale rightScale - leftScale))
        (right * 10 ^ (max leftScale rightScale - rightScale)))
    · dsimp only
      rw [signed_of_in fits]
      exact ⟨_, rfl, fits, most, rfl, scaled⟩
    · have inside := (additive.inSigned_scaled xIn yIn (Nat.zero_le _)).2.1
      rw [pow_zero, mul_one] at inside
      dsimp only
      rw [signed_of_not_in fits]
      dsimp only
      rw [signed_of_in inside]
      exact ⟨_, rfl, inside, wide, rfl, scaled⟩
  | left finer =>
    have narrow : max leftScale rightScale - leftScale ≤ maxInt64Digit :=
      (Nat.sub_le _ _).trans most
    obtain ⟨product, inside, -⟩ := additive.inSigned_scaled leftIn rightIn narrow
    have whole : max leftScale rightScale - rightScale = 0 := by omega
    rw [whole, pow_zero, mul_one] at scaled
    simp only [getScaleMultiplier, signed_of_in product, Option.bind_some, signed_of_in inside]
    exact ⟨_, rfl, inside, wide, rfl, scaled⟩
  | right finer =>
    have narrow : max leftScale rightScale - rightScale ≤ maxInt64Digit :=
      (Nat.sub_le _ _).trans most
    obtain ⟨product, -, inside⟩ := additive.inSigned_scaled rightIn leftIn narrow
    have whole : max leftScale rightScale - leftScale = 0 := by omega
    rw [whole, pow_zero, mul_one] at scaled
    simp only [getScaleMultiplier, signed_of_in product, Option.bind_some, signed_of_in inside]
    exact ⟨_, rfl, inside, wide, rfl, scaled⟩

theorem bi128Additive_exact (larg rarg : BiNumeric) : ∃ outcome, bi128Additive op larg rarg = some outcome ∧
      outcome.Exact (exact larg.rational rarg.rational) (max larg.scale rarg.scale) := by
  obtain ⟨leftIn, leftSmall⟩ := larg.valid
  obtain ⟨rightIn, rightSmall⟩ := rarg.valid
  obtain ⟨adjust, aligned, cases⟩ := adjusted aligns_bi128 leftIn rightIn leftSmall rightSmall
  unfold bi128Additive adjustBi128ToSameScale
  rw [aligned]
  simp only [Option.bind_eq_bind, Option.bind_some]
  cases cases with
  | adjusted xIn yIn =>
    dsimp only
    by_cases fits : InSigned 128 (op (larg.int128GetVal * 10 ^ (max larg.scale rarg.scale - larg.scale))
          (rarg.int128GetVal * 10 ^ (max larg.scale rarg.scale - rarg.scale)))
    · rw [signed_of_in fits]
      exact ⟨_, rfl, fits, max_le leftSmall rightSmall, rfl, additive.scaled _ _ _ _⟩
    · rw [signed_of_not_in fits]
      exact ⟨_, rfl, trivial⟩
  | left finer => exact ⟨_, rfl, trivial⟩
  | right finer => exact ⟨_, rfl, trivial⟩

end Additive

theorem bi64mul64_exact : ∃ outcome, bi64mul64 larg rarg = some outcome ∧
      outcome.Exact (rational larg.value larg.scale * rational rarg.value rarg.scale)
        (larg.scale + rarg.scale) := by
  have product := rational_mul larg.value rarg.value larg.scale rarg.scale
  unfold bi64mul64
  dsimp only
  by_cases fits : larg.scale + rarg.scale ≤ maxInt64Digit ∧ InSigned 64 (larg.value * rarg.value)
  · rw [if_pos fits.1, signed_of_in fits.2]
    exact ⟨_, rfl, fits.2, fits.1, rfl, product⟩
  · have overflow : (if larg.scale + rarg.scale ≤ maxInt64Digit then
        signed 64 (larg.value * rarg.value) else none) = none := by
      split
      · rename_i small
        exact signed_of_not_in fun inside => fits ⟨small, inside⟩
      · rfl
    have first := abs_le_of_inSigned larg.inRange
    have second := abs_le_of_inSigned rarg.inRange
    have inside : InSigned 128 (larg.value * rarg.value) := by
      apply inSigned_of_abs_lt
      rw [abs_mul]
      calc |larg.value| * |rarg.value| ≤ 2 ^ 63 * 2 ^ 63 :=
            mul_le_mul first second (abs_nonneg _) (by decide)
        _ < 2 ^ (128 - 1) := by decide
    have small : larg.scale + rarg.scale ≤ maxInt128Digit :=
      Nat.add_le_add larg.admissible rarg.admissible
    rw [overflow, signed_of_in inside]
    exact ⟨_, rfl, inside, small, rfl, product⟩

theorem bi128mul128_exact (larg rarg : BiNumeric) : ∃ outcome, bi128mul128 larg rarg = some outcome ∧
      outcome.Exact (larg.rational * rarg.rational) (larg.scale + rarg.scale) := by
  unfold bi128mul128
  dsimp only
  by_cases small : larg.scale + rarg.scale ≤ maxInt128Digit
  · rw [if_pos small]
    by_cases inside : InSigned 128 (larg.int128GetVal * rarg.int128GetVal)
    · rw [signed_of_in inside]
      exact ⟨_, rfl, inside, small, rfl, rational_mul _ _ _ _⟩
    · rw [signed_of_not_in inside]
      exact ⟨_, rfl, trivial⟩
  · rw [if_neg small]
    exact ⟨_, rfl, trivial⟩

/-- No operation of the fast path overflows, and what it returns is the exact number at the scale of
`numeric.cpp`. -/
theorem biFunMatrix_exact (op : BiOp) (larg rarg : BiNumeric) :
    ∃ outcome, biFunMatrix op larg rarg = some outcome ∧ outcome.Exact (op.apply larg.rational rarg.rational)
        (op.resultScale larg.scale rarg.scale) := by
  cases op with
  | add =>
    cases larg with
    | bi64 left =>
      cases rarg with
      | bi64 right => exact bi64Additive_exact additive_add left right
      | bi128 right => exact bi128Additive_exact additive_add (.bi64 left) (.bi128 right)
    | bi128 left => exact bi128Additive_exact additive_add (.bi128 left) rarg
  | sub =>
    cases larg with
    | bi64 left =>
      cases rarg with
      | bi64 right => exact bi64Additive_exact additive_sub left right
      | bi128 right => exact bi128Additive_exact additive_sub (.bi64 left) (.bi128 right)
    | bi128 left => exact bi128Additive_exact additive_sub (.bi128 left) rarg
  | mul =>
    cases larg with
    | bi64 left =>
      cases rarg with
      | bi64 right => exact bi64mul64_exact left right
      | bi128 right => exact bi128mul128_exact (.bi64 left) (.bi128 right)
    | bi128 left => exact bi128mul128_exact (.bi128 left) rarg

/-- Two operands that fit in 64 bits, and their sum in 128. -/
example : bi64add64 ⟨2 ^ 63 - 1, 0, by decide, by decide⟩ ⟨1, 1, by decide, by decide⟩ =
    some (.makeNumeric128 (10 * (2 ^ 63 - 1) + 1) 1) := by decide

end OpenGauss.BigInteger
