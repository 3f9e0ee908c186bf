import OpenGauss.IPRange.Ranges

/-! The operators of `IPV6` against the arithmetic of 128-bit numbers. -/

namespace OpenGauss.IPRange

namespace IPV6

def number (ip : IPV6) : Nat := ip.lower + 2 ^ 64 * ip.upper

/-- `new_ip.ip_64.lower = i`, where the offset is extended by its sign. -/
def ofOffset (i : Int32) : IPV6 :=
  let lower := i.toInt64.toUInt64
  ⟨lower.toUInt32, (lower >>> 32).toUInt32, 0, 0⟩

/-- `operator+(const IPV6, const int)`. -/
def addOffset (lhs : IPV6) (i : Int32) : IPV6 := lhs.add (ofOffset i)

/-- `operator-(const IPV6, const int)`. -/
def subOffset (lhs : IPV6) (i : Int32) : IPV6 := lhs.sub (ofOffset i)

variable {lhs rhs ip : IPV6} {i : Int32}

theorem lower_lt (ip : IPV6) : ip.lower < 2 ^ 64 := by
  have a := ip.a.toNat_lt
  have b := ip.b.toNat_lt
  unfold lower
  omega

theorem upper_lt (ip : IPV6) : ip.upper < 2 ^ 64 := by
  have c := ip.c.toNat_lt
  have d := ip.d.toNat_lt
  unfold upper
  omega

theorem number_lt (ip : IPV6) : ip.number < 2 ^ 128 := by
  have low := ip.lower_lt
  have high := ip.upper_lt
  unfold number
  omega

theorem number_eq (ip : IPV6) : ip.number =
      ip.a.toNat + 2 ^ 32 * ip.b.toNat + 2 ^ 64 * (ip.c.toNat + 2 ^ 32 * ip.d.toNat) := rfl

theorem lt_def : lhs < rhs ↔ lhs.upper < rhs.upper ∨ lhs.lower < rhs.lower := Iff.rfl

/-- The comparison never misses a smaller number. -/
theorem lt_of_number_lt (less : lhs.number < rhs.number) : lhs < rhs := by
  have low := lhs.lower_lt
  have otherLow := rhs.lower_lt
  unfold number at less
  rw [lt_def]
  omega

/-- The halves disagree: the upper one goes down where the lower one goes up. -/
def Crossed (lhs rhs : IPV6) : Prop := rhs.upper < lhs.upper ∧ lhs.lower < rhs.lower

instance : Decidable (Crossed lhs rhs) :=
  inferInstanceAs (Decidable (rhs.upper < lhs.upper ∧ lhs.lower < rhs.lower))

theorem lt_iff_number_lt : (lhs < rhs ↔ lhs.number < rhs.number) ↔ ¬ Crossed lhs rhs := by
  have low := lhs.lower_lt
  have otherLow := rhs.lower_lt
  unfold number Crossed
  rw [lt_def]
  omega

theorem le_iff_number_le (straight : ¬ Crossed rhs lhs) : lhs ≤ rhs ↔ lhs.number ≤ rhs.number := by
  change ¬ rhs < lhs ↔ _
  rw [lt_iff_number_lt.mpr straight, not_lt]

theorem number_le_of_le (le : lhs ≤ rhs) : lhs.number ≤ rhs.number :=
  not_lt.mp fun less => le (lt_of_number_lt less)

/-- A number that is not smaller is missed only where the halves disagree. -/
theorem le_iff_uncrossed (le : lhs.number ≤ rhs.number) : lhs ≤ rhs ↔ ¬ Crossed rhs lhs := by
  rw [← lt_iff_number_lt, iff_false_right (not_lt.mpr le)]
  exact Iff.rfl

/-- What a sum of two words and a carry leaves in the word, and what it carries on. -/
theorem sumWord (x y : UInt32) (carry : UInt64) (bit : carry.toNat ≤ 1) :
    let tmp := x.toUInt64 + y.toUInt64 + carry
    tmp.toUInt32.toNat + 2 ^ 32 * (tmp >>> 32).toNat = x.toNat + y.toNat + carry.toNat ∧
      (tmp >>> 32).toNat ≤ 1 := by
  intro tmp
  have left := x.toNat_lt
  have right := y.toNat_lt
  have whole : tmp.toNat = x.toNat + y.toNat + carry.toNat := by
    change (x.toUInt64 + y.toUInt64 + carry).toNat = _
    rw [UInt64.toNat_add, UInt64.toNat_add, UInt32.toNat_toUInt64, UInt32.toNat_toUInt64]
    omega
  have shifted : (tmp >>> 32).toNat = tmp.toNat / 2 ^ 32 := by
    rw [UInt64.toNat_shiftRight]
    exact Nat.shiftRight_eq_div_pow _ _
  rw [shifted, UInt64.toNat_toUInt32, whole]
  omega

/-- What a difference of two words and a borrow leaves in the word, and what it borrows. -/
theorem differenceWord (x y : UInt32) (borrow : UInt64) (bit : borrow.toNat ≤ 1) :
    let tmp := x.toUInt64 - y.toUInt64 - borrow
    tmp.toUInt32.toNat + y.toNat + borrow.toNat = x.toNat + 2 ^ 32 * (tmp >>> 63).toNat ∧
      (tmp >>> 63).toNat ≤ 1 := by
  intro tmp
  have left := x.toNat_lt
  have right := y.toNat_lt
  have whole : tmp.toNat = (2 ^ 64 + x.toNat - y.toNat - borrow.toNat) % 2 ^ 64 := by
    change (x.toUInt64 - y.toUInt64 - borrow).toNat = _
    rw [UInt64.toNat_sub, UInt64.toNat_sub, UInt32.toNat_toUInt64, UInt32.toNat_toUInt64]
    omega
  have shifted : (tmp >>> 63).toNat = tmp.toNat / 2 ^ 63 := by
    rw [UInt64.toNat_shiftRight]
    exact Nat.shiftRight_eq_div_pow _ _
  rw [shifted, UInt64.toNat_toUInt32, whole]
  omega

/-- The carry out of the highest word is lost. -/
theorem number_add (general : ¬ lhs.looksIPv4) :
    ((lhs.add rhs).number : Int) = ((lhs.number : Int) + rhs.number) % 2 ^ 128 := by
  rw [looksIPv4, decide_eq_true_iff] at general
  rw [add, if_neg general]
  extract_lets tmpA tmpB tmpC tmpD
  have bound := number_lt ⟨tmpA.toUInt32, tmpB.toUInt32, tmpC.toUInt32, tmpD.toUInt32⟩
  have wordA : tmpA.toUInt32.toNat + 2 ^ 32 * (tmpA >>> 32).toNat = lhs.a.toNat + rhs.a.toNat ∧
      (tmpA >>> 32).toNat ≤ 1 := by
    have word := sumWord lhs.a rhs.a 0 (by decide)
    simp only [UInt64.add_zero, UInt64.toNat_zero, Nat.add_zero] at word
    exact word
  have wordB := sumWord lhs.b rhs.b (tmpA >>> 32) wordA.2
  have wordC := sumWord lhs.c rhs.c (tmpB >>> 32) wordB.2
  have wordD := sumWord lhs.d rhs.d (tmpC >>> 32) wordC.2
  have lost : lhs.number + rhs.number = number ⟨tmpA.toUInt32, tmpB.toUInt32, tmpC.toUInt32, tmpD.toUInt32⟩ +
        2 ^ 128 * (tmpD >>> 32).toNat := by
    simp only [number_eq]
    linear_combination -wordA.1 - 2 ^ 32 * wordB.1 - 2 ^ 64 * wordC.1 - 2 ^ 96 * wordD.1
  rw [← Nat.cast_add, lost]
  norm_cast
  rw [Nat.add_mul_mod_self_left, Nat.mod_eq_of_lt bound]

/-- What the highest word borrows comes from nowhere. -/
theorem number_sub (general : ¬ lhs.looksIPv4) :
    ((lhs.sub rhs).number : Int) = ((lhs.number : Int) - rhs.number) % 2 ^ 128 := by
  rw [looksIPv4, decide_eq_true_iff] at general
  rw [sub, if_neg general]
  extract_lets tmpA tmpB tmpC tmpD
  have bound := number_lt ⟨tmpA.toUInt32, tmpB.toUInt32, tmpC.toUInt32, tmpD.toUInt32⟩
  have wordA : tmpA.toUInt32.toNat + rhs.a.toNat = lhs.a.toNat + 2 ^ 32 * (tmpA >>> 63).toNat ∧
      (tmpA >>> 63).toNat ≤ 1 := by
    have word := differenceWord lhs.a rhs.a 0 (by decide)
    simp only [UInt64.sub_zero, UInt64.toNat_zero, Nat.add_zero] at word
    exact word
  have wordB := differenceWord lhs.b rhs.b (tmpA >>> 63) wordA.2
  have wordC := differenceWord lhs.c rhs.c (tmpB >>> 63) wordB.2
  have wordD := differenceWord lhs.d rhs.d (tmpC >>> 63) wordC.2
  have borrowed : number ⟨tmpA.toUInt32, tmpB.toUInt32, tmpC.toUInt32, tmpD.toUInt32⟩ +
      rhs.number = lhs.number + 2 ^ 128 * (tmpD >>> 63).toNat := by
    simp only [number_eq]
    linear_combination wordA.1 + 2 ^ 32 * wordB.1 + 2 ^ 64 * wordC.1 + 2 ^ 96 * wordD.1
  have exact : ((lhs.number : Int) - rhs.number) =
      (number ⟨tmpA.toUInt32, tmpB.toUInt32, tmpC.toUInt32, tmpD.toUInt32⟩ : Int) +
        (2 : Int) ^ 128 * -((tmpD >>> 63).toNat : Int) := by
    have counted : (number ⟨tmpA.toUInt32, tmpB.toUInt32, tmpC.toUInt32, tmpD.toUInt32⟩ : Int) +
        rhs.number = lhs.number + (2 : Int) ^ 128 * ((tmpD >>> 63).toNat : Int) := by
      exact_mod_cast borrowed
    linear_combination -counted
  rw [exact, Int.add_mul_emod_self_left, Int.emod_eq_of_lt (by positivity) (by exact_mod_cast bound)]

/-- A sum with an IPv4 address is a sum of lowest words. -/
theorem number_add_ipv4 (ipv4 : lhs.looksIPv4) : ((lhs.add rhs).number : Int) =
      ((lhs.number : Int) + rhs.number) % 2 ^ 32 + 2 ^ 32 * 0xFFFF := by
  rw [looksIPv4, decide_eq_true_iff] at ipv4
  rw [add, if_pos ipv4]
  simp only [number_eq, UInt32.toNat_add, UInt32.reduceToNat]
  omega

theorem number_sub_ipv4 (ipv4 : lhs.looksIPv4) : ((lhs.sub rhs).number : Int) =
      ((lhs.number : Int) - rhs.number) % 2 ^ 32 + 2 ^ 32 * 0xFFFF := by
  rw [looksIPv4, decide_eq_true_iff] at ipv4
  rw [sub, if_pos ipv4]
  have word := rhs.a.toNat_lt
  simp only [number_eq, UInt32.toNat_sub, UInt32.reduceToNat]
  omega

theorem number_ofOffset (i : Int32) : ((ofOffset i).number : Int) = i.toInt % 2 ^ 64 := by
  have same : i.toInt64.toBitVec.toInt = i.toInt := i.toInt_toInt64
  have word : (i.toInt64.toUInt64.toNat : Int) = i.toInt % 2 ^ 64 := by
    change (i.toInt64.toBitVec.toNat : Int) = _
    have bound := i.toInt64.toBitVec.isLt
    rw [← same, BitVec.toInt_eq_toNat_cond]
    split <;> omega
  have upperWord : (i.toInt64.toUInt64 >>> 32).toNat = i.toInt64.toUInt64.toNat / 2 ^ 32 := by
    rw [UInt64.toNat_shiftRight]
    exact Nat.shiftRight_eq_div_pow _ _
  have bound := i.toInt64.toUInt64.toNat_lt
  rw [← word, ofOffset, number_eq]
  simp only [UInt64.toNat_toUInt32, upperWord, UInt32.toNat_zero]
  omega

/-- The numbers whose words above the lowest are those of an IPv4 address. -/
def InIPv4Block (number : Int) : Prop := number / 2 ^ 32 = 0xFFFF

instance (number : Int) : Decidable (InIPv4Block number) :=
  inferInstanceAs (Decidable (number / 2 ^ 32 = 0xFFFF))

structure OperatorsAgree (lhs rhs : IPV6) (i : Int32) : Prop where
  less : lhs < rhs ↔ lhs.number < rhs.number
  sum : ((lhs.add rhs).number : Int) = ((lhs.number : Int) + rhs.number) % 2 ^ 128
  difference : ((lhs.sub rhs).number : Int) = ((lhs.number : Int) - rhs.number) % 2 ^ 128
  sumOffset : ((lhs.addOffset i).number : Int) = ((lhs.number : Int) + i.toInt) % 2 ^ 128
  differenceOffset : ((lhs.subOffset i).number : Int) = ((lhs.number : Int) - i.toInt) % 2 ^ 128

/-- What the operators rely on: halves that do not disagree, results that stay IPv4 addresses
where the left operand looks like one, and otherwise an offset that is not negative. -/
structure OperatorsFit (lhs rhs : IPV6) (i : Int32) : Prop where
  uncrossed : ¬ Crossed lhs rhs
  sum : lhs.looksIPv4 → InIPv4Block (((lhs.number : Int) + rhs.number) % 2 ^ 128)
  difference : lhs.looksIPv4 → InIPv4Block (((lhs.number : Int) - rhs.number) % 2 ^ 128)
  sumOffset : if lhs.looksIPv4 then InIPv4Block (((lhs.number : Int) + i.toInt) % 2 ^ 128)
    else 0 ≤ i.toInt
  differenceOffset : if lhs.looksIPv4 then InIPv4Block (((lhs.number : Int) - i.toInt) % 2 ^ 128)
    else 0 ≤ i.toInt

theorem ipv4_result (exact : Int) :
    exact % 2 ^ 32 + 2 ^ 32 * 0xFFFF = exact % 2 ^ 128 ↔ InIPv4Block (exact % 2 ^ 128) := by
  unfold InIPv4Block
  omega

theorem sum_agrees_iff : ((lhs.add rhs).number : Int) = ((lhs.number : Int) + rhs.number) % 2 ^ 128 ↔
      (lhs.looksIPv4 → InIPv4Block (((lhs.number : Int) + rhs.number) % 2 ^ 128)) := by
  by_cases ipv4 : lhs.looksIPv4
  · rw [number_add_ipv4 ipv4, ipv4_result]
    simp only [ipv4, true_imp_iff]
  · exact iff_of_true (number_add ipv4) fun looks => absurd looks ipv4

theorem difference_agrees_iff : ((lhs.sub rhs).number : Int) = ((lhs.number : Int) - rhs.number) % 2 ^ 128 ↔
      (lhs.looksIPv4 → InIPv4Block (((lhs.number : Int) - rhs.number) % 2 ^ 128)) := by
  by_cases ipv4 : lhs.looksIPv4
  · rw [number_sub_ipv4 ipv4, ipv4_result]
    simp only [ipv4, true_imp_iff]
  · exact iff_of_true (number_sub ipv4) fun looks => absurd looks ipv4

/-- A negative offset becomes a number just below 2^64. -/
theorem sumOffset_agrees_iff : ((lhs.addOffset i).number : Int) = ((lhs.number : Int) + i.toInt) % 2 ^ 128 ↔
      if lhs.looksIPv4 then InIPv4Block (((lhs.number : Int) + i.toInt) % 2 ^ 128)
      else 0 ≤ i.toInt := by
  have low := i.le_toInt
  have high := i.toInt_lt
  unfold addOffset
  by_cases ipv4 : lhs.looksIPv4
  · rw [number_add_ipv4 ipv4, number_ofOffset, if_pos ipv4, ← ipv4_result]
    have same : ((lhs.number : Int) + i.toInt % 2 ^ 64) % 2 ^ 32 =
        ((lhs.number : Int) + i.toInt) % 2 ^ 32 := by omega
    rw [same]
  · rw [number_add ipv4, number_ofOffset, if_neg ipv4]
    omega

theorem differenceOffset_agrees_iff :
    ((lhs.subOffset i).number : Int) = ((lhs.number : Int) - i.toInt) % 2 ^ 128 ↔
      if lhs.looksIPv4 then InIPv4Block (((lhs.number : Int) - i.toInt) % 2 ^ 128)
      else 0 ≤ i.toInt := by
  have low := i.le_toInt
  have high := i.toInt_lt
  unfold subOffset
  by_cases ipv4 : lhs.looksIPv4
  · rw [number_sub_ipv4 ipv4, number_ofOffset, if_pos ipv4, ← ipv4_result]
    have same : ((lhs.number : Int) - i.toInt % 2 ^ 64) % 2 ^ 32 =
        ((lhs.number : Int) - i.toInt) % 2 ^ 32 := by omega
    rw [same]
  · rw [number_sub ipv4, number_ofOffset, if_neg ipv4]
    omega

theorem operatorsAgree_iff : OperatorsAgree lhs rhs i ↔ OperatorsFit lhs rhs i := by
  constructor
  · intro agree
    exact ⟨lt_iff_number_lt.mp agree.less, sum_agrees_iff.mp agree.sum,
      difference_agrees_iff.mp agree.difference, sumOffset_agrees_iff.mp agree.sumOffset,
      differenceOffset_agrees_iff.mp agree.differenceOffset⟩
  · intro fit
    exact ⟨lt_iff_number_lt.mpr fit.uncrossed, sum_agrees_iff.mpr fit.sum,
      difference_agrees_iff.mpr fit.difference, sumOffset_agrees_iff.mpr fit.sumOffset,
      differenceOffset_agrees_iff.mpr fit.differenceOffset⟩

end IPV6

open IPV6

/-- The addresses from one end to the other, as numbers. -/
def Range.holds (range : Range) : Set IPV6 :=
  {ip | range.fromIp.number ≤ ip.number ∧ ip.number ≤ range.toIp.number}

def ends (range other : Range) : List IPV6 := [range.fromIp, range.toIp, other.fromIp, other.toIp]

/-- No two of the addresses have halves that disagree. -/
def Straight (ips : List IPV6) : Prop := ∀ lhs ∈ ips, ∀ rhs ∈ ips, ¬ Crossed lhs rhs

instance (ips : List IPV6) : Decidable (Straight ips) :=
  inferInstanceAs (Decidable (∀ lhs ∈ ips, ∀ rhs ∈ ips, ¬ Crossed lhs rhs))

section Calls

variable {lhs rhs : IPV6} {ips : List IPV6} {newRange existRange removed : Range}

theorem Straight.lt_iff (straight : Straight ips) (left : lhs ∈ ips) (right : rhs ∈ ips) :
    lhs < rhs ↔ lhs.number < rhs.number :=
  lt_iff_number_lt.mpr (straight lhs left rhs right)

theorem Straight.le_iff (straight : Straight ips) (left : lhs ∈ ips) (right : rhs ∈ ips) :
    lhs ≤ rhs ↔ lhs.number ≤ rhs.number :=
  le_iff_number_le (straight rhs right lhs left)

theorem max_mem (left : lhs ∈ ips) (right : rhs ∈ ips) : IPV6.max lhs rhs ∈ ips := by
  unfold IPV6.max
  split
  · exact right
  · exact left

theorem min_mem (left : lhs ∈ ips) (right : rhs ∈ ips) : IPV6.min lhs rhs ∈ ips := by
  unfold IPV6.min
  split
  · exact right
  · exact left

theorem Straight.max_number (straight : Straight ips) (left : lhs ∈ ips) (right : rhs ∈ ips) :
    (IPV6.max lhs rhs).number = Max.max lhs.number rhs.number := by
  unfold IPV6.max
  simp only [straight.lt_iff left right]
  split
  · exact (max_eq_right_of_lt ‹_›).symm
  · exact (max_eq_left (not_lt.mp ‹_›)).symm

theorem Straight.min_number (straight : Straight ips) (left : lhs ∈ ips) (right : rhs ∈ ips) :
    (IPV6.min lhs rhs).number = Min.min lhs.number rhs.number := by
  unfold IPV6.min
  simp only [straight.lt_iff right left]
  split
  · exact (min_eq_right_of_lt ‹_›).symm
  · exact (min_eq_left (not_lt.mp ‹_›)).symm

/-- Lookup: `is_in_range` goes by the numbers where the address of a range is not crossed with the
ends it is compared with. -/
theorem lookup_iff {range : Range} {ip : IPV6} :
    ((range.fromIp ≤ ip ∧ ip ≤ range.toIp) ↔ ip ∈ range.holds) ↔
      (ip ∈ range.holds → ¬ Crossed ip range.fromIp ∧ ¬ Crossed range.toIp ip) := by
  constructor
  · intro agree inside
    obtain ⟨fromLe, leTo⟩ := agree.mpr inside
    exact ⟨(le_iff_uncrossed inside.1).mp fromLe, (le_iff_uncrossed inside.2).mp leTo⟩
  · intro uncrossed
    constructor
    · rintro ⟨fromLe, leTo⟩
      exact ⟨number_le_of_le fromLe, number_le_of_le leTo⟩
    · intro inside
      obtain ⟨low, high⟩ := uncrossed inside
      exact ⟨(le_iff_uncrossed inside.1).mpr low, (le_iff_uncrossed inside.2).mpr high⟩

/-- Insertion: the widened range is the union, and without one the two ranges are apart. -/
def Inserted (newRange existRange : Range) : Prop :=
  match handleAddIntersection newRange existRange with
  | some widened => widened.holds = newRange.holds ∪ existRange.holds
  | none => Disjoint newRange.holds existRange.holds

/-- Trimming: what is pushed is the difference. -/
def Trimmed (removed existRange : Range) : Prop :=
  {ip | ∃ range ∈ handleRemoveIntersection removed existRange, ip ∈ range.holds} =
    existRange.holds \ removed.holds

theorem inserted (straight : Straight (ends newRange existRange))
    (upwards : newRange.fromIp.number ≤ newRange.toIp.number)
    (existUpwards : existRange.fromIp.number ≤ existRange.toIp.number) :
    Inserted newRange existRange := by
  have fromIn : newRange.fromIp ∈ ends newRange existRange := by simp [ends]
  have toIn : newRange.toIp ∈ ends newRange existRange := by simp [ends]
  have existFromIn : existRange.fromIp ∈ ends newRange existRange := by simp [ends]
  have existToIn : existRange.toIp ∈ ends newRange existRange := by simp [ends]
  have apart := straight.lt_iff (min_mem toIn existToIn) (max_mem fromIn existFromIn)
  rw [straight.min_number toIn existToIn, straight.max_number fromIn existFromIn] at apart
  have low := straight.min_number fromIn existFromIn
  have high := straight.max_number toIn existToIn
  unfold Inserted handleAddIntersection
  dsimp only
  split
  · rename_i widened kept
    split at kept
    · cases kept
    · rename_i meets
      cases kept
      rw [apart] at meets
      ext ip
      simp only [Range.holds, Set.mem_ofPred_eq, Set.mem_union, low, high]
      omega
  · rename_i kept
    split at kept
    · rename_i separate
      rw [apart] at separate
      refine Set.disjoint_left.mpr fun ip inNew inExist => ?_
      simp only [Range.holds, Set.mem_ofPred_eq] at inNew inExist
      omega
    · cases kept

/-- The two steps a trimming takes past the removed range, where it leaves something there. -/
structure StepsFit (removed existRange : Range) : Prop where
  above : removed.toIp.looksIPv4 → removed.toIp.number < existRange.toIp.number →
    InIPv4Block (removed.toIp.number + 1)
  below : removed.fromIp.looksIPv4 → existRange.fromIp.number < removed.fromIp.number →
    InIPv4Block (removed.fromIp.number - 1)

theorem number_one : number ⟨1, 0, 0, 0⟩ = 1 := by decide

theorem StepsFit.number_succ (fit : StepsFit removed existRange)
    (past : removed.toIp.number < existRange.toIp.number) :
    removed.toIp.succ.number = removed.toIp.number + 1 := by
  have bound := existRange.toIp.number_lt
  have exact : ((removed.toIp.number : Int) + number ⟨1, 0, 0, 0⟩) % 2 ^ 128 = removed.toIp.number + 1 := by
    rw [number_one]
    omega
  have agrees := @sum_agrees_iff removed.toIp ⟨1, 0, 0, 0⟩
  rw [exact] at agrees
  have stepped := agrees.mpr fun ipv4 => fit.above ipv4 past
  change (removed.toIp.succ.number : Int) = _ at stepped
  exact_mod_cast stepped

theorem StepsFit.number_pred (fit : StepsFit removed existRange)
    (past : existRange.fromIp.number < removed.fromIp.number) :
    removed.fromIp.pred.number = removed.fromIp.number - 1 := by
  have bound := removed.fromIp.number_lt
  have exact : ((removed.fromIp.number : Int) - number ⟨1, 0, 0, 0⟩) % 2 ^ 128 =
      removed.fromIp.number - 1 := by
    rw [number_one]
    omega
  have agrees := @difference_agrees_iff removed.fromIp ⟨1, 0, 0, 0⟩
  rw [exact] at agrees
  have stepped := agrees.mpr fun ipv4 => fit.below ipv4 past
  change (removed.fromIp.pred.number : Int) = _ at stepped
  omega

theorem trimmed (straight : Straight (ends removed existRange))
    (upwards : removed.fromIp.number ≤ removed.toIp.number)
    (existUpwards : existRange.fromIp.number ≤ existRange.toIp.number)
    (fit : StepsFit removed existRange) : Trimmed removed existRange := by
  have above := fit.number_succ
  have below := fit.number_pred
  have fromIn : removed.fromIp ∈ ends removed existRange := by simp [ends]
  have toIn : removed.toIp ∈ ends removed existRange := by simp [ends]
  have existFromIn : existRange.fromIp ∈ ends removed existRange := by simp [ends]
  have existToIn : existRange.toIp ∈ ends removed existRange := by simp [ends]
  have apart := straight.lt_iff (min_mem toIn existToIn) (max_mem fromIn existFromIn)
  rw [straight.min_number toIn existToIn, straight.max_number fromIn existFromIn] at apart
  have startsBefore := straight.le_iff fromIn existFromIn
  have endsAfter := straight.le_iff existToIn toIn
  unfold Trimmed handleRemoveIntersection
  simp only [apart, startsBefore, endsAfter]
  ext ip
  split_ifs <;> simp only [List.mem_cons, List.not_mem_nil, or_false, exists_eq_or_imp, exists_eq_left,
      false_and, exists_false, false_iff, Range.holds, Set.mem_ofPred_eq, Set.mem_sdiff] <;>
    omega

end Calls

/-- The operators agree with the numbers, and a lookup does, exactly where nothing that is compared
has halves that disagree; the other calls then work on sets of addresses. -/
theorem operators_agree_iff (lhs rhs : IPV6) (i : Int32) :
    (OperatorsAgree lhs rhs i ↔ OperatorsFit lhs rhs i) ∧
      (∀ (range : Range) (ip : IPV6), ((range.fromIp ≤ ip ∧ ip ≤ range.toIp) ↔ ip ∈ range.holds) ↔
        (ip ∈ range.holds → ¬ Crossed ip range.fromIp ∧ ¬ Crossed range.toIp ip)) ∧
      ∀ range existRange : Range, range.fromIp.number ≤ range.toIp.number →
        existRange.fromIp.number ≤ existRange.toIp.number → Straight (ends range existRange) →
        Inserted range existRange ∧ (StepsFit range existRange → Trimmed range existRange) :=
  ⟨operatorsAgree_iff, fun _ _ => lookup_iff, fun _ _ upwards existUpwards straight =>
    ⟨inserted straight upwards existUpwards, trimmed straight upwards existUpwards⟩⟩

theorem operators_agree_iff_sample : OperatorsAgree ⟨0, 0, 1, 0⟩ ⟨5, 0, 2, 0⟩ 1 ∧
      Trimmed ⟨⟨4, 0, 0, 0⟩, ⟨9, 0, 0, 0⟩⟩ ⟨⟨2, 0, 0, 0⟩, ⟨7, 0, 0, 0⟩⟩ :=
  ⟨(operators_agree_iff ⟨0, 0, 1, 0⟩ ⟨5, 0, 2, 0⟩ 1).1.mpr
      ⟨by decide, by decide, by decide, by decide, by decide⟩,
    ((operators_agree_iff ⟨0, 0, 1, 0⟩ ⟨5, 0, 2, 0⟩ 1).2.2 ⟨⟨4, 0, 0, 0⟩, ⟨9, 0, 0, 0⟩⟩
      ⟨⟨2, 0, 0, 0⟩, ⟨7, 0, 0, 0⟩⟩ (by decide) (by decide) (by decide)).2 ⟨by decide, by decide⟩⟩

/-- `0:0:0:1::` counts as smaller than `::1`, and `::2` as outside `::1` to `0:0:0:1::`. -/
theorem operators_disagree : ¬ OperatorsAgree ⟨0, 0, 1, 0⟩ ⟨1, 0, 0, 0⟩ 1 ∧
      ∃ range : Range, ∃ ip ∈ range.holds, ¬ (range.fromIp ≤ ip ∧ ip ≤ range.toIp) :=
  ⟨fun agree => absurd agree.less (by decide), ⟨⟨1, 0, 0, 0⟩, ⟨0, 0, 1, 0⟩⟩, ⟨2, 0, 0, 0⟩,
    ⟨by decide, by decide⟩, by decide⟩

end OpenGauss.IPRange
