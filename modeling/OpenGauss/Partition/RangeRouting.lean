import Mathlib.Tactic

/-! How a key is routed to a range or interval partition: the boundaries are compared column by
column, with `NULL` and `MAXVALUE` apart from the values of the column's type. -/

namespace OpenGauss.Partition

/-- The fields of a constant that routing reads. -/
structure Const (V : Type) where
  ismaxvalue : Bool
  constisnull : Bool
  constvalue : V

/-- `boundary` has one entry a key column; a null pointer is `none`. -/
structure RangeElement (V : Type) where
  partitionOid : Nat
  boundary : List (Option (Const V))
  isInterval : Bool

inductive PartArea where
  | range | interval
  deriving DecidableEq, Repr

structure PartitionIdentifier where
  partArea : PartArea
  partitionId : Nat
  fileExist : Bool
  partSeq : Int
  deriving DecidableEq, Repr

def invalidOid : Nat := 0

/-- The partition map with what its comparisons use: whether nulls sort before all values
(`CheckPluginNullsPolicy`), the comparison of each column's type and, for an interval map, the low
boundary that belongs to a boundary. -/
structure RangePartitionMap (V : Type) where
  rangeElements : List (RangeElement V)
  nonempty : rangeElements ≠ []
  partArea : PartArea
  checkPluginNullsPolicy : Bool
  constCompare : Nat → V → V → Int
  calcLowBoundary : Option (Const V) → Option (Const V)

namespace RangePartitionMap

variable {V : Type} (map : RangePartitionMap V)

/-- One column of a comparison; `none` is an error. -/
def compareColumn (column : Nat) : Option (Const V) → Option (Const V) → Option Int
  | none, none => none
  | none, some _ => some (-1)
  | some _, none => some 1
  | some kv, some bv =>
    if kv.ismaxvalue || bv.ismaxvalue then
      if kv.ismaxvalue && bv.ismaxvalue then some 0
      else if kv.ismaxvalue then some 1 else some (-1)
    else if kv.constisnull || bv.constisnull then
      if kv.constisnull && bv.constisnull then none
      else if kv.constisnull then some (if map.checkPluginNullsPolicy then -1 else 1)
      else some (if map.checkPluginNullsPolicy then 1 else -1)
    else some (map.constCompare column kv.constvalue bv.constvalue)

/-- `compare` keeps its value when there is no column left. -/
def partitionKeyCompareForRouting (column : Nat) :
    List (Option (Const V)) → List (Option (Const V)) → Int → Option Int
  | kv :: keyValue, bv :: bound, _ =>
    match map.compareColumn column kv bv with
    | none => none
    | some compare =>
      if compare = 0 then partitionKeyCompareForRouting (column + 1) keyValue bound compare
      else some compare
  | _, _, compare => some compare

def boundaryAt (place : Nat) : List (Option (Const V)) :=
  ((map.rangeElements[place]?).map (·.boundary)).getD []

def oidAt (place : Nat) : Nat :=
  ((map.rangeElements[place]?).map (·.partitionOid)).getD invalidOid

variable (partKeyValue : List (Option (Const V)))

def compareAt (place : Nat) : Option Int :=
  map.partitionKeyCompareForRouting 0 partKeyValue (map.boundaryAt place) 0

/-- The loop of `getRangePartitionOid` and the test behind it. -/
def semiSeek (compareAt : Nat → Option Int) (topClosed : Bool) (minPartId maxPartId : Nat) : Option Int :=
  if minPartId < maxPartId then
    let localPartId := (maxPartId + minPartId) / 2
    match compareAt localPartId with
    | none => none
    | some compare =>
      if compare = 0 then some (if topClosed then localPartId + 1 else localPartId)
      else if 0 < compare then semiSeek compareAt topClosed (localPartId + 1) maxPartId
      else semiSeek compareAt topClosed minPartId localPartId
  else some (if maxPartId = minPartId then maxPartId else -1)
termination_by maxPartId - minPartId

def getRangePartitionOid (topClosed : Bool) :
    Option (Int × Nat) := do
  let maxPartId := map.rangeElements.length - 1
  let compare ← map.compareAt partKeyValue maxPartId
  let hit ←
    if compare = 0 then some (if topClosed then -1 else (maxPartId : Int))
    else if 0 < compare then some (-1)
    else semiSeek (map.compareAt partKeyValue) topClosed 0 maxPartId
  some (hit, if 0 ≤ hit then map.oidAt hit.toNat else invalidOid)

def valueCmpLowBoudary (partition : RangeElement V) :
    Option Int := do
  let lowBoundary ← map.calcLowBoundary (partition.boundary.headD none)
  map.partitionKeyCompareForRouting 0 partKeyValue [some lowBoundary] 0

def valueSatisfyLowBoudary (partition : RangeElement V) (topClosed : Bool) : Option Bool := do
  let compare ← map.valueCmpLowBoudary partKeyValue partition
  some (decide (0 < compare) || (compare == 0 && topClosed))

def partitionRoutingForValue (keyValue : List (Option (Const V))) (topClosed : Bool) :
    Option PartitionIdentifier := do
  let (partSeq, partitionId) ← map.getRangePartitionOid keyValue topClosed
  if partSeq < 0 then some ⟨map.partArea, partitionId, false, partSeq⟩
  else
    match map.rangeElements[partSeq.toNat]? with
    | none => none
    | some element =>
      let satisfied ← if element.isInterval then
        map.valueSatisfyLowBoudary keyValue element topClosed else some true
      if satisfied then some ⟨map.partArea, partitionId, true, partSeq⟩
      else some ⟨map.partArea, invalidOid, false, -1⟩

/-- What the comparison of a column's type is relied on for: a total order, in which different
values may be equal. -/
structure ConstOrder (constCompare : Nat → V → V → Int) : Prop where
  flip : ∀ column first second, constCompare column first second ≤ 0 ↔ 0 ≤ constCompare column second first
  trans : ∀ column first second third, constCompare column first second ≤ 0 →
    constCompare column second third ≤ 0 → constCompare column first third ≤ 0

/-- Null pointers, nulls, values and `MAXVALUE` lie apart. -/
def rank : Option (Const V) → Nat
  | none => 0
  | some const =>
    if const.ismaxvalue then 4
    else if const.constisnull then if map.checkPluginNullsPolicy then 1 else 3
    else 2

theorem compareColumn_cases {column : Nat} {first second : Option (Const V)} {compare : Int}
    (compared : map.compareColumn column first second = some compare) :
    map.rank first < map.rank second ∧ compare < 0 ∨ map.rank second < map.rank first ∧ 0 < compare ∨
      map.rank first = 4 ∧ map.rank second = 4 ∧ compare = 0 ∨
      map.rank first = 2 ∧ map.rank second = 2 ∧ ∃ left right, first = some left ∧
        second = some right ∧ compare = map.constCompare column left.constvalue right.constvalue := by
  rcases first with _ | ⟨leftMax, leftNull, left⟩ <;> rcases second with _ | ⟨rightMax, rightNull, right⟩
  · cases compared
  · obtain rfl := Option.some.inj compared
    cases rightMax <;> cases rightNull <;> cases policy : map.checkPluginNullsPolicy <;> simp [rank, policy]
  · obtain rfl := Option.some.inj compared
    cases leftMax <;> cases leftNull <;> cases policy : map.checkPluginNullsPolicy <;> simp [rank, policy]
  · cases leftMax <;> cases rightMax <;> cases leftNull <;> cases rightNull <;>
      cases policy : map.checkPluginNullsPolicy <;>
      simp_all [compareColumn, rank] <;> omega

variable {map}

theorem ConstOrder.chain {constCompare : Nat → V → V → Int} (order : ConstOrder constCompare)
    (column : Nat) (first second third : V) (below : constCompare column first second ≤ 0)
    (above : constCompare column second third ≤ 0) :
    (constCompare column first second = 0 ∧ constCompare column second third = 0 →
        constCompare column first third = 0) ∧
      (constCompare column first second < 0 ∨ constCompare column second third < 0 →
        constCompare column first third < 0) := by
  have forward := order.trans column first second third below above
  have whole := order.trans column third second first
  have left := order.trans column second third first
  have right := order.trans column third first second
  have flipLeft := order.flip column second first
  have flipRight := order.flip column third second
  have flipWhole := order.flip column third first
  omega

/-- Two comparisons in a row give the third: below the first of them, or equal where both are. -/
theorem compareColumn_trans (order : ConstOrder map.constCompare) {column : Nat}
    {first second third : Option (Const V)} {left right whole : Int}
    (leftCompared : map.compareColumn column first second = some left)
    (rightCompared : map.compareColumn column second third = some right)
    (wholeCompared : map.compareColumn column first third = some whole)
    (below : left ≤ 0) (above : right ≤ 0) :
    (left = 0 ∧ right = 0 → whole = 0) ∧ (left < 0 ∨ right < 0 → whole < 0) := by
  rcases map.compareColumn_cases leftCompared with
    one | one | one | ⟨firstRank, secondRank, a, b, rfl, rfl, rfl⟩ <;>
  rcases map.compareColumn_cases rightCompared with
    two | two | two | ⟨middleRank, thirdRank, middle, c, same, rfl, rfl⟩ <;>
  rcases map.compareColumn_cases wholeCompared with
    three | three | three | ⟨wholeRank, lastRank, start, last, sameStart, sameLast, rfl⟩ <;>
  try omega
  obtain rfl := Option.some.inj same
  obtain rfl := Option.some.inj sameStart
  obtain rfl := Option.some.inj sameLast
  exact order.chain column _ _ _ below above

theorem partitionKeyCompareForRouting_trans (order : ConstOrder map.constCompare)
    {first second third : List (Option (Const V))} (same : first.length = second.length)
    (also : second.length = third.length) {column : Nat} {x y z left right whole : Int}
    (leftCompared : map.partitionKeyCompareForRouting column first second x = some left)
    (rightCompared : map.partitionKeyCompareForRouting column second third y = some right)
    (wholeCompared : map.partitionKeyCompareForRouting column first third z = some whole)
    (start : x = 0 ∧ y = 0 ∧ z = 0) (below : left ≤ 0) (above : right < 0) : whole < 0 := by
  induction first generalizing second third column x y z with
  | nil =>
    obtain rfl := List.eq_nil_of_length_eq_zero same.symm
    simp only [partitionKeyCompareForRouting, Option.some.injEq] at rightCompared
    omega
  | cons a first ih =>
    obtain ⟨b, second, rfl⟩ := List.exists_cons_of_length_eq_add_one same.symm
    obtain ⟨c, third, rfl⟩ := List.exists_cons_of_length_eq_add_one also.symm
    simp only [partitionKeyCompareForRouting] at leftCompared rightCompared wholeCompared
    cases ab : map.compareColumn column a b with
    | none => simp [ab] at leftCompared
    | some p =>
    cases bc : map.compareColumn column b c with
    | none => simp [bc] at rightCompared
    | some q =>
    cases ac : map.compareColumn column a c with
    | none => simp [ac] at wholeCompared
    | some r =>
    simp only [ab, bc, ac] at leftCompared rightCompared wholeCompared
    have small : p ≤ 0 := by
      split at leftCompared
      · omega
      · obtain rfl := Option.some.inj leftCompared
        exact below
    have little : q ≤ 0 := by
      split at rightCompared
      · omega
      · obtain rfl := Option.some.inj rightCompared
        exact above.le
    obtain ⟨equal, less⟩ := compareColumn_trans order ab bc ac small little
    by_cases tied : p = 0 ∧ q = 0
    · have absent := equal tied
      rw [if_pos tied.1] at leftCompared
      rw [if_pos tied.2] at rightCompared
      rw [if_pos absent] at wholeCompared
      exact ih (Nat.succ.inj same) (Nat.succ.inj also) leftCompared rightCompared wholeCompared
        ⟨tied.1, tied.2, absent⟩
    · have apart : r < 0 := less (by omega)
      rw [if_neg (by omega)] at wholeCompared
      obtain rfl := Option.some.inj wholeCompared
      exact apart

/-- The boundaries have one entry a column and are strictly increasing. -/
structure Increasing (map : RangePartitionMap V) (keyNums : Nat) : Prop where
  columns : ∀ place < map.rangeElements.length, (map.boundaryAt place).length = keyNums
  increasing : ∀ place, place + 1 < map.rangeElements.length → ∃ compare,
    map.partitionKeyCompareForRouting 0 (map.boundaryAt place) (map.boundaryAt (place + 1)) 0 =
      some compare ∧ compare < 0

/-- The key can be compared with every boundary and with the low boundary of every interval. -/
structure Comparable (map : RangePartitionMap V) (keyNums : Nat)
    (keyValue : List (Option (Const V))) : Prop where
  columns : keyValue.length = keyNums
  boundary : ∀ place < map.rangeElements.length, ∃ compare, map.compareAt keyValue place = some compare
  lowBoundary : ∀ element ∈ map.rangeElements, element.isInterval = true → ∃ compare,
    map.valueCmpLowBoudary keyValue element = some compare

/-- The boundary is above the key or, when the top is not closed, not below it. -/
def Under (map : RangePartitionMap V) (keyValue : List (Option (Const V))) (topClosed : Bool)
    (place : Nat) : Prop :=
  ∃ compare, map.compareAt keyValue place = some compare ∧ if topClosed then compare < 0 else compare ≤ 0

def FirstUnder (map : RangePartitionMap V) (keyValue : List (Option (Const V))) (topClosed : Bool)
    (partSeq : Int) : Prop :=
  (∃ place < map.rangeElements.length, partSeq = place ∧ map.Under keyValue topClosed place ∧
      ∀ before < place, ¬ map.Under keyValue topClosed before) ∨
    partSeq = -1 ∧ ∀ place < map.rangeElements.length, ¬ map.Under keyValue topClosed place

section Search

variable {keyNums : Nat} {keyValue : List (Option (Const V))} {topClosed : Bool}
  (order : ConstOrder map.constCompare) (increasing : map.Increasing keyNums)
  (comparable : map.Comparable keyNums keyValue)

include order increasing comparable

/-- Below a boundary means below all later ones. -/
theorem compareAt_mono {place later : Nat} (after : place < later)
    (inside : later < map.rangeElements.length) {compare next : Int}
    (here : map.compareAt keyValue place = some compare)
    (there : map.compareAt keyValue later = some next) (below : compare ≤ 0) : next < 0 := by
  induction later, after using Nat.le_induction generalizing next with
  | base =>
    obtain ⟨between, compared, less⟩ := increasing.increasing place inside
    have columns := increasing.columns place (by omega)
    exact partitionKeyCompareForRouting_trans order (comparable.columns.trans columns.symm)
      (columns.trans (increasing.columns (place + 1) inside).symm) here compared there
      ⟨rfl, rfl, rfl⟩ below less
  | succ later after ih =>
    obtain ⟨middle, compared⟩ := comparable.boundary later (by omega)
    have small := ih (by omega) compared
    obtain ⟨between, step, less⟩ := increasing.increasing later inside
    have columns := increasing.columns later (by omega)
    exact partitionKeyCompareForRouting_trans order (comparable.columns.trans columns.symm)
      (columns.trans (increasing.columns (later + 1) inside).symm) compared step there
      ⟨rfl, rfl, rfl⟩ small.le less

theorem Under.later {place later : Nat} (under : map.Under keyValue topClosed place)
    (after : place ≤ later) (inside : later < map.rangeElements.length) :
    map.Under keyValue topClosed later := by
  rcases Nat.eq_or_lt_of_le after with rfl | after
  · exact under
  · obtain ⟨compare, here, below⟩ := under
    obtain ⟨next, there⟩ := comparable.boundary later inside
    have less := compareAt_mono order increasing comparable after inside here there
      (by split at below <;> omega)
    refine ⟨next, there, ?_⟩
    split <;> omega

theorem not_under_of_not_under {place before : Nat} (above : ¬ map.Under keyValue topClosed place)
    (le : before ≤ place) (inside : place < map.rangeElements.length) :
    ¬ map.Under keyValue topClosed before := by
  intro under
  exact above (under.later order increasing comparable le inside)

/-- Where the key is equal to a boundary, the boundary or the next one is the first above it. -/
theorem firstUnder_of_equal (topClosed : Bool) {place : Nat} (inside : place < map.rangeElements.length)
    (equal : map.compareAt keyValue place = some 0) :
    (topClosed = true → ∀ before ≤ place, ¬ map.Under keyValue topClosed before) ∧
      (topClosed = false → map.Under keyValue topClosed place ∧
        ∀ before < place, ¬ map.Under keyValue topClosed before) := by
  constructor
  · rintro rfl before le
    refine not_under_of_not_under order increasing comparable ?_ le inside
    rintro ⟨compare, compared, below⟩
    rw [equal] at compared
    obtain rfl := Option.some.inj compared
    simp at below
  · rintro rfl
    refine ⟨⟨0, equal, by simp⟩, ?_⟩
    rintro before less ⟨compare, compared, below⟩
    have next := compareAt_mono order increasing comparable less inside compared equal (by simpa using below)
    exact absurd next (lt_irrefl 0)

theorem semiSeek_spec {minPartId maxPartId : Nat} (le : minPartId ≤ maxPartId)
    (inside : maxPartId < map.rangeElements.length) (under : map.Under keyValue topClosed maxPartId)
    (before : ∀ place < minPartId, ¬ map.Under keyValue topClosed place) :
    ∃ place ≤ maxPartId, semiSeek (map.compareAt keyValue) topClosed minPartId maxPartId =
        some (place : Int) ∧ map.Under keyValue topClosed place ∧
      ∀ before < place, ¬ map.Under keyValue topClosed before := by
  induction hyp : maxPartId - minPartId using Nat.strong_induction_on generalizing minPartId maxPartId with
  | _ width ih =>
    rw [semiSeek]
    by_cases apart : minPartId < maxPartId
    · obtain ⟨compare, compared⟩ :=
        comparable.boundary ((maxPartId + minPartId) / 2) (by omega)
      have middle : (maxPartId + minPartId) / 2 < maxPartId := by omega
      simp only [if_pos apart, compared]
      by_cases equal : compare = 0
      · subst equal
        obtain ⟨closed, opened⟩ :=
          firstUnder_of_equal order increasing comparable topClosed (middle.trans inside) compared
        rw [if_pos rfl]
        cases topClosed with
        | true =>
          refine ⟨(maxPartId + minPartId) / 2 + 1, middle, rfl, ?_, ?_⟩
          · obtain ⟨next, there⟩ :=
              comparable.boundary ((maxPartId + minPartId) / 2 + 1) (by omega)
            have less := compareAt_mono order increasing comparable (Nat.lt_succ_self _)
              (by omega) compared there le_rfl
            exact ⟨next, there, less⟩
          · intro place less
            exact closed rfl place (Nat.le_of_lt_succ less)
        | false => exact ⟨_, middle.le, rfl, (opened rfl).1, (opened rfl).2⟩
      · rw [if_neg equal]
        by_cases above : 0 < compare
        · rw [if_pos above]
          have beyond : ¬ map.Under keyValue topClosed ((maxPartId + minPartId) / 2) := by
            rintro ⟨next, same, below⟩
            rw [compared] at same
            obtain rfl := Option.some.inj same
            split at below <;> omega
          refine ih _ ?_ (by omega) inside under ?_ rfl
          · omega
          · intro place less
            exact not_under_of_not_under order increasing comparable beyond
              (Nat.le_of_lt_succ less) (middle.trans inside)
        · rw [if_neg above]
          have here : map.Under keyValue topClosed ((maxPartId + minPartId) / 2) := by
            refine ⟨compare, compared, ?_⟩
            split <;> omega
          obtain ⟨place, bound, found⟩ :=
            ih _ (by omega) (by omega) (middle.trans inside) here before rfl
          exact ⟨place, bound.trans middle.le, found⟩
    · obtain rfl : minPartId = maxPartId := by omega
      exact ⟨minPartId, le_rfl, by simp, under, before⟩

theorem getRangePartitionOid_spec (topClosed : Bool) :
    ∃ partSeq, map.getRangePartitionOid keyValue topClosed =
        some (partSeq, if 0 ≤ partSeq then map.oidAt partSeq.toNat else invalidOid) ∧
      map.FirstUnder keyValue topClosed partSeq := by
  have positive := List.length_pos_iff.mpr map.nonempty
  obtain ⟨compare, compared⟩ := comparable.boundary (map.rangeElements.length - 1) (by omega)
  have last : map.rangeElements.length - 1 < map.rangeElements.length := by omega
  simp only [getRangePartitionOid, compared, Option.bind_eq_bind, Option.bind_some]
  by_cases equal : compare = 0
  · subst equal
    obtain ⟨closed, opened⟩ :=
      firstUnder_of_equal order increasing comparable topClosed last compared
    rw [if_pos rfl]
    cases topClosed with
    | true =>
      exact ⟨-1, rfl, Or.inr ⟨rfl, fun place inside => closed rfl place (by omega)⟩⟩
    | false => exact ⟨_, rfl, Or.inl ⟨_, last, rfl, (opened rfl).1, (opened rfl).2⟩⟩
  · rw [if_neg equal]
    by_cases above : 0 < compare
    · rw [if_pos above]
      refine ⟨-1, rfl, Or.inr ⟨rfl, fun place inside => ?_⟩⟩
      refine not_under_of_not_under order increasing comparable ?_ (by omega) last
      rintro ⟨next, same, below⟩
      rw [compared] at same
      obtain rfl := Option.some.inj same
      split at below <;> omega
    · rw [if_neg above]
      have under : map.Under keyValue topClosed (map.rangeElements.length - 1) := by
        refine ⟨compare, compared, ?_⟩
        split <;> omega
      obtain ⟨place, bound, found, here, before⟩ := semiSeek_spec order increasing comparable
        (Nat.zero_le _) last under (fun place less => absurd less (Nat.not_lt_zero place))
      rw [found]
      exact ⟨place, rfl, Or.inl ⟨place, by omega, rfl, here, before⟩⟩

end Search

/-- The range of a partition goes from the boundary before it, or from the low boundary of an
interval when that is higher, to its own boundary. -/
structure Contains (map : RangePartitionMap V) (keyValue : List (Option (Const V)))
    (topClosed : Bool) (place : Nat) : Prop where
  under : map.Under keyValue topClosed place
  before : ∀ previous, previous + 1 = place → ¬ map.Under keyValue topClosed previous
  low : ∃ element, map.rangeElements[place]? = some element ∧ (element.isInterval = true →
    ∃ compare, map.valueCmpLowBoudary keyValue element = some compare ∧
      (0 < compare ∨ compare = 0 ∧ topClosed = true))

/-- The partition that a key is routed to is the only one that contains it. -/
def Routed (map : RangePartitionMap V) (keyValue : List (Option (Const V))) (topClosed : Bool)
    (identifier : PartitionIdentifier) : Prop :=
  (∃ place : Nat, identifier = ⟨map.partArea, map.oidAt place, true, place⟩ ∧
      ∀ other, map.Contains keyValue topClosed other ↔ other = place) ∨
    identifier = ⟨map.partArea, invalidOid, false, -1⟩ ∧ ∀ other, ¬ map.Contains keyValue topClosed other

theorem partitionRoutingForValue_spec {keyNums : Nat} {keyValue : List (Option (Const V))}
    {topClosed : Bool} (order : ConstOrder map.constCompare) (increasing : map.Increasing keyNums)
    (comparable : map.Comparable keyNums keyValue) :
    (∃ partSeq, map.getRangePartitionOid keyValue topClosed =
        some (partSeq, if 0 ≤ partSeq then map.oidAt partSeq.toNat else invalidOid) ∧
      map.FirstUnder keyValue topClosed partSeq) ∧
    ∃ identifier, map.partitionRoutingForValue keyValue topClosed = some identifier ∧
      map.Routed keyValue topClosed identifier := by
  have search := getRangePartitionOid_spec order increasing comparable topClosed
  refine ⟨search, ?_⟩
  obtain ⟨partSeq, routed, first⟩ := search
  rw [partitionRoutingForValue, routed, Option.bind_eq_bind, Option.bind_some]
  rcases first with ⟨place, inside, rfl, under, before⟩ | ⟨rfl, absent⟩
  · have nonnegative : ¬ (place : Int) < 0 := by omega
    have element := List.getElem?_eq_getElem inside
    -- Every partition that contains the key is the one found: its boundary is the first above.
    have only : ∀ other, map.Contains keyValue topClosed other → other = place := by
      intro other contains
      obtain ⟨found, present, -⟩ := contains.low
      have bound := (List.getElem?_eq_some_iff.mp present).1
      rcases Nat.lt_trichotomy other place with less | same | greater
      · exact absurd contains.under (before other less)
      · exact same
      · refine absurd ?_ (contains.before (other - 1) (by omega))
        exact under.later order increasing comparable (by omega) (by omega)
    have ends : ∀ previous, previous + 1 = place → ¬ map.Under keyValue topClosed previous :=
      fun previous next => before previous (by omega)
    simp only [if_neg nonnegative, Int.toNat_natCast, element]
    by_cases interval : (map.rangeElements[place]).isInterval = true
    · obtain ⟨compare, compared⟩ :=
        comparable.lowBoundary _ (List.getElem_mem inside) interval
      by_cases low : 0 < compare ∨ compare = 0 ∧ topClosed = true
      · refine ⟨⟨map.partArea, map.oidAt place, true, place⟩, ?_, Or.inl ⟨place, rfl, ?_⟩⟩
        · have satisfied : (decide (0 < compare) || (compare == 0 && topClosed)) = true := by
            simpa using low
          simp [interval, valueSatisfyLowBoudary, compared, satisfied]
        · intro other
          refine ⟨only other, ?_⟩
          rintro rfl
          exact ⟨under, ends, _, element, fun _ => ⟨compare, compared, low⟩⟩
      · refine ⟨⟨map.partArea, invalidOid, false, -1⟩, ?_, Or.inr ⟨rfl, ?_⟩⟩
        · have unsatisfied : (decide (0 < compare) || (compare == 0 && topClosed)) = false := by
            simpa using low
          simp [interval, valueSatisfyLowBoudary, compared, unsatisfied]
        · intro other contains
          obtain rfl := only other contains
          obtain ⟨found, present, satisfied⟩ := contains.low
          rw [element] at present
          obtain rfl := Option.some.inj present
          obtain ⟨again, same, above⟩ := satisfied interval
          rw [compared] at same
          obtain rfl := Option.some.inj same
          exact low above
    · refine ⟨⟨map.partArea, map.oidAt place, true, place⟩, ?_, Or.inl ⟨place, rfl, ?_⟩⟩
      · simp [interval]
      · intro other
        refine ⟨only other, ?_⟩
        rintro rfl
        exact ⟨under, ends, _, element, fun holds => absurd holds interval⟩
  · refine ⟨⟨map.partArea, invalidOid, false, -1⟩, by simp, Or.inr ⟨rfl, ?_⟩⟩
    intro other contains
    obtain ⟨found, present, -⟩ := contains.low
    exact absent other (List.getElem?_eq_some_iff.mp present).1 contains.under

/-- Two range partitions below 10 and 20, and an interval of 10 below 40. -/
def quarters : RangePartitionMap Int where
  rangeElements :=
    [⟨16401, [some ⟨false, false, 10⟩], false⟩, ⟨16402, [some ⟨false, false, 20⟩], false⟩,
      ⟨16403, [some ⟨false, false, 40⟩], true⟩]
  nonempty := by simp
  partArea := .interval
  checkPluginNullsPolicy := false
  constCompare := fun _ first second => first - second
  calcLowBoundary := fun boundary => boundary.map fun const =>
    { const with constvalue := const.constvalue - 10 }

theorem partitionRoutingForValue_quarters :
    (∃ partSeq, quarters.getRangePartitionOid [some ⟨false, false, 30⟩] true =
        some (partSeq, if 0 ≤ partSeq then quarters.oidAt partSeq.toNat else invalidOid) ∧
      quarters.FirstUnder [some ⟨false, false, 30⟩] true partSeq) ∧
    ∃ identifier, quarters.partitionRoutingForValue [some ⟨false, false, 30⟩] true =
      some identifier ∧ quarters.Routed [some ⟨false, false, 30⟩] true identifier := by
  refine @partitionRoutingForValue_spec _ quarters 1 _ _ ⟨?_, ?_⟩ ⟨?_, ?_⟩ ⟨rfl, ?_, ?_⟩
  · intro column first second
    change first - second ≤ 0 ↔ 0 ≤ second - first
    omega
  · intro column first second third
    change first - second ≤ 0 → second - third ≤ 0 → first - third ≤ 0
    omega
  · decide
  · intro place inside
    have small : place < 2 := Nat.lt_of_succ_lt_succ inside
    interval_cases place
    · exact ⟨-10, rfl, by decide⟩
    · exact ⟨-20, rfl, by decide⟩
  · intro place inside
    have small : place < 3 := inside
    interval_cases place
    · exact ⟨20, rfl⟩
    · exact ⟨10, rfl⟩
    · exact ⟨-10, rfl⟩
  · intro element member interval
    obtain rfl : element = ⟨16403, [some ⟨false, false, 40⟩], true⟩ := by
      simp only [quarters, List.mem_cons, List.not_mem_nil, or_false] at member
      rcases member with rfl | rfl | rfl
      · cases interval
      · cases interval
      · rfl
    exact ⟨0, rfl⟩

end RangePartitionMap

end OpenGauss.Partition
