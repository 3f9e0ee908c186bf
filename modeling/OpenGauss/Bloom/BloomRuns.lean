import OpenGauss.Bloom.BloomFilter

namespace OpenGauss.Bloom

open Lib

section Filters

variable {Value : Type} (valueType : ValueType Value)

/-- `compareValue` orders these values, and they are kept on the way through a datum. -/
structure ValueType.Ordered (values : List Value) : Prop where
  flip : ∀ {left right}, left ∈ values → right ∈ values →
    (valueType.compareValue left right < 0 ↔ 0 < valueType.compareValue right left)
  trans : ∀ {first second third}, first ∈ values → second ∈ values → third ∈ values →
    valueType.compareValue first second ≤ 0 → valueType.compareValue second third ≤ 0 →
    valueType.compareValue first third ≤ 0
  throughDatum : ∀ {value}, value ∈ values → valueType.throughDatum value = value

/-- The bits of a value in a filter of these sizes. -/
def bitsOf (filter : BloomFilterImpl Value) (value : Value) (bit : Nat) : Prop :=
  ∃ j < filter.numHashFunctions, bit = bitPosition filter.numBits (valueType.hash64 value) (j + 1)

/-- The filter after the values `own` were added to it and, through unions, those of `added`. -/
structure Reflects (filter : BloomFilterImpl Value) (own added : List Value) : Prop where
  sized : 64 * filter.data.length = filter.numBits
  positive : 0 < filter.numBits
  bits : ∀ bit, getBit filter.data bit = true ↔ ∃ value ∈ added, bitsOf valueType filter value bit
  counted : filter.numValues = own.length
  startup : 0 < filter.startupEntries
  room : own.length ≤ filter.startupEntries
  positions : ∀ i (inside : i < own.length), ∀ j < filter.numHashFunctions,
    filter.valuePositions (maxHashFunctions * i + j) =
      bitPosition filter.numBits (valueType.hash64 own[i]) (j + 1) % 2 ^ 16
  kept : ∀ value ∈ own, value ∈ added
  hasMM : filter.hasMM = true ↔ filter.addMinMax = true ∧ own ≠ []
  alone : filter.addMinMax = true → ∀ value, own = [value] → filter.minValue = value
  members : filter.hasMM = true → filter.minValue ∈ own ∧ filter.maxValue ∈ own
  bounds : valueType.Ordered own → filter.hasMM = true → ∀ value ∈ own,
    valueType.compareValue filter.minValue value ≤ 0 ∧ valueType.compareValue value filter.maxValue ≤ 0

section Ordered

variable {valueType} {values : List Value} {left right : Value} (ordered : valueType.Ordered values)
include ordered

theorem ValueType.Ordered.mono {part : List Value} (inside : ∀ {value}, value ∈ part → value ∈ values) :
    valueType.Ordered part where
  flip left right := ordered.flip (inside left) (inside right)
  trans first second third := ordered.trans (inside first) (inside second) (inside third)
  throughDatum member := ordered.throughDatum (inside member)

theorem ValueType.Ordered.refl (known : left ∈ values) : valueType.compareValue left left ≤ 0 := by
  by_contra greater
  have less := (ordered.flip known known).mpr (not_le.mp greater)
  omega

theorem ValueType.Ordered.le_of_not_lt (known : left ∈ values) (other : right ∈ values)
    (notLess : ¬ valueType.compareValue left right < 0) : valueType.compareValue right left ≤ 0 :=
  not_lt.mp fun greater => notLess ((ordered.flip known other).mpr greater)

theorem ValueType.Ordered.le_of_lt (known : left ∈ values) (other : right ∈ values)
    (greater : 0 < valueType.compareValue left right) : valueType.compareValue right left ≤ 0 :=
  ((ordered.flip other known).mpr greater).le

end Ordered

theorem reflects_create {expectedEntries nb rounded : Nat} {addMinMax : Bool}
    {filter : BloomFilterImpl Value}
    (created : BloomFilterImpl.create valueType expectedEntries nb rounded addMinMax = some filter) :
    Reflects valueType filter [] [] := by
  unfold BloomFilterImpl.create at created
  split at created
  · exact absurd created (by simp)
  · rename_i admitted
    obtain rfl := Option.some.inj created
    have size : 64 * (sizeInBits nb / 64) = sizeInBits nb ∧ 0 < sizeInBits nb := by
      unfold sizeInBits
      omega
    have entries : 0 < expectedEntries := by
      by_contra absent
      exact admitted (Or.inl (Nat.eq_zero_of_not_pos absent))
    refine ⟨?_, size.2, ?_, rfl, ?_, Nat.zero_le _, nofun, nofun, ?_, nofun, nofun, nofun⟩
    · rw [List.length_replicate, size.1]
    · intro bit
      rw [getBit_zeros]
      simp
    · exact Nat.lt_min.mpr ⟨entries, by decide⟩
    · simp

section Add

variable {valueType} {filter : BloomFilterImpl Value} {own added : List Value}

theorem bitPosition_lt {numBits : Nat} (positive : 0 < numBits) (hash64 : BitVec 64) (i : Nat) :
    bitPosition numBits hash64 i < numBits :=
  Nat.mod_lt _ positive

/-- The loop of `addHash` changes the bits and the positions of one entry. -/
theorem addPositions_spec (sized : 64 * filter.data.length = filter.numBits)
    (positive : 0 < filter.numBits) (hash64 : BitVec 64) (count : Nat) :
    ∃ data positions, (List.range count).foldl (addPosition hash64) filter =
        { filter with data := data, valuePositions := positions } ∧
      data.length = filter.data.length ∧
      (∀ bit, getBit data bit = true ↔ getBit filter.data bit = true ∨
        ∃ j < count, bit = bitPosition filter.numBits hash64 (j + 1)) ∧
      ∀ place, positions place = if maxHashFunctions * filter.numValues ≤ place ∧
            place < maxHashFunctions * filter.numValues + count then
          bitPosition filter.numBits hash64 (place - maxHashFunctions * filter.numValues + 1) % 2 ^ 16
        else filter.valuePositions place := by
  induction count with
  | zero =>
    refine ⟨filter.data, filter.valuePositions, rfl, rfl, fun bit => by simp, fun place => ?_⟩
    rw [if_neg (by omega)]
  | succ count ih =>
    obtain ⟨data, positions, same, length, bits, stored⟩ := ih
    rw [List.range_succ, List.foldl_append, same]
    refine ⟨_, _, rfl, ?_, fun bit => ?_, fun place => ?_⟩
    · rw [length_setBit, length]
    · rw [getBit_setBit (by rw [length, sized]; exact bitPosition_lt positive hash64 _), Bool.or_eq_true,
        bits, beq_iff_eq, or_assoc]
      refine or_congr_right ⟨?_, ?_⟩
      · rintro (⟨j, small, here⟩ | here)
        · exact ⟨j, by omega, here⟩
        · exact ⟨count, by omega, here⟩
      · rintro ⟨j, small, here⟩
        rcases Nat.lt_succ_iff_lt_or_eq.mp small with less | rfl
        · exact Or.inl ⟨j, less, here⟩
        · exact Or.inr here
    · by_cases last : place = maxHashFunctions * filter.numValues + count
      · subst last
        rw [Function.update_self, if_pos (by omega), Nat.add_sub_cancel_left]
      · dsimp only
        rw [Function.update_of_ne last, stored]
        congr 1
        rw [eq_iff_iff]
        omega

theorem bitsOf_congr {other : BloomFilterImpl Value} (numBits : other.numBits = filter.numBits)
    (count : other.numHashFunctions = filter.numHashFunctions) (value : Value) (bit : Nat) :
    bitsOf valueType other value bit ↔ bitsOf valueType filter value bit := by
  unfold bitsOf
  rw [numBits, count]

section

variable (reflects : Reflects valueType filter own added)
include reflects

theorem setMinMax_spec (addMinMax : filter.addMinMax = true) (val : Value) :
    ∃ low high, setMinMax valueType filter val =
        { filter with minValue := low, maxValue := high, hasMM := true } ∧
      (own = [] → low = val) ∧ low ∈ own ++ [val] ∧ high ∈ own ++ [val] ∧
      (valueType.Ordered (own ++ [val]) → ∀ value ∈ own ++ [val],
        valueType.compareValue low value ≤ 0 ∧ valueType.compareValue value high ≤ 0) := by
  have known := reflects.hasMM
  have inside := reflects.members
  have within := reflects.bounds
  have last : val ∈ own ++ [val] := by simp
  have earlier {value : Value} (member : value ∈ own) : value ∈ own ++ [val] :=
    List.mem_append_left _ member
  unfold setMinMax
  by_cases first : filter.hasMM = false
  · rw [if_pos first]
    have empty : own = [] := by
      by_contra present
      rw [first] at known
      exact absurd (known.mpr ⟨addMinMax, present⟩) (by decide)
    subst empty
    refine ⟨val, val, rfl, fun _ => rfl, last, last, fun ordered value member => ?_⟩
    rw [List.nil_append, List.mem_singleton] at member
    rw [member]
    exact ⟨ordered.refl last, ordered.refl last⟩
  · rw [if_neg first]
    have hasMM : filter.hasMM = true := by simpa using first
    have filled : own ≠ [] := (known.mp hasMM).2
    obtain ⟨lowKnown, highKnown⟩ := inside hasMM
    by_cases lower : valueType.compareValue val filter.minValue < 0
    · rw [if_pos lower]
      refine ⟨val, filter.maxValue, by rw [hasMM], fun absent => absurd absent filled, last,
        earlier highKnown, fun ordered value member => ?_⟩
      rcases List.mem_append.mp member with old | new
      · obtain ⟨above, below⟩ := within (ordered.mono earlier) hasMM value old
        exact ⟨ordered.trans last (earlier lowKnown) member lower.le above, below⟩
      · rw [List.mem_singleton.mp new]
        exact ⟨ordered.refl last, ordered.trans last (earlier lowKnown) (earlier highKnown) lower.le
          (within (ordered.mono earlier) hasMM _ lowKnown).2⟩
    · rw [if_neg lower]
      by_cases higher : 0 < valueType.compareValue val filter.maxValue
      · rw [if_pos higher]
        refine ⟨filter.minValue, val, by rw [hasMM], fun absent => absurd absent filled,
          earlier lowKnown, last, fun ordered value member => ?_⟩
        have above := ordered.le_of_lt last (earlier highKnown) higher
        rcases List.mem_append.mp member with old | new
        · obtain ⟨low, high⟩ := within (ordered.mono earlier) hasMM value old
          exact ⟨low, ordered.trans member (earlier highKnown) last high above⟩
        · rw [List.mem_singleton.mp new]
          exact ⟨ordered.le_of_not_lt last (earlier lowKnown) lower, ordered.refl last⟩
      · rw [if_neg higher]
        refine ⟨filter.minValue, filter.maxValue, by rw [← hasMM], fun absent => absurd absent filled,
          earlier lowKnown, earlier highKnown, fun ordered value member => ?_⟩
        rcases List.mem_append.mp member with old | new
        · exact within (ordered.mono earlier) hasMM value old
        · rw [List.mem_singleton.mp new]
          exact ⟨ordered.le_of_not_lt last (earlier lowKnown) lower, not_lt.mp higher⟩

/-- The filter in which the hash is added: only the bounds may have changed. -/
theorem widened_spec (val : Value) :
    ∃ low high hasMM, (if filter.addMinMax then setMinMax valueType filter val else filter) =
        { filter with minValue := low, maxValue := high, hasMM := hasMM } ∧
      (hasMM = true ↔ filter.addMinMax = true) ∧
      (filter.addMinMax = true → own = [] → low = val) ∧
      (hasMM = true → low ∈ own ++ [val] ∧ high ∈ own ++ [val]) ∧
      (valueType.Ordered (own ++ [val]) → hasMM = true → ∀ value ∈ own ++ [val],
        valueType.compareValue low value ≤ 0 ∧ valueType.compareValue value high ≤ 0) := by
  by_cases addMinMax : filter.addMinMax = true
  · rw [if_pos addMinMax]
    obtain ⟨low, high, same, first, lowKnown, highKnown, within⟩ :=
      setMinMax_spec reflects addMinMax val
    exact ⟨low, high, true, same, iff_of_true rfl addMinMax, fun _ => first,
      fun _ => ⟨lowKnown, highKnown⟩, fun ordered _ => within ordered⟩
  · rw [if_neg addMinMax]
    have absent : filter.hasMM ≠ true := fun hasMM => addMinMax (reflects.hasMM.mp hasMM).1
    exact ⟨filter.minValue, filter.maxValue, filter.hasMM, rfl, iff_of_false absent addMinMax,
      fun added => absurd added addMinMax, fun hasMM => absurd hasMM absent,
      fun _ hasMM => absurd hasMM absent⟩

theorem reflects_addValue (few : filter.numHashFunctions ≤ maxHashFunctions) {val : Value}
    {result : BloomFilterImpl Value} (done : addValue valueType filter val = some result) :
    Reflects valueType result (own ++ [val]) (added ++ [val]) ∧
      result.numHashFunctions = filter.numHashFunctions := by
  obtain ⟨low, high, hasMM, widened, minMax, first, members, within⟩ := widened_spec reflects val
  unfold addValue at done
  rw [widened] at done
  unfold addHash at done
  split at done
  · exact absurd done (by simp)
  · rename_i vacant
    dsimp only at done vacant
    have counted := reflects.counted
    have room := reflects.room
    have startup := reflects.startup
    have larger : 0 < (if filter.startupEntries ≤ filter.numValues then
        min (filter.startupEntries * 2) filter.maxNumValues else filter.startupEntries) ∧
        own.length + 1 ≤ (if filter.startupEntries ≤ filter.numValues then
          min (filter.startupEntries * 2) filter.maxNumValues else filter.startupEntries) := by
      split <;> omega
    generalize (if filter.startupEntries ≤ filter.numValues then
      min (filter.startupEntries * 2) filter.maxNumValues else filter.startupEntries) = entries
      at done larger
    obtain ⟨data, positions, same, length, bits, stored⟩ := @addPositions_spec Value
      { filter with minValue := low, maxValue := high, hasMM := hasMM, startupEntries := entries }
      reflects.sized reflects.positive (valueType.hash64 val) filter.numHashFunctions
    rw [same] at done
    dsimp only at done length bits stored
    obtain rfl := Option.some.inj done
    refine ⟨⟨?_, reflects.positive, fun bit => ?_, ?_, larger.1, ?_, fun i inside j small => ?_,
      ?_, ?_, ?_, members, within⟩, rfl⟩
    · rw [length]
      exact reflects.sized
    · dsimp only
      rw [bits, reflects.bits]
      constructor
      · rintro (⟨value, member, here⟩ | ⟨j, small, here⟩)
        · exact ⟨value, List.mem_append_left _ member, here⟩
        · exact ⟨val, by simp, j, small, here⟩
      · rintro ⟨value, member, here⟩
        rcases List.mem_append.mp member with old | new
        · exact Or.inl ⟨value, old, here⟩
        · rw [List.mem_singleton.mp new] at here
          exact Or.inr here
    · rw [List.length_append, List.length_singleton, ← counted]
    · rw [List.length_append, List.length_singleton]
      exact larger.2
    · dsimp only at small ⊢
      rw [List.length_append, List.length_singleton] at inside
      rw [stored, counted]
      unfold maxHashFunctions at few ⊢
      rcases Nat.lt_succ_iff_lt_or_eq.mp inside with less | rfl
      · rw [if_neg (by omega), List.getElem_append_left less]
        exact reflects.positions i less j small
      · rw [if_pos (by omega), Nat.add_sub_cancel_left, List.getElem_concat_length rfl]
    · intro value member
      rcases List.mem_append.mp member with old | new
      · exact List.mem_append_left _ (reflects.kept value old)
      · exact List.mem_append_right _ new
    · simp [minMax]
    · intro addMinMax value single
      have empty : own = [] := by
        have length := congrArg List.length single
        rw [List.length_append, List.length_singleton, List.length_singleton] at length
        exact List.eq_nil_of_length_eq_zero (by omega)
      subst empty
      rw [List.nil_append, List.singleton_inj] at single
      exact (first addMinMax rfl).trans single

theorem reflects_unionAll {that result : BloomFilterImpl Value} {thatOwn others : List Value}
    (thatReflects : Reflects valueType that thatOwn others)
    (done : unionAll filter that = some result) :
    Reflects valueType result own (added ++ others) ∧ result.numHashFunctions = filter.numHashFunctions := by
  unfold unionAll at done
  split at done
  · rename_i compatible
    obtain ⟨numBits, count⟩ := compatible
    obtain rfl := Option.some.inj done
    have length : filter.data.length = that.data.length := by
      have sized := reflects.sized
      have thatSized := thatReflects.sized
      omega
    refine ⟨⟨?_, reflects.positive, fun bit => ?_, reflects.counted, reflects.startup, reflects.room,
      reflects.positions, fun value member => List.mem_append_left _ (reflects.kept value member),
      reflects.hasMM, reflects.alone, reflects.members, reflects.bounds⟩, rfl⟩
    · dsimp only
      rw [orWords, List.length_zipWith, ← length, Nat.min_self]
      exact reflects.sized
    · dsimp only
      rw [getBit_orWords length, Bool.or_eq_true, reflects.bits, thatReflects.bits]
      constructor
      · rintro (⟨value, member, here⟩ | ⟨value, member, here⟩)
        · exact ⟨value, List.mem_append_left _ member, here⟩
        · exact ⟨value, List.mem_append_right _ member, (bitsOf_congr numBits count value bit).mpr here⟩
      · rintro ⟨value, member, here⟩
        rcases List.mem_append.mp member with old | new
        · exact Or.inl ⟨value, old, here⟩
        · exact Or.inr ⟨value, new, (bitsOf_congr numBits.symm count.symm value bit).mpr here⟩
  · exact absurd done (by simp)

theorem reflects_rebuild (few : filter.numHashFunctions ≤ maxHashFunctions) :
    Reflects valueType (rebuildBloomFilterValue (makeBloomFilterSet filter)) own added := by
  refine ⟨reflects.sized, reflects.positive, reflects.bits, reflects.counted, reflects.startup,
    reflects.room, fun i inside j small => ?_, reflects.kept, reflects.hasMM, reflects.alone,
    reflects.members, reflects.bounds⟩
  have room := reflects.room
  have below : maxHashFunctions * i + j < maxHashFunctions * filter.startupEntries := by
    have count : j < filter.numHashFunctions := small
    unfold maxHashFunctions at few ⊢
    omega
  have stored : (rebuildBloomFilterValue (makeBloomFilterSet filter)).valuePositions
      (maxHashFunctions * i + j) = filter.valuePositions (maxHashFunctions * i + j) := by
    simp only [rebuildBloomFilterValue, makeBloomFilterSet, List.getD_eq_getElem?_getD,
      List.getElem?_map, List.getElem?_range below, Option.map_some, Option.getD_some]
  rw [stored]
  exact reflects.positions i inside j small

theorem includeHashInternal_of_mem {value : Value}
    (member : value ∈ added) : includeHashInternal filter (valueType.hash64 value) = true := by
  unfold includeHashInternal
  rw [List.all_eq_true]
  intro j inside
  rw [reflects.bits]
  exact ⟨value, member, j, List.mem_range.mp inside, rfl⟩

theorem includeValue_alone (addMinMax : filter.addMinMax = true) {alone : Value}
    (single : own = [alone]) (value : Value) :
    includeValue valueType filter value = valueType.sameValue value alone := by
  have counted : filter.numValues = 1 := by rw [reflects.counted, single, List.length_singleton]
  rw [includeValue, if_pos ⟨addMinMax, counted⟩, reflects.alone addMinMax alone single]

/-- All values are included unless there is a single one of the filter's own, kept as a bound, that
differs from a value of a union. -/
theorem includeValue_iff :
    (∀ value ∈ added, includeValue valueType filter value = true) ↔
      (filter.addMinMax = true → ∀ alone, own = [alone] →
        ∀ value ∈ added, valueType.sameValue value alone = true) := by
  constructor
  · intro included addMinMax alone single value member
    rw [← includeValue_alone reflects addMinMax single value]
    exact included value member
  · intro agree value member
    by_cases shortcut : filter.addMinMax = true ∧ filter.numValues = 1
    · obtain ⟨addMinMax, counted⟩ := shortcut
      obtain ⟨alone, single⟩ := List.length_eq_one_iff.mp (reflects.counted.symm.trans counted)
      rw [includeValue_alone reflects addMinMax single value]
      exact agree addMinMax alone single value member
    · rw [includeValue, if_neg shortcut]
      exact includeHashInternal_of_mem reflects member

end

/-- Some of these values is not greater, and some not less. -/
def Between (valueType : ValueType Value) (values : List Value) (value : Value) : Prop :=
  (∃ low ∈ values, valueType.compareValue low value ≤ 0) ∧
    ∃ high ∈ values, valueType.compareValue value high ≤ 0

section Two

variable {that : BloomFilterImpl Value} {thatOwn others : List Value}

/-- A value that the bounds do not hide: a single value lies within those of the other filter, several
values enclose those of the other filter. -/
def InBounds (valueType : ValueType Value) (own thatOwn : List Value) : Prop :=
  if own.length = 1 then ∀ value ∈ own, Between valueType thatOwn value
  else ∀ value ∈ thatOwn, Between valueType own value

theorem minMaxCheck_of_inBounds (reflects : Reflects valueType filter own added)
    (thatReflects : Reflects valueType that thatOwn others)
    (ordered : valueType.Ordered (own ++ thatOwn))
    (inBounds : filter.addMinMax = true → that.addMinMax = true → thatOwn ≠ [] →
      InBounds valueType own thatOwn) : minMaxCheck valueType filter that = true := by
  unfold minMaxCheck
  split
  · rfl
  · rename_i both
    rw [not_or, Bool.not_eq_false, Bool.not_eq_false] at both
    obtain ⟨hasMM, thatHasMM⟩ := both
    obtain ⟨addMinMax, -⟩ := reflects.hasMM.mp hasMM
    obtain ⟨thatAddMinMax, present⟩ := thatReflects.hasMM.mp thatHasMM
    have enclosed := inBounds addMinMax thatAddMinMax present
    obtain ⟨lowKnown, highKnown⟩ := reflects.members hasMM
    obtain ⟨thatLowKnown, thatHighKnown⟩ := thatReflects.members thatHasMM
    have mine {value : Value} (member : value ∈ own) := List.mem_append_left thatOwn member
    have theirs {value : Value} (member : value ∈ thatOwn) := List.mem_append_right own member
    have within := reflects.bounds (ordered.mono mine) hasMM
    have thatWithin := thatReflects.bounds (ordered.mono theirs) thatHasMM
    unfold InBounds at enclosed
    rw [ordered.throughDatum (theirs thatLowKnown), ordered.throughDatum (theirs thatHighKnown),
      reflects.counted]
    by_cases single : own.length = 1
    · rw [if_pos single] at enclosed ⊢
      obtain ⟨⟨low, lowMember, below⟩, -⟩ := enclosed _ lowKnown
      obtain ⟨-, high, highMember, above⟩ := enclosed _ highKnown
      have least := ordered.trans (theirs thatLowKnown) (theirs lowMember) (mine lowKnown)
        (thatWithin low lowMember).1 below
      have greatest := ordered.trans (mine highKnown) (theirs highMember) (theirs thatHighKnown) above
        (thatWithin high highMember).2
      rw [decide_eq_true_iff]
      refine ⟨not_lt.mp fun less => ?_, greatest⟩
      exact absurd ((ordered.flip (mine lowKnown) (theirs thatLowKnown)).mp less) (not_lt.mpr least)
    · rw [if_neg single] at enclosed ⊢
      obtain ⟨⟨low, lowMember, below⟩, -⟩ := enclosed _ thatLowKnown
      obtain ⟨-, high, highMember, above⟩ := enclosed _ thatHighKnown
      have least := ordered.trans (mine lowKnown) (mine lowMember) (theirs thatLowKnown)
        (within low lowMember).1 below
      have greatest := ordered.trans (theirs thatHighKnown) (mine highMember) (mine highKnown) above
        (within high highMember).2
      rw [decide_eq_true_iff, not_or, not_lt]
      refine ⟨least, fun less => ?_⟩
      exact absurd ((ordered.flip (mine highKnown) (theirs thatHighKnown)).mp less) (not_lt.mpr greatest)

/-- A value of the filter's own that the other one has as well, and that can be found there: its bits
fit in the stored positions, or it is the only value and no other ones came by a union. -/
structure Meets (valueType : ValueType Value) (filter that : BloomFilterImpl Value)
    (own added thatOwn others : List Value) : Prop where
  shared : ∃ value ∈ own, value ∈ others ∧
    (own.length = 1 ∨ ∀ bit, bitsOf valueType filter value bit → bit < 2 ^ 16)
  united : own.length = 1 → ∀ value ∈ added, value ∈ others
  inBounds : filter.addMinMax = true → that.addMinMax = true → thatOwn ≠ [] → InBounds valueType own thatOwn

theorem includedIn_of_meets (reflects : Reflects valueType filter own added)
    (thatReflects : Reflects valueType that thatOwn others)
    (ordered : valueType.Ordered (own ++ thatOwn))
    (meets : Meets valueType filter that own added thatOwn others) :
    includedIn valueType filter that = true := by
  unfold includedIn
  split
  · rename_i compatible
    obtain ⟨numBits, count⟩ := compatible
    have checked := minMaxCheck_of_inBounds reflects thatReflects ordered meets.inBounds
    rw [checked, if_neg (by decide)]
    obtain ⟨value, member, found, stored⟩ := meets.shared
    have nonzero : own.length ≠ 0 := fun absent => by
      rw [List.eq_nil_of_length_eq_zero absent] at member
      exact List.not_mem_nil member
    unfold includedInBits
    rw [reflects.counted, if_neg nonzero]
    by_cases single : own.length = 1
    · rw [if_pos single]
      apply wordsWithin_of_bits
      intro bit set
      obtain ⟨origin, originMember, here⟩ := (reflects.bits bit).mp set
      exact (thatReflects.bits bit).mpr ⟨origin, meets.united single origin originMember,
        (bitsOf_congr numBits.symm count.symm origin bit).mpr here⟩
    · rw [if_neg single]
      have small := stored.resolve_left single
      obtain ⟨i, inside, rfl⟩ := List.getElem_of_mem member
      unfold multiIncludedIn
      rw [List.any_eq_true]
      refine ⟨i, List.mem_range.mpr (reflects.counted ▸ inside), List.all_eq_true.mpr fun j inRange => ?_⟩
      have hashes := List.mem_range.mp inRange
      rw [reflects.positions i inside j hashes, Nat.mod_eq_of_lt (small _ ⟨j, hashes, rfl⟩),
        thatReflects.bits]
      exact ⟨own[i], found, j, count ▸ hashes, by rw [numBits]⟩
  · rfl

end Two

end Add

inductive Event (Value : Type) where
  | add (index : Nat) (value : Value)
  | union (index other : Nat)
  | rebuild (index other : Nat)

/-- A filter, the values added to it, and those with the values of the filters united with it. -/
structure Tracked (Value : Type) where
  filter : BloomFilterImpl Value
  own : List Value
  added : List Value

def start (filters : Nat → BloomFilterImpl Value) (index : Nat) : Tracked Value :=
  ⟨filters index, [], []⟩

/-- `none` where an error ends the run. -/
def step (world : Nat → Tracked Value) : Event Value → Option (Nat → Tracked Value)
  | .add index value =>
    (addValue valueType (world index).filter value).map fun filter =>
      Function.update world index ⟨filter, (world index).own ++ [value], (world index).added ++ [value]⟩
  | .union index other =>
    (unionAll (world index).filter (world other).filter).map fun filter =>
      Function.update world index ⟨filter, (world index).own, (world index).added ++ (world other).added⟩
  | .rebuild index other =>
    some (Function.update world other
      { world index with
        filter := rebuildBloomFilterValue (makeBloomFilterSet (world index).filter) })

def runAll : (Nat → Tracked Value) → List (Event Value) → Option (Nat → Tracked Value)
  | world, [] => some world
  | world, event :: rest => (step valueType world event).bind fun next => runAll next rest

/-- Every filter reflects its values, with as many hash functions as a `ValueBit` has positions. -/
def Invariant (world : Nat → Tracked Value) : Prop :=
  ∀ index, Reflects valueType (world index).filter (world index).own (world index).added ∧
    (world index).filter.numHashFunctions ≤ maxHashFunctions

section Runs

variable {valueType} {world next : Nat → Tracked Value}

variable (invariant : Invariant valueType world)
include invariant

theorem invariant_update {index : Nat} {tracked : Tracked Value}
    (reflects : Reflects valueType tracked.filter tracked.own tracked.added)
    (few : tracked.filter.numHashFunctions ≤ maxHashFunctions) :
    Invariant valueType (Function.update world index tracked) := by
  intro place
  by_cases here : place = index
  · subst here
    rw [Function.update_self]
    exact ⟨reflects, few⟩
  · rw [Function.update_of_ne here]
    exact invariant place

theorem invariant_step {event : Event Value}
    (done : step valueType world event = some next) : Invariant valueType next := by
  cases event with
  | add index value =>
    obtain ⟨reflects, few⟩ := invariant index
    obtain ⟨filter, added, rfl⟩ := Option.map_eq_some_iff.mp done
    obtain ⟨kept, same⟩ := reflects_addValue reflects few added
    exact invariant_update invariant kept (same.trans_le few)
  | union index other =>
    obtain ⟨reflects, few⟩ := invariant index
    obtain ⟨filter, united, rfl⟩ := Option.map_eq_some_iff.mp done
    obtain ⟨kept, same⟩ := reflects_unionAll reflects (invariant other).1 united
    exact invariant_update invariant kept (same.trans_le few)
  | rebuild index other =>
    obtain ⟨reflects, few⟩ := invariant index
    obtain rfl := Option.some.inj done
    exact invariant_update invariant (reflects_rebuild reflects few) few

theorem invariant_runAll {events : List (Event Value)}
    (reached : runAll valueType world events = some next) : Invariant valueType next := by
  induction events generalizing world with
  | nil =>
    obtain rfl := Option.some.inj reached
    exact invariant
  | cons event rest ih =>
    obtain ⟨middle, done, later⟩ := Option.bind_eq_some_iff.mp reached
    exact ih (invariant_step invariant done) later

end Runs

/-- New filters, with no more hash functions than a `ValueBit` has positions. -/
def Created (filters : Nat → BloomFilterImpl Value) : Prop :=
  ∀ index, (∃ expectedEntries nb rounded addMinMax,
    BloomFilterImpl.create valueType expectedEntries nb rounded addMinMax = some (filters index)) ∧
    (filters index).numHashFunctions ≤ maxHashFunctions

theorem invariant_of_runAll {filters : Nat → BloomFilterImpl Value}
    (created : Created valueType filters) {events : List (Event Value)} {world : Nat → Tracked Value}
    (reached : runAll valueType (start filters) events = some world) : Invariant valueType world := by
  refine invariant_runAll (fun index => ?_) reached
  obtain ⟨⟨_, _, _, _, made⟩, few⟩ := created index
  exact ⟨reflects_create valueType made, few⟩

/-- A run leaves a filter without a value only where it differs, as `same` says, from the only one of
the filter's own. -/
def Includes (same : Value → Value → Prop) : Prop :=
  ∀ filters, Created valueType filters → ∀ events world,
    runAll valueType (start filters) events = some world → ∀ index,
    (∀ value ∈ (world index).added, includeValue valueType (world index).filter value = true) ↔
      ((world index).filter.addMinMax = true → ∀ alone, (world index).own = [alone] →
        ∀ value ∈ (world index).added, same value alone)

theorem includes_of_sameValue {same : Value → Value → Prop}
    (agree : ∀ value alone, valueType.sameValue value alone = true ↔ same value alone) :
    Includes valueType same := by
  intro filters created events world reached index
  have included := includeValue_iff (invariant_of_runAll valueType created reached index).1
  simpa only [agree] using included

/-- In every state that a run reaches: which filters include all their values, and where a value of
two filters is not missed. -/
theorem included_of_runAll {filters : Nat → BloomFilterImpl Value}
    (created : ∀ index, ∃ expectedEntries nb rounded addMinMax,
      BloomFilterImpl.create valueType expectedEntries nb rounded addMinMax = some (filters index))
    (few : ∀ index, (filters index).numHashFunctions ≤ maxHashFunctions)
    {events : List (Event Value)} {world : Nat → Tracked Value}
    (reached : runAll valueType (start filters) events = some world) :
    (∀ index, (∀ value ∈ (world index).added, includeValue valueType (world index).filter value = true) ↔
        ((world index).filter.addMinMax = true → ∀ alone, (world index).own = [alone] →
          ∀ value ∈ (world index).added, valueType.sameValue value alone = true)) ∧
    ∀ index other, valueType.Ordered ((world index).own ++ (world other).own) →
      Meets valueType (world index).filter (world other).filter (world index).own
        (world index).added (world other).own (world other).added →
      includedIn valueType (world index).filter (world other).filter = true := by
  have invariant :=
    invariant_of_runAll valueType (fun index => ⟨created index, few index⟩) reached
  refine ⟨fun index => includeValue_iff (invariant index).1, fun index other ordered meets => ?_⟩
  exact includedIn_of_meets (invariant index).1 (invariant other).1 ordered meets

end Filters

theorem longType_ordered (values : List (BitVec 64)) : longType.Ordered values where
  flip _ _ := by
    simp only [longType, BitVec.slt_iff_toInt_lt]
    split_ifs <;> omega
  trans _ _ _ := by
    simp only [longType, BitVec.slt_iff_toInt_lt]
    split_ifs <;> omega
  throughDatum _ := rfl

theorem float8Type_ordered {throughDatum : BitVec 64 → BitVec 64} {values : List (BitVec 64)}
    (numbers : ∀ value ∈ values, float8Key value ≠ none)
    (through : ∀ value ∈ values, throughDatum value = value) :
    (float8Type throughDatum).Ordered values where
  flip {left right} leftIn rightIn := by
    obtain ⟨low, leftKey⟩ := Option.ne_none_iff_exists'.mp (numbers left leftIn)
    obtain ⟨high, rightKey⟩ := Option.ne_none_iff_exists'.mp (numbers right rightIn)
    simp only [float8Type, leftKey, rightKey, Option.bind_some, Option.map_some, Option.getD_some]
    split_ifs <;> omega
  trans {first second third} firstIn secondIn thirdIn := by
    obtain ⟨low, firstKey⟩ := Option.ne_none_iff_exists'.mp (numbers first firstIn)
    obtain ⟨mid, secondKey⟩ := Option.ne_none_iff_exists'.mp (numbers second secondIn)
    obtain ⟨high, thirdKey⟩ := Option.ne_none_iff_exists'.mp (numbers third thirdIn)
    simp only [float8Type, firstKey, secondKey, thirdKey, Option.bind_some, Option.map_some,
      Option.getD_some]
    split_ifs <;> omega
  throughDatum {value} known := through value known

/-- The specialisations: a NaN is the only double that is not found beside itself. -/
theorem includes_specialised (throughFloat : BitVec 64 → BitVec 64)
    (varstrCmp : List UInt8 → List UInt8 → Int) (throughString : List UInt8 → List UInt8) :
    Includes longType Eq ∧ Includes (stringType varstrCmp throughString) Eq ∧
      Includes (float8Type throughFloat) fun value alone =>
        float8Key value ≠ none ∧ float8Key value = float8Key alone := by
  refine ⟨includes_of_sameValue _ ?_, includes_of_sameValue _ ?_, includes_of_sameValue _ ?_⟩
  · exact fun value alone => beq_iff_eq
  · intro value alone
    simp only [stringType, Bool.and_eq_true, beq_iff_eq, and_iff_right_iff_imp]
    exact congrArg List.length
  · intro value alone
    simp only [float8Type, Bool.and_eq_true, beq_iff_eq, Option.isSome_iff_ne_none]

/-- A filter for 300 integers that keeps its bounds. -/
def longFilter : BloomFilterImpl (BitVec 64) :=
  (BloomFilterImpl.create longType 300 1870 4 true).get rfl

theorem included_of_runAll_long : ∃ world, runAll longType (start fun _ => longFilter)
        [.add 0 1, .add 0 5, .add 1 2, .add 0 3, .add 1 3, .rebuild 0 2] = some world ∧
      (∀ value ∈ (world 2).added, includeValue longType (world 2).filter value = true) ∧
      includedIn longType (world 2).filter (world 1).filter = true := by
  have done : ((runAll longType (start fun _ => longFilter)
      [.add 0 1, .add 0 5, .add 1 2, .add 0 3, .add 1 3, .rebuild 0 2]).map fun world =>
        (((world 2).own, (world 2).filter.numBits), (world 1).own, (world 1).added)) =
      some (([1, 5, 3], 1920), [2, 3], [2, 3]) := by
    decide +kernel
  obtain ⟨world, reached, values⟩ := Option.map_eq_some_iff.mp done
  simp only [Prod.mk.injEq] at values
  obtain ⟨⟨own, numBits⟩, thatOwn, others⟩ := values
  obtain ⟨included, meeting⟩ := included_of_runAll longType
    (fun _ => ⟨300, 1870, 4, true, rfl⟩) (fun _ => le_rfl) reached
  refine ⟨world, reached, (included 2).mpr fun _ alone single => ?_,
    meeting 2 1 (longType_ordered _) ⟨⟨3, ?_, ?_, Or.inr ?_⟩, fun single => ?_, fun _ _ _ => ?_⟩⟩
  · rw [own] at single
    exact absurd single (by simp)
  · rw [own]
    decide
  · rw [others]
    decide
  · rintro bit ⟨j, -, rfl⟩
    rw [numBits]
    exact (bitPosition_lt (by decide) _ _).trans (by decide)
  · rw [own] at single
    exact absurd single (by decide)
  · unfold InBounds
    rw [own, thatOwn, if_neg (by decide)]
    intro value member
    rcases List.mem_pair.mp member with rfl | rfl
    · exact ⟨⟨1, by simp, by decide⟩, 5, by simp, by decide⟩
    · exact ⟨⟨1, by simp, by decide⟩, 5, by simp, by decide⟩

/-- Two filters with the value 2 in common, neither within the bounds of the other. -/
theorem not_included_of_runAll :
    ¬ ∀ (Value : Type) (valueType : ValueType Value) (filters : Nat → BloomFilterImpl Value),
      (∀ index, ∃ expectedEntries nb rounded addMinMax,
        BloomFilterImpl.create valueType expectedEntries nb rounded addMinMax = some (filters index)) →
      ∀ (events : List (Event Value)) (world : Nat → Tracked Value),
        runAll valueType (start filters) events = some world →
        (∀ index, ∀ value ∈ (world index).added, includeValue valueType (world index).filter value = true) ∧
        ∀ index other, ∀ value ∈ (world index).added, value ∈ (world other).added →
          includedIn valueType (world index).filter (world other).filter = true := by
  intro all
  have done : ((runAll longType (start fun _ => longFilter)
      [.add 0 1, .add 0 2, .add 1 2, .add 1 3]).map fun world =>
        (decide (2#64 ∈ (world 0).added ∧ 2#64 ∈ (world 1).added),
          includedIn longType (world 0).filter (world 1).filter)) = some (true, false) := by
    decide +kernel
  obtain ⟨world, reached, values⟩ := Option.map_eq_some_iff.mp done
  obtain ⟨members, missed⟩ := Prod.mk.injEq .. ▸ values
  obtain ⟨first, second⟩ := of_decide_eq_true members
  have found := (all _ longType _ (fun _ => ⟨300, 1870, 4, true, rfl⟩) _ world reached).2 0 1 2 first
    second
  rw [missed] at found
  exact absurd found (by decide)

end OpenGauss.Bloom
