import OpenGauss.Hll.HllContent
import OpenGauss.Lib.Run

namespace OpenGauss.Hll

open Function (update update_eq_self update_of_ne update_self)

open Lib

section Operations

variable {ctzZero : Nat} {para : HllPara} (admitted : para.Admitted) {hll : HllObject} {added : List UInt64}

include admitted in
theorem hllSetExplicitValue_spec (holds : Holds ctzZero para hll added)
    (type : hll.hlltype = .explicit) (atRest : AtRest hll) (hashval : UInt64)
    (ordered : Crowded para (hashval :: added) →
      LargestIsGreatest (hllHashToValue ctzZero para) (hashval :: added)) :
    ∃ set, hllSetExplicitValue ctzZero hll hashval = some set ∧
      Holds ctzZero para set (hashval :: added) ∧ AtRest set := by
  obtain ⟨kept, insertedType, room, total, few, unchanged⟩ :=
    hllInsertExplicit_spec holds type atRest.room hashval
  have short := atRest.explicit type
  have limit : 2 ^ hll.hllpara.log2Explicitsize ≤ 2 ^ 12 := by
    rw [holds.hllpara]
    exact Nat.pow_le_pow_right (by decide) admitted.explicitsize
  have lenTotal := atRest.lenTotal
  have check := @hllExplicitCheck_spec ctzZero para admitted _ _ kept insertedType room (by omega)
    (by omega) ordered
  have samePara : (hllInsertExplicit hll hashval).1.hllpara = hll.hllpara :=
    kept.hllpara.trans holds.hllpara.symm
  unfold hllSetExplicitValue
  generalize hllInsertExplicit hll hashval = result at *
  obtain ⟨inserted, fresh⟩ := result
  dsimp only at *
  cases fresh with
  | true => exact check
  | false =>
    refine ⟨inserted, rfl, kept, room, by omega, fun _ => ?_, ?_⟩
    · rw [unchanged rfl, samePara]
      exact short
    · rw [insertedType]
      nofun

theorem largestIsGreatest_singleton (slot : UInt64 → Nat × Nat) (hashval : UInt64) :
    LargestIsGreatest slot [hashval] := by
  intro first member last known _ _
  rw [List.mem_singleton.mp member, List.mem_singleton.mp known]

include admitted in
theorem hllSetEmptyValue_spec (holds : Holds ctzZero para hll added) (type : hll.hlltype = .empty)
    (total : hll.lenTotal ≤ 2 ^ 16) (hashval : UInt64) :
    ∃ set, hllSetEmptyValue ctzZero hll hashval = some set ∧
      Holds ctzZero para set (hashval :: added) ∧ AtRest set := by
  have blank : isBlank hll = true := isBlank_iff.mpr (Or.inr type)
  obtain ⟨data, rfl⟩ := holds.blank blank
  unfold hllSetEmptyValue
  split
  · obtain ⟨full, done, fullType, kept, rest⟩ := hllTransformFull_spec admitted holds
      (by rw [type]; rintro ⟨⟩) (by rw [type]; rintro ⟨⟩) (by rw [type]; rintro ⟨⟩)
    rw [done, Option.bind_eq_bind, Option.bind_some]
    exact hllSetFullValue_spec admitted kept fullType rest hashval
  · split
    · obtain ⟨kept, rest⟩ := hllEmptyToSparse_spec admitted holds blank
      have transformed : hllTransformSparse ctzZero hll = some (hllEmptyToSparse hll) := by
        rw [hllTransformSparse, type]
      rw [transformed, Option.bind_eq_bind, Option.bind_some]
      exact hllSetSparseValue_spec admitted kept rfl rest hashval
    · have explicit : Holds ctzZero para { hll with hlltype := .explicit } [] :=
        holds_explicit holds.hllpara rfl .nil data fun _ => Iff.rfl
      have rest : AtRest { hll with hlltype := .explicit } := by
        refine ⟨?_, total, fun _ => ?_, by rintro ⟨⟩⟩
        · rw [data]
          exact Nat.zero_le _
        · rw [data]
          exact Nat.zero_le _
      exact hllSetExplicitValue_spec admitted explicit rfl rest hashval
        fun _ => largestIsGreatest_singleton _ hashval

include admitted in
theorem hllSetRegisterValue_spec (holds : Holds ctzZero para hll added) (atRest : AtRest hll)
    (hashval : UInt64) (ordered : hll.hlltype = .explicit → Crowded para (hashval :: added) →
      LargestIsGreatest (hllHashToValue ctzZero para) (hashval :: added)) :
    ∃ set, hllSetRegisterValue ctzZero hll hashval = some set ∧
      Holds ctzZero para set (hashval :: added) ∧ AtRest set := by
  unfold hllSetRegisterValue
  cases type : hll.hlltype with
  | uninit =>
    obtain ⟨-, rfl⟩ := holds.blank (isBlank_iff.mpr (Or.inl type))
    have emptied : Holds ctzZero para (hllEmpty hll) [] := holds_blank holds.hllpara rfl rfl
    exact hllSetEmptyValue_spec admitted emptied rfl (Nat.zero_le _) hashval
  | empty => exact hllSetEmptyValue_spec admitted holds type atRest.lenTotal hashval
  | explicit => exact hllSetExplicitValue_spec admitted holds type atRest hashval (ordered type)
  | sparse => exact hllSetSparseValue_spec admitted holds type atRest hashval
  | full => exact hllSetFullValue_spec admitted holds type atRest hashval

theorem Holds.withLastHash (holds : Holds ctzZero para hll added) (lastHash : UInt64) :
    Holds ctzZero para { hll with lastHash := lastHash } added :=
  ⟨holds.hllpara, holds.formed, holds.registers⟩

theorem AtRest.withLastHash (atRest : AtRest hll) (lastHash : UInt64) :
    AtRest { hll with lastHash := lastHash } :=
  ⟨atRest.room, atRest.lenTotal, atRest.explicit, atRest.sparse⟩

include admitted in
theorem hllAdd_spec (unchecked : para.duplicateCheck = 0) (holds : Holds ctzZero para hll added)
    (atRest : AtRest hll) (hashval : UInt64)
    (ordered : hll.hlltype = .explicit → Crowded para (hashval :: added) →
      LargestIsGreatest (hllHashToValue ctzZero para) (hashval :: added)) :
    ∃ set, hllAdd ctzZero hll hashval = some set ∧
      Holds ctzZero para set (hashval :: added) ∧ AtRest set := by
  obtain ⟨set, done, kept, rest⟩ := hllSetRegisterValue_spec admitted holds atRest hashval ordered
  unfold hllAdd
  rw [holds.hllpara, unchecked, if_neg (by simp), done]
  exact ⟨_, rfl, kept.withLastHash hashval, rest.withLastHash hashval⟩

theorem mergeHashes_spec {hashes others : List UInt64} (sorted : hashes.Pairwise (· < ·))
    (otherSorted : others.Pairwise (· < ·)) :
    (mergeHashes hashes others).Pairwise (· < ·) ∧
      ∀ hashval, hashval ∈ mergeHashes hashes others ↔ hashval ∈ hashes ++ others := by
  fun_induction mergeHashes hashes others with
  | case1 others => exact ⟨otherSorted, fun hashval => by rw [List.nil_append]⟩
  | case2 hashes => exact ⟨sorted, fun hashval => by rw [List.append_nil]⟩
  | case3 hashval1 hashes hashval2 others less ih =>
    obtain ⟨first, rest⟩ := List.pairwise_cons.mp sorted
    obtain ⟨merged, members⟩ := ih rest otherSorted
    refine ⟨List.pairwise_cons.mpr ⟨fun later member => ?_, merged⟩, fun hashval => ?_⟩
    · rcases List.mem_append.mp ((members later).mp member) with own | other
      · exact first later own
      · rcases List.mem_cons.mp other with rfl | beyond
        · exact less
        · exact UInt64.lt_trans less (List.rel_of_pairwise_cons otherSorted beyond)
    · rw [List.mem_cons, members, List.cons_append, List.mem_cons]
  | case4 hashval1 hashes hashval2 others notLess less ih =>
    obtain ⟨first, rest⟩ := List.pairwise_cons.mp otherSorted
    obtain ⟨merged, members⟩ := ih sorted rest
    refine ⟨List.pairwise_cons.mpr ⟨fun later member => ?_, merged⟩, fun hashval => ?_⟩
    · rcases List.mem_append.mp ((members later).mp member) with own | other
      · rcases List.mem_cons.mp own with rfl | beyond
        · exact less
        · exact UInt64.lt_trans less (List.rel_of_pairwise_cons sorted beyond)
      · exact first later other
    · rw [List.mem_cons, members]
      simp only [List.mem_append, List.mem_cons]
      tauto
  | case5 hashval1 hashes hashval2 others notLess notGreater ih =>
    obtain rfl : hashval1 = hashval2 :=
      UInt64.le_antisymm (UInt64.not_lt.mp notGreater) (UInt64.not_lt.mp notLess)
    obtain ⟨first, rest⟩ := List.pairwise_cons.mp sorted
    obtain ⟨otherFirst, otherRest⟩ := List.pairwise_cons.mp otherSorted
    obtain ⟨merged, members⟩ := ih rest otherRest
    refine ⟨List.pairwise_cons.mpr ⟨fun later member => ?_, merged⟩, fun hashval => ?_⟩
    · rcases List.mem_append.mp ((members later).mp member) with own | other
      · exact first later own
      · exact otherFirst later other
    · rw [List.mem_cons, members]
      simp only [List.mem_append, List.mem_cons]
      tauto

theorem length_mergeHashes (hashes others : List UInt64) :
    (mergeHashes hashes others).length ≤ hashes.length + others.length := by
  fun_induction mergeHashes hashes others with
  | case1 others => simp
  | case2 hashes => simp
  | case3 hashval1 hashes hashval2 others less ih => simp only [List.length_cons] at *; omega
  | case4 hashval1 hashes hashval2 others notLess less ih => simp only [List.length_cons] at *; omega
  | case5 hashval1 hashes hashval2 others notLess notGreater ih =>
    simp only [List.length_cons] at *
    omega

include admitted in
theorem hllComibineExplicit_spec {aHll : HllObject} {others : List UInt64}
    (holds : Holds ctzZero para hll added) (type : hll.hlltype = .explicit) (atRest : AtRest hll)
    (aHolds : Holds ctzZero para aHll others) (aType : aHll.hlltype = .explicit)
    (aAtRest : AtRest aHll) (ordered : Crowded para (added ++ others) →
      LargestIsGreatest (hllHashToValue ctzZero para) (added ++ others)) :
    ∃ united, hllComibineExplicit ctzZero hll aHll = some united ∧
      Holds ctzZero para united (added ++ others) ∧ AtRest united := by
  obtain ⟨hashes, sorted, data, members, values⟩ := holds.explicit_data type
  obtain ⟨aHashes, aSorted, aData, aMembers, aValues⟩ := aHolds.explicit_data aType
  obtain ⟨mergedSorted, mergedMembers⟩ := mergeHashes_spec sorted aSorted
  have mergedShort := length_mergeHashes hashes aHashes
  have limit : 2 ^ para.log2Explicitsize ≤ 2 ^ 12 :=
    Nat.pow_le_pow_right (by decide) admitted.explicitsize
  have short := atRest.explicit type
  have aShort := aAtRest.explicit aType
  rw [holds.hllpara, data, length_explicitBytes] at short
  rw [aHolds.hllpara, aData, length_explicitBytes] at aShort
  have merged : (hllMergeExplicit hll aHll).hllData = explicitBytes (mergeHashes hashes aHashes) := by
    rw [hllMergeExplicit, values, aValues]
  have lenTotal : (hllMergeExplicit hll aHll).lenTotal = 8 * hashes.length + 8 * aHashes.length := by
    rw [hllMergeExplicit, data, aData, length_explicitBytes, length_explicitBytes]
  have kept : Holds ctzZero para (hllMergeExplicit hll aHll) (added ++ others) := by
    refine holds_explicit holds.hllpara type mergedSorted merged fun hashval => ?_
    rw [mergedMembers, List.mem_append, List.mem_append, members, aMembers]
  refine hllExplicitCheck_spec admitted kept type ?_ ?_ ?_ ordered
  · rw [merged, lenTotal, length_explicitBytes]
    omega
  · rw [lenTotal]
    omega
  · rw [merged, length_explicitBytes]
    omega

theorem fullRegister_zipWith {own other : List UInt8} (same : own.length = other.length) (register : Nat) :
    fullRegister (List.zipWith (fun own other => if own < other then other else own) own other)
      register = max (fullRegister own register) (fullRegister other register) := by
  unfold fullRegister
  simp only [List.getD_eq_getElem?_getD, List.getElem?_zipWith]
  rcases Nat.lt_or_ge register own.length with inside | outside
  · rw [List.getElem?_eq_getElem inside, List.getElem?_eq_getElem (same ▸ inside)]
    simp only [Option.getD_some, UInt8.lt_iff_toNat_lt]
    split
    · rename_i less
      exact (Nat.max_eq_right less.le).symm
    · rename_i notLess
      exact (Nat.max_eq_left (not_lt.mp notLess)).symm
  · rw [List.getElem?_eq_none outside, List.getElem?_eq_none (same ▸ outside)]
    rfl

include admitted in
/-- The registers of the union, and those of the other object, which is changed along with it. -/
theorem hllUnion_spec {aHll : HllObject} {others : List UInt64}
    (holds : Holds ctzZero para hll added) (atRest : AtRest hll)
    (aHolds : Holds ctzZero para aHll others) (aAtRest : AtRest aHll)
    (explicit : hll.hlltype = .explicit → aHll.hlltype = .explicit → Crowded para (added ++ others) →
      LargestIsGreatest (hllHashToValue ctzZero para) (added ++ others))
    (ordered : hll.hlltype = .explicit → isBlank aHll = false → aHll.hlltype ≠ .explicit →
      LargestIsGreatest (hllHashToValue ctzZero para) added)
    (aOrdered : aHll.hlltype = .explicit → isBlank hll = false → hll.hlltype ≠ .explicit →
      LargestIsGreatest (hllHashToValue ctzZero para) others) :
    ∃ united changed, hllUnion ctzZero hll aHll = some (united, changed) ∧
      Holds ctzZero para united (added ++ others) ∧ AtRest united ∧
      Holds ctzZero para changed others ∧ AtRest changed := by
  unfold hllUnion
  by_cases aBlank : isBlank aHll = true
  · rw [if_pos aBlank]
    obtain ⟨-, rfl⟩ := aHolds.blank aBlank
    rw [List.append_nil]
    exact ⟨hll, aHll, rfl, holds, atRest, aHolds, aAtRest⟩
  · rw [if_neg aBlank]
    by_cases blank : isBlank hll = true
    · rw [if_pos blank]
      obtain ⟨-, rfl⟩ := holds.blank blank
      refine ⟨hllCopy hll aHll, aHll, rfl, ⟨aHolds.hllpara, aHolds.formed, aHolds.registers⟩,
        ⟨aAtRest.room.trans (Nat.le_max_right _ _), ?_, aAtRest.explicit, aAtRest.sparse⟩, aHolds,
        aAtRest⟩
      exact Nat.max_le.mpr ⟨atRest.lenTotal, aAtRest.lenTotal⟩
    · rw [if_neg blank, if_neg (by rw [holds.hllpara, aHolds.hllpara]; simp)]
      split
      · rename_i both
        obtain ⟨united, done, kept, rest⟩ := hllComibineExplicit_spec admitted holds both.2 atRest
          aHolds both.1 aAtRest (explicit both.2 both.1)
        rw [done]
        exact ⟨united, aHll, rfl, kept, rest, aHolds, aAtRest⟩
      · rename_i mixed
        have initialized : hll.hlltype ≠ .uninit := fun type =>
          blank (isBlank_iff.mpr (Or.inl type))
        have aInitialized : aHll.hlltype ≠ .uninit := fun type =>
          aBlank (isBlank_iff.mpr (Or.inl type))
        obtain ⟨full, done, type, kept, rest⟩ := hllTransformFull_spec admitted holds initialized
          (fun type => ordered type (by simpa using aBlank) fun aType => mixed ⟨aType, type⟩)
          fun _ => atRest
        obtain ⟨aFull, aDone, aType, aKept, aRest⟩ := hllTransformFull_spec admitted aHolds aInitialized
          (fun aType => aOrdered aType (by simpa using blank) fun type => mixed ⟨aType, type⟩)
          fun _ => aAtRest
        obtain ⟨length, registers⟩ := kept.full_data type
        obtain ⟨aLength, aRegisters⟩ := aKept.full_data aType
        rw [done, aDone, Option.bind_eq_bind, Option.bind_some, Option.bind_some]
        have united : (hllCombineFull full aFull).hllData.length = 2 ^ para.log2Registers := by
          rw [hllCombineFull, List.length_zipWith, length, aLength, Nat.min_self]
        refine ⟨hllCombineFull full aFull, aFull, rfl, holds_full kept.hllpara type united ?_,
          ⟨?_, rest.lenTotal, ?_, ?_⟩, aKept, aRest⟩
        · intro register
          rw [hllCombineFull, fullRegister_zipWith (length.trans aLength.symm), registers, aRegisters,
            greatest_append]
        · rw [united, ← length]
          exact rest.room
        · intro other
          exact absurd (type.symm.trans other) (by decide)
        · intro other
          exact absurd (type.symm.trans other) (by decide)

end Operations

/-- A field that is shifted in and read back. -/
theorem field_spec {info bits value : Nat} (fits : value < 2 ^ bits) :
    (info <<< bits ||| value) &&& (2 ^ bits - 1) = value ∧ (info <<< bits ||| value) >>> bits = info ∧
      ∀ {size : Nat}, info < 2 ^ size → info <<< bits ||| value < 2 ^ (size + bits) := by
  rw [← Nat.shiftLeft_add_eq_or_of_lt fits, Nat.and_two_pow_sub_one_eq_mod,
    Nat.shiftRight_eq_div_pow, Nat.shiftLeft_eq]
  refine ⟨?_, ?_, fun {size} small => ?_⟩
  · rw [Nat.add_comm, Nat.add_mul_mod_self_right, Nat.mod_eq_of_lt fits]
  · rw [Nat.add_comm, Nat.add_mul_div_right _ _ (Nat.two_pow_pos bits), Nat.div_eq_of_lt fits, Nat.zero_add]
  · calc info * 2 ^ bits + value < info * 2 ^ bits + 2 ^ bits := Nat.add_lt_add_left fits _
      _ = (info + 1) * 2 ^ bits := (Nat.succ_mul _ _).symm
      _ ≤ 2 ^ size * 2 ^ bits := Nat.mul_le_mul_right _ small
      _ = 2 ^ (size + bits) := (Nat.pow_add 2 size bits).symm

theorem ofCode_code (hlltype : HllType) : HllType.ofCode hlltype.code = some hlltype := by
  cases hlltype <;> rfl

theorem code_lt (hlltype : HllType) : hlltype.code < 2 ^ hllParaBit := by
  cases hlltype <;> decide

section Packing

variable {hll : HllObject}

theorem slice_append {front middle back : List UInt8} {start count : Nat}
    (before : front.length = start) (inside : middle.length = count) :
    ((front ++ (middle ++ back)).drop start).take count = middle := by
  rw [List.drop_left' before, List.take_left' inside]

/-- The parts of the packed bytes, the byte behind them included. -/
theorem hllObjectPack_parts (initialized : hll.hlltype ≠ .uninit) (ndvEstimator : UInt64) :
    ∃ hllbyte, hllObjectPack ndvEstimator hll = some hllbyte ∧
      hllbyte.length = hllHeadSize + hll.hllData.length + 1 ∧ hllbyte.take 3 = hllHead ∧
      (hllbyte.drop 3).take 8 = leBytes 8 (compressInfo hll) ∧
      (hllbyte.drop 19).take 8 = leBytes 8 hll.lastHash.toNat ∧
      (hllbyte.drop hllHeadSize).take hll.hllData.length = hll.hllData := by
  refine ⟨_, if_neg initialized, ?_, ?_, ?_, ?_, ?_⟩
  · simp only [List.length_append, length_leBytes, List.length_singleton]
    rfl
  · simp only [List.append_assoc]
    exact List.take_left' rfl
  · simp only [List.append_assoc]
    exact slice_append rfl (length_leBytes 8 _)
  · rw [List.append_assoc, List.append_assoc]
    refine slice_append ?_ (length_leBytes 8 _)
    simp only [List.length_append, length_leBytes]
    rfl
  · rw [List.append_assoc]
    refine slice_append ?_ rfl
    simp only [List.length_append, length_leBytes]
    rfl

theorem hllObjectUnpack_pack (admitted : hll.hllpara.Admitted) (atRest : AtRest hll)
    (initialized : hll.hlltype ≠ .uninit) (ndvEstimator : UInt64) :
    (hllObjectPack ndvEstimator hll).bind hllObjectUnpack = some hll := by
  have total := atRest.lenTotal
  have room := atRest.room
  obtain ⟨hllbyte, packed, length, head, stored, lastHash, data⟩ :=
    hllObjectPack_parts initialized ndvEstimator
  rw [packed, Option.bind_some]
  cases hll with
  | mk hlltype hllpara lenTotal hllData last =>
    obtain ⟨log2Registers, log2Explicitsize, log2Sparsesize, duplicateCheck⟩ := hllpara
    obtain ⟨⟨least, most⟩, explicitsize, sparsesize, duplicate⟩ := admitted
    dsimp only at *
    -- the fields in the order in which they are packed
    unfold compressInfo at stored
    dsimp only at stored
    obtain ⟨registersRead, registersRest, registersSize⟩ := @field_spec hlltype.code hllParaBit
      (log2Registers - 10) (by unfold hllParaBit; omega)
    have size := registersSize (code_lt hlltype)
    generalize hlltype.code <<< hllParaBit ||| (log2Registers - 10) = registersInfo at *
    obtain ⟨explicitRead, explicitRest, explicitSize⟩ := @field_spec registersInfo hllParaBit
      log2Explicitsize (by unfold hllParaBit; omega)
    replace size := explicitSize size
    generalize registersInfo <<< hllParaBit ||| log2Explicitsize = explicitInfo at *
    obtain ⟨sparseRead, sparseRest, sparseSize⟩ := @field_spec explicitInfo hllParaBit
      log2Sparsesize (by unfold hllParaBit; omega)
    replace size := sparseSize size
    generalize explicitInfo <<< hllParaBit ||| log2Sparsesize = sparseInfo at *
    obtain ⟨duplicateRead, duplicateRest, duplicateSize⟩ := @field_spec sparseInfo hllParaBit
      duplicateCheck (by unfold hllParaBit; omega)
    replace size := duplicateSize size
    generalize sparseInfo <<< hllParaBit ||| duplicateCheck = duplicateInfo at *
    obtain ⟨totalRead, totalRest, totalSize⟩ := @field_spec duplicateInfo hllLenBit lenTotal
      (by unfold hllLenBit; omega)
    replace size := totalSize size
    generalize duplicateInfo <<< hllLenBit ||| lenTotal = totalInfo at *
    obtain ⟨usedRead, usedRest, usedSize⟩ := @field_spec totalInfo hllLenBit hllData.length
      (by unfold hllLenBit; omega)
    replace size := usedSize size
    generalize totalInfo <<< hllLenBit ||| hllData.length = info at *
    have read : leNat ((hllbyte.drop 3).take 8) = info := by
      rw [stored]
      exact leNat_leBytes (size.trans (by decide))
    have typeRead : hlltype.code &&& (2 ^ hllParaBit - 1) = hlltype.code := by
      rw [Nat.and_two_pow_sub_one_eq_mod, Nat.mod_eq_of_lt (code_lt hlltype)]
    unfold hllObjectUnpack
    rw [if_neg (by omega), if_neg (by rw [head]; simp)]
    dsimp only
    rw [read, usedRead, usedRest, totalRead, totalRest, duplicateRead, duplicateRest, sparseRead,
      sparseRest, explicitRead, explicitRest, registersRead, registersRest, typeRead, ofCode_code]
    dsimp only
    rw [if_neg (by omega), Nat.sub_add_cancel least, data, lastHash, leNat_uint64,
      UInt64.ofNat_toNat]

end Packing

inductive Event where
  | add (index : Nat) (hashval : UInt64)
  | union (index other : Nat)
  | repack (index : Nat) (ndvEstimator : UInt64)

/-- The objects, and for each of them the hashes added to it or to an object united with it. -/
structure World where
  objects : Nat → HllObject
  added : Nat → List UInt64

def start (para : HllPara) : World := ⟨fun _ => hllInit para, fun _ => []⟩

/-- An error leaves the objects as they are; what was to be added is recorded all the same. -/
def step (ctzZero : Nat) (world : World) : Event → World
  | .add index hashval =>
    { objects := match hllAdd ctzZero (world.objects index) hashval with
        | some set => update world.objects index set
        | none => world.objects
      added := update world.added index (hashval :: world.added index) }
  | .union index other =>
    { objects := match hllUnion ctzZero (world.objects index) (world.objects other) with
        | some (united, changed) =>
          update (update world.objects other changed) index united
        | none => world.objects
      added := update world.added index (world.added index ++ world.added other) }
  | .repack index ndvEstimator =>
    { world with
      objects := match (hllObjectPack ndvEstimator (world.objects index)).bind hllObjectUnpack with
        | some unpacked => update world.objects index unpacked
        | none => world.objects }

/-- No explicit object is turned to full mode in which a larger hash has a smaller value than another
one of the same register. -/
def Harmless (ctzZero : Nat) (world : World) : Event → Prop
  | .add index hashval =>
    let hll := world.objects index
    let hashes := hashval :: explicitValues hll.hllData
    hll.hlltype = .explicit → Crowded hll.hllpara hashes →
      LargestIsGreatest (hllHashToValue ctzZero hll.hllpara) hashes
  | .union index other =>
    let hll := world.objects index
    let aHll := world.objects other
    let hashes := explicitValues hll.hllData
    let others := explicitValues aHll.hllData
    let slot := hllHashToValue ctzZero hll.hllpara
    (hll.hlltype = .explicit → aHll.hlltype = .explicit → Crowded hll.hllpara (hashes ++ others) →
      LargestIsGreatest slot (hashes ++ others)) ∧
    (hll.hlltype = .explicit → isBlank aHll = false → aHll.hlltype ≠ .explicit →
      LargestIsGreatest slot hashes) ∧
    (aHll.hlltype = .explicit → isBlank hll = false → hll.hlltype ≠ .explicit →
      LargestIsGreatest slot others)
  | .repack _ _ => True

section Runs

variable {ctzZero : Nat} {para : HllPara} (admitted : para.Admitted)

/-- Every object stands for what was added to it. -/
def Invariant (ctzZero : Nat) (para : HllPara) (world : World) : Prop :=
  ∀ index, Holds ctzZero para (world.objects index) (world.added index) ∧ AtRest (world.objects index)

theorem invariant_start : Invariant ctzZero para (start para) := fun _ =>
  ⟨holds_blank rfl rfl rfl, Nat.zero_le _, Nat.zero_le _, nofun, nofun⟩

theorem Holds.same_members {hll : HllObject} {added : List UInt64}
    (holds : Holds ctzZero para hll added) (type : hll.hlltype = .explicit) (hashval : UInt64) :
    hashval ∈ explicitValues hll.hllData ↔ hashval ∈ added := by
  obtain ⟨hashes, -, -, members, values⟩ := holds.explicit_data type
  rw [values, members]

theorem Crowded.congr {hashes others : List UInt64}
    (same : ∀ hashval, hashval ∈ hashes ↔ hashval ∈ others) (crowded : Crowded para hashes) :
    Crowded para others := by
  have perm : hashes.dedup.Perm others.dedup := by
    rw [List.perm_ext_iff_of_nodup (List.nodup_dedup _) (List.nodup_dedup _)]
    intro hashval
    rw [List.mem_dedup, List.mem_dedup, same]
  exact ⟨perm.length_eq ▸ crowded.1, crowded.2⟩

/-- A condition on the stored hashes is one on the hashes that were added. -/
theorem ordered_congr {hashes others : List UInt64} (same : ∀ hashval, hashval ∈ hashes ↔ hashval ∈ others)
    (ordered : Crowded para hashes → LargestIsGreatest (hllHashToValue ctzZero para) hashes)
    (crowded : Crowded para others) :
    LargestIsGreatest (hllHashToValue ctzZero para) others :=
  (ordered (crowded.congr fun hashval => (same hashval).symm)).congr same

include admitted in
theorem invariant_add (unchecked : para.duplicateCheck = 0) {world : World}
    (invariant : Invariant ctzZero para world) {index : Nat} {hashval : UInt64}
    (harmless : Harmless ctzZero world (.add index hashval)) :
    Invariant ctzZero para (step ctzZero world (.add index hashval)) := by
  obtain ⟨holds, atRest⟩ := invariant index
  unfold Harmless at harmless
  dsimp only at harmless
  rw [holds.hllpara] at harmless
  obtain ⟨set, done, kept, rest⟩ := hllAdd_spec admitted unchecked holds atRest hashval
    fun type => ordered_congr (fun other => by
      rw [List.mem_cons, List.mem_cons, holds.same_members type]) (harmless type)
  have stepped : step ctzZero world (.add index hashval) = ⟨update world.objects index set,
        update world.added index (hashval :: world.added index)⟩ := by
    simp only [step, done]
  rw [stepped]
  intro place
  by_cases here : place = index
  · subst here
    simp only [update_self]
    exact ⟨kept, rest⟩
  · simp only [update_of_ne here]
    exact invariant place

include admitted in
theorem invariant_union {world : World} (invariant : Invariant ctzZero para world)
    {index other : Nat} (harmless : Harmless ctzZero world (.union index other)) :
    Invariant ctzZero para (step ctzZero world (.union index other)) := by
  obtain ⟨holds, atRest⟩ := invariant index
  obtain ⟨aHolds, aAtRest⟩ := invariant other
  unfold Harmless at harmless
  dsimp only at harmless
  rw [holds.hllpara] at harmless
  obtain ⟨explicit, ordered, aOrdered⟩ := harmless
  obtain ⟨united, changed, done, kept, rest, aKept, aRest⟩ := hllUnion_spec admitted holds atRest
    aHolds aAtRest
    (fun type aType => ordered_congr (fun hashval => by
      rw [List.mem_append, List.mem_append, holds.same_members type, aHolds.same_members aType])
      (explicit type aType))
    (fun type initialized other => (ordered type initialized other).congr (holds.same_members type))
    fun type initialized other => (aOrdered type initialized other).congr (aHolds.same_members type)
  have stepped : step ctzZero world (.union index other) =
      ⟨update (update world.objects other changed) index united,
        update world.added index (world.added index ++ world.added other)⟩ := by
    simp only [step, done]
  rw [stepped]
  intro place
  by_cases here : place = index
  · subst here
    simp only [update_self]
    exact ⟨kept, rest⟩
  · simp only [update_of_ne here]
    by_cases there : place = other
    · subst there
      simp only [update_self]
      exact ⟨aKept, aRest⟩
    · simp only [update_of_ne there]
      exact invariant place

include admitted in
theorem invariant_repack {world : World} (invariant : Invariant ctzZero para world) (index : Nat)
    (ndvEstimator : UInt64) :
    Invariant ctzZero para (step ctzZero world (.repack index ndvEstimator)) := by
  obtain ⟨holds, atRest⟩ := invariant index
  have same : step ctzZero world (.repack index ndvEstimator) = world := by
    by_cases type : (world.objects index).hlltype = .uninit
    · have error : hllObjectPack ndvEstimator (world.objects index) = none := if_pos type
      simp only [step, error, Option.bind_none]
    · have restored := hllObjectUnpack_pack (holds.hllpara ▸ admitted) atRest type ndvEstimator
      simp only [step, restored, update_eq_self]
  rw [same]
  exact invariant

include admitted in
theorem invariant_step (unchecked : para.duplicateCheck = 0) (world : World) (event : Event)
    (harmless : Harmless ctzZero world event) (invariant : Invariant ctzZero para world) :
    Invariant ctzZero para (step ctzZero world event) := by
  cases event with
  | add index hashval => exact invariant_add admitted unchecked invariant harmless
  | union index other => exact invariant_union admitted invariant harmless
  | repack index ndvEstimator => exact invariant_repack admitted invariant index ndvEstimator

/-- While no explicit object loses a value on its way to full mode, every object denotes the greatest
values of what was added, whatever mode it is in. -/
theorem registerOf_run (admitted : para.Admitted) (unchecked : para.duplicateCheck = 0) {events : List Event}
    (harmless : Along (step ctzZero) (Harmless ctzZero) (start para) events) (index register : Nat) :
    registerOf ctzZero ((run (step ctzZero) (start para) events).objects index) register =
      greatest (hllHashToValue ctzZero para) ((run (step ctzZero) (start para) events).added index)
        register :=
  have invariant := run_invariant_along (Invariant ctzZero para)
    (invariant_step admitted unchecked) harmless invariant_start
  (invariant index).1.registers register

include admitted in
/-- The registers depend on the set of values that came to an object alone, and grow with it. -/
theorem registerOf_mono (unchecked : para.duplicateCheck = 0) {events others : List Event}
    (harmless : Along (step ctzZero) (Harmless ctzZero) (start para) events)
    (also : Along (step ctzZero) (Harmless ctzZero) (start para) others) {index other : Nat}
    (subset : (run (step ctzZero) (start para) events).added index ⊆
      (run (step ctzZero) (start para) others).added other) (register : Nat) :
    registerOf ctzZero ((run (step ctzZero) (start para) events).objects index) register ≤
      registerOf ctzZero ((run (step ctzZero) (start para) others).objects other) register := by
  have keeps := @invariant_step ctzZero para admitted unchecked
  have less := run_invariant_along (Invariant ctzZero para) keeps harmless invariant_start index
  have more := run_invariant_along (Invariant ctzZero para) keeps also invariant_start other
  rw [less.1.registers, more.1.registers]
  exact greatest_le_iff.mpr fun _ member => share_le_greatest (subset member)

theorem registerOf_mono_sample : registerOf 64 ((run (step 64) (start ⟨10, 3, 0, 0⟩) [.add 0 5]).objects 0) 0 ≤
    registerOf 64 ((run (step 64) (start ⟨10, 3, 0, 0⟩) [.add 0 8, .add 0 5]).objects 0) 0 := by
  apply registerOf_mono ⟨by decide, by decide, by decide, by decide⟩ rfl
  · exact ⟨by unfold Harmless; decide +kernel, trivial⟩
  · refine ⟨?_, ?_, trivial⟩ <;> (unfold Harmless; decide +kernel)
  · decide +kernel

end Runs

/-- Two hashes of one register fill explicit mode, and the larger one has the greater value. -/
theorem registerOf_run_full : registerOf 64 ((run (step 64) (start ⟨10, 3, 0, 0⟩)
      [.add 0 5, .add 0 8, .repack 0 7, .add 1 9, .union 0 1]).objects 0) 0 = 4 := by
  have admitted : HllPara.Admitted ⟨10, 3, 0, 0⟩ :=
    ⟨by decide, by decide, by decide, by decide⟩
  have harmless : Along (step 64) (Harmless 64) (start ⟨10, 3, 0, 0⟩)
      [.add 0 5, .add 0 8, .repack 0 7, .add 1 9, .union 0 1] := by
    refine ⟨?_, ?_, ?_, ?_, ?_, trivial⟩ <;> (unfold Harmless; decide +kernel)
  rw [registerOf_run admitted rfl harmless]
  decide +kernel

/-- Two hashes of one register, too many for explicit mode, the larger one with the smaller value:
full mode keeps the smaller value. -/
theorem registerOf_overwritten :
    ¬ ∀ (ctzZero : Nat) (para : HllPara), para.Admitted → para.duplicateCheck = 0 →
      ∀ (events : List Event) (index register : Nat),
        registerOf ctzZero ((run (step ctzZero) (start para) events).objects index) register =
          greatest (hllHashToValue ctzZero para)
            ((run (step ctzZero) (start para) events).added index) register := by
  intro all
  have para : HllPara.Admitted ⟨10, 3, 0, 0⟩ :=
    ⟨by decide, by decide, by decide, by decide⟩
  have same := all 64 ⟨10, 3, 0, 0⟩ para rfl [.add 0 4, .add 0 5] 0 0
  revert same
  decide +kernel

end OpenGauss.Hll
