import OpenGauss.UStore.DiskTuple

/-! Deforming a tuple part by part into a slot, `SlotDeformUTuple` of `knl_utuple.cpp`. The slot
keeps the offset from call to call. The count of nulls, by which a reserve bit is found, starts
anew. -/

namespace OpenGauss.UStore

structure TupleTableSlot where
  nvalid : Nat
  values : Nat → Option Datum
  off : Int

def slotDeformUTuple (desc : TupleDesc) (tuple : UHeapDiskTuple) (slot : TupleTableSlot) (natts : Nat) :
    TupleTableSlot :=
  let nattsAvailable := min tuple.natts natts
  let start : DeformState :=
    { off := if slot.nvalid ≠ 0 then slot.off else tuple.tHoff, values := slot.values }
  let done := deformLoop desc tuple start slot.nvalid nattsAvailable
  let attnum := max slot.nvalid nattsAvailable
  { nvalid := max attnum natts
    values := initDefLoop desc done.values attnum natts
    off := done.off }

def slotDeformRun (desc : TupleDesc) (tuple : UHeapDiskTuple) (slot : TupleTableSlot) (requests : List Nat) :
    TupleTableSlot :=
  requests.foldl (slotDeformUTuple desc tuple) slot

/-- A call that resumes at `attnum` finds the reserve bit of each null, as far as a value below `last` is
behind it, though it counts nulls from `attnum`. -/
def FindsReserveBits (desc : TupleDesc) (isNulls : Nat → Bool) (enableReserve : Bool)
    (attnum natts last : Nat) :
    Prop :=
  attnum ≠ 0 → nAttrsReserveSpace desc.natts = true →
    ∀ i, attnum ≤ i → i < natts → isNulls i = true → (∃ later < last, i < later ∧ isNulls later = false) →
      (reserves desc isNulls enableReserve desc.natts).getD
        (nullsBefore isNulls i - nullsBefore isNulls attnum) false = reserved desc enableReserve i

/-- `FindsReserveBits` for call after call, the first one from `attnum` on. -/
def ResumesFind (desc : TupleDesc) (isNulls : Nat → Bool) (enableReserve : Bool) (last : Nat) :
    Nat → List Nat → Prop
  | _, [] => True
  | attnum, natts :: rest =>
    FindsReserveBits desc isNulls enableReserve attnum natts last ∧
      ResumesFind desc isNulls enableReserve last natts rest

section Loop

variable {desc : TupleDesc} {tup : UHeapDiskTuple}

variable (state : DeformState)

@[simp] theorem deformLoop_self (attnum : Nat) :
    deformLoop desc tup state attnum attnum = state := by
  rw [deformLoop, Nat.sub_self]
  rfl

theorem deformLoop_succ {attnum natts : Nat} (order : attnum ≤ natts) :
    deformLoop desc tup state attnum (natts + 1) =
      deformAttr desc tup (deformLoop desc tup state attnum natts) natts := by
  rw [deformLoop, Nat.succ_sub order, List.range'_concat, List.foldl_append, Nat.one_mul,
    Nat.add_sub_cancel' order]
  rfl

theorem deformAttr_null {state : DeformState} {attnum : Nat}
    (null : (tup.hasNulls && attIsnull attnum tup.data) = true) :
    deformAttr desc tup state attnum =
      { off := nullSkip tup (desc.attrs attnum) state.nullcount state.off
        nullcount := state.nullcount + 1
        values := Function.update state.values attnum none } := by
  rw [deformAttr, if_pos null]

theorem deformAttr_value {state : DeformState} {attnum : Nat}
    (value : (tup.hasNulls && attIsnull attnum tup.data) = false) :
    deformAttr desc tup state attnum =
      { state with
        off := attAddlengthPointer (attStart tup (desc.attrs attnum) state.off) (desc.attrs attnum).attlen
          (tup.tupPtr (attStart tup (desc.attrs attnum) state.off))
        values := Function.update state.values attnum
          (some (fetchatt (desc.attrs attnum) tup (attStart tup (desc.attrs attnum) state.off))) } := by
  rw [deformAttr, if_neg (by rw [value]; decide)]

theorem deformLoop_values {attnum natts att : Nat} (outside : att < attnum ∨ natts ≤ att) :
    (deformLoop desc tup state attnum natts).values att = state.values att := by
  by_cases order : attnum ≤ natts
  · induction natts, order using Nat.le_induction with
    | base => rw [deformLoop_self]
    | succ natts order hyp =>
      have other : att ≠ natts := by omega
      rw [deformLoop_succ state order]
      cases null : (tup.hasNulls && attIsnull natts tup.data) with
      | true =>
        rw [deformAttr_null null]
        exact (Function.update_of_ne other _ _).trans (hyp (by omega))
      | false =>
        rw [deformAttr_value null]
        exact (Function.update_of_ne other _ _).trans (hyp (by omega))
  · rw [deformLoop, Nat.sub_eq_zero_of_le (by omega)]
    rfl

theorem deformLoop_deformLoop {attnum between natts : Nat} (order : attnum ≤ between)
    (further : between ≤ natts) :
    deformLoop desc tup (deformLoop desc tup state attnum between) between natts =
      deformLoop desc tup state attnum natts := by
  induction natts, further using Nat.le_induction with
  | base => rw [deformLoop_self]
  | succ natts further hyp => rw [deformLoop_succ _ further, hyp, deformLoop_succ _ (order.trans further)]

/-- Deforming stops behind the last attribute that the tuple has, and an attribute has its value as soon as the
loop has passed it. -/
theorem uheapDeformTuple_loop (old : Nat → Option Datum) {attnum natts : Nat} (before : attnum < natts)
    (inside : natts ≤ tup.natts) (known : natts ≤ desc.natts) :
    uheapDeformTuple desc tup old attnum =
      (deformLoop desc tup { off := tup.tHoff, values := old } 0 natts).values attnum := by
  rw [uheapDeformTuple, uheapDeformTupleGuts]
  have upTo : natts ≤ min tup.natts desc.natts := by omega
  generalize min tup.natts desc.natts = available at upTo ⊢
  have kept : initDefLoop desc (deformLoop desc tup { off := tup.tHoff, values := old } 0 available).values
      available desc.natts attnum =
        (deformLoop desc tup { off := tup.tHoff, values := old } 0 available).values attnum := if_neg (by omega)
  rw [kept, ← deformLoop_deformLoop _ (Nat.zero_le natts) upTo, deformLoop_values _ (.inl before)]

/-- What deforming gives for an attribute that the tuple has. -/
theorem uheapDeformTuple_inside (old : Nat → Option Datum) {attnum : Nat} (inside : attnum < tup.natts)
    (known : attnum < desc.natts) :
    uheapDeformTuple desc tup old attnum = if tup.hasNulls && attIsnull attnum tup.data then none
      else some (fetchatt (desc.attrs attnum) tup (attStart tup (desc.attrs attnum)
        (deformLoop desc tup { off := tup.tHoff, values := old } 0 attnum).off)) := by
  rw [uheapDeformTuple_loop old (Nat.lt_succ_self attnum) inside known, deformLoop_succ _ (Nat.zero_le _)]
  cases null : (tup.hasNulls && attIsnull attnum tup.data) with
  | true =>
    rw [deformAttr_null null, if_pos rfl]
    exact Function.update_self _ _ _
  | false =>
    rw [deformAttr_value null, if_neg (by decide)]
    exact Function.update_self _ _ _

end Loop

section Follow

variable {desc : TupleDesc} {tup : UHeapDiskTuple} {enableReserve : Bool} {isNulls : Nat → Bool}

/-- A part that began at `attnum` has come to `att`, where the whole loop has come too. Behind the last value
the offset does not matter. -/
structure Follows (isNulls : Nat → Bool) (last attnum att : Nat) (part whole : DeformState) : Prop where
  partNulls : part.nullcount = nullsBefore isNulls att - nullsBefore isNulls attnum
  wholeNulls : whole.nullcount = nullsBefore isNulls att
  off : part.off = whole.off ∨ ∀ later < last, att ≤ later → isNulls later = true
  values : ∀ before < att, part.values before = whole.values before

variable {part whole : DeformState} {last attnum natts : Nat} {old : Nat → Option Datum}
  {slot : TupleTableSlot}

theorem Follows.step (formed : tup.Formed desc enableReserve isNulls) {last attnum att natts : Nat}
    (finds : FindsReserveBits desc isNulls enableReserve attnum natts last)
    (follows : Follows isNulls last attnum att part whole) (began : attnum ≤ att) (inside : att < natts)
    (known : natts ≤ desc.natts) (upTo : natts ≤ last) :
    Follows isNulls last attnum (att + 1) (deformAttr desc tup part att) (deformAttr desc tup whole att) := by
  have here := formed.nulls att (inside.trans_le known)
  have values (first second : Option Datum) (same : first = second) :
      ∀ before < att + 1, Function.update part.values att first before =
        Function.update whole.values att second before := by
    intro before within
    rw [same]
    by_cases own : before = att
    · rw [own, Function.update_self, Function.update_self]
    · rw [Function.update_of_ne own, Function.update_of_ne own]
      exact follows.values before (by omega)
  cases null : isNulls att with
  | true =>
    rw [null] at here
    rw [deformAttr_null here, deformAttr_null here]
    have more := nullsBefore_succ isNulls att
    rw [null, if_pos rfl] at more
    have order := nullsBefore_mono isNulls began
    refine ⟨?_, ?_, ?_, values none none rfl⟩
    · change part.nullcount + 1 = _
      rw [follows.partNulls]
      omega
    · change whole.nullcount + 1 = _
      rw [follows.wholeNulls, more]
    · rcases follows.off with same | rest
      · by_cases behind : ∃ later < last, att < later ∧ isNulls later = false
        · left
          have total : nullsBefore isNulls (att + 1) ≤ nullsBefore isNulls desc.natts :=
            nullsBefore_mono isNulls (inside.trans_le known)
          change nullSkip tup _ part.nullcount part.off = nullSkip tup _ whole.nullcount whole.off
          rw [same, follows.partNulls, follows.wholeNulls]
          unfold nullSkip
          cases reverse : nAttrsReserveSpace tup.natts with
          | false => rfl
          | true =>
            rw [formed.natts] at reverse ⊢
            have own : (reserves desc isNulls enableReserve desc.natts).getD (nullsBefore isNulls att) false =
                reserved desc enableReserve att :=
              reserveList_getD _ (inside.trans_le known) null
            have read : (reserves desc isNulls enableReserve desc.natts).getD
                (nullsBefore isNulls att - nullsBefore isNulls attnum) false =
                reserved desc enableReserve att := by
              by_cases start : attnum = 0
              · rw [start, nullsBefore_zero, Nat.sub_zero, own]
              · exact finds start reverse att began inside null behind
            rw [formed.reserveBits reverse _ (by omega), formed.reserveBits reverse _ (by omega), read, own]
        · right
          intro later below after
          by_contra value
          exact behind ⟨later, below, by omega, Bool.eq_false_iff.mpr value⟩
      · exact .inr fun later below after => rest later below (by omega)
  | false =>
    rw [null] at here
    rw [deformAttr_value here, deformAttr_value here]
    have more : nullsBefore isNulls (att + 1) = nullsBefore isNulls att := by
      rw [nullsBefore_succ, null]
      rfl
    have same : part.off = whole.off := by
      refine follows.off.resolve_right fun rest => ?_
      rw [rest att (inside.trans_le upTo) le_rfl] at null
      cases null
    refine ⟨?_, ?_, .inl ?_, values _ _ ?_⟩
    · rw [more]
      exact follows.partNulls
    · rw [more]
      exact follows.wholeNulls
    · rw [same]
    · rw [same]

theorem Follows.loop (formed : tup.Formed desc enableReserve isNulls)
    (finds : FindsReserveBits desc isNulls enableReserve attnum natts last)
    (start : Follows isNulls last attnum attnum part whole) (order : attnum ≤ natts)
    (known : natts ≤ desc.natts) (upTo : natts ≤ last) :
    Follows isNulls last attnum natts (deformLoop desc tup part attnum natts)
      (deformLoop desc tup whole attnum natts) := by
  have each (att : Nat) (began : attnum ≤ att) (within : att ≤ natts) :
      Follows isNulls last attnum att (deformLoop desc tup part attnum att)
        (deformLoop desc tup whole attnum att) := by
    induction att, began using Nat.le_induction with
    | base => rwa [deformLoop_self, deformLoop_self]
    | succ att began hyp =>
      rw [deformLoop_succ _ began, deformLoop_succ _ began]
      exact (hyp (by omega)).step formed finds began (by omega) known upTo
  exact each natts order le_rfl

/-- The slot has what the loop over all attributes has after `natts` of them. -/
structure Deformed (desc : TupleDesc) (tup : UHeapDiskTuple) (isNulls : Nat → Bool) (last : Nat)
    (old : Nat → Option Datum) (slot : TupleTableSlot) (natts : Nat) : Prop where
  nvalid : slot.nvalid = natts
  nulls : (deformLoop desc tup { off := tup.tHoff, values := old } 0 natts).nullcount =
    nullsBefore isNulls natts
  off : natts = 0 ∨ slot.off = (deformLoop desc tup { off := tup.tHoff, values := old } 0 natts).off ∨
    ∀ later < last, natts ≤ later → isNulls later = true
  values : ∀ att < natts, slot.values att =
    (deformLoop desc tup { off := tup.tHoff, values := old } 0 natts).values att

theorem Deformed.next (formed : tup.Formed desc enableReserve isNulls)
    (deformed : Deformed desc tup isNulls last old slot attnum)
    (finds : FindsReserveBits desc isNulls enableReserve attnum natts last) (order : attnum ≤ natts)
    (known : natts ≤ desc.natts) (upTo : natts ≤ last) :
    Deformed desc tup isNulls last old (slotDeformUTuple desc tup slot natts) natts := by
  have available : min tup.natts natts = natts := Nat.min_eq_right (formed.natts ▸ known)
  have start : Follows isNulls last attnum attnum
      { off := if slot.nvalid ≠ 0 then slot.off else tup.tHoff, values := slot.values }
      (deformLoop desc tup { off := tup.tHoff, values := old } 0 attnum) := by
    refine ⟨(Nat.sub_self _).symm, deformed.nulls, ?_, deformed.values⟩
    rcases deformed.off with zero | same | rest
    · rw [deformed.nvalid, zero, deformLoop_self]
      exact .inl rfl
    · by_cases zero : attnum = 0
      · rw [deformed.nvalid, zero, deformLoop_self]
        exact .inl rfl
      · left
        change (if slot.nvalid ≠ 0 then slot.off else _) = _
        rw [deformed.nvalid, if_pos zero, same]
    · exact .inr rest
  have follows := start.loop formed finds order known upTo
  rw [deformLoop_deformLoop _ (Nat.zero_le _) order] at follows
  have result : slotDeformUTuple desc tup slot natts =
      { nvalid := natts
        values := (deformLoop desc tup
          { off := if slot.nvalid ≠ 0 then slot.off else tup.tHoff, values := slot.values } attnum natts).values
        off := (deformLoop desc tup
          { off := if slot.nvalid ≠ 0 then slot.off else tup.tHoff, values := slot.values } attnum
          natts).off } := by
    have absent (values : Nat → Option Datum) : initDefLoop desc values natts natts = values := by
      funext att
      exact if_neg (by omega)
    rw [slotDeformUTuple, available, deformed.nvalid, Nat.max_eq_right order, Nat.max_self, absent]
  rw [result]
  exact ⟨rfl, follows.wholeNulls, .inr follows.off, follows.values⟩

theorem Deformed.run (formed : tup.Formed desc enableReserve isNulls) {last : Nat} {requests : List Nat}
    {attnum : Nat} (deformed : Deformed desc tup isNulls last old slot attnum)
    (finds : ResumesFind desc isNulls enableReserve last attnum requests)
    (increasing : requests.Pairwise (· < ·)) (order : ∀ natts ∈ requests, attnum ≤ natts)
    (known : ∀ natts ∈ requests, natts ≤ desc.natts) (upTo : ∀ natts ∈ requests, natts ≤ last) :
    Deformed desc tup isNulls last old (slotDeformRun desc tup slot requests) (requests.getLastD attnum) := by
  induction requests generalizing attnum slot with
  | nil => exact deformed
  | cons natts rest hyp =>
    rw [List.getLastD_cons]
    rw [List.pairwise_cons] at increasing
    have here := List.mem_cons_self (a := natts) (l := rest)
    refine hyp (deformed.next formed finds.1 (order natts here) (known natts here) (upTo natts here)) finds.2
      increasing.2 (fun later member => (increasing.1 later member).le)
      (fun later member => known later (List.mem_cons_of_mem _ member))
      fun later member => upTo later (List.mem_cons_of_mem _ member)

end Follow

theorem le_getLastD {requests : List Nat} (increasing : requests.Pairwise (· < ·)) :
    ∀ natts ∈ requests, natts ≤ requests.getLastD 0 := by
  intro natts member
  rcases List.eq_nil_or_concat requests with rfl | ⟨front, last, rfl⟩
  · cases member
  · rw [List.concat_eq_append] at *
    rw [List.getLastD_concat]
    rcases List.mem_append.mp member with before | own
    · exact ((List.pairwise_append.mp increasing).2.2 natts before last (List.mem_singleton_self _)).le
    · exact (List.mem_singleton.mp own).le

/-- Where every call finds the reserve bits of its nulls, deforming part by part gives what deforming at once
gives. -/
theorem slotDeformRun_values {desc : TupleDesc} {reserveSpace : Bool} {columns : Nat → List UInt8}
    {isNulls : Nat → Bool} {tup : UHeapDiskTuple}
    (formed : uheapFormTuple desc reserveSpace columns isNulls = some tup) {requests : List Nat}
    (increasing : requests.Pairwise (· < ·)) (known : ∀ natts ∈ requests, natts ≤ desc.natts)
    {slot : TupleTableSlot} (fresh : slot.nvalid = 0)
    (finds : ResumesFind desc isNulls (reserveSpace && nAttrsReserveSpace desc.natts) (requests.getLastD 0) 0
      requests) (old : Nat → Option Datum) :
    ∀ att < requests.getLastD 0,
      (slotDeformRun desc tup slot requests).values att = uheapDeformTuple desc tup old att := by
  have facts := uheapFormTuple_formed formed
  have start : Deformed desc tup isNulls (requests.getLastD 0) old slot 0 :=
    ⟨fresh, rfl, .inl rfl, fun att before => absurd before (Nat.not_lt_zero att)⟩
  have done := start.run facts finds increasing (fun _ _ => Nat.zero_le _) known (le_getLastD increasing)
  intro att before
  have inside : requests.getLastD 0 ≤ desc.natts := by
    rcases List.eq_nil_or_concat requests with rfl | ⟨front, last, rfl⟩
    · exact Nat.zero_le _
    · rw [List.concat_eq_append, List.getLastD_concat]
      exact known last (by simp)
  rw [done.values att before, uheapDeformTuple_loop old before (facts.natts ▸ inside) inside]

def textAndIntegers : TupleDesc where
  natts := 3
  attrs := fun attnum =>
    if attnum = 0 then ⟨-1, false, .int, .extended, false, .inl rfl, nofun, nofun⟩
    else ⟨4, true, .int, .plain, false, .inr (.inr (by decide)), fun _ => by decide, nofun⟩

theorem slotDeformRun_values_sample :
    (slotDeformRun textAndIntegers ⟨3, true, true, 12, [13, 5, 7, 0, 0, 0, 0, 9, 0, 0, 0]⟩
        ⟨0, fun _ => none, 0⟩ [1, 3]).values 2 =
      uheapDeformTuple textAndIntegers ⟨3, true, true, 12, [13, 5, 7, 0, 0, 0, 0, 9, 0, 0, 0]⟩
        (fun _ => none) 2 := by
  have formed : uheapFormTuple textAndIntegers true (fun att => if att = 0 then [5, 7] else [9, 0, 0, 0])
      (fun att => att == 1) = some ⟨3, true, true, 12, [13, 5, 7, 0, 0, 0, 0, 9, 0, 0, 0]⟩ := by decide
  have increasing : [1, 3].Pairwise (· < ·) := by decide
  refine slotDeformRun_values formed increasing (by decide) rfl ⟨fun start => absurd rfl start, ?_, trivial⟩ _ 2
    (by decide)
  intro _ _ i began inside null _
  have own : i = 1 := by simpa using null
  subst own
  decide

/-- The null that follows a null without reserved space is taken for one without. -/
theorem not_slotDeformRun_values :
    ¬ ∀ (desc : TupleDesc) (reserveSpace : Bool) (columns : Nat → List UInt8) (isNulls : Nat → Bool)
      (tup : UHeapDiskTuple), uheapFormTuple desc reserveSpace columns isNulls = some tup →
        ∀ requests : List Nat, requests.Pairwise (· < ·) → (∀ natts ∈ requests, natts ≤ desc.natts) →
          ∀ slot : TupleTableSlot, slot.nvalid = 0 → ∀ att < requests.getLastD 0,
            (slotDeformRun desc tup slot requests).values att = uheapDeformTuple desc tup slot.values att := by
  intro claim
  have same := claim textAndIntegers true (fun _ => [9, 0, 0, 0]) (fun att => att != 2)
    ⟨3, true, false, 12, [20, 0, 0, 0, 0, 9, 0, 0, 0]⟩ (by decide) [1, 3] (by decide) (by decide)
    ⟨0, fun _ => none, 0⟩ rfl 2 (by decide)
  revert same
  decide

end OpenGauss.UStore
