import OpenGauss.UStore.SlotDeform

/-! Fetching one attribute by cached offsets, `UHeapNoCacheGetAttr` of `knl_utuple.cpp`. An offset
is cached relative to the end of the header, while alignment is from the start of the tuple. -/

namespace OpenGauss.UStore

/-- `attcacheoff` of the attributes; what is not positive is not used but for the first attribute. -/
abbrev CachedOffsets := Nat → Int

/-- The check of the bytes of the bitmap for a null before the attribute. -/
def nullBefore (bp : List UInt8) (attnum : Nat) : Bool :=
  let byte := attnum / isnullAttrsPerByte
  let finalbit := attnum % isnullAttrsPerByte
  (~~~(bp.getD byte 0)).toNat &&& (2 ^ finalbit - 1) != 0 ||
    (List.range byte).any fun i => bp.getD i 0 != 0xFF

variable (desc : TupleDesc)

def walksTuple (tup : UHeapDiskTuple) (attnum : Nat) : Bool :=
  tup.hasNulls && nullBefore tup.data attnum ||
    tup.hasVarWidth && (List.range (attnum + 1)).any (fun j => (desc.attrs j).attlen ≤ 0) ||
    (desc.attrs 0).attlen ≤ 0

/-- The offset at which an attribute of fixed length starts that could start at `off`. -/
def fixedStart (att : FormPgAttribute) (off : Int) : Int :=
  if att.attbyval then off else attAlignNominal off att.attalign

def skipCached (attcacheoff : CachedOffsets) (natts : Nat) : Nat → Nat → Nat
  | 0, j => j
  | rounds + 1, j =>
    if j < natts ∧ 0 < attcacheoff j then skipCached attcacheoff natts rounds (j + 1) else j

/-- The loop that caches the offsets of the leading attributes of fixed length. -/
def cacheLoop (desc : TupleDesc) (hoff : Int) : Nat → Nat → Int → CachedOffsets → CachedOffsets
  | 0, _, _, attcacheoff => attcacheoff
  | rounds + 1, j, off, attcacheoff =>
    if j < desc.natts ∧ 0 < (desc.attrs j).attlen then
      let start := fixedStart (desc.attrs j) off
      cacheLoop desc hoff rounds (j + 1) (start + (desc.attrs j).attlen)
        (Function.update attcacheoff j (start - hoff))
    else attcacheoff

def cacheLeading (hoff : Int) (attcacheoff : CachedOffsets) : CachedOffsets :=
  let first := Function.update attcacheoff 0
    (if (desc.attrs 0).attbyval then 0 else attAlignNominal hoff (desc.attrs 0).attalign - hoff)
  let j := skipCached first desc.natts desc.natts 1
  cacheLoop desc hoff (desc.natts - j) j (first (j - 1) + (desc.attrs (j - 1)).attlen + hoff) first

structure WalkState where
  off : Int
  nullcount : Nat := 0
  usecache : Bool := true
  attcacheoff : CachedOffsets

def walkAttr (tup : UHeapDiskTuple) (attnum : Nat) (state : WalkState) (i : Nat) :
    WalkState :=
  let att := desc.attrs i
  if tup.hasNulls && attIsnull i tup.data then
    { state with
      off := nullSkip tup att state.nullcount state.off
      nullcount := state.nullcount + 1
      usecache := false }
  else
    let off := attStart tup att state.off
    let attcacheoff :=
      if att.attbyval && state.usecache then Function.update state.attcacheoff i (off - tup.tHoff)
      else state.attcacheoff
    if i = attnum then { state with off, attcacheoff }
    else
      { state with
        off := attAddlengthPointer off att.attlen (tup.tupPtr off)
        usecache := state.usecache && 0 < att.attlen
        attcacheoff }

/-- The attribute, counted from 0, and the cache afterwards. -/
def uheapNoCacheGetAttr (tuple : UHeapDiskTuple) (attcacheoff : CachedOffsets)
    (attnum : Nat) : Datum × CachedOffsets :=
  if walksTuple desc tuple attnum then
    let done := (List.range (attnum + 1)).foldl (walkAttr desc tuple attnum)
      { off := tuple.tHoff, attcacheoff }
    (fetchatt (desc.attrs attnum) tuple done.off, done.attcacheoff)
  else
    let cached := cacheLeading desc tuple.tHoff attcacheoff
    (fetchatt (desc.attrs attnum) tuple (cached attnum + tuple.tHoff), cached)

structure AttrCall where
  tuple : UHeapDiskTuple
  attnum : Nat

def getAttrs (desc : TupleDesc) : CachedOffsets → List AttrCall → List Datum
  | _, [] => []
  | attcacheoff, call :: rest =>
    let (datum, cached) := uheapNoCacheGetAttr desc call.tuple attcacheoff call.attnum
    datum :: getAttrs desc cached rest

section Walk

variable {desc : TupleDesc} {tup : UHeapDiskTuple} {enableReserve : Bool} {isNulls : Nat → Bool}

theorem nullBefore_false {bp : List UInt8} {attnum : Nat} (clear : nullBefore bp attnum = false) :
    ∀ i < attnum, attIsnull i bp = false := by
  intro i before
  simp only [nullBefore, Bool.or_eq_false_iff, bne_eq_false_iff_eq, List.any_eq_false, List.mem_range] at clear
  obtain ⟨last, earlier⟩ := clear
  have place : i % isnullAttrsPerByte < 8 := Nat.mod_lt _ (by decide)
  unfold attIsnull
  rcases Nat.lt_or_eq_of_le (Nat.div_le_div_right (c := isnullAttrsPerByte) before.le) with less | same
  · have full : bp.getD (i / isnullAttrsPerByte) 0 = 0xFF := by
      have whole := earlier _ less
      simpa using whole
    rw [full]
    change (!(2 ^ 8 - 1).testBit _) = false
    rw [Nat.testBit_two_pow_sub_one, decide_eq_true place]
    rfl
  · have within : i % isnullAttrsPerByte < attnum % isnullAttrsPerByte := by
      have first := Nat.div_add_mod i isnullAttrsPerByte
      have second := Nat.div_add_mod attnum isnullAttrsPerByte
      rw [same] at first
      omega
    rw [Nat.and_two_pow_sub_one_eq_mod, ← same] at last
    have bit := congrArg (fun value => value.testBit (i % isnullAttrsPerByte)) last
    have byte := (bp.getD (i / isnullAttrsPerByte) 0).toNat_lt
    simp only [Nat.testBit_mod_two_pow, Nat.zero_testBit, decide_eq_true within, Bool.true_and,
      UInt8.toNat_not] at bit
    change (2 ^ 8 - 1 - _).testBit _ = false at bit
    rw [Nat.sub_sub, Nat.add_comm 1, Nat.testBit_two_pow_sub_succ byte, decide_eq_true place,
      Bool.true_and] at bit
    exact bit

structure Walks (deformed : DeformState) (state : WalkState) : Prop where
  off : state.off = deformed.off
  nullcount : state.nullcount = deformed.nullcount

theorem walkAttr_walks {attnum i : Nat} (other : i ≠ attnum) {deformed : DeformState} {state : WalkState}
    (walks : Walks deformed state) :
    Walks (deformAttr desc tup deformed i) (walkAttr desc tup attnum state i) := by
  unfold walkAttr deformAttr
  split_ifs
  · exact ⟨by rw [walks.off, walks.nullcount], congrArg Nat.succ walks.nullcount⟩
  · exact ⟨by rw [walks.off], walks.nullcount⟩

theorem walk_walks (old : Nat → Option Datum) (attcacheoff : CachedOffsets) {attnum count : Nat}
    (within : count ≤ attnum) :
    Walks (deformLoop desc tup { off := tup.tHoff, values := old } 0 count)
      ((List.range count).foldl (walkAttr desc tup attnum) { off := tup.tHoff, attcacheoff }) := by
  induction count with
  | zero => exact ⟨rfl, rfl⟩
  | succ count hyp =>
    rw [deformLoop_succ _ (Nat.zero_le _), List.range_succ, List.foldl_append]
    exact walkAttr_walks (by omega) (hyp (Nat.le_of_succ_le within))

/-- What deforming gives for an attribute that is not null. -/
theorem uheapDeformTuple_value (formed : tup.Formed desc enableReserve isNulls) (old : Nat → Option Datum)
    {attnum : Nat} (inside : attnum < desc.natts) (value : isNulls attnum = false) :
    uheapDeformTuple desc tup old attnum = some (fetchatt (desc.attrs attnum) tup
      (attStart tup (desc.attrs attnum)
      (deformLoop desc tup { off := tup.tHoff, values := old } 0 attnum).off)) := by
  rw [uheapDeformTuple_inside old (formed.natts ▸ inside) inside, formed.nulls attnum inside, value]
  rfl

theorem walk_value (formed : tup.Formed desc enableReserve isNulls) (old : Nat → Option Datum)
    (attcacheoff : CachedOffsets) {attnum : Nat} (inside : attnum < desc.natts) (value : isNulls attnum = false)
    (walks : walksTuple desc tup attnum = true) :
    some (uheapNoCacheGetAttr desc tup attcacheoff attnum).1 = uheapDeformTuple desc tup old attnum := by
  rw [uheapNoCacheGetAttr, if_pos walks, uheapDeformTuple_value formed old inside value, List.range_succ,
    List.foldl_append, List.foldl_cons, List.foldl_nil]
  have before := @walk_walks desc tup old attcacheoff attnum attnum le_rfl
  have here := (formed.nulls attnum inside).trans value
  simp only
  rw [walkAttr, if_neg (by rw [here]; decide), if_pos rfl, before.off]

end Walk

/-- Where the leading attributes start and end if they are all of fixed length and none is null. -/
def leadingEnd (desc : TupleDesc) (hoff : Int) : Nat → Int
  | 0 => hoff
  | j + 1 => fixedStart (desc.attrs j) (leadingEnd desc hoff j) + (desc.attrs j).attlen

/-- The attributes up to this one are of fixed length. -/
def Leading (j : Nat) : Prop := ∀ i ≤ j, 0 < (desc.attrs i).attlen

/-- What is cached is right for a header of this length. -/
def CacheSound (hoff : Int) (attcacheoff : CachedOffsets) : Prop :=
  ∀ j < desc.natts, 0 < attcacheoff j →
    Leading desc j ∧ attcacheoff j = fixedStart (desc.attrs j) (leadingEnd desc hoff j) - hoff

/-- Two lengths of headers align the leading attributes alike. -/
def AlignsAlike (hoff other : Int) : Prop :=
  ∀ j < desc.natts, Leading desc j → (desc.attrs j).attbyval = false →
    ((desc.attrs j).attalign.width : Int) ∣ other - hoff

section Cache

variable {desc : TupleDesc}

theorem attAlignNominal_add (off : Int) {attalign : AttAlign} {shift : Int}
    (whole : (attalign.width : Int) ∣ shift) :
    attAlignNominal (off + shift) attalign = attAlignNominal off attalign + shift := by
  obtain ⟨count, rfl⟩ := whole
  have positive : (attalign.width : Int) ≠ 0 := by cases attalign <;> decide
  rw [attAlignNominal, attAlignNominal, Int.add_right_comm, Int.add_mul_ediv_left _ _ positive, Int.add_mul,
    Int.mul_comm count]

variable {j : Nat} {attcacheoff : CachedOffsets} {hoff : Int}

theorem fixedStart_add {hoff other : Int} (alike : AlignsAlike desc hoff other) (inside : j < desc.natts)
    (leading : Leading desc j) (off : Int) :
    fixedStart (desc.attrs j) (off + (other - hoff)) = fixedStart (desc.attrs j) off + (other - hoff) := by
  unfold fixedStart
  cases byval : (desc.attrs j).attbyval with
  | true => rfl
  | false => exact attAlignNominal_add off (alike j inside leading byval)

theorem leadingEnd_add {hoff other : Int} (alike : AlignsAlike desc hoff other) (inside : j ≤ desc.natts)
    (leading : ∀ i < j, 0 < (desc.attrs i).attlen) :
    leadingEnd desc other j = leadingEnd desc hoff j + (other - hoff) := by
  induction j with
  | zero => exact (add_sub_cancel hoff other).symm
  | succ j hyp =>
    rw [leadingEnd, leadingEnd, hyp (Nat.le_of_succ_le inside) fun i before =>
      leading i (Nat.lt_succ_of_lt before),
      fixedStart_add alike inside fun i within => leading i (Nat.lt_succ_of_le within)]
    ring

theorem CacheSound.alike {hoff other : Int} (sound : CacheSound desc hoff attcacheoff)
    (alike : AlignsAlike desc hoff other) :
    CacheSound desc other attcacheoff := by
  intro j inside positive
  obtain ⟨leading, cached⟩ := sound j inside positive
  refine ⟨leading, ?_⟩
  rw [cached, leadingEnd_add alike inside.le fun i before => leading i before.le,
    fixedStart_add alike inside leading]
  ring

theorem CacheSound.update (sound : CacheSound desc hoff attcacheoff) (leading : Leading desc j)
    (offset : Int) (right : offset = fixedStart (desc.attrs j) (leadingEnd desc hoff j) - hoff) :
    CacheSound desc hoff (Function.update attcacheoff j offset) := by
  intro i inside positive
  by_cases same : i = j
  · subst same
    rw [Function.update_self]
    exact ⟨leading, right⟩
  · rw [Function.update_of_ne same] at positive ⊢
    exact sound i inside positive

theorem skipCached_spec (attcacheoff : CachedOffsets) (natts rounds j : Nat) :
    j ≤ skipCached attcacheoff natts rounds j ∧
      ∀ i, j ≤ i → i < skipCached attcacheoff natts rounds j → i < natts ∧ 0 < attcacheoff i := by
  induction rounds generalizing j with
  | zero => exact ⟨le_rfl, fun i past below => absurd below (by rw [skipCached]; omega)⟩
  | succ rounds hyp =>
    rw [skipCached]
    split_ifs with held
    · obtain ⟨order, passed⟩ := hyp (j + 1)
      refine ⟨by omega, fun i began below => ?_⟩
      by_cases first : i = j
      · rw [first]
        exact held
      · exact passed i (by omega) below
    · exact ⟨le_rfl, fun i began below => absurd below (by omega)⟩

theorem cacheLoop_spec (rounds : Nat) (sound : CacheSound desc hoff attcacheoff)
    (leading : ∀ i < j, 0 < (desc.attrs i).attlen) :
    CacheSound desc hoff (cacheLoop desc hoff rounds j (leadingEnd desc hoff j) attcacheoff) ∧
      (∀ i < j, cacheLoop desc hoff rounds j (leadingEnd desc hoff j) attcacheoff i = attcacheoff i) ∧
      ∀ i, j ≤ i → i < j + rounds → i < desc.natts → Leading desc i →
        cacheLoop desc hoff rounds j (leadingEnd desc hoff j) attcacheoff i =
          fixedStart (desc.attrs i) (leadingEnd desc hoff i) - hoff := by
  induction rounds generalizing j attcacheoff with
  | zero => exact ⟨sound, fun _ _ => rfl, fun i began below => absurd below (by omega)⟩
  | succ rounds hyp =>
    rw [cacheLoop]
    split_ifs with more
    · have upTo : Leading desc j := by
        intro i within
        rcases Nat.lt_or_eq_of_le within with before | rfl
        · exact leading i before
        · exact more.2
      obtain ⟨kept, before, filled⟩ := hyp (j := j + 1)
        (sound.update upTo (fixedStart (desc.attrs j) (leadingEnd desc hoff j) - hoff) rfl)
        fun i within => upTo i (Nat.le_of_lt_succ within)
      refine ⟨kept, fun i below => ?_, fun i began below inside fixed => ?_⟩
      · exact (before i (Nat.lt_succ_of_lt below)).trans (Function.update_of_ne (Nat.ne_of_lt below) _ _)
      · by_cases first : i = j
        · subst first
          exact (before i (Nat.lt_succ_self i)).trans (Function.update_self _ _ _)
        · exact filled i (by omega) (by omega) inside fixed
    · refine ⟨sound, fun _ _ => rfl, fun i began below inside fixed => ?_⟩
      exact absurd ⟨began.trans_lt inside, fixed j began⟩ more

theorem cacheLeading_spec (sound : CacheSound desc hoff attcacheoff) (fixed : 0 < (desc.attrs 0).attlen) :
    CacheSound desc hoff (cacheLeading desc hoff attcacheoff) ∧ ∀ i < desc.natts, Leading desc i →
        cacheLeading desc hoff attcacheoff i = fixedStart (desc.attrs i) (leadingEnd desc hoff i) - hoff := by
  have start : (if (desc.attrs 0).attbyval then 0 else attAlignNominal hoff (desc.attrs 0).attalign - hoff) =
      fixedStart (desc.attrs 0) (leadingEnd desc hoff 0) - hoff := by
    rw [leadingEnd, fixedStart]
    split_ifs
    · exact (sub_self hoff).symm
    · rfl
  have zero : Leading desc 0 := fun i within => by rwa [Nat.le_zero.mp within]
  have first := sound.update zero _ start
  have own := Function.update_self 0 (fixedStart (desc.attrs 0) (leadingEnd desc hoff 0) - hoff) attcacheoff
  rw [cacheLeading, start]
  rw [start] at first
  generalize Function.update attcacheoff 0 _ = cached at first own ⊢
  obtain ⟨order, passed⟩ := skipCached_spec cached desc.natts desc.natts 1
  generalize skipCached cached desc.natts desc.natts 1 = j at order passed ⊢
  -- what the search has passed is cached, and so is the first attribute
  have done (i : Nat) (before : i < j) :
      Leading desc i ∧ cached i = fixedStart (desc.attrs i) (leadingEnd desc hoff i) - hoff := by
    by_cases initial : i = 0
    · rw [initial]
      exact ⟨zero, own⟩
    · obtain ⟨inside, positive⟩ := passed i (by omega) before
      exact first i inside positive
  have last := done (j - 1) (by omega)
  have stop : cached (j - 1) + (desc.attrs (j - 1)).attlen + hoff = leadingEnd desc hoff j := by
    obtain ⟨previous, rfl⟩ : ∃ previous, j = previous + 1 := ⟨j - 1, by omega⟩
    rw [Nat.add_sub_cancel] at last ⊢
    rw [last.2, leadingEnd]
    ring
  rw [stop]
  obtain ⟨kept, before, filled⟩ := cacheLoop_spec (desc.natts - j) first fun i below =>
    (done i below).1 i le_rfl
  refine ⟨kept, fun i inside leading => ?_⟩
  by_cases below : i < j
  · rw [before i below, (done i below).2]
  · exact filled i (by omega) (by omega) inside leading

structure WalkCaches (desc : TupleDesc) (hoff : Int) (i : Nat) (state : WalkState) : Prop where
  sound : CacheSound desc hoff state.attcacheoff
  leading : state.usecache = true → (∀ k < i, 0 < (desc.attrs k).attlen) ∧ state.off = leadingEnd desc hoff i

variable {tup : UHeapDiskTuple}

theorem attStart_fixed {att : FormPgAttribute} (fixed : 0 < att.attlen) (off : Int) :
    attStart tup att off = fixedStart att off :=
  if_neg (by rw [lenVarlena]; omega)

theorem walkAttr_caches {attnum i : Nat} {state : WalkState} (caches : WalkCaches desc tup.tHoff i state) :
    CacheSound desc tup.tHoff (walkAttr desc tup attnum state i).attcacheoff ∧
      (i ≠ attnum → WalkCaches desc tup.tHoff (i + 1) (walkAttr desc tup attnum state i)) := by
  have stored : CacheSound desc tup.tHoff (if (desc.attrs i).attbyval && state.usecache then
        Function.update state.attcacheoff i (attStart tup (desc.attrs i) state.off - tup.tHoff)
      else state.attcacheoff) := by
    split_ifs with held
    · rw [Bool.and_eq_true] at held
      obtain ⟨leading, off⟩ := caches.leading held.2
      have fixed := (desc.attrs i).byval held.1
      refine caches.sound.update (fun k within => ?_) _ (by rw [attStart_fixed fixed, off])
      rcases Nat.lt_or_eq_of_le within with before | rfl
      · exact leading k before
      · exact fixed
    · exact caches.sound
  unfold walkAttr
  split_ifs with null same
  · exact ⟨caches.sound, fun _ => ⟨caches.sound, nofun⟩⟩
  · exact ⟨stored, fun other => absurd same other⟩
  · refine ⟨stored, fun _ => ⟨stored, fun held => ?_⟩⟩
    simp only [Bool.and_eq_true, decide_eq_true_eq] at held
    obtain ⟨leading, off⟩ := caches.leading held.1
    refine ⟨fun k within => ?_, ?_⟩
    · rcases Nat.lt_succ_iff_lt_or_eq.mp within with before | rfl
      · exact leading k before
      · exact held.2
    · change attAddlengthPointer _ _ _ = _
      rw [attAddlengthPointer, if_pos held.2, attStart_fixed held.2, off, leadingEnd]

theorem walk_caches (sound : CacheSound desc tup.tHoff attcacheoff) (attnum : Nat) :
    CacheSound desc tup.tHoff ((List.range (attnum + 1)).foldl (walkAttr desc tup attnum)
      { off := tup.tHoff, attcacheoff }).attcacheoff := by
  have before (count : Nat) (within : count ≤ attnum) : WalkCaches desc tup.tHoff count
      ((List.range count).foldl (walkAttr desc tup attnum) { off := tup.tHoff, attcacheoff }) := by
    induction count with
    | zero => exact ⟨sound, fun _ => ⟨fun k below => absurd below (Nat.not_lt_zero k), rfl⟩⟩
    | succ count hyp =>
      rw [List.range_succ, List.foldl_append]
      exact (walkAttr_caches (hyp (Nat.le_of_succ_le within))).2 (by omega)
  rw [List.range_succ, List.foldl_append]
  exact (walkAttr_caches (before attnum le_rfl)).1

theorem deformLoop_leading {state : DeformState} (start : state.off = hoff)
    (values : ∀ i < j, (tup.hasNulls && attIsnull i tup.data) = false)
    (leading : ∀ i < j, 0 < (desc.attrs i).attlen) :
    (deformLoop desc tup state 0 j).off = leadingEnd desc hoff j := by
  induction j with
  | zero => exact start
  | succ j hyp =>
    have fixed := leading j (Nat.lt_succ_self j)
    have before := hyp (fun i below => values i (Nat.lt_succ_of_lt below))
      fun i below => leading i (Nat.lt_succ_of_lt below)
    rw [deformLoop_succ _ (Nat.zero_le j), deformAttr_value (values j (Nat.lt_succ_self j))]
    change attAddlengthPointer _ _ _ = _
    rw [attAddlengthPointer, if_pos fixed, attStart_fixed fixed, before, leadingEnd]

end Cache

section Calls

variable {desc : TupleDesc}

/-- A tuple of the descriptor, and an attribute of it that is not null. -/
def AttrCall.Formed (call : AttrCall) (desc : TupleDesc) : Prop :=
  ∃ reserveSpace columns isNulls, uheapFormTuple desc reserveSpace columns isNulls = some call.tuple ∧
    call.attnum < desc.natts ∧ isNulls call.attnum = false

/-- The value is right where what the fast path takes from the cache is, and the cache stays right. -/
theorem uheapNoCacheGetAttr_spec {call : AttrCall} (formed : call.Formed desc) {attcacheoff : CachedOffsets}
    (old : Nat → Option Datum) :
    ((walksTuple desc call.tuple call.attnum = false → CacheSound desc call.tuple.tHoff attcacheoff) →
      some (uheapNoCacheGetAttr desc call.tuple attcacheoff call.attnum).1 =
        uheapDeformTuple desc call.tuple old call.attnum) ∧
      (CacheSound desc call.tuple.tHoff attcacheoff →
        CacheSound desc call.tuple.tHoff (uheapNoCacheGetAttr desc call.tuple attcacheoff call.attnum).2) := by
  obtain ⟨tup, attnum⟩ := call
  obtain ⟨reserveSpace, columns, isNulls, made, inside, value⟩ := formed
  simp only at made inside value ⊢
  have facts := uheapFormTuple_formed made
  cases walks : walksTuple desc tup attnum with
  | true =>
    refine ⟨fun _ => walk_value facts old attcacheoff inside value walks, fun sound => ?_⟩
    rw [uheapNoCacheGetAttr, if_pos walks]
    exact walk_caches sound attnum
  | false =>
    have known := walks
    simp only [walksTuple, Bool.or_eq_false_iff, decide_eq_false_iff_not, not_le] at known
    obtain ⟨⟨nulls, widths⟩, fixed⟩ := known
    have values (i : Nat) (before : i < attnum) : (tup.hasNulls && attIsnull i tup.data) = false := by
      cases has : tup.hasNulls with
      | false => rfl
      | true =>
        rw [has, Bool.true_and] at nulls
        exact nullBefore_false nulls i before
    have leading : Leading desc attnum := by
      intro i within
      cases has : tup.hasVarWidth with
      | false =>
        refine facts.fixed has i (by omega) ?_
        rcases Nat.lt_or_eq_of_le within with before | rfl
        · exact (facts.nulls i (by omega)).symm.trans (values i before)
        · exact value
      | true =>
        rw [has, Bool.true_and, List.any_eq_false] at widths
        have positive := widths i (List.mem_range.mpr (Nat.lt_succ_of_le within))
        simpa using positive
    rw [uheapNoCacheGetAttr, if_neg (by rw [walks]; decide), uheapDeformTuple_value facts old inside value,
      deformLoop_leading rfl values fun i before => leading i before.le, attStart_fixed (leading attnum le_rfl)]
    refine ⟨fun sound => ?_, fun sound => (cacheLeading_spec sound fixed).1⟩
    simp only [(cacheLeading_spec (sound rfl) fixed).2 attnum inside leading, sub_add_cancel]

theorem AlignsAlike.symm {hoff other : Int} (alike : AlignsAlike desc hoff other) :
    AlignsAlike desc other hoff := by
  intro j inside leading byref
  have whole := alike j inside leading byref
  rwa [← neg_sub, dvd_neg]

/-- A call that goes by the cache has a header that aligns the leading attributes like those before it. -/
def FastCallsAlike (desc : TupleDesc) (calls : List AttrCall) : Prop :=
  calls.Pairwise fun earlier call => walksTuple desc call.tuple call.attnum = false →
    AlignsAlike desc earlier.tuple.tHoff call.tuple.tHoff

/-- The cache is right for the headers that align like those of all calls so far. -/
theorem getAttrs_spec {calls : List AttrCall} (formed : ∀ call ∈ calls, call.Formed desc)
    (alike : FastCallsAlike desc calls) {attcacheoff : CachedOffsets} {known : Int → Prop}
    (sound : ∀ hoff, known hoff → CacheSound desc hoff attcacheoff)
    (fast : ∀ call ∈ calls, walksTuple desc call.tuple call.attnum = false → known call.tuple.tHoff)
    (old : Nat → Option Datum) :
    (getAttrs desc attcacheoff calls).map some =
      calls.map fun call => uheapDeformTuple desc call.tuple old call.attnum := by
  induction calls generalizing attcacheoff known with
  | nil => rfl
  | cons call rest hyp =>
    obtain ⟨first, others⟩ := List.pairwise_cons.mp alike
    obtain ⟨here, later⟩ := List.forall_mem_cons.mp fast
    obtain ⟨value, cached⟩ := uheapNoCacheGetAttr_spec (formed call List.mem_cons_self) old
    have further := @hyp (fun next member => formed next (List.mem_cons_of_mem _ member)) others
      (uheapNoCacheGetAttr desc call.tuple attcacheoff call.attnum).2
      (fun hoff => known hoff ∧ AlignsAlike desc call.tuple.tHoff hoff)
      (fun hoff past => (cached ((sound hoff past.1).alike past.2.symm)).alike past.2)
      (fun next member walks => ⟨later next member walks, first next member walks⟩)
    rw [getAttrs, List.map_cons, List.map_cons, value fun walks => sound _ (here walks), further]

/-- Where the calls that go by the cache find headers that align alike, every attribute that is fetched is
the deformed one. -/
theorem getAttrs_eq {calls : List AttrCall} (formed : ∀ call ∈ calls, call.Formed desc)
    (alike : FastCallsAlike desc calls) {attcacheoff : CachedOffsets} (fresh : ∀ j, attcacheoff j ≤ 0)
    (old : Nat → Option Datum) :
    (getAttrs desc attcacheoff calls).map some =
      calls.map fun call => uheapDeformTuple desc call.tuple old call.attnum :=
  @getAttrs_spec _ _ formed alike _ (fun _ => True)
    (fun _ _ j _ positive => absurd positive (not_lt.mpr (fresh j))) (fun _ _ _ => trivial) old

end Calls

/-- A byte, six bytes that are aligned as an integer, and a byte. -/
def byteAndAddress : TupleDesc where
  natts := 3
  attrs := fun attnum =>
    if attnum = 1 then ⟨6, false, .int, .plain, false, .inr (.inr (by decide)), nofun, nofun⟩
    else ⟨1, true, .char, .plain, false, .inr (.inr (by decide)), fun _ => by decide, nofun⟩

def withoutNull : UHeapDiskTuple := ⟨3, false, false, 11, [1, 2, 3, 4, 5, 6, 7, 1]⟩

/-- The same with a null at the end, and with the byte for the bitmap before the columns. -/
def withNull : UHeapDiskTuple := ⟨3, true, false, 12, [11, 1, 0, 0, 0, 2, 3, 4, 5, 6, 7, 0]⟩

theorem withoutNull_formed (attnum : Nat) (inside : attnum < 3) :
    AttrCall.Formed ⟨withoutNull, attnum⟩ byteAndAddress := by
  have made : uheapFormTuple byteAndAddress true (fun att => if att = 1 then [2, 3, 4, 5, 6, 7] else [1])
      (fun _ => false) = some withoutNull := by decide
  exact ⟨_, _, _, made, inside, rfl⟩

/-- A tuple that begins with a null, and has a header of 12 bytes too. -/
def nullFirst : UHeapDiskTuple := ⟨3, true, false, 12, [14, 0, 0, 0, 0, 2, 3, 4, 5, 6, 7, 1]⟩

/-- Two headers of 11 bytes, whose columns are found by the cache, and one of 12, which is walked. -/
def threeCalls : List AttrCall := [⟨withoutNull, 2⟩, ⟨withoutNull, 1⟩, ⟨nullFirst, 1⟩]

theorem getAttrs_eq_sample : (getAttrs byteAndAddress (fun _ => -1) threeCalls).map some =
    threeCalls.map fun call => uheapDeformTuple byteAndAddress call.tuple (fun _ => none) call.attnum := by
  have nullFirst_formed : AttrCall.Formed ⟨nullFirst, 1⟩ byteAndAddress :=
    ⟨true, fun att => if att = 1 then [2, 3, 4, 5, 6, 7] else [1], fun att => att == 0,
      by decide, by decide, rfl⟩
  refine getAttrs_eq ?_ ?_ (fun _ => by decide) _
  · simp only [threeCalls, List.forall_mem_cons]
    exact ⟨withoutNull_formed 2 (by decide), withoutNull_formed 1 (by decide), nullFirst_formed, nofun⟩
  · simp only [FastCallsAlike, threeCalls, List.pairwise_cons, List.forall_mem_cons, List.not_mem_nil,
      false_implies, implies_true, and_true, List.Pairwise.nil]
    exact ⟨⟨fun _ _ _ _ _ => dvd_zero _, fun walked => absurd walked (by decide)⟩,
      fun walked => absurd walked (by decide)⟩

/-- The offset of the aligned column is cached for a header of 11 bytes and used for one of 12. -/
theorem not_getAttrs_eq :
    ¬ ∀ (desc : TupleDesc) (calls : List AttrCall), (∀ call ∈ calls, call.Formed desc) →
      ∀ attcacheoff : CachedOffsets, (∀ j, attcacheoff j ≤ 0) → ∀ old : Nat → Option Datum,
        (getAttrs desc attcacheoff calls).map some =
          calls.map fun call => uheapDeformTuple desc call.tuple old call.attnum := by
  intro claim
  have withNull_formed : AttrCall.Formed ⟨withNull, 1⟩ byteAndAddress :=
    ⟨true, fun att => if att = 1 then [2, 3, 4, 5, 6, 7] else [1], fun att => att == 2,
      by decide, by decide, rfl⟩
  have same := claim byteAndAddress [⟨withoutNull, 1⟩, ⟨withNull, 1⟩] (by
      simp only [List.forall_mem_cons]
      exact ⟨withoutNull_formed 1 (by decide), withNull_formed, nofun⟩)
    (fun _ => -1) (fun _ => by decide) fun _ => none
  revert same
  decide

end OpenGauss.UStore
