import OpenGauss.Lib.Bytes
import OpenGauss.Lib.LittleEndian

/-! The page deltas of generic WAL records. -/

namespace OpenGauss.Wal

open Lib

abbrev Page := Nat → UInt8

namespace Page

def blcksz : Nat := 8192

def fragmentHeaderSize : Nat := 4

def matchThreshold : Nat := fragmentHeaderSize

def maxDeltaSize : Nat := blcksz + fragmentHeaderSize

variable (page : Page)

def pdLower : Nat := leNat (readAt page 12 2)

def pdUpper : Nat := leNat (readAt page 14 2)

/-- The log position is stored as two words, the high one first. -/
def pageSetLsn (lsn : Nat) : Page :=
  writeAt page 0 (leBytes 4 (lsn / 2 ^ 32) ++ leBytes 4 (lsn % 2 ^ 32))

/-- One fragment: the offset, the length and the bytes of the page. -/
def writeFragment (offset length : Nat) : List UInt8 :=
  leBytes 2 offset ++ leBytes 2 length ++ readAt page offset length

/-- Whether a byte of the old image needs no fragment. -/
def byteMatch (page image : Page) (place : Nat) : Bool :=
  if place < page.pdLower then
    if place < image.pdLower then page place == image place else false
  else if page.pdUpper ≤ place then
    if image.pdUpper ≤ place then page place == image place else false
  else true

structure DeltaLoop where
  data : List UInt8
  fragmentBegin : Option Nat
  fragmentEnd : Option Nat

def scanByte (page image : Page) (loop : DeltaLoop) (place : Nat) : DeltaLoop :=
  if byteMatch page image place then
    match loop.fragmentBegin with
    | none => loop
    | some first =>
      let last := loop.fragmentEnd.getD place
      if matchThreshold ≤ place - last then
        ⟨loop.data ++ writeFragment page first (last - first), none, none⟩
      else { loop with fragmentEnd := some last }
  else { loop with fragmentBegin := some (loop.fragmentBegin.getD place), fragmentEnd := none }

def writeDelta (page image : Page) : List UInt8 :=
  let loop := (List.range blcksz).foldl (scanByte page image) ⟨[], none, none⟩
  match loop.fragmentBegin with
  | none => loop.data
  | some first => loop.data ++ writeFragment page first (blcksz - first)

def applyPageRedo (page : Page) (data : List UInt8) : Page :=
  match data with
  | [] => page
  | byte :: rest =>
    let offset := leNat ((byte :: rest).take 2)
    let length := leNat (((byte :: rest).drop 2).take 2)
    applyPageRedo (writeAt page offset (((byte :: rest).drop 4).take length))
      ((byte :: rest).drop (4 + length))
termination_by data.length
decreasing_by
  simp only [List.length_drop, List.length_cons]
  omega

/-- One generic record of a page: its new image, and the log position the record gets. -/
structure GenericRecord where
  image : Page
  lsn : Nat

/-- A record on the primary, and its delta on the replica. -/
def replayRecord (pages : Page × Page) (record : GenericRecord) : Page × Page :=
  (pageSetLsn record.image record.lsn,
    pageSetLsn (applyPageRedo pages.2 (writeDelta record.image pages.1)) record.lsn)

def Inside (fragment : Nat × Nat) (place : Nat) : Prop :=
  fragment.1 ≤ place ∧ place < fragment.1 + fragment.2

/-- The data consists of fragments that lie before `start` and hold every byte there that does not
match. -/
structure Written (page image : Page) (start : Nat) (data : List UInt8)
    (fragments : List (Nat × Nat)) : Prop where
  data : data = fragments.flatMap fun fragment => writeFragment page fragment.1 fragment.2
  bounded : ∀ fragment ∈ fragments, fragment.1 + fragment.2 ≤ start
  covered : ∀ place < start, byteMatch page image place = false →
    ∃ fragment ∈ fragments, Inside fragment place

/-- What the loop has done before it comes to byte `count`. Behind every fragment more bytes match
than a fragment has header bytes, so the data is no longer than what it was made from. -/
structure Scanned (page image : Page) (count : Nat) (loop : DeltaLoop) : Prop where
  begun : ∀ first, loop.fragmentBegin = some first → first < count
  ended : ∀ last, loop.fragmentEnd = some last → ∃ first, loop.fragmentBegin = some first ∧
    first < last ∧ last < count ∧ ∀ place, last ≤ place → place < count → byteMatch page image place = true
  length : loop.data.length ≤ loop.fragmentBegin.getD count
  written : ∃ fragments, Written page image (loop.fragmentBegin.getD count) loop.data fragments

section Writing

variable {page image : Page} {start next count : Nat} {data : List UInt8} {loop : DeltaLoop}
  {fragments : List (Nat × Nat)}

theorem length_writeFragment (page : Page) (offset length : Nat) :
    (writeFragment page offset length).length = fragmentHeaderSize + length := by
  simp [writeFragment, fragmentHeaderSize]
  omega

theorem Written.extend (written : Written page image start data fragments) (le : start ≤ next)
    (same : ∀ place, start ≤ place → place < next → byteMatch page image place = true) :
    Written page image next data fragments := by
  refine ⟨written.data, fun fragment member => (written.bounded fragment member).trans le, ?_⟩
  intro place inside different
  by_cases early : place < start
  · exact written.covered place early different
  · rw [same place (by omega) inside] at different
    cases different

theorem Written.append (written : Written page image start data fragments) (le : start ≤ next) :
    Written page image next (data ++ writeFragment page start (next - start))
      (fragments ++ [(start, next - start)]) := by
  refine ⟨by rw [written.data, List.flatMap_append, List.flatMap_singleton], ?_, ?_⟩
  · intro fragment member
    rcases List.mem_append.mp member with old | new
    · exact (written.bounded fragment old).trans le
    · rw [List.mem_singleton.mp new]
      dsimp only
      omega
  · intro place inside different
    by_cases early : place < start
    · obtain ⟨fragment, member, holds⟩ := written.covered place early different
      exact ⟨fragment, List.mem_append_left _ member, holds⟩
    · refine ⟨_, List.mem_append_right _ (List.mem_singleton.mpr rfl), ?_⟩
      unfold Inside
      dsimp only
      omega

theorem Scanned.step (scanned : Scanned page image count loop) :
    Scanned page image (count + 1) (scanByte page image loop count) := by
  obtain ⟨begun, ended, length, fragments, written⟩ := scanned
  unfold scanByte
  cases same : byteMatch page image count with
  | false =>
    refine ⟨?_, nofun, ?_, fragments, ?_⟩
    · intro first isFirst
      obtain rfl := Option.some.inj isFirst
      cases fragmentBegin : loop.fragmentBegin with
      | none => exact Nat.lt_succ_self count
      | some first => exact (begun first fragmentBegin).trans (Nat.lt_succ_self count)
    · simpa using length
    · simpa using written
  | true =>
    cases fragmentBegin : loop.fragmentBegin with
    | none =>
      rw [fragmentBegin, Option.getD_none] at length written
      simp only [if_true]
      refine ⟨by simp [fragmentBegin], ?_, ?_, fragments, ?_⟩
      · intro last isLast
        obtain ⟨first, isFirst, -⟩ := ended last isLast
        rw [fragmentBegin] at isFirst
        cases isFirst
      · rw [fragmentBegin]
        exact length.trans (Nat.le_succ count)
      · rw [fragmentBegin]
        refine written.extend (Nat.le_succ count) fun place above below => ?_
        rw [Option.getD_none] at below
        rwa [show place = count by omega]
    | some first =>
      rw [fragmentBegin, Option.getD_some] at length written
      have before := begun first fragmentBegin
      -- The bytes from the end of the fragment on match, this one included.
      have tail : first < loop.fragmentEnd.getD count ∧ loop.fragmentEnd.getD count ≤ count ∧
          ∀ place, loop.fragmentEnd.getD count ≤ place → place < count + 1 →
            byteMatch page image place = true := by
        cases fragmentEnd : loop.fragmentEnd with
        | none =>
          refine ⟨before, le_rfl, fun place above below => ?_⟩
          rwa [show place = count by simp at above; omega]
        | some last =>
          obtain ⟨other, isFirst, less, inside, matching⟩ := ended last fragmentEnd
          rw [fragmentBegin] at isFirst
          obtain rfl := Option.some.inj isFirst
          refine ⟨less, inside.le, fun place above below => ?_⟩
          by_cases here : place = count
          · rwa [here]
          · exact matching place above (by omega)
      simp only [if_true]
      generalize loop.fragmentEnd.getD count = last at tail
      obtain ⟨less, inside, matching⟩ := tail
      by_cases long : matchThreshold ≤ count - last
      · rw [if_pos long]
        refine ⟨nofun, nofun, ?_, _, (written.append less.le).extend (by simp; omega) matching⟩
        rw [List.length_append, length_writeFragment, Option.getD_none]
        unfold matchThreshold fragmentHeaderSize at long
        unfold fragmentHeaderSize
        omega
      · rw [if_neg long]
        refine ⟨?_, ?_, length, fragments, written⟩
        · intro other isFirst
          obtain rfl := Option.some.inj isFirst
          exact before.trans (Nat.lt_succ_self count)
        · intro other isLast
          obtain rfl := Option.some.inj isLast
          exact ⟨first, rfl, less, Nat.lt_succ_of_le inside, matching⟩

theorem scanned_range (page image : Page) (count : Nat) : Scanned page image count
      ((List.range count).foldl (scanByte page image) ⟨[], none, none⟩) := by
  induction count with
  | zero =>
    refine ⟨nofun, nofun, le_rfl, [], rfl, by simp, ?_⟩
    intro place inside
    exact absurd inside (Nat.not_lt_zero place)
  | succ count ih =>
    rw [List.range_succ, List.foldl_append]
    exact ih.step

theorem writeDelta_spec (page image : Page) : (writeDelta page image).length ≤ maxDeltaSize ∧
      ∃ fragments, Written page image blcksz (writeDelta page image) fragments := by
  obtain ⟨begun, -, length, fragments, written⟩ := scanned_range page image blcksz
  unfold writeDelta
  generalize (List.range blcksz).foldl (scanByte page image) ⟨[], none, none⟩ = loop at *
  dsimp only
  cases fragmentBegin : loop.fragmentBegin with
  | none =>
    rw [fragmentBegin, Option.getD_none] at length written
    exact ⟨length.trans (Nat.le_add_right _ _), fragments, written⟩
  | some first =>
    rw [fragmentBegin, Option.getD_some] at length written
    have before := begun first fragmentBegin
    refine ⟨?_, _, written.append before.le⟩
    rw [List.length_append, length_writeFragment, maxDeltaSize]
    omega

end Writing

theorem applyPageRedo_fragment (replica page : Page) {offset length : Nat}
    (fits : offset + length ≤ blcksz) (rest : List UInt8) :
    applyPageRedo replica (writeFragment page offset length ++ rest) =
      applyPageRedo (writeAt replica offset (readAt page offset length)) rest := by
  have small : blcksz < 256 ^ 2 := by norm_num [blcksz]
  obtain ⟨byte, others, cons⟩ : ∃ byte others,
      writeFragment page offset length ++ rest = byte :: others := ⟨_, _, rfl⟩
  have first : (byte :: others).take 2 = leBytes 2 offset := by
    rw [← cons, writeFragment, List.append_assoc, List.append_assoc, List.take_left' (by simp)]
  have behind : (byte :: others).drop 2 = leBytes 2 length ++ (readAt page offset length ++ rest) := by
    rw [← cons, writeFragment, List.append_assoc, List.append_assoc, List.drop_left' (by simp)]
  have bytes : (byte :: others).drop 4 = readAt page offset length ++ rest := by
    rw [show 4 = 2 + 2 from rfl, ← List.drop_drop, behind, List.drop_left' (by simp)]
  rw [cons, applyPageRedo]
  rw [first, behind, List.take_left' (by simp), leNat_leBytes (by omega), leNat_leBytes (by omega),
    ← List.drop_drop, bytes, List.take_left' (by simp), List.drop_left' (by simp)]

theorem writeAt_readAt_place (replica page : Page) (fragment : Nat × Nat) (place : Nat) :
    (Inside fragment place → writeAt replica fragment.1 (readAt page fragment.1 fragment.2) place =
        page place) ∧
      (¬ Inside fragment place →
        writeAt replica fragment.1 (readAt page fragment.1 fragment.2) place = replica place) := by
  constructor
  · rintro ⟨low, high⟩
    obtain ⟨index, rfl⟩ := Nat.exists_eq_add_of_le low
    have within : index < fragment.2 := by omega
    rw [writeAt_inside replica (by simpa using within)]
    simp [readAt]
  · intro outside
    apply writeAt_outside
    rw [length_readAt]
    unfold Inside at outside
    omega

/-- A byte comes from the primary where a fragment covers it, and stays elsewhere. -/
theorem applyPageRedo_fragments {fragments : List (Nat × Nat)}
    (bounded : ∀ fragment ∈ fragments, fragment.1 + fragment.2 ≤ blcksz) (replica : Page)
    (place : Nat) :
    applyPageRedo replica (fragments.flatMap fun fragment =>
        writeFragment page fragment.1 fragment.2) place = page place ∧
        (∃ fragment ∈ fragments, Inside fragment place) ∨
      applyPageRedo replica (fragments.flatMap fun fragment =>
        writeFragment page fragment.1 fragment.2) place = replica place ∧
        ∀ fragment ∈ fragments, ¬ Inside fragment place := by
  induction fragments generalizing replica with
  | nil => simp [applyPageRedo]
  | cons fragment rest ih =>
    obtain ⟨first, others⟩ := List.forall_mem_cons.mp bounded
    obtain ⟨inside, outside⟩ := writeAt_readAt_place replica page fragment place
    rw [List.flatMap_cons, applyPageRedo_fragment replica page first]
    rcases ih others (writeAt replica fragment.1 (readAt page fragment.1 fragment.2)) with
      ⟨written, covered⟩ | ⟨kept, absent⟩
    · obtain ⟨other, member, holds⟩ := covered
      exact Or.inl ⟨written, other, List.mem_cons_of_mem _ member, holds⟩
    · rw [kept]
      by_cases here : Inside fragment place
      · exact Or.inl ⟨inside here, fragment, List.mem_cons_self, here⟩
      · exact Or.inr ⟨outside here, List.forall_mem_cons.mpr ⟨here, absent⟩⟩

/-- The two pages agree outside the free space of the first. -/
def Agree (page replica : Page) : Prop :=
  ∀ place < blcksz, place < page.pdLower ∨ page.pdUpper ≤ place → page place = replica place

def WellFormed : Prop := page.pdLower ≤ page.pdUpper ∧ page.pdUpper ≤ blcksz

theorem applyPageRedo_agree {page image replica : Page} (agree : Agree image replica)
    (wellFormed : page.WellFormed) :
    Agree page (applyPageRedo replica (writeDelta page image)) := by
  obtain ⟨-, fragments, written⟩ := writeDelta_spec page image
  intro place inside used
  rw [written.data]
  rcases applyPageRedo_fragments page written.bounded replica place with ⟨same, -⟩ | ⟨kept, absent⟩
  · exact same.symm
  · rw [kept]
    -- A byte that no fragment covers matches the old image, whose replica has it.
    have matching : byteMatch page image place = true := by
      by_contra different
      obtain ⟨fragment, member, holds⟩ := written.covered place inside (by simpa using different)
      exact absent fragment member holds
    unfold byteMatch at matching
    have order := wellFormed.1
    split at matching
    · split at matching
      · rename_i low
        rw [beq_iff_eq.mp matching]
        exact agree place inside (Or.inl low)
      · cases matching
    · split at matching
      · split at matching
        · rename_i high
          rw [beq_iff_eq.mp matching]
          exact agree place inside (Or.inr high)
        · cases matching
      · omega

theorem pageSetLsn_place (lsn place : Nat) :
    (place < 8 → ∀ other : Page, pageSetLsn page lsn place = pageSetLsn other lsn place) ∧
      (8 ≤ place → pageSetLsn page lsn place = page place) := by
  constructor
  · intro low other
    have length : (leBytes 4 (lsn / 2 ^ 32) ++ leBytes 4 (lsn % 2 ^ 32)).length = 8 := by simp
    unfold pageSetLsn
    rw [← Nat.zero_add place, writeAt_inside page (by omega), writeAt_inside other (by omega)]
  · intro high
    exact writeAt_outside page (Or.inr (by simpa using high))

theorem pageSetLsn_bounds (lsn : Nat) :
    (pageSetLsn page lsn).pdLower = page.pdLower ∧ (pageSetLsn page lsn).pdUpper = page.pdUpper := by
  constructor
  · unfold pdLower
    rw [pageSetLsn, readAt_writeAt_outside _ (by simp)]
  · unfold pdUpper
    rw [pageSetLsn, readAt_writeAt_outside _ (by simp)]

theorem Agree.pageSetLsn {page replica : Page} (agree : Agree page replica) (lsn : Nat) :
    Agree (page.pageSetLsn lsn) (replica.pageSetLsn lsn) := by
  intro place inside used
  rw [(pageSetLsn_bounds page lsn).1, (pageSetLsn_bounds page lsn).2] at used
  by_cases low : place < 8
  · exact (pageSetLsn_place page lsn place).1 low replica
  · rw [(pageSetLsn_place page lsn place).2 (by omega),
      (pageSetLsn_place replica lsn place).2 (by omega)]
    exact agree place inside used

/-- Every delta fits, and after every sequence of records the replica agrees with the primary. -/
theorem replayRecord_agree {pages : Page × Page} {records : List GenericRecord}
    (start : Agree pages.1 pages.2) (wellFormed : ∀ record ∈ records, record.image.WellFormed) :
    (∀ page image : Page, (writeDelta page image).length ≤ maxDeltaSize) ∧
      Agree (records.foldl replayRecord pages).1 (records.foldl replayRecord pages).2 := by
  refine ⟨fun page image => (writeDelta_spec page image).1, ?_⟩
  induction records generalizing pages with
  | nil => exact start
  | cons record rest ih =>
    obtain ⟨first, others⟩ := List.forall_mem_cons.mp wellFormed
    exact ih ((applyPageRedo_agree start first).pageSetLsn record.lsn) others

def emptyPage : Page := fun place => if place = 12 then 24 else if place = 15 then 32 else 0

/-- The page with bytes of line pointers behind its header. -/
def withItems (items : List UInt8) : Page := fun place =>
  if place = 12 then 24 + UInt8.ofNat items.length else writeAt emptyPage 24 items place

/-- Two line pointers, one a record; the second record changes the first one too. -/
def twoItems : List GenericRecord :=
  [⟨withItems [16, 159, 1, 0], 7⟩, ⟨withItems [16, 159, 3, 0, 32, 158, 1, 0], 9⟩]

theorem replayRecord_agree_emptyPage : (∀ page image : Page, (writeDelta page image).length ≤ maxDeltaSize) ∧
      Agree (twoItems.foldl replayRecord (emptyPage, writeAt emptyPage 100 [1])).1
        (twoItems.foldl replayRecord (emptyPage, writeAt emptyPage 100 [1])).2 := by
  have lower : emptyPage.pdLower = 24 := by decide
  have upper : emptyPage.pdUpper = blcksz := by decide
  refine replayRecord_agree ?_ ?_
  · intro place inside used
    rw [lower, upper] at used
    exact (writeAt_outside emptyPage (Or.inl (by omega))).symm
  · intro record member
    rcases List.mem_pair.mp member with rfl | rfl
    · exact ⟨by decide, by decide⟩
    · exact ⟨by decide, by decide⟩

/-- `PageGetLSN`: the high word comes first. -/
def pageGetLsn : Nat :=
  leNat ((readAt page 0 8).take 4) * 2 ^ 32 + leNat ((readAt page 0 8).drop 4)

/-- `generic_redo` of a delta and its log position. What the page has had already is left out. -/
def genericRedo (record : Nat × List UInt8) : Page :=
  if record.1 ≤ page.pageGetLsn then page else (applyPageRedo page record.2).pageSetLsn record.1

abbrev after (_ : Page) (record : GenericRecord) : Page := record.image.pageSetLsn record.lsn

def genericLog (page : Page) : List GenericRecord → List (Nat × List UInt8)
  | [] => []
  | record :: records => (record.lsn, writeDelta record.image page) :: genericLog (page.after record) records

/-- The positions increase, and the images are well formed. -/
def Ascending (page : Page) : List GenericRecord → Prop
  | [] => True
  | record :: records => page.pageGetLsn < record.lsn ∧ record.lsn < 2 ^ 64 ∧ record.image.WellFormed ∧
      Ascending (page.after record) records

/-- The same log position, and the same bytes outside of the free space. -/
def Copy (page replica : Page) : Prop := Agree page replica ∧ replica.pageGetLsn = page.pageGetLsn

/-- A copy of the page before, between or after the records. -/
inductive CopyOfSome (replica : Page) : Page → List GenericRecord → Prop
  | now {page records} (same : Copy page replica) : CopyOfSome replica page records
  | later {page record records} (stored : CopyOfSome replica (page.after record) records) :
      CopyOfSome replica page (record :: records)

theorem pageGetLsn_pageSetLsn {lsn : Nat} (fits : lsn < 2 ^ 64) :
    (page.pageSetLsn lsn).pageGetLsn = lsn := by
  have words := readAt_writeAt page 0 (leBytes 4 (lsn / 2 ^ 32) ++ leBytes 4 (lsn % 2 ^ 32))
  rw [List.length_append, length_leBytes, length_leBytes] at words
  rw [pageGetLsn, pageSetLsn, words, List.take_left' (length_leBytes 4 _), List.drop_left' (length_leBytes 4 _),
    leNat_leBytes (by norm_num; omega), leNat_leBytes (by norm_num; omega)]
  omega

section Replay

variable {page replica : Page} {records : List GenericRecord} (ascending : Ascending page records)
  (stored : CopyOfSome replica page records)

include ascending stored

theorem CopyOfSome.lsn_le : page.pageGetLsn ≤ replica.pageGetLsn := by
  induction stored with
  | now same => exact same.2.ge
  | later _ ih =>
    obtain ⟨less, fits, -, rest⟩ := ascending
    have past := ih rest
    rw [pageGetLsn_pageSetLsn _ fits] at past
    exact less.le.trans past

/-- A part of the log leaves a copy, and all of it the last one. -/
theorem CopyOfSome.replay :
    (∀ count, CopyOfSome (((genericLog page records).take count).foldl genericRedo replica) page records) ∧
      Copy (records.foldl after page) ((genericLog page records).foldl genericRedo replica) := by
  induction records generalizing page replica with
  | nil =>
    cases stored with
    | now same => exact ⟨fun count => by rw [genericLog, List.take_nil]; exact .now same, same⟩
  | cons record records ih =>
    obtain ⟨less, fits, wellFormed, rest⟩ := ascending
    have here := pageGetLsn_pageSetLsn record.image fits
    -- The record is the next one, or the copy has had it.
    have next : CopyOfSome (replica.genericRedo (record.lsn, writeDelta record.image page)) (page.after record)
        records := by
      rw [genericRedo]
      cases stored with
      | now same =>
        rw [if_neg (by rw [same.2]; exact less.not_ge)]
        dsimp only
        exact .now ⟨(applyPageRedo_agree same.1 wellFormed).pageSetLsn record.lsn,
          (pageGetLsn_pageSetLsn _ fits).trans here.symm⟩
      | later stored => rwa [if_pos (here.symm.trans_le (stored.lsn_le rest))]
    obtain ⟨part, whole⟩ := ih rest next
    refine ⟨fun count => ?_, whole⟩
    cases count with
    | zero => rwa [List.take_zero, List.foldl_nil]
    | succ count => exact .later (part count)

/-- Replay may break off and start again any number of times: the end of the log brings the primary's page. -/
theorem genericRedo_restarted (attempts : List Nat) : Copy (records.foldl after page)
    ((attempts.flatMap (genericLog page records).take ++ genericLog page records).foldl genericRedo
      replica) := by
  induction attempts generalizing replica with
  | nil => exact (stored.replay ascending).2
  | cons count attempts ih =>
    rw [List.flatMap_cons, List.append_assoc, List.foldl_append]
    exact ih ((stored.replay ascending).1 count)

end Replay

/-- The copy has the first record already, and replay breaks off after each of the two. -/
theorem genericRedo_restarted_emptyPage : Copy (twoItems.foldl after emptyPage)
    (([1, 2].flatMap (genericLog emptyPage twoItems).take ++ genericLog emptyPage twoItems).foldl
      genericRedo (emptyPage.after ⟨withItems [16, 159, 1, 0], 7⟩)) := by
  have ascending : Ascending emptyPage twoItems :=
    ⟨by decide, by decide, ⟨by decide, by decide⟩, by decide, by decide, ⟨by decide, by decide⟩, trivial⟩
  exact genericRedo_restarted ascending (.later (.now ⟨fun _ _ _ => rfl, rfl⟩)) [1, 2]

end Page

end OpenGauss.Wal
