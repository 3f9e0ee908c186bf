import OpenGauss.Lib.Chain
import OpenGauss.Wal.Reservation

namespace OpenGauss.Wal

open Lib

/-- The next counter, while a log switch has it instead of the shared word. -/
def InsertPc.suspended : InsertPc → Option Int
  | .waiting lrc | .switching lrc _ _ | .copying lrc _ _ | .stopping lrc => some lrc
  | _ => none

namespace WalSystem

section

variable {segment : XLogSegment} {system : WalSystem} {first last backend : Nat} {lrc : Int} {pc : InsertPc}
  {word : InsertWord} {reserved : List Reservation}

/-- The next counter to be issued, in the shared word or with the one backend that suspends the others. -/
structure NextCounter (word : InsertWord) (pc : Nat → InsertPc) (lrc : Int) : Prop where
  shared : word.lrc ≠ walCopySuspend → word.lrc = lrc
  kept : ∀ backend held, (pc backend).suspended = some held → held = lrc ∧ word.lrc = walCopySuspend
  single : ∀ backend other, (pc backend).suspended.isSome → (pc other).suspended.isSome → backend = other

/-- The reservations, the newest first, from byte position `first` and a record at `last` on. -/
structure Laid (first last : Nat) (word : InsertWord) (reserved : List Reservation) (lrc : Int) : Prop where
  ranges : Chain Reservation.start Reservation.stop first reserved.reverse word.currentBytePos
  proper : ∀ reservation ∈ reserved, reservation.start ≤ reservation.stop
  records : ∀ reservation ∈ reserved,
    Chain WalRecord.start WalRecord.stop reservation.start reservation.records reservation.stop
  prevs : Chain WalRecord.prev WalRecord.start last (reserved.reverse.flatMap Reservation.records)
    (word.currentBytePos - word.byteSize)
  counters : Chain id nextLrc 0 (reserved.reverse.flatMap Reservation.counters) lrc

structure Invariant (first last : Nat) (system : WalSystem) : Prop where
  next : ∃ lrc, NextCounter system.word system.pc lrc ∧ Laid first last system.word system.reserved lrc
  switching : ∀ backend lrc compare size, system.pc backend = .switching lrc compare size →
    compare = system.word ∧ size = sizeOfXLogRecord
  copying : ∀ backend lrc currPos endPos, system.pc backend = .copying lrc currPos endPos →
    system.reserved ≠ []
  nonempty : ∀ backend sizes compare, system.pc backend = .reserving sizes compare → sizes ≠ []

theorem handOut_ranges (start prev : Nat) (sizes : List Nat) :
    Chain WalRecord.start WalRecord.stop start (handOut start prev sizes) (start + sizes.sum) := by
  induction sizes generalizing start prev with
  | nil => simp [handOut, Chain]
  | cons size rest ih =>
    refine ⟨rfl, ?_⟩
    rw [List.sum_cons, ← Nat.add_assoc]
    exact ih (start + size) start

/-- The last record starts its own size before the end of the group. -/
theorem handOut_prevs (start prev : Nat) {sizes : List Nat} (nonempty : sizes ≠ []) :
    Chain WalRecord.prev WalRecord.start prev (handOut start prev sizes)
      (start + sizes.sum - sizes.getLastD 0) := by
  induction sizes generalizing start prev with
  | nil => exact absurd rfl nonempty
  | cons size rest ih =>
    refine ⟨rfl, ?_⟩
    cases rest with
    | nil => simp [handOut, Chain]
    | cons next others =>
      have tail := ih (start + size) start (by simp)
      rw [List.sum_cons, ← Nat.add_assoc]
      simpa using tail

theorem nextLrc_nonneg (lrc : Int) : 0 ≤ nextLrc lrc := Int.emod_nonneg _ (by decide)

/-- One more reservation at the insert position. -/
theorem Laid.reserve (laid : Laid first last word reserved lrc) {reservation : Reservation} {after : InsertWord}
    {later : Int} (start : reservation.start = word.currentBytePos)
    (stop : reservation.stop = after.currentBytePos) (proper : reservation.start ≤ reservation.stop)
    (records : Chain WalRecord.start WalRecord.stop reservation.start reservation.records reservation.stop)
    (prevs : Chain WalRecord.prev WalRecord.start (word.currentBytePos - word.byteSize) reservation.records
      (after.currentBytePos - after.byteSize))
    (counters : Chain id nextLrc lrc reservation.counters later) :
    Laid first last after (reservation :: reserved) later := by
  refine ⟨?_, ?_, ?_, ?_, ?_⟩
  · rw [List.reverse_cons, ← stop]
    exact laid.ranges.push start
  · intro other inside
    rcases List.mem_cons.mp inside with rfl | old
    · exact proper
    · exact laid.proper other old
  · intro other inside
    rcases List.mem_cons.mp inside with rfl | old
    · exact records
    · exact laid.records other old
  · rw [List.reverse_cons, List.flatMap_append]
    exact laid.prevs.append (by simpa using prevs)
  · rw [List.reverse_cons, List.flatMap_append]
    exact laid.counters.append (by simpa using counters)

/-- One more counter for the newest reservation. -/
theorem Laid.count (laid : Laid first last word reserved lrc) (filled : reserved ≠ []) :
    Laid first last word (count lrc reserved) (nextLrc lrc) := by
  cases reserved with
  | nil => exact absurd rfl filled
  | cons newest older =>
    have parts : ∀ reservation ∈ WalSystem.count lrc (newest :: older), ∃ same ∈ newest :: older,
        reservation.start = same.start ∧ reservation.stop = same.stop ∧ reservation.records = same.records := by
      intro reservation inside
      rcases List.mem_cons.mp inside with rfl | old
      · exact ⟨newest, by simp, rfl, rfl, rfl⟩
      · exact ⟨reservation, by simp [old], rfl, rfl, rfl⟩
    refine ⟨?_, ?_, ?_, ?_, ?_⟩
    · have ranges := laid.ranges
      simp only [WalSystem.count, List.reverse_cons] at ranges ⊢
      obtain ⟨middle, front, back⟩ := ranges.split
      exact front.append back
    · intro reservation inside
      obtain ⟨same, member, startSame, stopSame, -⟩ := parts reservation inside
      rw [startSame, stopSame]
      exact laid.proper same member
    · intro reservation inside
      obtain ⟨same, member, startSame, stopSame, recordsSame⟩ := parts reservation inside
      rw [startSame, stopSame, recordsSame]
      exact laid.records same member
    · have prevs := laid.prevs
      simpa [WalSystem.count, List.flatMap_append] using prevs
    · have counters := laid.counters
      simp only [WalSystem.count, List.reverse_cons, List.flatMap_append, List.flatMap_cons, List.flatMap_nil,
        List.append_nil] at counters ⊢
      rw [← List.append_assoc]
      exact counters.push rfl

theorem setPc_pc (system : WalSystem) (backend other : Nat) (pc : InsertPc) :
    (system.setPc backend pc).pc other = if other = backend then pc else system.pc other := by
  simp only [setPc, Function.update_apply]

theorem NextCounter.move {pcs : Nat → InsertPc} (next : NextCounter word pcs lrc)
    (same : pc.suspended = (pcs backend).suspended) :
    NextCounter word (Function.update pcs backend pc) lrc := by
  have kept : ∀ other, (Function.update pcs backend pc other).suspended = (pcs other).suspended := by
    intro other
    by_cases self : other = backend
    · subst self
      simp [same]
    · simp [self]
  refine ⟨next.shared, ?_, ?_⟩
  · intro other held
    rw [kept other]
    exact next.kept other held
  · intro first second
    rw [kept first, kept second]
    exact next.single first second

theorem Invariant.move (invariant : Invariant first last system)
    (same : pc.suspended = (system.pc backend).suspended)
    (switching : ∀ lrc compare size, pc = .switching lrc compare size →
      compare = system.word ∧ size = sizeOfXLogRecord)
    (copying : ∀ lrc currPos endPos, pc = .copying lrc currPos endPos → system.reserved ≠ [])
    (nonempty : ∀ sizes compare, pc = .reserving sizes compare → sizes ≠ []) :
    Invariant first last (system.setPc backend pc) := by
  obtain ⟨lrc, next, laid⟩ := invariant.next
  refine ⟨⟨lrc, next.move same, laid⟩, ?_, ?_, ?_⟩
  · intro other lrc compare size
    rw [setPc_pc]
    split_ifs
    · exact switching lrc compare size
    · exact invariant.switching other lrc compare size
  · intro other lrc currPos endPos
    rw [setPc_pc]
    split_ifs
    · exact copying lrc currPos endPos
    · exact invariant.copying other lrc currPos endPos
  · intro other sizes compare
    rw [setPc_pc]
    split_ifs
    · exact nonempty sizes compare
    · exact invariant.nonempty other sizes compare

end

variable {segment : XLogSegment} {system : WalSystem} {first last backend : Nat} {lrc : Int}
  {compare : InsertWord} {sizes : List Nat}

/-- A step that exchanges the word, taken by a backend that is not suspending the others and then
is idle. -/
theorem NextCounter.reserve {word after : InsertWord} {pcs : Nat → InsertPc} (next : NextCounter word pcs lrc)
    (running : word.lrc ≠ walCopySuspend) (counted : after.lrc = nextLrc word.lrc) :
    NextCounter after (Function.update pcs backend .idle) (nextLrc lrc) := by
  have absent : ∀ other, (Function.update pcs backend InsertPc.idle other).suspended = none := by
    intro other
    by_cases self : other = backend
    · subst self
      simp [InsertPc.suspended]
    · rw [Function.update_of_ne self]
      by_contra present
      obtain ⟨held, same⟩ := Option.ne_none_iff_exists'.mp present
      exact running (next.kept other held same).2
  refine ⟨?_, ?_, ?_⟩
  · intro _
    rw [counted, next.shared running]
  · intro other held
    rw [absent other]
    exact fun impossible => nomatch impossible
  · intro first _
    rw [absent first]
    exact fun impossible => nomatch impossible

theorem Invariant.tryReserve (invariant : Invariant first last system)
    (here : system.pc backend = .reserving sizes compare) :
    Invariant first last (system.tryReserve backend sizes compare) := by
  have nonempty := invariant.nonempty backend sizes compare here
  have retry : Invariant first last (system.setPc backend (.reserving sizes system.word)) := by
    refine invariant.move (by rw [here]; rfl) ?_ ?_ ?_
    · exact fun _ _ _ impossible => nomatch impossible
    · exact fun _ _ _ impossible => nomatch impossible
    · rintro _ _ ⟨⟩
      exact nonempty
  unfold WalSystem.tryReserve
  split_ifs with suspended same
  · exact retry
  · subst same
    obtain ⟨lrc, next, laid⟩ := invariant.next
    have sameLrc := next.shared suspended
    refine ⟨⟨nextLrc lrc, next.reserve suspended rfl, ?_⟩, ?_, ?_, ?_⟩
    · refine laid.reserve rfl rfl (Nat.le_add_right _ _) (handOut_ranges _ _ sizes)
        (handOut_prevs _ _ nonempty) ?_
      rw [sameLrc]
      exact Chain.singleton rfl
    · intro other held compare size
      show (system.setPc backend .idle).pc other = _ → _
      rw [setPc_pc]
      split_ifs
      · exact fun impossible => nomatch impossible
      · intro switching
        have stopped : (system.pc other).suspended = some held := by rw [switching]; rfl
        exact absurd (next.kept other held stopped).2 suspended
    · intro _ _ _ _ _
      exact List.cons_ne_nil _ _
    · intro other sizes compare
      show (system.setPc backend .idle).pc other = _ → _
      rw [setPc_pc]
      split_ifs
      · exact fun impossible => nomatch impossible
      · exact invariant.nonempty other sizes compare
  · exact retry

theorem Invariant.trySuspend (invariant : Invariant first last system)
    (here : system.pc backend = .suspending compare) :
    Invariant first last (system.trySuspend backend compare) := by
  have retry : Invariant first last (system.setPc backend (.suspending system.word)) := by
    refine invariant.move (by rw [here]; rfl) ?_ ?_ ?_
    · exact fun _ _ _ impossible => nomatch impossible
    · exact fun _ _ _ impossible => nomatch impossible
    · exact fun _ _ impossible => nomatch impossible
  unfold WalSystem.trySuspend
  split_ifs with suspended same
  · exact retry
  · subst same
    obtain ⟨lrc, next, laid⟩ := invariant.next
    have sameLrc := next.shared suspended
    have absent : ∀ other, other ≠ backend → (system.pc other).suspended = none := by
      intro other _
      by_contra present
      obtain ⟨held, same⟩ := Option.ne_none_iff_exists'.mp present
      exact suspended (next.kept other held same).2
    have pcs : ∀ other, (system.setPc backend (.waiting system.word.lrc)).pc other =
        if other = backend then .waiting system.word.lrc else system.pc other :=
      fun other => setPc_pc system backend other _
    refine ⟨⟨lrc, ⟨?_, ?_, ?_⟩, ?_⟩, ?_, ?_, ?_⟩
    · exact fun running => absurd rfl running
    · intro other held
      simp only [pcs]
      split_ifs with self
      · rintro ⟨⟩
        exact ⟨sameLrc, trivial⟩
      · rw [absent other self]
        exact fun impossible => nomatch impossible
    · intro first second
      simp only [pcs]
      split_ifs with firstSelf secondSelf secondSelf
      · exact fun _ _ => firstSelf.trans secondSelf.symm
      · rw [absent second secondSelf]
        exact fun _ impossible => nomatch impossible
      · rw [absent first firstSelf]
        exact fun impossible => nomatch impossible
      · rw [absent first firstSelf]
        exact fun impossible => nomatch impossible
    · exact ⟨laid.ranges, laid.proper, laid.records, laid.prevs, laid.counters⟩
    · intro other held compare size
      simp only [pcs]
      split_ifs with self
      · exact fun impossible => nomatch impossible
      · intro switching
        have stopped := absent other self
        rw [switching] at stopped
        cases stopped
    · intro other held currPos endPos
      simp only [pcs]
      split_ifs with self
      · exact fun impossible => nomatch impossible
      · exact invariant.copying other held currPos endPos
    · intro other sizes compare
      simp only [pcs]
      split_ifs
      · exact fun impossible => nomatch impossible
      · exact invariant.nonempty other sizes compare
  · exact retry

/-- A log switch reserves the switch record and at most one segment more. -/
theorem switchEnd_spec (startbytepos size : Nat) :
    startbytepos + size ≤ switchEnd segment startbytepos size ∧
      switchEnd segment startbytepos size ≤ startbytepos + size + segment.usableBytes := by
  unfold switchEnd
  simp only
  have positive := @XLogSegment.usableBytes_pos segment
  split_ifs with partway
  · rw [XLogSegment.endRecPtr_roundUp, XLogSegment.recPtrToBytePos_segment]
    have split := Nat.div_add_mod (startbytepos + size) segment.usableBytes
    have bound := Nat.mod_lt (startbytepos + size) positive
    rw [Nat.succ_mul, Nat.mul_comm]
    omega
  · omega

theorem Invariant.trySwitch {size : Nat} (invariant : Invariant first last system)
    (here : system.pc backend = .switching lrc compare size) :
    Invariant first last (system.trySwitch segment backend lrc compare size) := by
  obtain ⟨rfl, rfl⟩ := invariant.switching backend lrc compare size here
  have suspended : (system.pc backend).suspended = some lrc := by rw [here]; rfl
  unfold WalSystem.trySwitch
  by_cases aligned : segment.bytePosToEndRecPtr system.word.currentBytePos % segment.size = 0
  · rw [if_pos aligned]
    refine invariant.move (by rw [suspended]; rfl) ?_ ?_ ?_
    · exact fun _ _ _ impossible => nomatch impossible
    · exact fun _ _ _ impossible => nomatch impossible
    · exact fun _ _ impossible => nomatch impossible
  · rw [if_neg aligned]
    simp only [if_true]
    obtain ⟨next, counter, laid⟩ := invariant.next
    obtain ⟨rfl, frozen⟩ := counter.kept backend lrc suspended
    obtain ⟨low, high⟩ := @switchEnd_spec segment system.word.currentBytePos sizeOfXLogRecord
    have small : switchEnd segment system.word.currentBytePos sizeOfXLogRecord - system.word.currentBytePos <
        4294967296 := by
      have sizes := segment.sizes
      unfold sizeOfXLogRecord at *
      omega
    obtain ⟨pc, after⟩ : ∃ pc, pc = afterSwitch segment lrc system.word.currentBytePos sizeOfXLogRecord
        (switchEnd segment system.word.currentBytePos sizeOfXLogRecord) := ⟨_, rfl⟩
    have kept : pc.suspended = some lrc ∧ (∀ held compare size, pc ≠ .switching held compare size) ∧
        ∀ sizes compare, pc ≠ .reserving sizes compare := by
      rw [after]
      unfold afterSwitch
      simp only
      split_ifs
      · exact ⟨rfl, by simp, by simp⟩
      · exact ⟨rfl, by simp, by simp⟩
    show Invariant first last
      { system.setPc backend (afterSwitch segment lrc system.word.currentBytePos sizeOfXLogRecord
          (switchEnd segment system.word.currentBytePos sizeOfXLogRecord)) with
        word := _
        reserved := _ :: system.reserved }
    rw [← after]
    have moved := @NextCounter.move backend _ pc _ _ counter (kept.1.trans suspended.symm)
    refine ⟨⟨lrc, ⟨?_, moved.kept, moved.single⟩, ?_⟩, ?_, ?_, ?_⟩
    · exact fun running => absurd frozen running
    · refine laid.reserve rfl rfl (Nat.le_trans (Nat.le_add_right _ _) low) ?_ ?_ ?_
      · exact Chain.singleton rfl
      · refine ⟨rfl, ?_⟩
        simp only [Chain, InsertWord.reserveSwitch, Nat.mod_eq_of_lt small]
        omega
      · rfl
    · intro other held compare size
      show (system.setPc backend pc).pc other = _ → _
      rw [setPc_pc]
      split_ifs with self
      · exact fun switching => absurd switching (kept.2.1 held compare size)
      · intro switching
        refine absurd (counter.single other backend ?_ ?_) self
        · rw [switching]
          rfl
        · rw [suspended]
          rfl
    · intro _ _ _ _ _
      exact List.cons_ne_nil _ _
    · intro other sizes compare
      show (system.setPc backend pc).pc other = _ → _
      rw [setPc_pc]
      split_ifs
      · exact fun reserving => absurd reserving (kept.2.2 sizes compare)
      · exact invariant.nonempty other sizes compare

theorem count_ne_nil {reserved : List Reservation} (filled : reserved ≠ []) : count lrc reserved ≠ [] := by
  cases reserved with
  | nil => exact absurd rfl filled
  | cons newest older => exact List.cons_ne_nil _ _

variable (invariant : Invariant first last system)
include invariant

theorem Invariant.copyPage {currPos endPos : Nat}
    (here : system.pc backend = .copying lrc currPos endPos) :
    Invariant first last (system.copyPage backend lrc currPos endPos) := by
  have suspended : (system.pc backend).suspended = some lrc := by rw [here]; rfl
  have present := invariant.copying backend lrc currPos endPos here
  unfold WalSystem.copyPage
  split_ifs with more
  · obtain ⟨next, counter, laid⟩ := invariant.next
    obtain ⟨rfl, frozen⟩ := counter.kept backend lrc suspended
    have pcs : ∀ other, (system.setPc backend (.copying (nextLrc lrc) (currPos + xlogBlcksz) endPos)).pc other =
        if other = backend then .copying (nextLrc lrc) (currPos + xlogBlcksz) endPos else system.pc other :=
      fun other => setPc_pc system backend other _
    have alone : ∀ other, other ≠ backend → (system.pc other).suspended = none := by
      intro other self
      by_contra given
      refine self (counter.single other backend (Option.ne_none_iff_isSome.mp given) ?_)
      rw [suspended]
      rfl
    refine ⟨⟨nextLrc lrc, ⟨?_, ?_, ?_⟩, laid.count present⟩, ?_, ?_, ?_⟩
    · exact fun running => absurd frozen running
    · intro other held
      simp only [pcs]
      split_ifs with self
      · rintro ⟨⟩
        exact ⟨rfl, frozen⟩
      · rw [alone other self]
        exact fun impossible => nomatch impossible
    · intro first second
      simp only [pcs]
      split_ifs with firstSelf secondSelf secondSelf
      · exact fun _ _ => firstSelf.trans secondSelf.symm
      · rw [alone second secondSelf]
        exact fun _ impossible => nomatch impossible
      · rw [alone first firstSelf]
        exact fun impossible => nomatch impossible
      · rw [alone first firstSelf]
        exact fun impossible => nomatch impossible
    · intro other held compare size
      simp only [pcs]
      split_ifs with self
      · exact fun impossible => nomatch impossible
      · exact invariant.switching other held compare size
    · exact fun _ _ _ _ _ => count_ne_nil present
    · intro other sizes compare
      simp only [pcs]
      split_ifs
      · exact fun impossible => nomatch impossible
      · exact invariant.nonempty other sizes compare
  · refine invariant.move (by rw [suspended]; rfl) ?_ ?_ ?_
    · exact fun _ _ _ impossible => nomatch impossible
    · exact fun _ _ _ impossible => nomatch impossible
    · exact fun _ _ impossible => nomatch impossible

theorem Invariant.stop (here : system.pc backend = .stopping lrc) :
    Invariant first last { system.setPc backend .idle with word := { system.word with lrc } } := by
  have suspended : (system.pc backend).suspended = some lrc := by rw [here]; rfl
  obtain ⟨next, counter, laid⟩ := invariant.next
  obtain ⟨rfl, frozen⟩ := counter.kept backend lrc suspended
  have absent : ∀ other, ((system.setPc backend .idle).pc other).suspended = none := by
    intro other
    rw [setPc_pc]
    split_ifs with self
    · rfl
    · by_contra present
      refine self (counter.single other backend (Option.ne_none_iff_isSome.mp present) ?_)
      rw [suspended]
      rfl
  refine ⟨⟨lrc, ⟨fun _ => rfl, ?_, ?_⟩, ?_⟩, ?_, ?_, ?_⟩
  · intro other held
    rw [absent other]
    exact fun impossible => nomatch impossible
  · intro first _
    rw [absent first]
    exact fun impossible => nomatch impossible
  · exact ⟨laid.ranges, laid.proper, laid.records, laid.prevs, laid.counters⟩
  · intro other held compare size switching
    have stopped := absent other
    rw [switching] at stopped
    cases stopped
  · intro other held currPos endPos copying
    have stopped := absent other
    rw [copying] at stopped
    cases stopped
  · intro other sizes compare
    show (system.setPc backend .idle).pc other = _ → _
    rw [setPc_pc]
    split_ifs
    · exact fun impossible => nomatch impossible
    · exact invariant.nonempty other sizes compare

theorem Invariant.advance (backend : Nat) :
    Invariant first last (system.advance segment backend) := by
  unfold WalSystem.advance
  cases here : system.pc backend with
  | idle => exact invariant
  | reserving sizes compare => exact invariant.tryReserve here
  | suspending compare => exact invariant.trySuspend here
  | waiting lrc =>
    refine invariant.move (by rw [here]; rfl) ?_ ?_ ?_
    · rintro _ _ _ ⟨⟩
      exact ⟨rfl, rfl⟩
    · exact fun _ _ _ impossible => nomatch impossible
    · exact fun _ _ impossible => nomatch impossible
  | switching lrc compare size => exact invariant.trySwitch here
  | copying lrc currPos endPos => exact invariant.copyPage here
  | stopping lrc => exact invariant.stop here

theorem Invariant.step (event : InsertEvent) :
    Invariant first last (system.step segment event) := by
  cases event with
  | single backend totLen =>
    simp only [WalSystem.step]
    split_ifs with idle
    · refine invariant.move (by rw [idle]; rfl) ?_ ?_ ?_
      · exact fun _ _ _ impossible => nomatch impossible
      · exact fun _ _ _ impossible => nomatch impossible
      · rintro _ _ ⟨⟩
        exact List.cons_ne_nil _ _
    · exact invariant
  | group backend totLens =>
    simp only [WalSystem.step]
    split_ifs with ready
    · refine invariant.move (by rw [ready.1]; rfl) ?_ ?_ ?_
      · exact fun _ _ _ impossible => nomatch impossible
      · exact fun _ _ _ impossible => nomatch impossible
      · rintro _ _ ⟨⟩
        simpa using ready.2.1
    · exact invariant
  | logSwitch backend =>
    simp only [WalSystem.step]
    split_ifs with idle
    · refine invariant.move (by rw [idle]; rfl) ?_ ?_ ?_
      · exact fun _ _ _ impossible => nomatch impossible
      · exact fun _ _ _ impossible => nomatch impossible
      · exact fun _ _ impossible => nomatch impossible
    · exact invariant
  | advance backend => exact invariant.advance backend

end WalSystem

end OpenGauss.Wal
