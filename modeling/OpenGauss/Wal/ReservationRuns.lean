import OpenGauss.Wal.ReservationInvariant

namespace OpenGauss.Wal

open Lib

namespace WalSystem

variable {segment : XLogSegment} {system : WalSystem} {first last backend : Nat} {lrc : Int}
  {compare : InsertWord} {sizes : List Nat} {pc : InsertPc}

theorem init_invariant (endOfLog lastSize : Nat) :
    Invariant endOfLog (endOfLog - lastSize) (init endOfLog lastSize) := by
  refine ⟨⟨0, ⟨fun _ => rfl, ?_, ?_⟩, ?_⟩, ?_, ?_, ?_⟩
  · exact fun _ _ impossible => nomatch impossible
  · exact fun _ _ impossible => nomatch impossible
  · refine ⟨rfl, ?_, ?_, rfl, rfl⟩
    · exact fun _ impossible => nomatch impossible
    · exact fun _ impossible => nomatch impossible
  · exact fun _ _ _ _ impossible => nomatch impossible
  · exact fun _ _ _ _ impossible => nomatch impossible
  · exact fun _ _ _ impossible => nomatch impossible

/-- A reservation has its counter, or belongs to the log switch that is about to use its own. -/
def HasCounter (segment : XLogSegment) (system : WalSystem) (reservation : Reservation) : Prop :=
  reservation.counters.head? = some reservation.lrc ∨ reservation.counters = [] ∧ ∃ backend currPos,
      system.pc backend = .copying reservation.lrc currPos (segment.bytePosToEndRecPtr reservation.stop) ∧
        currPos ≤ segment.bytePosToEndRecPtr reservation.stop

/-- Only the newest reservation can be one that does not have its counter yet. -/
structure Counted (segment : XLogSegment) (system : WalSystem) : Prop where
  newest : ∀ reservation older, system.reserved = reservation :: older → HasCounter segment system reservation
  older : ∀ newest older, system.reserved = newest :: older → ∀ reservation ∈ older,
    reservation.counters.head? = some reservation.lrc

section

variable (counted : Counted segment system)

include counted

/-- Steps of a backend that is not copying a log switch. -/
theorem Counted.move
    (elsewhere : ∀ lrc currPos endPos, system.pc backend ≠ .copying lrc currPos endPos) {word : InsertWord} :
    Counted segment { system.setPc backend pc with word } := by
  refine ⟨?_, counted.older⟩
  intro reservation older same
  rcases counted.newest reservation older same with has | ⟨absent, copier, currPos, copying, more⟩
  · exact Or.inl has
  · refine Or.inr ⟨absent, copier, currPos, ?_, more⟩
    show (system.setPc backend pc).pc copier = _
    rw [setPc_pc, if_neg]
    · exact copying
    · rintro rfl
      exact elsewhere _ _ _ copying

/-- When nobody is copying every reservation has its counter. -/
theorem Counted.all (quiet : ∀ backend lrc currPos endPos, system.pc backend ≠ .copying lrc currPos endPos) :
    ∀ reservation ∈ system.reserved, reservation.counters.head? = some reservation.lrc := by
  intro reservation inside
  cases same : system.reserved with
  | nil => rw [same] at inside; cases inside
  | cons newest older =>
    rw [same] at inside
    rcases List.mem_cons.mp inside with rfl | old
    · rcases counted.newest reservation older same with has | ⟨-, copier, currPos, copying, -⟩
      · exact has
      · exact absurd copying (quiet _ _ _ _)
    · exact counted.older newest older same reservation old

theorem Counted.tryReserve (invariant : Invariant first last system)
    (here : system.pc backend = .reserving sizes compare) :
    Counted segment (system.tryReserve backend sizes compare) := by
  have elsewhere : ∀ lrc currPos endPos, system.pc backend ≠ .copying lrc currPos endPos := by simp [here]
  unfold WalSystem.tryReserve
  split_ifs with suspended same
  · exact counted.move elsewhere
  · subst same
    obtain ⟨next, counter, -⟩ := invariant.next
    have quiet : ∀ backend lrc currPos endPos, system.pc backend ≠ .copying lrc currPos endPos := by
      intro copier lrc currPos endPos copying
      exact suspended (counter.kept copier lrc (by rw [copying]; rfl)).2
    refine ⟨?_, ?_⟩
    · rintro reservation older ⟨⟩
      exact Or.inl rfl
    · rintro newest older ⟨⟩
      exact counted.all quiet
  · exact counted.move elsewhere

theorem Counted.trySuspend (here : system.pc backend = .suspending compare) :
    Counted segment (system.trySuspend backend compare) := by
  have elsewhere : ∀ lrc currPos endPos, system.pc backend ≠ .copying lrc currPos endPos := by simp [here]
  unfold WalSystem.trySuspend
  split_ifs
  · exact counted.move elsewhere
  · exact counted.move elsewhere
  · exact counted.move elsewhere

end

/-- A log switch that does not end with its segment has a page to copy. -/
theorem afterSwitch_copies {startbytepos : Nat}
    (partway : (startbytepos + sizeOfXLogRecord) % segment.usableBytes ≠ 0) :
    ∃ currPos, afterSwitch segment lrc startbytepos sizeOfXLogRecord
      (switchEnd segment startbytepos sizeOfXLogRecord) =
        .copying lrc currPos (segment.bytePosToEndRecPtr (switchEnd segment startbytepos sizeOfXLogRecord)) ∧
      currPos ≤ segment.bytePosToEndRecPtr (switchEnd segment startbytepos sizeOfXLogRecord) := by
  obtain ⟨offset, same, bound, zero⟩ :=
    @XLogSegment.endRecPtr_spec segment (startbytepos + sizeOfXLogRecord)
  have positive := @XLogSegment.usableBytes_pos segment
  have inside : segment.bytePosToEndRecPtr (startbytepos + sizeOfXLogRecord) % segment.size ≠ 0 :=
    fun aligned => partway (XLogSegment.endRecPtr_mod _ |>.mp aligned)
  have ended : segment.bytePosToEndRecPtr (switchEnd segment startbytepos sizeOfXLogRecord) =
      ((startbytepos + sizeOfXLogRecord) / segment.usableBytes + 1) * segment.size := by
    unfold switchEnd
    simp only
    rw [if_pos, XLogSegment.endRecPtr_roundUp, XLogSegment.recPtrToBytePos_segment]
    · obtain ⟨_, endSame, -, endZero⟩ := @XLogSegment.endRecPtr_spec segment
        (((startbytepos + sizeOfXLogRecord) / segment.usableBytes + 1) * segment.usableBytes)
      rw [endSame, endZero.mpr (Nat.mul_mod_left ..), Nat.mul_div_cancel _ positive, Nat.add_zero]
    · omega
  unfold afterSwitch
  simp only
  rw [if_neg inside]
  refine ⟨_, rfl, ?_⟩
  rw [ended, same, Nat.succ_mul, Nat.add_assoc]
  refine Nat.add_le_add_left ?_ _
  have pages : ∃ pages, segment.size = pages * xlogBlcksz := ⟨segment.pages, rfl⟩
  generalize (startbytepos + sizeOfXLogRecord) / segment.usableBytes = segno at *
  obtain ⟨pages, size⟩ := pages
  rw [size, ← Nat.mul_assoc, Nat.add_comm _ offset, Nat.add_mul_mod_self_right]
  rw [size] at bound
  unfold xlogBlcksz at bound ⊢
  omega

theorem Counted.trySwitch {size : Nat} (counted : Counted segment system)
    (invariant : Invariant first last system)
    (here : system.pc backend = .switching lrc compare size)
    (partway : (compare.currentBytePos + sizeOfXLogRecord) % segment.usableBytes ≠ 0) :
    Counted segment (system.trySwitch segment backend lrc compare size) := by
  have elsewhere : ∀ lrc currPos endPos, system.pc backend ≠ .copying lrc currPos endPos := by simp [here]
  obtain ⟨rfl, rfl⟩ := invariant.switching backend lrc compare size here
  obtain ⟨currPos, copies, more⟩ := @afterSwitch_copies _ lrc _ partway
  unfold WalSystem.trySwitch
  by_cases aligned : segment.bytePosToEndRecPtr system.word.currentBytePos % segment.size = 0
  · rw [if_pos aligned]
    exact counted.move elsewhere
  · rw [if_neg aligned]
    simp only [if_true]
    obtain ⟨next, counter, -⟩ := invariant.next
    have quiet : ∀ backend lrc currPos endPos, system.pc backend ≠ .copying lrc currPos endPos := by
      intro copier held currPos endPos copying
      have same := counter.single copier backend (by rw [copying]; rfl) (by rw [here]; rfl)
      subst same
      exact elsewhere _ _ _ copying
    refine ⟨?_, ?_⟩
    · rintro reservation older ⟨⟩
      refine Or.inr ⟨rfl, backend, currPos, ?_, more⟩
      show (system.setPc backend _).pc backend = _
      rw [setPc_pc, if_pos rfl]
      exact copies
    · rintro newest older ⟨⟩
      exact counted.all quiet

theorem Counted.copyPage {currPos endPos : Nat} (counted : Counted segment system)
    (invariant : Invariant first last system) (here : system.pc backend = .copying lrc currPos endPos) :
    Counted segment (system.copyPage backend lrc currPos endPos) := by
  obtain ⟨next, counter, -⟩ := invariant.next
  have alone : ∀ copier held position stop, system.pc copier = .copying held position stop →
      held = lrc ∧ position = currPos ∧ stop = endPos := by
    intro copier held position stop copying
    have same := counter.single copier backend (by rw [copying]; rfl) (by rw [here]; rfl)
    subst same
    rw [here] at copying
    cases copying
    exact ⟨rfl, rfl, rfl⟩
  unfold WalSystem.copyPage
  split_ifs with more
  · cases same : system.reserved with
    | nil => exact absurd same (invariant.copying backend lrc currPos endPos here)
    | cons newest older =>
      refine ⟨?_, ?_⟩
      · rintro reservation rest ⟨⟩
        left
        rcases counted.newest newest older same with has | ⟨absent, copier, position, copying, -⟩
        · simp [List.head?_append, has]
        · simp [absent, (alone copier _ _ _ copying).1]
      · rintro reservation rest ⟨⟩
        exact counted.older newest older same
  · refine ⟨?_, counted.older⟩
    intro reservation older same
    rcases counted.newest reservation older same with has | ⟨absent, copier, position, copying, unfinished⟩
    · exact Or.inl has
    · obtain ⟨-, rfl, rfl⟩ := alone copier _ _ _ copying
      exact absurd unfinished more

/-- No log switch record ends exactly where its segment does. -/
def Partway (segment : XLogSegment) (system : WalSystem) : InsertEvent → Prop
  | .advance backend => ∀ lrc compare size, system.pc backend = .switching lrc compare size →
      (compare.currentBytePos + sizeOfXLogRecord) % segment.usableBytes ≠ 0
  | _ => True

theorem Counted.step (counted : Counted segment system) (invariant : Invariant first last system)
    (event : InsertEvent) (partway : Partway segment system event) :
    Counted segment (system.step segment event) := by
  have move : ∀ {backend pc}, (∀ lrc currPos endPos, system.pc backend ≠ .copying lrc currPos endPos) →
      Counted segment (system.setPc backend pc) :=
    fun elsewhere => counted.move elsewhere
  have start : ∀ {backend pc}, system.pc backend = .idle → Counted segment (system.setPc backend pc) :=
    fun idle => move (by simp [idle])
  cases event with
  | single backend totLen =>
    simp only [WalSystem.step]
    split_ifs with idle
    · exact start idle
    · exact counted
  | group backend totLens =>
    simp only [WalSystem.step]
    split_ifs with ready
    · exact start ready.1
    · exact counted
  | logSwitch backend =>
    simp only [WalSystem.step]
    split_ifs with idle
    · exact start idle
    · exact counted
  | advance backend =>
    simp only [WalSystem.step, WalSystem.advance]
    cases here : system.pc backend with
    | idle => exact counted
    | reserving sizes compare => exact counted.tryReserve invariant here
    | suspending compare => exact counted.trySuspend here
    | waiting lrc => exact move (by simp [here])
    | switching lrc compare size => exact counted.trySwitch invariant here (partway lrc compare size here)
    | copying lrc currPos endPos => exact counted.copyPage invariant here
    | stopping lrc => exact counted.move (by simp [here])

theorem counter_eq {start : Int} {counters : List Int} (range : 0 ≤ start ∧ start < 2147483648)
    (chain : Chain id nextLrc start counters lrc) {index : Nat} {counter : Int}
    (found : counters[index]? = some counter) : counter = (start + index) % 2147483648 := by
  induction counters generalizing start index with
  | nil => cases found
  | cons head rest ih =>
    obtain ⟨rfl, tail⟩ := chain
    cases index with
    | zero =>
      obtain rfl : head = counter := by simpa using found
      simp only [id, Nat.cast_zero, add_zero] at range ⊢
      omega
    | succ index =>
      have later := ih ⟨nextLrc_nonneg head, Int.emod_lt_of_pos _ (by decide)⟩ tail (by simpa using found)
      rw [later, nextLrc]
      push_cast
      simp only [id]
      omega

/-- What the reservations show: ranges in the order of their counters tile the usable bytes from the end
of the log at startup to the insert position, every record refers to the one before it, and the counters
are consecutive. -/
structure Sound (segment : XLogSegment) (endOfLog lastSize : Nat) (system : WalSystem) : Prop where
  tiled : Chain Reservation.start Reservation.stop endOfLog system.reserved.reverse system.word.currentBytePos
  disjoint : system.reserved.reverse.Pairwise fun before after => before.stop ≤ after.start
  parts : ∀ reservation ∈ system.reserved.reverse, reservation.start ≤ reservation.stop ∧
    Chain WalRecord.start WalRecord.stop reservation.start reservation.records reservation.stop
  prevs : ∀ front before after back,
    system.reserved.reverse.flatMap Reservation.records = front ++ before :: after :: back →
    after.xlPrev segment = before.startPos segment
  firstPrev : ∀ record rest, system.reserved.reverse.flatMap Reservation.records = record :: rest →
    record.xlPrev segment = segment.bytePosToRecPtr (endOfLog - lastSize)
  consecutive : ∀ (index : Nat) (counter : Int),
    (system.reserved.reverse.flatMap Reservation.counters)[index]? = some counter →
    counter = (index : Int) % 2147483648
  counted : ∀ reservation ∈ system.reserved.reverse, HasCounter segment system reservation

theorem Invariant.sound {endOfLog lastSize : Nat} (invariant : Invariant endOfLog (endOfLog - lastSize) system)
    (counted : Counted segment system) : Sound segment endOfLog lastSize system := by
  obtain ⟨next, counter, laid⟩ := invariant.next
  have proper : ∀ reservation ∈ system.reserved.reverse, reservation.start ≤ reservation.stop :=
    fun reservation inside => laid.proper reservation (List.mem_reverse.mp inside)
  refine ⟨laid.ranges, laid.ranges.pairwise proper, ?_, ?_, ?_, ?_, ?_⟩
  · intro reservation inside
    exact ⟨proper reservation inside, laid.records reservation (List.mem_reverse.mp inside)⟩
  · intro front before after back split
    have prevs := laid.prevs
    rw [split] at prevs
    exact congrArg segment.bytePosToRecPtr prevs.adjacent
  · intro record rest split
    have prevs := laid.prevs
    rw [split] at prevs
    exact congrArg segment.bytePosToRecPtr prevs.1
  · intro index counter found
    have same := counter_eq (by decide) laid.counters found
    rwa [zero_add] at same
  · intro reservation inside
    cases same : system.reserved with
    | nil => rw [same] at inside; cases inside
    | cons newest older =>
      rw [List.mem_reverse, same] at inside
      rcases List.mem_cons.mp inside with rfl | old
      · exact counted.newest reservation older same
      · exact Or.inl (counted.older newest older same reservation old)

/-- Whatever the interleaving, as long as no log switch record ends exactly where its segment does. -/
theorem reservation_sound (segment : XLogSegment) (endOfLog lastSize : Nat) (events : List InsertEvent)
    (partway : Along (step segment) (Partway segment) (init endOfLog lastSize) events) :
    Sound segment endOfLog lastSize (run (step segment) (init endOfLog lastSize) events) := by
  have start : Counted segment (init endOfLog lastSize) :=
    ⟨nofun, nofun⟩
  obtain ⟨invariant, counted⟩ := run_invariant_along
    (fun system => Invariant endOfLog (endOfLog - lastSize) system ∧ Counted segment system)
    (fun _ event allowed holds => ⟨holds.1.step event, holds.2.step holds.1 event allowed⟩)
    partway ⟨init_invariant endOfLog lastSize, start⟩
  exact invariant.sound counted

theorem reservation_sound_group :
    Sound ⟨2048, Or.inl rfl⟩ 200 64 (run (step ⟨2048, Or.inl rfl⟩) (init 200 64)
      [.group 0 [100, 50], .logSwitch 1, .advance 0, .advance 1, .advance 1, .advance 1, .advance 1]) :=
  reservation_sound ⟨2048, Or.inl rfl⟩ 200 64
    [.group 0 [100, 50], .logSwitch 1, .advance 0, .advance 1, .advance 1, .advance 1, .advance 1]
    ⟨trivial, trivial, nofun, nofun, nofun, nofun, by rintro _ _ _ ⟨⟩; decide, trivial⟩

/-- Whatever the interleaving, no reservation reaches into the pointers of a later one. -/
theorem reserved_apart (segment : XLogSegment) (endOfLog lastSize : Nat) (events : List InsertEvent) :
    (run (step segment) (init endOfLog lastSize) events).reserved.reverse.Pairwise fun before after =>
      segment.bytePosToEndRecPtr before.stop ≤ segment.bytePosToRecPtr after.start := by
  have invariant := run_invariant (Invariant endOfLog (endOfLog - lastSize))
    (fun _ event holds => @Invariant.step segment _ _ _ holds event) (init_invariant endOfLog lastSize) events
  obtain ⟨next, -, laid⟩ := invariant.next
  have apart := laid.ranges.pairwise fun _ inside => laid.proper _ (List.mem_reverse.mp inside)
  refine apart.imp fun {before after} less => ?_
  have spec (bytepos : Nat) := @XLogSegment.recPtrToBytePos_spec segment bytepos 0
  have ends := XLogSegment.strictMono_of_back fun bytepos => (spec bytepos).2.2.1
  exact (ends.monotone less).trans (spec after.start).2.2.2

/-- A log switch that starts one record header before the end of its segment uses no counter: the next
record gets the one it had. -/
theorem reservation_not_sound : ¬ ∀ (segment : XLogSegment) (endOfLog lastSize : Nat)
    (events : List InsertEvent),
    Sound segment endOfLog lastSize (run (step segment) (init endOfLog lastSize) events) := by
  intro all
  have sound := all ⟨2048, Or.inl rfl⟩ 16728016 64 [.logSwitch 0, .advance 0, .advance 0, .advance 0,
    .advance 0, .single 1 100, .advance 1]
  have invariant := run_invariant (Invariant 16728016 (16728016 - 64))
    (fun system event holds => @Invariant.step ⟨2048, Or.inl rfl⟩ _ _ _ holds event)
      (init_invariant 16728016 64)
    [.logSwitch 0, .advance 0, .advance 0, .advance 0, .advance 0, .single 1 100, .advance 1]
  rcases sound.counted ⟨16728016, 16728048, [⟨16728016, 16728048, 16727952⟩], 0, []⟩ (by decide) with
    has | ⟨-, backend, currPos, copying, -⟩
  · cases has
  · obtain ⟨lrc, counter, -⟩ := invariant.next
    exact absurd (counter.kept backend 0 (by rw [copying]; rfl)).2 (by decide)

end WalSystem

end OpenGauss.Wal
