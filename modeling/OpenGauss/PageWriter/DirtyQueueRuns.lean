import OpenGauss.PageWriter.DirtyQueueWriter

namespace OpenGauss.PageWriter

open Lib

namespace CkptSystem

variable {sizes : QueueSizes} {system : CkptSystem} {entry : Nat → Option (Nat × QueueItem)}

/-- What one step does to the positions. -/
inductive EntryStep (system : CkptSystem) (entry : Nat → Option (Nat × QueueItem)) :
    CkptEvent → (Nat → Option (Nat × QueueItem)) → Prop
  | still (event : CkptEvent) : EntryStep system entry event entry
  | reserve {id buffer lsn tail : Nat} (here : system.backend id = .exchanging buffer lsn tail)
      (equal : system.reclsn = lsn ∧ system.tail = tail) :
      EntryStep system entry (.backend id) (Function.update entry tail (some (lsn, .coming id)))
  | fill {id buffer lsn loc : Nat} (here : system.backend id = .placed buffer lsn loc) :
      EntryStep system entry (.backend id) (Function.update entry loc (some (lsn, .page buffer)))
  | remove {id buffer : Nat} (here : system.backend id = .holding buffer)
    (dirty : (system.extra buffer).recLsn ≠ 0)
      (loc : Nat) : EntryStep system entry (.remove id) (Function.update entry loc none)
  | move {buffer source last : Nat} {rest : List Nat}
    (here : system.writer = .copying buffer source rest last) :
      EntryStep system entry .writer (Function.update (Function.update entry source none) last
        (some ((system.extra buffer).recLsn, .page buffer)))

/-- The positions after a step. -/
def Follows (sizes : QueueSizes) (system : CkptSystem) (entry : Nat → Option (Nat × QueueItem))
    (event : CkptEvent)
    (after : CkptSystem) : Prop :=
  ∃ entry', EntryStep system entry event entry' ∧ QueueInvariant sizes after entry'

namespace QueueInvariant

theorem still {after : CkptSystem} {event : CkptEvent} (invariant : QueueInvariant sizes after entry) :
    Follows sizes system entry event after :=
  ⟨entry, .still event, invariant⟩

section

variable (invariant : QueueInvariant sizes system entry)
include invariant

/-- The invariant says nothing about the lock of the prune, the checkpoint and its promise. -/
theorem outer (pruneLock : Option PruneLocker) (expectedFlushLoc : Nat)
    (flushAll : Bool) (checkpointer : CheckpointPc) (promised : Nat → Bool) :
    QueueInvariant sizes { system with pruneLock, expectedFlushLoc, flushAll, checkpointer, promised } entry :=
  ⟨invariant.queue, invariant.more, invariant.room, invariant.started, invariant.slots, invariant.free,
    invariant.backendLock, invariant.writerLock, invariant.real, invariant.settled, invariant.backends,
    invariant.coming, writerFacts_keep invariant.writer ⟨rfl, le_rfl, fun _ _ _ valid => valid,
      fun _ _ _ _ gap => gap, fun _ _ _ _ _ page => Or.inr page⟩
      fun _ _ => ⟨rfl, fun _ _ => Iff.rfl, fun _ _ _ valid => valid⟩⟩

theorem updateReclsn {lsn : Nat} (later : system.reclsn ≤ lsn) :
    QueueInvariant sizes { system with reclsn := lsn } entry :=
  ⟨invariant.queue.advance later, invariant.more, invariant.room,
    fun zero => invariant.started (Nat.le_zero.mp (zero ▸ later)), invariant.slots, invariant.free,
    invariant.backendLock, invariant.writerLock, invariant.real, invariant.settled, invariant.backends,
    invariant.coming, writerFacts_keep invariant.writer ⟨rfl, le_rfl, fun _ _ _ valid => valid,
      fun _ _ _ _ gap => gap, fun _ _ _ _ _ page => Or.inr page⟩
      fun _ _ => ⟨rfl, fun _ _ => Iff.rfl, fun _ _ _ valid => valid⟩⟩

theorem checkpointerStep :
    QueueInvariant sizes (system.stepCheckpointer sizes) entry := by
  unfold stepCheckpointer
  cases system.checkpointer <;> dsimp only <;> (try split_ifs) <;> (try split) <;> first
    | exact invariant
    | exact invariant.outer _ _ _ _ _

end

private theorem extra_self {id buffer : Nat} {extra : BufferDescExtra} {pc : BackendPc} :
    ((system.setExtra buffer extra).setBackend id pc).extra buffer = extra := Function.update_self ..

theorem backendAccess (invariant : QueueInvariant sizes system entry) (id : Nat) :
    Follows sizes system entry (.backend id) (system.stepBackend sizes id) := by
  have facts := invariant.backends id
  unfold stepBackend
  cases here : system.backend id with
  | idle => exact invariant.still
  | holding buffer => exact invariant.still
  | comparing buffer lsn tail =>
    rw [here] at facts
    refine still (invariant.silentStep (by rw [here]; rfl) facts.1.2 rfl (by rw [here]; rfl) ?_)
    exact ⟨facts.1, facts.2, le_rfl⟩
  | measuring buffer lsn tail head =>
    rw [here] at facts
    dsimp only
    split_ifs with full
    · exact still (invariant.silentStep (by rw [here]; rfl) facts.1.2 rfl (by rw [here]; rfl) (Or.inl facts.1))
    · refine still (invariant.silentStep (by rw [here]; rfl) facts.1.2 rfl (by rw [here]; rfl) ⟨facts.1, ?_⟩)
      have low := facts.2.1
      have first := facts.2.2
      have more := invariant.more
      unfold pageQueueSlotMinReserveNum at full ⊢
      omega
  | exchanging buffer lsn tail =>
    rw [here] at facts
    dsimp only
    split_ifs with equal
    · exact ⟨_, .reserve here equal, invariant.reserve here equal⟩
    · exact still (invariant.silentStep (by rw [here]; rfl) facts.1.2 rfl (by rw [here]; rfl) ⟨facts.1, le_rfl⟩)
  | reserved buffer lsn loc =>
    rw [here] at facts
    refine still (invariant.absentStep (by rw [here]; rfl) facts.1.2 rfl (by rw [here]; rfl) ?_)
    exact ⟨facts.1.2, congrArg BufferDescExtra.recLsn extra_self, facts.2⟩
  | stamped buffer lsn loc =>
    rw [here] at facts
    refine still (invariant.absentStep (by rw [here]; rfl) facts.1 rfl (by rw [here]; rfl) ?_)
    exact ⟨facts.1, (congrArg BufferDescExtra.recLsn extra_self).trans facts.2.1, facts.2.2,
      congrArg BufferDescExtra.dirtyQueueLoc extra_self⟩
  | placed buffer lsn loc => exact ⟨_, .fill here, invariant.fill here⟩
  | filled buffer lsn loc => exact still (invariant.publish here)
  | emptied buffer =>
    rw [here] at facts
    refine still (outer (invariant.absentStep (by rw [here]; rfl) facts rfl (by rw [here]; rfl) ?_) _ _ _ _ _)
    exact ⟨congrArg BufferDescExtra.recLsn extra_self, facts⟩
  | unstamped buffer =>
    rw [here] at facts
    refine still (invariant.absentStep (by rw [here]; rfl) facts.2 rfl (by rw [here]; rfl)
      (Or.inl ⟨?_, facts.2⟩))
    exact (congrArg BufferDescExtra.recLsn extra_self).trans facts.1

section

variable {pc before : WriterPc} {event : CkptEvent} (invariant : QueueInvariant sizes system entry)
  (here : system.writer = before) (facts : WriterFacts sizes system entry pc) (same : pc.buffer = before.buffer)
  (still : before.source = none) (whole : ¬ before.clears)

include invariant here facts same still whole

/-- A pass over a slot, or over the end of the queue. -/
theorem silentStill : Follows sizes system entry event { system with writer := pc } := by
  subst here
  exact ⟨entry, .still event, invariant.writerSilent same still whole facts⟩

theorem silentOuter {pruneLock : Option PruneLocker} {expectedFlushLoc : Nat} {flushAll : Bool} :
    Follows sizes system entry event { system with writer := pc, pruneLock, expectedFlushLoc, flushAll } := by
  subst here
  exact ⟨entry, .still event, (invariant.writerSilent same still whole facts).outer _ _ _ _ _⟩

end

variable (invariant : QueueInvariant sizes system entry)
include invariant

theorem writerAccess :
    Follows sizes system entry .writer (system.stepWriter sizes) := by
  have facts := invariant.writer
  have done : ∀ {num i : Nat} {found : Found}, system.writer = .scanning num i found →
      Follows sizes system entry .writer { system with writer := Found.done found } := by
    intro num i found here
    rw [here] at facts
    obtain ⟨inside, few, scanned⟩ := facts
    unfold Found.done
    split_ifs with idle
    · exact invariant.silentStill here trivial rfl rfl id
    · refine invariant.silentStill here ?_ rfl rfl id
      exact scanned.candidates (by omega) fun zero => idle (Or.inr zero)
  unfold stepWriter
  cases here : system.writer with
  | idle => exact still invariant
  | panicked => exact still invariant
  | expecting head =>
    dsimp only
    split_ifs <;>
      exact invariant.silentStill here trivial rfl rfl id
  | targeting head =>
    dsimp only
    split_ifs <;>
      exact invariant.silentStill here trivial rfl rfl id
  | resetting full =>
    dsimp only
    refine invariant.silentOuter here ?_ (by rfl) rfl id
    exact trivial
  | scanning num i found =>
    dsimp only
    have ready := done here
    rw [here] at facts
    obtain ⟨inside, few, scanned⟩ := facts
    split_ifs with past invalid enough
    · exact ready
    · exact ready
    · exact ready
    · refine invariant.silentStill here ?_ rfl rfl id
      exact ⟨inside, by omega, by simpa using invalid, scanned⟩
  | looking num i found =>
    rw [here] at facts
    obtain ⟨inside, few, valid, scanned⟩ := facts
    refine invariant.silentStill here ?_ rfl rfl id
    refine ⟨inside, few, scanned.look valid fun empty => ?_⟩
    exact invariant.gap_of_empty (Nat.le_add_right _ _) (by omega) valid empty
  | pruning rest last =>
    dsimp only
    rw [here] at facts
    split
    · refine invariant.silentOuter here ?_ (by rfl) rfl id
      exact facts
    · exact still invariant
  | comparing rest last =>
    dsimp only
    rw [here] at facts
    split_ifs <;>
      exact invariant.silentStill here facts rfl rfl id
  | raising rest last =>
    rw [here] at facts
    dsimp only
    refine invariant.silentOuter here ?_ (by rfl) rfl id
    exact facts
  | choosing rest last =>
    rw [here] at facts
    cases rest with
    | nil => exact invariant.silentStill here trivial rfl rfl id
    | cons source rest =>
      dsimp only
      split_ifs with zero behind
      · exact invariant.silentStill here trivial rfl rfl id
      · exact invariant.silentStill here (facts.next (Or.inl behind)) rfl rfl id
      · exact invariant.silentStill here ⟨Nat.lt_of_not_le behind, facts⟩ rfl rfl id
  | peeking source rest last =>
    rw [here] at facts
    obtain ⟨less, candidates⟩ := facts
    have low := candidates.ranged source (List.mem_cons_self ..)
    dsimp only
    split_ifs with empty
    · refine invariant.silentStill here ?_ rfl rfl id
      exact candidates.next (Or.inr (invariant.gap_of_empty low (less.trans candidates.high)
        (candidates.passed source low less.le).1 empty))
    · exact invariant.silentStill here ⟨less, candidates⟩ rfl rfl id
  | guarding source rest last =>
    rw [here] at facts
    obtain ⟨less, candidates⟩ := facts
    -- nobody fills a slot that was emptied, so the slot to move to is free
    have free := invariant.empty_of_gap candidates.low candidates.high candidates.gap (by rw [here]; rfl)
    dsimp only
    rw [if_neg (not_not.mpr free)]
    exact invariant.silentStill here ⟨less, candidates⟩ rfl rfl id
  | finding source rest last =>
    rw [here] at facts
    obtain ⟨less, candidates⟩ := facts
    have low := candidates.ranged source (List.mem_cons_self ..)
    refine invariant.silentStill here ?_ rfl rfl id
    exact ⟨less, candidates,
      invariant.page_of_held low (less.trans candidates.high) (candidates.passed source low less.le).1⟩
  | locking buffer source rest last =>
    rw [here] at facts
    obtain ⟨less, candidates, page⟩ := facts
    dsimp only
    split
    · have settled := invariant.settled buffer ‹_›
      exact still (invariant.writerRelock (Or.inl ⟨by rw [here]; rfl, ‹_›⟩) (Or.inr ⟨rfl, rfl⟩)
        (by rw [here]; rfl)
        (by rw [here]; exact id) settled ⟨less, candidates, page, settled⟩)
    · exact still invariant
  | rechecking buffer source rest last =>
    rw [here] at facts
    obtain ⟨less, candidates, page, settled⟩ := facts
    have low := candidates.ranged source (List.mem_cons_self ..)
    have high := less.trans candidates.high
    dsimp only
    split_ifs with empty
    · refine invariant.silentStill here ⟨settled, ?_⟩ rfl rfl id
      exact candidates.next
        (Or.inr (invariant.gap_of_empty low high (candidates.passed source low less.le).1 empty))
    · refine invariant.silentStill here ⟨less, candidates, page.resolve_left fun gap => empty ?_,
        settled⟩ rfl rfl id
      exact invariant.empty_of_gap low high gap (by rw [here]; rfl)
  | copying buffer source rest last => exact ⟨_, .move here, invariant.copy here⟩
  | relocating buffer source rest last => exact still (invariant.relocate here)
  | vacating buffer source rest last => exact still (invariant.vacate here)
  | unlocking buffer rest last =>
    rw [here] at facts
    exact still (invariant.writerRelock (Or.inr (by rw [here]; rfl)) (Or.inl ⟨rfl, rfl⟩) (by rw [here]; rfl)
      (by rw [here]; exact id) facts.1 facts.2)
  | releasing =>
    dsimp only
    refine invariant.silentOuter here ?_ (by rfl) rfl id
    exact trivial
  | skipping num i =>
    rw [here] at facts
    dsimp only
    split_ifs with past invalid
    · exact invariant.silentStill here trivial rfl rfl id
    · exact invariant.silentStill here trivial rfl rfl id
    · exact invariant.silentStill here ⟨Nat.lt_of_not_le past, facts, by simpa using invalid⟩ rfl rfl id
  | probing num i =>
    rw [here] at facts
    obtain ⟨few, inside, valid⟩ := facts
    dsimp only
    split_ifs with held
    · exact invariant.silentStill here trivial rfl rfl id
    · refine invariant.silentStill here ⟨few, inside, valid, ?_⟩ rfl rfl id
      exact invariant.gap_of_empty le_rfl (by omega) valid (not_not.mp held)
  | advancing num i => exact still (invariant.advanceHead here)
  | clearing num i => exact still (invariant.clearSlot here)

theorem removal {id buffer : Nat}
    (here : system.backend id = .holding buffer) (dirty : (system.extra buffer).recLsn ≠ 0) :
    Follows sizes system entry (.remove id) (system.removeDirtyPage id buffer) := by
  obtain ⟨loc, page, -, -⟩ := invariant.queued here dirty
  exact ⟨_, .remove here dirty loc, invariant.remove here dirty page⟩

theorem step (event : CkptEvent) :
    Follows sizes system entry event (system.step sizes event) := by
  unfold CkptSystem.step
  cases event with
  | lockHdr id buffer =>
    dsimp only
    split_ifs with possible
    · exact still (invariant.relock possible.2.1 (Or.inl ⟨possible.1, possible.2.2⟩) (Or.inr ⟨rfl, rfl⟩))
    · exact still invariant
  | push id =>
    dsimp only
    cases here : system.backend id with
    | holding buffer =>
      dsimp only
      split_ifs with clean
      · have facts := invariant.backends id
        rw [here] at facts
        have unqueued : Unqueued system entry buffer := by
          refine facts.resolve_right ?_
          rintro ⟨loc, page, -, -⟩
          obtain ⟨low, high⟩ := invariant.queue.inside loc _ _ page
          have slotFacts := invariant.slots loc low high
          rw [page] at slotFacts
          exact slotFacts.2.2.2.1 clean
        refine still (invariant.silentStep (by rw [here]; rfl) unqueued.2 rfl (by rw [here]; rfl) ?_)
        exact ⟨unqueued, le_rfl⟩
      · exact still invariant
    | _ => exact still invariant
  | remove id =>
    dsimp only
    cases here : system.backend id with
    | holding buffer =>
      dsimp only
      split_ifs with dirty
      · exact invariant.removal here dirty
      · exact still invariant
    | _ => exact still invariant
  | unlockHdr id =>
    dsimp only
    cases here : system.backend id with
    | holding buffer =>
      refine still (invariant.relock (invariant.real id buffer ?_) (Or.inr here) (Or.inl ⟨rfl, rfl⟩))
      rw [here]
      rfl
    | _ => exact still invariant
  | backend id => exact invariant.backendAccess id
  | updateReclsn lsn =>
    dsimp only
    split_ifs with later
    · exact still (invariant.updateReclsn later)
    · exact still invariant
  | expect =>
    dsimp only
    split_ifs with idle
    · exact invariant.silentStill idle trivial rfl rfl id
    · exact still invariant
  | prune =>
    dsimp only
    split_ifs with full
    · obtain ⟨idle, -⟩ := full
      have more := invariant.more
      exact invariant.silentStill idle ⟨by omega, Nat.zero_le _, Scanned.empty⟩ rfl rfl id
    · exact still invariant
  | skipHead num =>
    dsimp only
    split_ifs with fits
    · exact invariant.silentStill fits.1 fits.2 rfl rfl id
    · exact still invariant
  | writer => exact invariant.writerAccess
  | fullCheckpoint =>
    dsimp only
    split_ifs
    · exact still (invariant.outer _ _ _ _ _)
    · exact still invariant
  | restartPoint target =>
    dsimp only
    split_ifs
    · exact still (invariant.outer _ _ _ _ _)
    · exact still invariant
  | checkpointer => exact still invariant.checkpointerStep

end QueueInvariant

end CkptSystem

end OpenGauss.PageWriter
