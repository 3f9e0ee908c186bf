import OpenGauss.PageWriter.DirtyQueueRuns

namespace OpenGauss.PageWriter

open Lib

/-- The position that a push has taken and not published, with the record position it obtained. -/
def BackendPc.taken : BackendPc → Option (Nat × Nat)
  | .reserved _ lsn loc | .stamped _ lsn loc | .placed _ lsn loc | .filled _ lsn loc => some (lsn, loc)
  | _ => none

namespace CkptSystem

variable (sizes : QueueSizes) (system : CkptSystem)

/-- The record position that counts for a place in the queue. -/
def SlotLsn (loc lsn : Nat) : Prop :=
  (∃ id, (system.backend id).taken = some (lsn, loc)) ∨
    ((system.slotAt sizes loc).valid ∧ (system.slotAt sizes loc).buffer ≠ 0 ∧
      (system.extra (system.slotAt sizes loc).buffer).recLsn = lsn)

/-- The first place with a buffer, where `ckpt_get_min_rec_lsn` stops. -/
structure FirstDirty (loc : Nat) : Prop where
  low : system.head ≤ loc
  high : loc < system.tail
  passed : ∀ before, system.head ≤ before → before < loc →
    (system.slotAt sizes before).valid ∧ (system.slotAt sizes before).buffer = 0
  valid : (system.slotAt sizes loc).valid
  held : (system.slotAt sizes loc).buffer ≠ 0

structure QueueSound : Prop where
  occupied : ∀ buffer, (system.extra buffer).recLsn ≠ 0 → system.hdrLock buffer = none →
    ∃ loc, system.head ≤ loc ∧ loc < system.tail ∧ system.slotAt sizes loc = { buffer, valid := true } ∧
      (system.extra buffer).dirtyQueueLoc = some (loc % sizes.size) ∧
      ∀ other, system.head ≤ other → other < system.tail → (system.slotAt sizes other).buffer =
      buffer → other = loc
  ordered : ∀ first second lsn later, system.head ≤ first → first < second → second < system.tail →
    SlotLsn sizes system first lsn → SlotLsn sizes system second later → lsn ≤ later
  fresh : ∀ id lsn loc, (system.backend id).coming = some (lsn, loc) →
    system.head ≤ loc ∧ loc < system.tail ∧ system.slotAt sizes loc = {}
  apart : ∀ first second, system.head ≤ first → first < system.tail → system.head ≤ second →
    second < system.tail →
    first % sizes.size = second % sizes.size → first = second
  cleared : system.writer.clears → ∀ loc, system.head ≤ loc → loc < system.tail →
    loc % sizes.size ≠ (system.head - 1) % sizes.size
  noPanic : system.writer ≠ .panicked
  redo : ∀ loc lsn, FirstDirty sizes system loc → (system.extra (system.slotAt sizes loc).buffer).recLsn = lsn →
    (∀ buffer, (system.extra buffer).recLsn ≠ 0 → (∀ id, system.backend id ≠ .emptied buffer) →
      lsn ≤ (system.extra buffer).recLsn) ∧
    (∀ id later place, (system.backend id).taken = some (later, place) → lsn ≤ later) ∧ lsn ≤ system.reclsn

variable {sizes : QueueSizes} {system : CkptSystem} {entry : Nat → Option (Nat × QueueItem)}
    {buffer loc lsn : Nat}

namespace QueueInvariant

section

variable (invariant : QueueInvariant sizes system entry)

include invariant

theorem entry_of_taken {id : Nat}
    (taken : (system.backend id).taken = some (lsn, loc)) : ∃ item, entry loc = some (lsn, item) := by
  have facts := invariant.backends id
  cases here : system.backend id with
  | reserved buffer lsn' loc' =>
    rw [here] at facts taken
    obtain ⟨rfl, rfl⟩ := Prod.mk.inj (Option.some.inj taken)
    exact ⟨_, facts.2⟩
  | stamped buffer lsn' loc' =>
    rw [here] at facts taken
    obtain ⟨rfl, rfl⟩ := Prod.mk.inj (Option.some.inj taken)
    exact ⟨_, facts.2.2⟩
  | placed buffer lsn' loc' =>
    rw [here] at facts taken
    obtain ⟨rfl, rfl⟩ := Prod.mk.inj (Option.some.inj taken)
    exact ⟨_, facts.2.2.1⟩
  | filled buffer lsn' loc' =>
    rw [here] at facts taken
    obtain ⟨rfl, rfl⟩ := Prod.mk.inj (Option.some.inj taken)
    exact ⟨_, facts.1⟩
  | _ =>
    rw [here] at taken
    cases taken

theorem moved {source : Nat} (moving : system.writer.source = some (source, buffer)) :
    system.writer.buffer = some buffer ∧ ∃ rest last, Moved sizes system entry buffer source rest last := by
  have facts := invariant.writer
  cases here : system.writer with
  | relocating buffer' source' rest last =>
    rw [here] at facts moving
    obtain ⟨rfl, rfl⟩ := Prod.mk.inj (Option.some.inj moving)
    exact ⟨rfl, rest, last, facts⟩
  | vacating buffer' source' rest last =>
    rw [here] at facts moving
    obtain ⟨rfl, rfl⟩ := Prod.mk.inj (Option.some.inj moving)
    exact ⟨rfl, rest, last, facts.1⟩
  | _ =>
    rw [here] at moving
    cases moving

/-- A record position that counts for a place is that of the next item. -/
theorem entry_of_slotLsn (low : system.head ≤ loc)
    (high : loc < system.tail) (counts : SlotLsn sizes system loc lsn) :
    ∃ place item, loc ≤ place ∧ entry place = some (lsn, item) ∧
      ∀ between, loc < between → between < place → entry between = none := by
  rcases counts with ⟨id, taken⟩ | ⟨valid, held, stamp⟩
  · obtain ⟨item, here⟩ := invariant.entry_of_taken taken
    exact ⟨loc, item, le_rfl, here, fun _ _ _ => by omega⟩
  · have facts := invariant.slots loc low high
    rcases here : entry loc with _ | ⟨key, id | buffer⟩ <;> rw [here] at facts
    · obtain ⟨-, rest, last, moved⟩ := invariant.moved (facts.2.resolve_left held)
      refine ⟨last, _, moved.less.le, stamp ▸ moved.page, fun between above below => ?_⟩
      refine (moved.candidates.passed between (low.trans above.le) (by omega)).2.resolve_left fun inside => ?_
      have := moved.later between inside
      omega
    · rw [facts.1] at valid
      cases valid
    · refine ⟨loc, .page buffer, le_rfl, ?_, fun _ _ _ => by omega⟩
      rw [here, ← stamp, facts.1, facts.2.2.1]

theorem ordered {first second later : Nat}
    (low : system.head ≤ first) (less : first < second) (high : second < system.tail)
    (counts : SlotLsn sizes system first lsn) (counts' : SlotLsn sizes system second later) : lsn ≤ later := by
  obtain ⟨place, item, -, here, gaps⟩ := invariant.entry_of_slotLsn low (less.trans high) counts
  obtain ⟨place', item', after, here', -⟩ := invariant.entry_of_slotLsn (low.trans less.le) high counts'
  rcases Nat.lt_trichotomy place place' with below | rfl | above
  · exact invariant.queue.sorted place place' _ _ _ _ below here here'
  · exact (Prod.mk.inj (Option.some.inj (here.symm.trans here'))).1.le
  · cases (gaps place' (less.trans_le after) above).symm.trans here'

theorem occupied (dirty : (system.extra buffer).recLsn ≠ 0) (unlocked : system.hdrLock buffer = none) :
    ∃ loc, system.head ≤ loc ∧ loc < system.tail ∧ system.slotAt sizes loc = { buffer, valid := true } ∧
      (system.extra buffer).dirtyQueueLoc = some (loc % sizes.size) ∧
      ∀ other, system.head ≤ other → other < system.tail → (system.slotAt sizes other).buffer = buffer →
        other = loc := by
  obtain ⟨loc, page, place, valid⟩ :=
      (invariant.settled buffer unlocked).resolve_left fun unqueued => dirty unqueued.1
  obtain ⟨low, high⟩ := invariant.queue.inside loc _ _ page
  have facts := invariant.slots loc low high
  rw [page] at facts
  have held := facts.1
  refine ⟨loc, low, high, ?_, place, ?_⟩
  · cases slot : system.slotAt sizes loc with
    | mk name marked =>
      rw [slot] at held valid
      rw [show name = buffer from held, show marked = true from valid]
  · intro other low' high' names
    have otherFacts := invariant.slots other low' high'
    rcases here : entry other with _ | ⟨key, id | held⟩ <;> rw [here] at otherFacts
    · rcases otherFacts.2 with empty | moving
      · exact absurd (names.symm.trans empty) facts.2.1
      · rw [names] at moving
        rw [(invariant.writerLock buffer).mpr (invariant.moved moving).1] at unlocked
        cases unlocked
    · rw [otherFacts.1] at names
      exact absurd names.symm facts.2.1
    · rw [← otherFacts.1, names] at here
      exact invariant.queue.unique other loc _ _ _ here page

/-- A dirty buffer has its place, or one to come. -/
theorem entry_of_dirty (dirty : (system.extra buffer).recLsn ≠ 0)
    (kept : ∀ id, system.backend id ≠ .emptied buffer) :
    ∃ loc item, entry loc = some ((system.extra buffer).recLsn, item) := by
  have settled : Settled sizes system entry buffer →
      ∃ loc item, entry loc = some ((system.extra buffer).recLsn, item) := by
    intro settled
    obtain ⟨loc, page, -, -⟩ := settled.resolve_left fun unqueued => dirty unqueued.1
    exact ⟨loc, _, page⟩
  rcases locked : system.hdrLock buffer with _ | ⟨id⟩ | _
  · exact settled (invariant.settled buffer locked)
  · have holds := (invariant.backendLock buffer id).mp locked
    have facts := invariant.backends id
    cases here : system.backend id with
    | idle =>
      rw [here] at holds
      cases holds
    | emptied held =>
      rw [here] at holds
      cases holds
      exact absurd here (kept id)
    | holding held =>
      rw [here] at holds facts
      cases holds
      exact settled facts
    | stamped held lsn loc =>
      rw [here] at holds facts
      cases holds
      exact ⟨loc, _, facts.2.1 ▸ facts.2.2⟩
    | placed held lsn loc =>
      rw [here] at holds facts
      cases holds
      exact ⟨loc, _, facts.2.1 ▸ facts.2.2.1⟩
    | filled held lsn loc =>
      rw [here] at holds facts
      cases holds
      obtain ⟨low, high⟩ := invariant.queue.inside loc _ _ facts.1
      have slotFacts := invariant.slots loc low high
      rw [facts.1] at slotFacts
      exact ⟨loc, _, slotFacts.2.2.1 ▸ facts.1⟩
    | unstamped held =>
      rw [here] at holds facts
      cases holds
      exact absurd facts.1 dirty
    | _ =>
      rw [here] at holds facts
      cases holds
      exact absurd facts.1.1 dirty
  · have holds := (invariant.writerLock buffer).mp locked
    have facts := invariant.writer
    cases here : system.writer with
    | rechecking held source rest last =>
      rw [here] at holds facts
      cases holds
      exact settled facts.2.2.2
    | copying held source rest last =>
      rw [here] at holds facts
      cases holds
      exact settled facts.2.2.2
    | relocating held source rest last =>
      rw [here] at holds facts
      cases holds
      exact ⟨last, _, facts.page⟩
    | vacating held source rest last =>
      rw [here] at holds facts
      cases holds
      exact ⟨last, _, facts.1.page⟩
    | unlocking held rest last =>
      rw [here] at holds facts
      cases holds
      exact settled facts.1
    | _ =>
      rw [here] at holds
      cases holds

theorem first_le (first : FirstDirty sizes system loc) {place key : Nat}
    {item : QueueItem} (here : entry place = some (key, item)) :
    (system.extra (system.slotAt sizes loc).buffer).recLsn ≤ key := by
  obtain ⟨next, other, after, also, gaps⟩ := invariant.entry_of_slotLsn first.low first.high
    (Or.inr ⟨first.valid, first.held, rfl⟩)
  rcases Nat.lt_trichotomy next place with below | rfl | above
  · exact invariant.queue.sorted next place _ _ _ _ below also here
  · exact (Prod.mk.inj (Option.some.inj (also.symm.trans here))).1.le
  · obtain ⟨low, -⟩ := invariant.queue.inside place _ _ here
    rcases Nat.lt_trichotomy loc place with later | rfl | earlier
    · cases (gaps place later above).symm.trans here
    · have facts := invariant.slots loc first.low first.high
      rw [here] at facts
      cases item with
      | coming id =>
        have valid := first.valid
        rw [facts.1] at valid
        cases valid
      | page buffer =>
        rw [facts.1]
        exact facts.2.2.1.le
    · have empty := first.passed place low earlier
      cases (invariant.gap_of_empty low (earlier.trans first.high) empty.1 empty.2).symm.trans here

theorem sound : QueueSound sizes system := by
  refine ⟨fun buffer dirty unlocked => invariant.occupied dirty unlocked,
    fun first second lsn later low less high counts counts' => invariant.ordered low less high counts counts',
    ?_, fun first second low high low' high' same =>
      invariant.slot_injective low high low' high' same, ?_, ?_, ?_⟩
  · intro id lsn loc coming
    have facts := invariant.backends id
    cases here : system.backend id with
    | reserved buffer lsn' loc' =>
      rw [here] at facts coming
      cases coming
      obtain ⟨low, high, slot, -⟩ := invariant.coming_facts facts.2
      exact ⟨low, high, slot⟩
    | stamped buffer lsn' loc' =>
      rw [here] at facts coming
      cases coming
      obtain ⟨low, high, slot, -⟩ := invariant.coming_facts facts.2.2
      exact ⟨low, high, slot⟩
    | placed buffer lsn' loc' =>
      rw [here] at facts coming
      cases coming
      obtain ⟨low, high, slot, -⟩ := invariant.coming_facts facts.2.2.1
      exact ⟨low, high, slot⟩
    | _ =>
      rw [here] at coming
      cases coming
  · exact fun clears => (invariant.cleared_apart clears).2
  · intro panicked
    have facts := invariant.writer
    rw [panicked] at facts
    exact facts
  · rintro loc lsn first rfl
    refine ⟨?_, ?_, ?_⟩
    · intro buffer dirty kept
      obtain ⟨place, item, here⟩ := invariant.entry_of_dirty dirty kept
      exact invariant.first_le first here
    · intro id later place taken
      obtain ⟨item, here⟩ := invariant.entry_of_taken taken
      exact invariant.first_le first here
    · obtain ⟨next, item, -, here, -⟩ := invariant.entry_of_slotLsn first.low first.high
        (Or.inr ⟨first.valid, first.held, rfl⟩)
      exact invariant.queue.bounded next _ _ here

end

end QueueInvariant

theorem run_queueInvariant {reclsn : Nat} (started : reclsn ≠ 0) (events : List CkptEvent) :
    ∃ entry, QueueInvariant sizes (run (step sizes) (init reclsn) events) entry := by
  refine run_invariant (fun system => ∃ entry, QueueInvariant sizes system entry) ?_ ⟨_,
    init_invariant sizes started⟩
    events
  rintro system event ⟨entry, invariant⟩
  obtain ⟨entry', -, after⟩ := invariant.step event
  exact ⟨entry', after⟩

/-- Whatever backends, the page writer and checkpoints do in any order, the queue stays ordered. -/
theorem dirtyQueue_sound (sizes : QueueSizes) {reclsn : Nat} (started : reclsn ≠ 0) (events : List CkptEvent) :
    QueueSound sizes (run (step sizes) (init reclsn) events) := by
  obtain ⟨entry, invariant⟩ := run_queueInvariant started events
  exact invariant.sound

theorem dirtyQueue_sound_pushed : QueueSound ⟨8, 5, 4, 12⟩ (run (step ⟨8, 5, 4, 12⟩) (init 5)
      [.lockHdr 1 3, .push 1, .backend 1, .backend 1, .backend 1, .backend 1, .backend 1,
      .backend 1, .backend 1,
        .unlockHdr 1]) :=
  dirtyQueue_sound ⟨8, 5, 4, 12⟩ (by decide) _

end CkptSystem

end OpenGauss.PageWriter
