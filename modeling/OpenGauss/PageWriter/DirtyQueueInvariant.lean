import OpenGauss.Lib.OrderedQueue
import OpenGauss.PageWriter.DirtyQueue

/-! The dirty page queue as an ordered queue of buffers and of buffers to come. -/

namespace OpenGauss.PageWriter

open Lib

/-- What a position holds: a buffer, or the promise of a backend to store one. -/
inductive QueueItem where
  | coming (id : Nat)
  | page (buffer : Nat)
  deriving DecidableEq, Repr

def BackendPc.buffer : BackendPc → Option Nat
  | .idle => none
  | .holding buffer | .comparing buffer _ _ | .measuring buffer _ _ _ | .exchanging buffer _ _
  | .reserved buffer _ _ | .stamped buffer _ _ | .placed buffer _ _ | .filled buffer _ _
  | .emptied buffer | .unstamped buffer => some buffer

/-- The position that a backend has taken and not filled, with its record position. -/
def BackendPc.coming : BackendPc → Option (Nat × Nat)
  | .reserved _ lsn loc | .stamped _ lsn loc | .placed _ lsn loc => some (lsn, loc)
  | _ => none

/-- The buffer whose header the page writer has locked. -/
def WriterPc.buffer : WriterPc → Option Nat
  | .rechecking buffer _ _ _ | .copying buffer _ _ _ | .relocating buffer _ _ _ | .vacating buffer _ _ _
  | .unlocking buffer _ _ => some buffer
  | _ => none

/-- The slot that still names a buffer that was moved, and the buffer. -/
def WriterPc.source : WriterPc → Option (Nat × Nat)
  | .relocating buffer source _ _ | .vacating buffer source _ _ => some (source, buffer)
  | _ => none

/-- The head has passed a slot whose state is not cleared yet. -/
def WriterPc.clears : WriterPc → Prop
  | .clearing _ _ => True
  | _ => False

namespace CkptSystem

section

variable (sizes : QueueSizes) (system : CkptSystem) (entry : Nat → Option (Nat × QueueItem))

def Absent (buffer : Nat) : Prop := ∀ loc lsn, entry loc ≠ some (lsn, .page buffer)

def Unqueued (buffer : Nat) : Prop := (system.extra buffer).recLsn = 0 ∧ Absent entry buffer

/-- The buffer is in the queue, at the place it names. -/
def Queued (buffer : Nat) : Prop :=
  ∃ loc, entry loc = some ((system.extra buffer).recLsn, .page buffer) ∧
    (system.extra buffer).dirtyQueueLoc = some (loc % sizes.size) ∧ (system.slotAt sizes loc).valid

def Settled (buffer : Nat) : Prop := Unqueued system entry buffer ∨ Queued sizes system entry buffer

/-- What a slot between head and tail says about its position. -/
def SlotFacts (loc : Nat) : Option (Nat × QueueItem) → Prop
  | none => (system.slotAt sizes loc).valid ∧
      ((system.slotAt sizes loc).buffer = 0 ∨ system.writer.source = some (loc,
      (system.slotAt sizes loc).buffer))
  | some (lsn, .coming _) => system.slotAt sizes loc = {} ∧ lsn ≠ 0
  | some (lsn, .page buffer) => (system.slotAt sizes loc).buffer = buffer ∧ buffer ≠ 0 ∧
      (system.extra buffer).recLsn = lsn ∧ lsn ≠ 0 ∧
      ((system.slotAt sizes loc).valid ∨ ∃ id, system.backend id = .filled buffer lsn loc)

def BackendFacts (id : Nat) : BackendPc → Prop
  | .idle => True
  | .holding buffer => Settled sizes system entry buffer
  | .comparing buffer _ tail => Unqueued system entry buffer ∧ tail ≤ system.tail
  | .measuring buffer _ tail head => Unqueued system entry buffer ∧ tail ≤ system.tail ∧ head ≤ system.head
  | .exchanging buffer _ tail =>
    Unqueued system entry buffer ∧ tail + pageQueueSlotMinReserveNum < system.head + sizes.size
  | .reserved buffer lsn loc => Unqueued system entry buffer ∧ entry loc = some (lsn, .coming id)
  | .stamped buffer lsn loc => Absent entry buffer ∧ (system.extra buffer).recLsn = lsn ∧
      entry loc = some (lsn, .coming id)
  | .placed buffer lsn loc => Absent entry buffer ∧ (system.extra buffer).recLsn = lsn ∧
      entry loc = some (lsn, .coming id) ∧ (system.extra buffer).dirtyQueueLoc = some (loc % sizes.size)
  | .filled buffer lsn loc => entry loc = some (lsn, .page buffer) ∧
      (system.extra buffer).dirtyQueueLoc = some (loc % sizes.size)
  | .emptied buffer => Absent entry buffer
  | .unstamped buffer => Unqueued system entry buffer

/-- The slots that the first loop of the prune has passed. -/
structure Scanned (i : Nat) (found : Found) : Prop where
  passed : ∀ loc, system.head ≤ loc → loc < system.head + i →
    (system.slotAt sizes loc).valid ∧ (loc ∈ found.validBuffers ∨ entry loc = none)
  descending : found.validBuffers.Pairwise (· > ·)
  ranged : ∀ loc ∈ found.validBuffers, system.head ≤ loc ∧ loc < system.head + i
  last : found.invalidSlotNum ≠ 0 →
    system.head ≤ found.lastInvalidSlot ∧ found.lastInvalidSlot < system.head + i ∧
      entry found.lastInvalidSlot = none

/-- The slots left to be moved, and the one to move to. -/
structure Candidates (rest : List Nat) (last : Nat) : Prop where
  low : system.head ≤ last
  high : last < system.tail
  gap : entry last = none
  descending : rest.Pairwise (· > ·)
  ranged : ∀ loc ∈ rest, system.head ≤ loc
  passed : ∀ loc, system.head ≤ loc → loc ≤ last →
    (system.slotAt sizes loc).valid ∧ (loc ∈ rest ∨ entry loc = none)

/-- The buffer is moved to the slot before which the next one goes. -/
structure Moved (buffer source : Nat) (rest : List Nat) (last : Nat) : Prop where
  less : source < last
  low : system.head ≤ source
  later : ∀ loc ∈ rest, loc < source
  gap : entry source = none
  high : last < system.tail
  page : entry last = some ((system.extra buffer).recLsn, .page buffer)
  valid : (system.slotAt sizes last).valid
  candidates : Candidates sizes system entry rest (last - 1)

def WriterFacts : WriterPc → Prop
  | .scanning num i found => system.head + num ≤ system.tail ∧ i ≤ num ∧ Scanned sizes system entry i found
  | .looking num i found => system.head + num ≤ system.tail ∧ i < num ∧
      (system.slotAt sizes (system.head + i)).valid ∧ Scanned sizes system entry i found
  | .pruning rest last | .comparing rest last | .raising rest last | .choosing rest last =>
    Candidates sizes system entry rest last
  | .peeking source rest last | .guarding source rest last | .finding source rest last =>
    source < last ∧ Candidates sizes system entry (source :: rest) last
  | .locking buffer source rest last => source < last ∧ Candidates sizes system entry (source :: rest) last ∧
      (entry source = none ∨ ∃ lsn, entry source = some (lsn, .page buffer))
  | .rechecking buffer source rest last => source < last ∧ Candidates sizes system entry (source :: rest) last ∧
      (entry source = none ∨ ∃ lsn, entry source = some (lsn, .page buffer)) ∧ Settled sizes system entry buffer
  | .copying buffer source rest last => source < last ∧ Candidates sizes system entry (source :: rest) last ∧
      (∃ lsn, entry source = some (lsn, .page buffer)) ∧ Settled sizes system entry buffer
  | .relocating buffer source rest last => Moved sizes system entry buffer source rest last
  | .vacating buffer source rest last => Moved sizes system entry buffer source rest last ∧
      (system.extra buffer).dirtyQueueLoc = some (last % sizes.size)
  | .unlocking buffer rest last => Settled sizes system entry buffer ∧ Candidates sizes system entry rest last
  | .panicked => False
  | .skipping num i => system.head + (num - i) ≤ system.tail
  | .probing num i => i < num ∧ system.head + (num - i) ≤ system.tail ∧ (system.slotAt sizes system.head).valid
  | .advancing num i => i < num ∧ system.head + (num - i) ≤ system.tail ∧
      (system.slotAt sizes system.head).valid ∧ entry system.head = none
  | .clearing num i => system.head + (num - (i + 1)) ≤ system.tail ∧ 0 < system.head
  | _ => True

structure QueueInvariant : Prop where
  queue : OrderedQueue system.head system.tail entry system.reclsn
  more : system.head ≤ system.tail
  room : system.tail ≤ system.head + (sizes.size - pageQueueSlotMinReserveNum)
  started : system.reclsn ≠ 0
  slots : ∀ loc, system.head ≤ loc → loc < system.tail → SlotFacts sizes system loc (entry loc)
  free : ∀ index, (∀ loc, system.head ≤ loc → loc < system.tail → loc % sizes.size ≠ index) →
    (system.slot index).buffer = 0 ∧
      ((system.slot index).valid → system.writer.clears ∧ index = (system.head - 1) % sizes.size)
  backendLock : ∀ buffer id, system.hdrLock buffer = some (.backend id) ↔
    (system.backend id).buffer = some buffer
  writerLock : ∀ buffer, system.hdrLock buffer = some .writer ↔ system.writer.buffer = some buffer
  real : ∀ id buffer, (system.backend id).buffer = some buffer → buffer ≠ 0
  settled : ∀ buffer, system.hdrLock buffer = none → Settled sizes system entry buffer
  backends : ∀ id, BackendFacts sizes system entry id (system.backend id)
  coming : ∀ loc lsn id, entry loc = some (lsn, .coming id) → (system.backend id).coming = some (lsn, loc)
  writer : WriterFacts sizes system entry system.writer

theorem init_invariant {reclsn : Nat} (started : reclsn ≠ 0) :
    QueueInvariant sizes (init reclsn) fun _ => none where
  queue := OrderedQueue.empty reclsn
  more := le_rfl
  room := Nat.zero_le _
  started := started
  slots loc _ below := absurd below (Nat.not_lt_zero loc)
  free _ _ := ⟨rfl, nofun⟩
  backendLock _ _ := ⟨nofun, nofun⟩
  writerLock _ := ⟨nofun, nofun⟩
  real _ _ := nofun
  settled _ _ := Or.inl ⟨rfl, nofun⟩
  backends _ := trivial
  coming _ _ _ := nofun
  writer := trivial

end

variable {sizes : QueueSizes} {system after : CkptSystem} {entry entry' : Nat → Option (Nat × QueueItem)}
  {buffer id loc lsn : Nat} {pc : BackendPc}

/-- A step that leaves a buffer and its place alone. -/
structure KeepsBuffer (sizes : QueueSizes) (system after : CkptSystem)
    (entry entry' : Nat → Option (Nat × QueueItem))
    (buffer : Nat) : Prop where
  extra : after.extra buffer = system.extra buffer
  page : ∀ loc lsn, entry' loc = some (lsn, .page buffer) ↔ entry loc = some (lsn, .page buffer)
  valid : ∀ loc lsn, entry loc = some (lsn, .page buffer) → (system.slotAt sizes loc).valid →
    (after.slotAt sizes loc).valid

theorem Absent.keep (absent : Absent entry buffer)
    (keeps : KeepsBuffer sizes system after entry entry' buffer) :
    Absent entry' buffer :=
  fun loc lsn here => absent loc lsn ((keeps.page loc lsn).mp here)

theorem Unqueued.keep (unqueued : Unqueued system entry buffer)
    (keeps : KeepsBuffer sizes system after entry entry' buffer) : Unqueued after entry' buffer :=
  ⟨by rw [keeps.extra]; exact unqueued.1, unqueued.2.keep keeps⟩

theorem Settled.keep (settled : Settled sizes system entry buffer)
    (keeps : KeepsBuffer sizes system after entry entry' buffer) : Settled sizes after entry' buffer := by
  rcases settled with unqueued | ⟨loc, here, place, valid⟩
  · exact Or.inl (unqueued.keep keeps)
  · refine Or.inr ⟨loc, ?_, ?_, keeps.valid loc _ here valid⟩
    · rw [keeps.extra]
      exact (keeps.page loc _).mpr here
    · rw [keeps.extra]
      exact place

theorem backendFacts_keep (facts : BackendFacts sizes system entry id pc)
    (keeps : ∀ buffer, pc.buffer = some buffer → KeepsBuffer sizes system after entry entry' buffer)
    (coming : ∀ loc lsn, entry loc = some (lsn, .coming id) → entry' loc = some (lsn, .coming id))
    (head : system.head ≤ after.head) (tail : system.tail ≤ after.tail) :
      BackendFacts sizes after entry' id pc := by
  cases pc with
  | idle => trivial
  | holding buffer => exact Settled.keep facts (keeps buffer rfl)
  | comparing buffer lsn low => exact ⟨facts.1.keep (keeps buffer rfl), facts.2.trans tail⟩
  | measuring buffer lsn low first =>
    exact ⟨facts.1.keep (keeps buffer rfl), facts.2.1.trans tail, facts.2.2.trans head⟩
  | exchanging buffer lsn low =>
    exact ⟨facts.1.keep (keeps buffer rfl), lt_of_lt_of_le facts.2 (Nat.add_le_add_right head _)⟩
  | reserved buffer lsn loc => exact ⟨facts.1.keep (keeps buffer rfl), coming loc lsn facts.2⟩
  | stamped buffer lsn loc =>
    obtain ⟨absent, stamp, here⟩ := facts
    exact ⟨absent.keep (keeps buffer rfl), by rw [(keeps buffer rfl).extra]; exact stamp, coming loc lsn here⟩
  | placed buffer lsn loc =>
    obtain ⟨absent, stamp, here, place⟩ := facts
    exact ⟨absent.keep (keeps buffer rfl), by rw [(keeps buffer rfl).extra]; exact stamp, coming loc lsn here,
      by rw [(keeps buffer rfl).extra]; exact place⟩
  | filled buffer lsn loc =>
    obtain ⟨here, place⟩ := facts
    exact ⟨((keeps buffer rfl).page loc lsn).mpr here, by rw [(keeps buffer rfl).extra]; exact place⟩
  | emptied buffer => exact Absent.keep facts (keeps buffer rfl)
  | unstamped buffer => exact Unqueued.keep facts (keeps buffer rfl)

/-- A step that takes no slot between head and tail back and adds buffers at the tail only. -/
structure KeepsSlots (sizes : QueueSizes) (system after : CkptSystem)
    (entry entry' : Nat → Option (Nat × QueueItem)) :
    Prop where
  head : after.head = system.head
  tail : system.tail ≤ after.tail
  valid : ∀ loc, system.head ≤ loc → loc < system.tail → (system.slotAt sizes loc).valid →
    (after.slotAt sizes loc).valid
  gaps : ∀ loc, (system.slotAt sizes loc).valid → system.head ≤ loc → loc < system.tail → entry loc = none →
    entry' loc = none
  pages : ∀ loc lsn buffer, system.head ≤ loc → loc < system.tail → entry loc = some (lsn, .page buffer) →
    entry' loc = none ∨ entry' loc = some (lsn, .page buffer)

theorem Scanned.keep {i : Nat} {found : Found} (scanned : Scanned sizes system entry i found)
    (keeps : KeepsSlots sizes system after entry entry') (inside : system.head + i ≤ system.tail) :
    Scanned sizes after entry' i found := by
  refine ⟨?_, scanned.descending, ?_, ?_⟩
  · rw [keeps.head]
    intro loc low high
    obtain ⟨valid, kind⟩ := scanned.passed loc low high
    exact ⟨keeps.valid loc low (by omega) valid, kind.imp_right (keeps.gaps loc valid low (by omega))⟩
  · rw [keeps.head]
    exact scanned.ranged
  · rw [keeps.head]
    intro present
    obtain ⟨low, high, gap⟩ := scanned.last present
    exact ⟨low, high, keeps.gaps _ (scanned.passed _ low high).1 low (by omega) gap⟩

theorem Candidates.keep {rest : List Nat} {last : Nat} (candidates : Candidates sizes system entry rest last)
    (keeps : KeepsSlots sizes system after entry entry') : Candidates sizes after entry' rest last := by
  obtain ⟨low, high, gap, descending, ranged, passed⟩ := candidates
  refine ⟨keeps.head ▸ low, lt_of_lt_of_le high keeps.tail, ?_, descending, keeps.head ▸ ranged, ?_⟩
  · exact keeps.gaps last (passed last low le_rfl).1 low high gap
  · rw [keeps.head]
    intro loc first before
    obtain ⟨valid, kind⟩ := passed loc first before
    have below := lt_of_le_of_lt before high
    exact ⟨keeps.valid loc first below valid, kind.imp_right (keeps.gaps loc valid first below)⟩

theorem Moved.keep {source last : Nat} {rest : List Nat}
    (moved : Moved sizes system entry buffer source rest last)
    (keeps : KeepsSlots sizes system after entry entry')
      (keepsBuffer : KeepsBuffer sizes system after entry entry' buffer) :
    Moved sizes after entry' buffer source rest last := by
  obtain ⟨less, low, later, gap, high, page, valid, candidates⟩ := moved
  refine ⟨less, keeps.head ▸ low, later, ?_, lt_of_lt_of_le high keeps.tail, ?_,
    keepsBuffer.valid _ _ page valid,
    candidates.keep keeps⟩
  · exact keeps.gaps source (candidates.passed source low (by omega)).1 low (less.trans high) gap
  · rw [keepsBuffer.extra]
    exact (keepsBuffer.page _ _).mpr page

theorem writerFacts_keep {pc : WriterPc} (facts : WriterFacts sizes system entry pc)
    (keeps : KeepsSlots sizes system after entry entry')
    (keepsBuffer : ∀ buffer, pc.buffer = some buffer → KeepsBuffer sizes system after entry entry' buffer) :
    WriterFacts sizes after entry' pc := by
  have sources : ∀ {source last : Nat} {rest : List Nat} {buffer : Nat}, source < last →
      Candidates sizes system entry (source :: rest) last →
      (entry source = none ∨ ∃ lsn, entry source = some (lsn, .page buffer)) →
      (entry' source = none ∨ ∃ lsn, entry' source = some (lsn, .page buffer)) := by
    intro source last rest buffer less candidates here
    have low := candidates.ranged source (List.mem_cons_self ..)
    have high := less.trans candidates.high
    rcases here with gap | ⟨lsn, page⟩
    · exact Or.inl (keeps.gaps source (candidates.passed source low less.le).1 low high gap)
    · exact (keeps.pages source lsn buffer low high page).imp_right fun page => ⟨lsn, page⟩
  cases pc with
  | scanning num i found =>
    obtain ⟨inside, few, scanned⟩ := facts
    exact ⟨keeps.head ▸ inside.trans keeps.tail, few, scanned.keep keeps (by omega)⟩
  | looking num i found =>
    obtain ⟨inside, few, valid, scanned⟩ := facts
    refine ⟨keeps.head ▸ inside.trans keeps.tail, few, ?_, scanned.keep keeps (by omega)⟩
    rw [keeps.head]
    exact keeps.valid _ (by omega) (by omega) valid
  | pruning rest last => exact Candidates.keep facts keeps
  | comparing rest last => exact Candidates.keep facts keeps
  | raising rest last => exact Candidates.keep facts keeps
  | choosing rest last => exact Candidates.keep facts keeps
  | peeking source rest last => exact ⟨facts.1, facts.2.keep keeps⟩
  | guarding source rest last => exact ⟨facts.1, facts.2.keep keeps⟩
  | finding source rest last => exact ⟨facts.1, facts.2.keep keeps⟩
  | locking buffer source rest last =>
    obtain ⟨less, candidates, here⟩ := facts
    exact ⟨less, candidates.keep keeps, sources less candidates here⟩
  | rechecking buffer source rest last =>
    obtain ⟨less, candidates, here, settled⟩ := facts
    exact ⟨less, candidates.keep keeps, sources less candidates here, settled.keep (keepsBuffer buffer rfl)⟩
  | copying buffer source rest last =>
    obtain ⟨less, candidates, ⟨lsn, here⟩, settled⟩ := facts
    exact ⟨less, candidates.keep keeps, ⟨lsn, ((keepsBuffer buffer rfl).page _ _).mpr here⟩,
      settled.keep (keepsBuffer buffer rfl)⟩
  | relocating buffer source rest last => exact Moved.keep facts keeps (keepsBuffer buffer rfl)
  | vacating buffer source rest last =>
    obtain ⟨moved, place⟩ := facts
    exact ⟨moved.keep keeps (keepsBuffer buffer rfl), by rw [(keepsBuffer buffer rfl).extra]; exact place⟩
  | unlocking buffer rest last => exact ⟨facts.1.keep (keepsBuffer buffer rfl), facts.2.keep keeps⟩
  | panicked => exact facts
  | skipping num i => exact (congrArg (· + (num - i)) keeps.head).le.trans (le_trans facts keeps.tail)
  | probing num i =>
    obtain ⟨few, inside, valid⟩ := facts
    refine ⟨few, keeps.head ▸ inside.trans keeps.tail, ?_⟩
    rw [keeps.head]
    exact keeps.valid _ le_rfl (by omega) valid
  | advancing num i =>
    obtain ⟨few, inside, valid, gap⟩ := facts
    refine ⟨few, keeps.head ▸ inside.trans keeps.tail, ?_, ?_⟩
    · rw [keeps.head]
      exact keeps.valid _ le_rfl (by omega) valid
    · rw [keeps.head]
      exact keeps.gaps _ valid le_rfl (by omega) gap
  | clearing num i => exact ⟨keeps.head ▸ facts.1.trans keeps.tail, keeps.head ▸ facts.2⟩
  | idle => trivial
  | expecting => trivial
  | targeting => trivial
  | resetting => trivial
  | releasing => trivial

end CkptSystem

end OpenGauss.PageWriter
