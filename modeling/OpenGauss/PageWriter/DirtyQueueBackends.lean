import OpenGauss.PageWriter.DirtyQueueInvariant

namespace OpenGauss.PageWriter

open Function (update update_apply update_eq_self update_of_ne update_self)

open Lib

namespace CkptSystem

variable {sizes : QueueSizes} {system after : CkptSystem} {entry entry' : Nat → Option (Nat × QueueItem)}
  {buffer other id loc lsn : Nat} {pc : BackendPc}

namespace QueueInvariant

section

variable (invariant : QueueInvariant sizes system entry)

include invariant

theorem backend_alone {id' : Nat}
    (first : (system.backend id).buffer = some buffer)
      (second : (system.backend id').buffer = some buffer) : id' = id := by
  have one := (invariant.backendLock buffer id).mpr first
  have two := (invariant.backendLock buffer id').mpr second
  rw [one] at two
  exact (HdrLocker.backend.inj (Option.some.inj two)).symm

theorem writer_apart
    (locked : (system.backend id).buffer = some buffer) : system.writer.buffer ≠ some buffer := by
  intro also
  have one := (invariant.backendLock buffer id).mpr locked
  have two := (invariant.writerLock buffer).mpr also
  rw [one] at two
  cases two

theorem locked_ne_none
    (locked : (system.backend id).buffer = some buffer) : system.hdrLock buffer ≠ none := by
  rw [(invariant.backendLock buffer id).mpr locked]
  nofun

/-- Two positions between head and tail never have one slot. -/
theorem slot_injective {first second : Nat}
    (low : system.head ≤ first) (high : first < system.tail) (low' : system.head ≤ second)
      (high' : second < system.tail)
    (same : first % sizes.size = second % sizes.size) : first = second := by
  have room := invariant.room
  unfold pageQueueSlotMinReserveNum at room
  rcases Nat.lt_trichotomy first second with less | equal | more
  · have apart := (Nat.modEq_iff_dvd' less.le).mp same
    have := Nat.le_of_dvd (by omega) apart
    omega
  · exact equal
  · have apart := (Nat.modEq_iff_dvd' more.le).mp same.symm
    have := Nat.le_of_dvd (by omega) apart
    omega

/-- The slot behind the head that is to be cleared belongs to no position. -/
theorem cleared_apart (clears : system.writer.clears) :
    0 < system.head ∧ ∀ loc, system.head ≤ loc → loc < system.tail →
      loc % sizes.size ≠ (system.head - 1) % sizes.size := by
  have positive : 0 < system.head := by
    have facts := invariant.writer
    cases here : system.writer with
    | clearing num i =>
      rw [here] at facts
      exact facts.2
    | _ =>
      rw [here] at clears
      exact clears.elim
  have room := invariant.room
  unfold pageQueueSlotMinReserveNum at room
  refine ⟨positive, fun loc low high same => ?_⟩
  have before : system.head - 1 ≤ loc := by omega
  have far := Nat.le_of_dvd (by omega) ((Nat.modEq_iff_dvd' before).mp same.symm)
  omega

end

theorem backendStep (invariant : QueueInvariant sizes system entry) (hdrLock : after.hdrLock = system.hdrLock)
    (writer : after.writer = system.writer) (backend : after.backend = update system.backend id pc)
    (locked : (system.backend id).buffer = some buffer) (same : pc.buffer = some buffer)
    (others : ∀ other, other ≠ buffer → KeepsBuffer sizes system after entry entry' other)
    (comings : ∀ id' loc lsn, id' ≠ id →
      (entry' loc = some (lsn, .coming id') ↔ entry loc = some (lsn, .coming id')))
    (coming : ∀ loc lsn, entry' loc = some (lsn, .coming id) → pc.coming = some (lsn, loc))
    (facts : BackendFacts sizes after entry' id pc) (keeps : KeepsSlots sizes system after entry entry')
    (queue : OrderedQueue after.head after.tail entry' after.reclsn)
    (room : after.tail ≤ after.head + (sizes.size - pageQueueSlotMinReserveNum)) (started : after.reclsn ≠ 0)
    (slots : ∀ loc, after.head ≤ loc → loc < after.tail → SlotFacts sizes after loc (entry' loc))
    (free : ∀ index, (∀ loc, after.head ≤ loc → loc < after.tail → loc % sizes.size ≠ index) →
      (after.slot index).buffer = 0 ∧
        ((after.slot index).valid → after.writer.clears ∧ index = (after.head - 1) % sizes.size)) :
    QueueInvariant sizes after entry' := by
  have buffers : ∀ other, (after.backend other).buffer = (system.backend other).buffer := by
    intro other
    rw [backend, update_apply]
    split_ifs with self
    · rw [self, same, locked]
    · rfl
  refine ⟨queue, ?_, room, started, slots, free, ?_, ?_, ?_, ?_, ?_, ?_, ?_⟩
  · exact keeps.head ▸ invariant.more.trans keeps.tail
  · intro buffer other
    rw [hdrLock, buffers]
    exact invariant.backendLock buffer other
  · intro buffer
    rw [hdrLock, writer]
    exact invariant.writerLock buffer
  · intro other buffer
    rw [buffers]
    exact invariant.real other buffer
  · intro other unlocked
    rw [hdrLock] at unlocked
    refine (invariant.settled other unlocked).keep (others other ?_)
    rintro rfl
    exact invariant.locked_ne_none locked unlocked
  · intro other
    rw [backend, update_apply]
    split_ifs with self
    · rw [self]
      exact facts
    · refine backendFacts_keep (invariant.backends other) ?_ ?_ keeps.head.ge keeps.tail
      · intro held has
        refine others held ?_
        rintro rfl
        exact self (invariant.backend_alone locked has)
      · exact fun loc lsn here => (comings other loc lsn self).mpr here
  · intro loc lsn other here
    rw [backend, update_apply]
    split_ifs with self
    · subst self
      exact coming loc lsn here
    · exact invariant.coming loc lsn other ((comings other loc lsn self).mp here)
  · rw [writer]
    refine writerFacts_keep invariant.writer keeps ?_
    intro held has
    refine others held ?_
    rintro rfl
    exact invariant.writer_apart locked has

theorem slotFacts_keep {kind : Option (Nat × QueueItem)} (facts : SlotFacts sizes system loc kind)
    (slot : after.slotAt sizes loc = system.slotAt sizes loc)
    (writer : ∀ held, system.writer.source = some (loc, held) → after.writer.source = some (loc, held))
    (extra : ∀ lsn buffer, kind = some (lsn, .page buffer) →
      (after.extra buffer).recLsn = (system.extra buffer).recLsn)
    (filled : ∀ id buffer lsn, kind = some (lsn, .page buffer) → system.backend id = .filled buffer lsn loc →
      after.backend id = .filled buffer lsn loc) : SlotFacts sizes after loc kind := by
  rcases kind with _ | ⟨lsn, id | buffer⟩ <;> simp only [SlotFacts] at facts ⊢
  · rw [slot]
    exact ⟨facts.1, facts.2.imp_right (writer _)⟩
  · rw [slot]
    exact facts
  · rw [slot, extra lsn buffer rfl]
    refine ⟨facts.1, facts.2.1, facts.2.2.1, facts.2.2.2.1, facts.2.2.2.2.imp_right ?_⟩
    rintro ⟨id, here⟩
    exact ⟨id, filled id buffer lsn rfl here⟩

section

variable (invariant : QueueInvariant sizes system entry)
include invariant

/-- A step that changes threads and locks of headers only. -/
theorem threads {hdrLock : Nat → Option HdrLocker}
    {backend : Nat → BackendPc} {writer : WriterPc}
    (backendLock : ∀ buffer id, hdrLock buffer = some (.backend id) ↔ (backend id).buffer = some buffer)
    (writerLock : ∀ buffer, hdrLock buffer = some .writer ↔ writer.buffer = some buffer)
    (real : ∀ id buffer, (backend id).buffer = some buffer → buffer ≠ 0)
    (settled : ∀ buffer, hdrLock buffer = none → Settled sizes system entry buffer)
    (coming : ∀ id, (backend id).coming = (system.backend id).coming)
    (filled : ∀ id buffer lsn loc, system.backend id = .filled buffer lsn loc →
      backend id = .filled buffer lsn loc)
    (source : ∀ loc held, system.writer.source = some (loc, held) → writer.source = some (loc, held))
    (clears : system.writer.clears → writer.clears)
      (facts : ∀ id, BackendFacts sizes system entry id (backend id))
    (writerFacts : WriterFacts sizes system entry writer) :
    QueueInvariant sizes { system with hdrLock, backend, writer } entry := by
  have kept : ∀ held, KeepsBuffer sizes system { system with hdrLock, backend, writer } entry entry held :=
    fun _ => ⟨rfl, fun _ _ => Iff.rfl, fun _ _ _ valid => valid⟩
  refine ⟨invariant.queue, invariant.more, invariant.room, invariant.started, ?_, ?_, backendLock,
    writerLock, real,
    fun held free => (settled held free).keep (kept held), ?_, ?_, ?_⟩
  · intro loc low high
    exact slotFacts_keep (invariant.slots loc low high) rfl (source loc) (fun _ _ _ => rfl)
      fun id held lsn _ => filled id held lsn loc
  · intro index unused
    obtain ⟨empty, cleared⟩ := invariant.free index unused
    exact ⟨empty, fun valid => (cleared valid).imp_left clears⟩
  · exact fun id => backendFacts_keep (facts id) (fun held _ => kept held) (fun _ _ here => here) le_rfl le_rfl
  · exact fun loc lsn id here => (coming id).trans (invariant.coming loc lsn id here)
  · exact writerFacts_keep writerFacts ⟨rfl, le_rfl, fun _ _ _ valid => valid, fun _ _ _ _ gap => gap,
      fun _ _ _ _ _ page => Or.inr page⟩ fun held _ => kept held

/-- Steps about a buffer that no position holds. -/
theorem absentStep {extra : BufferDescExtra}
    (locked : (system.backend id).buffer = some buffer) (absent : Absent entry buffer)
    (same : pc.buffer = some buffer) (coming : pc.coming = (system.backend id).coming)
    (facts : BackendFacts sizes ((system.setExtra buffer extra).setBackend id pc) entry id pc) :
    QueueInvariant sizes ((system.setExtra buffer extra).setBackend id pc) entry := by
  have extras : ∀ other, other ≠ buffer → ((system.setExtra buffer extra).setBackend id pc).extra other =
      system.extra other := fun other different => update_of_ne different _ _
  refine invariant.backendStep rfl rfl rfl locked same ?_ (fun _ _ _ _ => Iff.rfl) ?_ facts
    ⟨rfl, le_rfl, fun _ _ _ valid => valid, fun _ _ _ _ gap => gap, fun _ _ _ _ _ page => Or.inr page⟩
    invariant.queue invariant.room invariant.started ?_ invariant.free
  · exact fun other different => ⟨extras other different, fun _ _ => Iff.rfl, fun _ _ _ valid => valid⟩
  · intro loc lsn here
    rw [coming]
    exact invariant.coming loc lsn id here
  · intro loc low high
    refine slotFacts_keep (invariant.slots loc low high) rfl (fun _ same => same) ?_ ?_
    · rintro lsn other here
      refine congrArg (·.recLsn) (extras other ?_)
      rintro rfl
      exact absent loc lsn here
    · intro other held lsn here pending
      refine (update_of_ne ?_ _ _).trans pending
      rintro rfl
      rw [pending] at locked
      obtain rfl := Option.some.inj locked
      exact absent loc lsn here

/-- Steps that leave the shared fields alone. -/
theorem silentStep (locked : (system.backend id).buffer = some buffer)
    (absent : Absent entry buffer)
    (same : pc.buffer = some buffer) (coming : pc.coming = (system.backend id).coming)
    (facts : BackendFacts sizes system entry id pc) : QueueInvariant sizes (system.setBackend id pc) entry := by
  have still : (system.setExtra buffer (system.extra buffer)).setBackend id pc = system.setBackend id pc := by
    unfold setExtra
    rw [update_eq_self]
  rw [← still]
  refine invariant.absentStep locked absent same coming ?_
  rw [still]
  refine backendFacts_keep facts (fun _ _ => ⟨rfl, fun _ _ => Iff.rfl, fun _ _ _ valid => valid⟩)
    (fun _ _ here => here) le_rfl le_rfl

end

section

variable (invariant : QueueInvariant sizes system entry)

include invariant

/-- The position at the tail has a slot of its own, and its state is cleared. -/
theorem tail_free (room : system.tail + pageQueueSlotMinReserveNum < system.head + sizes.size) :
    (∀ loc, system.head ≤ loc → loc < system.tail → loc % sizes.size ≠ system.tail % sizes.size) ∧
      system.slot (system.tail % sizes.size) = {} := by
  unfold pageQueueSlotMinReserveNum at room
  have apart : ∀ loc, system.head ≤ loc + 1 → loc < system.tail → loc % sizes.size ≠
      system.tail % sizes.size := by
    intro loc low high same
    have far := Nat.le_of_dvd (by omega) ((Nat.modEq_iff_dvd' high.le).mp same)
    omega
  have others : ∀ loc, system.head ≤ loc → loc < system.tail → loc % sizes.size ≠ system.tail % sizes.size :=
    fun loc low high => apart loc (by omega) high
  obtain ⟨empty, cleared⟩ := invariant.free _ others
  refine ⟨others, ?_⟩
  have invalid : (system.slot (system.tail % sizes.size)).valid = false := by
    by_contra valid
    obtain ⟨clears, same⟩ := cleared (by simpa using valid)
    have positive := (invariant.cleared_apart clears).1
    have more := invariant.more
    exact apart (system.head - 1) (by omega) (by omega) same.symm
  cases slot : system.slot (system.tail % sizes.size) with
  | mk held valid =>
    rw [slot] at empty invalid
    dsimp only at empty invalid
    rw [empty, invalid]

theorem reserve {lsn tail : Nat}
    (here : system.backend id = .exchanging buffer lsn tail)
      (equal : system.reclsn = lsn ∧ system.tail = tail) :
    QueueInvariant sizes { system.setBackend id (.reserved buffer lsn tail) with tail := tail + 1 }
      (update entry tail (some (lsn, .coming id))) := by
  obtain ⟨rfl, rfl⟩ := equal
  have facts := invariant.backends id
  rw [here] at facts
  obtain ⟨unqueued, room⟩ := facts
  obtain ⟨others, clean⟩ := invariant.tail_free room
  have noComing : ∀ loc lsn, entry loc ≠ some (lsn, .coming id) := by
    intro loc lsn has
    have := invariant.coming loc lsn id has
    rw [here] at this
    cases this
  have vacant : entry system.tail = none := invariant.queue.outside (Or.inr le_rfl)
  have page : ∀ loc lsn held, update entry system.tail (some (system.reclsn, .coming id)) loc =
      some (lsn, .page held) ↔ entry loc = some (lsn, .page held) := by
    intro loc lsn held
    rw [update_apply]
    split_ifs with self
    · rw [self, vacant]
      simp
    · rfl
  refine @backendStep sizes system _ entry _ buffer id (.reserved buffer system.reclsn system.tail)
    invariant rfl rfl rfl
    (by rw [here]; rfl) rfl ?_ ?_ ?_ ?_ ?_ (invariant.queue.reserve invariant.more noComing)
      ?_ invariant.started ?_ ?_
  · exact fun other _ => ⟨rfl, fun loc lsn => page loc lsn other, fun _ _ _ valid => valid⟩
  · intro other loc lsn different
    rw [update_apply]
    split_ifs with self
    · rw [self, vacant]
      simp [different.symm]
    · rfl
  · intro loc lsn has
    by_cases self : loc = system.tail
    · subst self
      rw [update_self] at has
      obtain ⟨rfl, -⟩ := Prod.mk.inj (Option.some.inj has)
      rfl
    · rw [update_of_ne self] at has
      exact absurd has (noComing loc lsn)
  · refine ⟨⟨unqueued.1, fun loc lsn has => unqueued.2 loc lsn ((page loc lsn buffer).mp has)⟩, update_self ..⟩
  · refine ⟨rfl, Nat.le_succ _, fun _ _ _ valid => valid, ?_, ?_⟩
    · exact fun loc _ _ below gap => (update_of_ne below.ne _ _).trans gap
    · exact fun loc lsn held _ below has => Or.inr ((update_of_ne below.ne _ _).trans has)
  · unfold pageQueueSlotMinReserveNum at room ⊢
    show system.tail + 1 ≤ system.head + (sizes.size - 2)
    omega
  · intro loc low high
    by_cases self : loc = system.tail
    · subst self
      rw [update_self]
      exact ⟨clean, invariant.started⟩
    · rw [update_of_ne self]
      have below : loc < system.tail := Nat.lt_of_le_of_ne (Nat.lt_succ_iff.mp high) self
      refine slotFacts_keep (invariant.slots loc low below) rfl (fun _ same => same) (fun _ _ _ => rfl) ?_
      intro other held lsn _ pending
      refine (update_of_ne ?_ _ _).trans pending
      rintro rfl
      rw [here] at pending
      cases pending
  · intro index unused
    exact invariant.free index fun loc low high => unused loc low (high.trans (Nat.lt_succ_self _))

theorem coming_facts (here : entry loc = some (lsn, .coming id)) :
    system.head ≤ loc ∧ loc < system.tail ∧ system.slotAt sizes loc = {} ∧ lsn ≠ 0 := by
  obtain ⟨low, high⟩ := invariant.queue.inside loc lsn _ here
  have facts := invariant.slots loc low high
  rw [here] at facts
  exact ⟨low, high, facts.1, facts.2⟩

/-- Writing the slot of a position writes that of no other one. -/
theorem slotAt_setSlot {slot : DirtyPageQueueSlot} {first : Nat}
    (low : system.head ≤ first) (high : first < system.tail) {second : Nat} (low' : system.head ≤ second)
    (high' : second < system.tail) :
    (system.setSlot (first % sizes.size) slot).slotAt sizes second =
      if second = first then slot else system.slotAt sizes second := by
  unfold slotAt setSlot
  dsimp only
  rw [update_apply]
  by_cases same : second = first
  · rw [if_pos (by rw [same]), if_pos same]
  · rw [if_neg (fun equal => same (invariant.slot_injective low' high' low high equal)), if_neg same]

/-- Slots that no position has are left alone. -/
theorem free_setSlot {slot : DirtyPageQueueSlot} {first : Nat}
    (low : system.head ≤ first) (high : first < system.tail) (index : Nat)
    (unused : ∀ loc, system.head ≤ loc → loc < system.tail → loc % sizes.size ≠ index) :
    ((system.setSlot (first % sizes.size) slot).slot index).buffer = 0 ∧
      (((system.setSlot (first % sizes.size) slot).slot index).valid →
        system.writer.clears ∧ index = (system.head - 1) % sizes.size) := by
  have apart : index ≠ first % sizes.size := (unused first low high).symm
  have kept : (system.setSlot (first % sizes.size) slot).slot index = system.slot index :=
    update_of_ne apart _ _
  rw [kept]
  exact invariant.free index unused

theorem valid_setSlot {slot : DirtyPageQueueSlot} {first : Nat} (low : system.head ≤ first)
    (high : first < system.tail)
    (mark : (system.slotAt sizes first).valid → slot.valid) {second : Nat} (low' : system.head ≤ second)
    (high' : second < system.tail) (valid : (system.slotAt sizes second).valid) :
    ((system.setSlot (first % sizes.size) slot).slotAt sizes second).valid := by
  rw [invariant.slotAt_setSlot low high low' high']
  split_ifs with self
  · exact mark (self ▸ valid)
  · exact valid

/-- A backend writes the slot of the position that it has taken, or of its buffer. -/
theorem slotStep {slot : DirtyPageQueueSlot} {kind : Option (Nat × QueueItem)}
    (locked : (system.backend id).buffer = some buffer) (same : pc.buffer = some buffer)
    (owned : entry loc = some (lsn, .coming id) ∨ entry loc = some (lsn, .page buffer))
    (becomes : kind = none ∨ kind = some (lsn, .page buffer))
    (own : ∀ lsn' second, (system.backend id).coming = some (lsn', second) → second = loc)
    (ownFilled : ∀ held lsn' second, system.backend id = .filled held lsn' second → second = loc)
    (mark : (system.slotAt sizes loc).valid → slot.valid)
    (queue : OrderedQueue system.head system.tail (update entry loc kind) system.reclsn)
    (facts : BackendFacts sizes ((system.setSlot (loc % sizes.size) slot).setBackend id pc)
      (update entry loc kind) id pc)
    (slotFacts : SlotFacts sizes ((system.setSlot (loc % sizes.size) slot).setBackend id pc) loc kind) :
    QueueInvariant sizes ((system.setSlot (loc % sizes.size) slot).setBackend id pc)
      (update entry loc kind) := by
  obtain ⟨low, high⟩ : system.head ≤ loc ∧ loc < system.tail := by
    rcases owned with here | here <;> exact invariant.queue.inside loc lsn _ here
  have marks : ∀ second, system.head ≤ second → second < system.tail → (system.slotAt sizes second).valid →
      ((system.setSlot (loc % sizes.size) slot).slotAt sizes second).valid :=
    fun second low' high' => invariant.valid_setSlot low high mark low' high'
  have others : ∀ second lsn' item, item ≠ .page buffer → item ≠ .coming id →
      (update entry loc kind second = some (lsn', item) ↔ entry second = some (lsn', item)) := by
    intro second lsn' item notPage notComing
    rw [update_apply]
    split_ifs with self
    · rw [self]
      rcases owned with here | here <;> rcases becomes with rfl | rfl <;> rw [here] <;>
        simp [notPage.symm, notComing.symm]
    · rfl
  refine @backendStep sizes system _ entry _ buffer id pc invariant rfl rfl rfl locked same ?_ ?_ ?_ facts
    ⟨rfl, le_rfl, marks, ?_, ?_⟩ queue invariant.room invariant.started ?_
    (fun index unused => invariant.free_setSlot low high index unused)
  · intro other different
    refine ⟨rfl,
      fun second lsn' => others second lsn' _ (fun same => different (QueueItem.page.inj same))
      nofun, ?_⟩
    intro second lsn' has
    obtain ⟨low', high'⟩ := invariant.queue.inside second lsn' _ has
    exact marks second low' high'
  · exact fun other second lsn' different =>
      others second lsn' _ nofun fun same => different (QueueItem.coming.inj same)
  · intro second lsn' has
    rw [update_apply] at has
    split_ifs at has with self
    · rcases becomes with rfl | rfl <;> cases has
    · exact absurd (own lsn' second (invariant.coming second lsn' id has)) self
  · intro second _ _ _ gap
    refine (update_of_ne ?_ _ _).trans gap
    rintro rfl
    rcases owned with here | here <;> cases here.symm.trans gap
  · intro second lsn' held _ _ has
    rw [update_apply]
    split_ifs with self
    · rw [self] at has
      rcases owned with here | here <;> rcases becomes with rfl | rfl <;> cases here.symm.trans has
      · exact Or.inl rfl
      · exact Or.inr rfl
    · exact Or.inr has
  · intro second low' high'
    by_cases self : second = loc
    · rw [self, update_self]
      exact slotFacts
    · rw [update_of_ne self]
      refine slotFacts_keep (invariant.slots second low' high') ?_ (fun _ same => same) (fun _ _ _ => rfl) ?_
      · exact (invariant.slotAt_setSlot low high low' high').trans (if_neg self)
      · intro other held lsn' _ pending
        refine (update_of_ne ?_ _ _).trans pending
        rintro rfl
        exact self (ownFilled held lsn' second pending)

theorem fill (here : system.backend id = .placed buffer lsn loc) : QueueInvariant sizes
      ((system.setSlot (loc % sizes.size) { system.slotAt sizes loc with buffer }).setBackend id
        (.filled buffer lsn loc))
      (update entry loc (some (lsn, .page buffer))) := by
  have facts := invariant.backends id
  rw [here] at facts
  obtain ⟨absent, stamp, coming, place⟩ := facts
  obtain ⟨low, high, clean, valid⟩ := invariant.coming_facts coming
  have locked : (system.backend id).buffer = some buffer := by rw [here]; rfl
  have slot := @slotAt_setSlot sizes system entry invariant { system.slotAt sizes loc with buffer }
      loc low high loc low
    high
  rw [if_pos rfl] at slot
  refine invariant.slotStep locked rfl (Or.inl coming) (Or.inr rfl) ?_ ?_ (fun marked => marked)
    (invariant.queue.replace coming absent) ⟨update_self .., place⟩
    ⟨congrArg (·.buffer) slot, invariant.real id buffer locked, stamp, valid, Or.inr ⟨id, update_self ..⟩⟩
  · rw [here]
    exact fun _ _ same => (Prod.mk.inj (Option.some.inj same)).2.symm
  · rw [here]
    nofun

theorem publish (here : system.backend id = .filled buffer lsn loc) : QueueInvariant sizes
      ((system.setSlot (loc % sizes.size) { system.slotAt sizes loc with valid := true }).setBackend id
        (.holding buffer)) entry := by
  have facts := invariant.backends id
  rw [here] at facts
  obtain ⟨page, place⟩ := facts
  obtain ⟨low, high⟩ := invariant.queue.inside loc lsn _ page
  have slotFacts := invariant.slots loc low high
  rw [page] at slotFacts
  obtain ⟨stored, real, stamp, valid, -⟩ := slotFacts
  have slot := @slotAt_setSlot sizes system entry invariant
      { system.slotAt sizes loc with valid := true } loc low high
    loc low high
  rw [if_pos rfl] at slot
  have same : update entry loc (some (lsn, .page buffer)) = entry := by rw [← page, update_eq_self]
  rw [← same]
  refine invariant.slotStep (by rw [here]; rfl) rfl (Or.inr page) (Or.inr rfl) ?_ ?_ (fun _ => rfl) ?_
    (Or.inr ⟨loc, ?_, place, congrArg (·.valid) slot⟩)
    ⟨(congrArg (·.buffer) slot).trans stored, real, stamp, valid, Or.inl (congrArg (·.valid) slot)⟩
  · rw [here]
    nofun
  · rw [here]
    exact fun _ _ _ same => (BackendPc.filled.inj same).2.2.symm
  · rw [same]
    exact invariant.queue
  · rw [update_self]
    exact congrArg (fun lsn => some (lsn, QueueItem.page buffer)) stamp.symm

end

section

variable (invariant : QueueInvariant sizes system entry)
  (here : system.backend id = .holding buffer) (dirty : (system.extra buffer).recLsn ≠ 0)

include invariant here dirty

/-- A dirty buffer in hand has its place in the queue. -/
theorem queued : Queued sizes system entry buffer := by
  have facts := invariant.backends id
  rw [here] at facts
  exact facts.resolve_left fun unqueued => dirty unqueued.1

theorem remove (page : entry loc = some (lsn, .page buffer)) :
    QueueInvariant sizes (system.removeDirtyPage id buffer) (update entry loc none) := by
  obtain ⟨place, marked⟩ : (system.extra buffer).dirtyQueueLoc = some (loc % sizes.size) ∧
      (system.slotAt sizes loc).valid := by
    obtain ⟨second, also, place, marked⟩ := invariant.queued here dirty
    obtain rfl := invariant.queue.unique second loc _ _ _ also page
    exact ⟨place, marked⟩
  obtain ⟨low, high⟩ := invariant.queue.inside loc _ _ page
  have locked : (system.backend id).buffer = some buffer := by rw [here]; rfl
  have removed : system.removeDirtyPage id buffer =
      (system.setSlot (loc % sizes.size) { system.slotAt sizes loc with buffer := 0 }).setBackend id
        (.emptied buffer) := by
    unfold removeDirtyPage
    rw [place]
    rfl
  rw [removed]
  have slot := @slotAt_setSlot sizes system entry invariant
      { system.slotAt sizes loc with buffer := 0 } loc low high loc
    low high
  rw [if_pos rfl] at slot
  refine invariant.slotStep locked rfl (Or.inr page) (Or.inl rfl) ?_ ?_ (fun marked => marked)
    (invariant.queue.remove loc) ?_ ⟨(congrArg (·.valid) slot).trans marked, Or.inl (congrArg (·.buffer) slot)⟩
  · rw [here]
    nofun
  · rw [here]
    nofun
  · intro second lsn' has
    rw [update_apply] at has
    split_ifs at has with self
    exact self (invariant.queue.unique second loc _ _ _ has page)

end

/-- A backend between two operations takes or gives up the lock of a header. -/
theorem relock (invariant : QueueInvariant sizes system entry) {lock : Option HdrLocker} (real : buffer ≠ 0)
    (before : system.backend id = .idle ∧ system.hdrLock buffer = none ∨ system.backend id = .holding buffer)
    (next : lock = none ∧ pc = .idle ∨ lock = some (.backend id) ∧ pc = .holding buffer) :
    QueueInvariant sizes ((system.setHdrLock buffer lock).setBackend id pc) entry := by
  have settled : Settled sizes system entry buffer := by
    rcases before with ⟨-, unlocked⟩ | here
    · exact invariant.settled buffer unlocked
    · have facts := invariant.backends id
      rw [here] at facts
      exact facts
  have owner : ∀ other, other ≠ .backend id → system.hdrLock buffer ≠ some other := by
    intro other different locked
    rcases before with ⟨-, unlocked⟩ | here
    · cases unlocked.symm.trans locked
    · have mine := (invariant.backendLock buffer id).mpr (by rw [here]; rfl)
      exact different (Option.some.inj (locked.symm.trans mine))
  have only : ∀ held, (system.backend id).buffer = some held → held = buffer := by
    intro held has
    rcases before with ⟨here, -⟩ | here <;> rw [here] at has
    · cases has
    · exact (Option.some.inj has).symm
  refine @threads _ _ _ invariant (update system.hdrLock buffer lock)
    (update system.backend id pc) system.writer ?_ ?_
    ?_ ?_ ?_ ?_ (fun _ _ same => same) (fun clears => clears) ?_ invariant.writer
  · intro held other
    rw [update_apply, update_apply]
    have before := invariant.backendLock held other
    split_ifs with same self self
    · rcases next with ⟨rfl, rfl⟩ | ⟨rfl, rfl⟩ <;> simp [self, same, BackendPc.buffer]
    · rw [← before, same]
      have := owner (.backend other) fun equal => self (HdrLocker.backend.inj equal)
      rcases next with ⟨rfl, -⟩ | ⟨rfl, -⟩ <;> simp [this, Ne.symm self]
    · rw [before, self]
      refine ⟨fun has => absurd (only held has) same, fun has => ?_⟩
      rcases next with ⟨-, rfl⟩ | ⟨-, rfl⟩
      · cases has
      · exact absurd (Option.some.inj has).symm same
    · exact before
  · intro held
    rw [update_apply, ← invariant.writerLock held]
    split_ifs with same
    · have := owner .writer nofun
      rcases next with ⟨rfl, -⟩ | ⟨rfl, -⟩ <;> simp [same, this]
    · rfl
  · intro other held has
    rw [update_apply] at has
    split_ifs at has
    · rcases next with ⟨-, rfl⟩ | ⟨-, rfl⟩
      · cases has
      · exact Option.some.inj has ▸ real
    · exact invariant.real other held has
  · intro held free
    rw [update_apply] at free
    split_ifs at free with same
    · exact same ▸ settled
    · exact invariant.settled held free
  · intro other
    rw [update_apply]
    split_ifs with self
    · rw [self]
      rcases before with ⟨here, -⟩ | here <;> rcases next with ⟨-, rfl⟩ | ⟨-, rfl⟩ <;> rw [here] <;> rfl
    · rfl
  · intro other held lsn loc pending
    refine (update_of_ne ?_ _ _).trans pending
    rintro rfl
    rcases before with ⟨here, -⟩ | here <;> cases here.symm.trans pending
  · intro other
    rw [update_apply]
    split_ifs
    · rcases next with ⟨-, rfl⟩ | ⟨-, rfl⟩
      · trivial
      · exact settled
    · exact invariant.backends other

end QueueInvariant

end CkptSystem

end OpenGauss.PageWriter
