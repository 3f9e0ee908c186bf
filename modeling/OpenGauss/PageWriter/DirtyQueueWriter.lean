import OpenGauss.PageWriter.DirtyQueueBackends

namespace OpenGauss.PageWriter

open Function (update update_apply update_of_ne update_self)

open Lib

namespace CkptSystem

variable {sizes : QueueSizes} {system after : CkptSystem} {entry entry' : Nat → Option (Nat × QueueItem)}
  {buffer source last num i : Nat} {rest : List Nat} {pc : WriterPc}

/-- Slots between the one to move from and the one to move to are empty. -/
theorem Candidates.gaps (candidates : Candidates sizes system entry (source :: rest) last) {loc : Nat}
    (above : source < loc) (below : loc ≤ last) : entry loc = none := by
  have low := candidates.ranged source (List.mem_cons_self ..)
  rcases (candidates.passed loc (low.trans above.le) below).2 with inside | gap
  · rcases List.mem_cons.mp inside with same | later
    · omega
    · have := (List.pairwise_cons.mp candidates.descending).1 loc later
      omega
  · exact gap

/-- The first candidate is given up because it is empty or lies behind. -/
theorem Candidates.next (candidates : Candidates sizes system entry (source :: rest) last)
    (spare : last ≤ source ∨ entry source = none) : Candidates sizes system entry rest last := by
  refine ⟨candidates.low, candidates.high, candidates.gap, (List.pairwise_cons.mp candidates.descending).2,
    fun loc inside => candidates.ranged loc (List.mem_cons_of_mem _ inside), ?_⟩
  intro loc low high
  obtain ⟨valid, kind⟩ := candidates.passed loc low high
  refine ⟨valid, ?_⟩
  rcases kind with inside | gap
  · rcases List.mem_cons.mp inside with rfl | later
    · refine Or.inr ?_
      rcases spare with behind | gap
      · rw [Nat.le_antisymm high behind]
        exact candidates.gap
      · exact gap
    · exact Or.inl later
  · exact Or.inr gap

/-- After the first loop there is something to move, and where to move it. -/
theorem Scanned.candidates {found : Found} (scanned : Scanned sizes system entry i found)
    (inside : system.head + i ≤ system.tail) (nonzero : found.invalidSlotNum ≠ 0) :
    Candidates sizes system entry found.validBuffers found.lastInvalidSlot := by
  obtain ⟨low, high, gap⟩ := scanned.last nonzero
  exact ⟨low, by omega, gap, scanned.descending, fun loc has => (scanned.ranged loc has).1,
    fun loc first before => scanned.passed loc first (by omega)⟩

theorem Scanned.empty : Scanned sizes system entry 0 {} :=
  ⟨fun _ _ _ => by omega, List.Pairwise.nil, nofun, fun present => absurd rfl present⟩

theorem Scanned.look {found : Found} (scanned : Scanned sizes system entry i found)
    (valid : (system.slotAt sizes (system.head + i)).valid)
    (empty : (system.slotAt sizes (system.head + i)).buffer = 0 → entry (system.head + i) = none) :
    Scanned sizes system entry (i + 1)
      (Found.look found (system.head + i) (system.slotAt sizes (system.head + i)).buffer) := by
  unfold Found.look
  split_ifs with held
  · refine ⟨?_, ?_, ?_, ?_⟩
    · intro loc low high
      by_cases newest : loc = system.head + i
      · rw [newest]
        exact ⟨valid, Or.inl (List.mem_cons_self ..)⟩
      · obtain ⟨marked, kind⟩ := scanned.passed loc low (by omega)
        exact ⟨marked, kind.imp_left (List.mem_cons_of_mem _)⟩
    · exact List.pairwise_cons.mpr ⟨fun loc inside => (scanned.ranged loc inside).2, scanned.descending⟩
    · intro loc inside
      rcases List.mem_cons.mp inside with rfl | older
      · omega
      · have := scanned.ranged loc older
        omega
    · intro present
      obtain ⟨low, high, gap⟩ := scanned.last present
      exact ⟨low, Nat.lt_succ_of_lt high, gap⟩
  · have gap := empty (not_not.mp held)
    refine ⟨?_, scanned.descending, ?_, ?_⟩
    · intro loc low high
      by_cases newest : loc = system.head + i
      · rw [newest]
        exact ⟨valid, Or.inr gap⟩
      · exact scanned.passed loc low (by omega)
    · intro loc inside
      have := scanned.ranged loc inside
      omega
    · intro _
      exact ⟨Nat.le_add_right _ _, by simp, gap⟩

namespace QueueInvariant

section

variable (invariant : QueueInvariant sizes system entry) {loc : Nat} (low : system.head ≤ loc)
  (high : loc < system.tail)

include invariant low high

/-- When nothing is being moved a slot is empty exactly where the queue has a gap. -/
theorem gap_of_empty (valid : (system.slotAt sizes loc).valid)
    (empty : (system.slotAt sizes loc).buffer = 0) : entry loc = none := by
  have facts := invariant.slots loc low high
  rcases here : entry loc with _ | ⟨lsn, id | buffer⟩ <;> rw [here] at facts
  · rw [facts.1] at valid
    cases valid
  · exact absurd (facts.1.symm.trans empty) facts.2.1

theorem empty_of_gap (gap : entry loc = none) (still : system.writer.source = none) :
    (system.slotAt sizes loc).buffer = 0 := by
  have facts := invariant.slots loc low high
  rw [gap] at facts
  refine facts.2.resolve_right fun moving => ?_
  rw [still] at moving
  cases moving

theorem page_of_held (valid : (system.slotAt sizes loc).valid) :
    entry loc = none ∨ ∃ lsn, entry loc = some (lsn, .page (system.slotAt sizes loc).buffer) := by
  have facts := invariant.slots loc low high
  rcases here : entry loc with _ | ⟨lsn, id | buffer⟩ <;> rw [here] at facts
  · exact Or.inl rfl
  · rw [facts.1] at valid
    cases valid
  · exact Or.inr ⟨lsn, by rw [facts.1]⟩

end

section

variable (invariant : QueueInvariant sizes system entry)
include invariant

/-- A step of the page writer that changes no shared field. -/
theorem writerSilent (same : pc.buffer = system.writer.buffer)
    (still : system.writer.source = none) (whole : ¬ system.writer.clears)
    (facts : WriterFacts sizes system entry pc) : QueueInvariant sizes { system with writer := pc } entry := by
  refine invariant.threads invariant.backendLock (fun held => ?_) invariant.real invariant.settled
    (fun _ => rfl)
    (fun _ _ _ _ here => here) ?_ (fun clears => absurd clears whole) invariant.backends facts
  · rw [invariant.writerLock held, same]
  · rw [still]
    nofun

/-- The page writer takes or gives up the lock of a header. -/
theorem writerRelock {lock : Option HdrLocker}
    (before : system.writer.buffer = none ∧ system.hdrLock buffer = none ∨ system.writer.buffer = some buffer)
    (next : lock = none ∧ pc.buffer = none ∨ lock = some .writer ∧ pc.buffer = some buffer)
    (still : system.writer.source = none) (whole : ¬ system.writer.clears)
      (settled : Settled sizes system entry buffer)
    (facts : WriterFacts sizes system entry pc) :
    QueueInvariant sizes { system.setHdrLock buffer lock with writer := pc } entry := by
  have owner : ∀ other, other ≠ .writer → system.hdrLock buffer ≠ some other := by
    intro other different locked
    rcases before with ⟨-, unlocked⟩ | here
    · cases unlocked.symm.trans locked
    · exact different (Option.some.inj (locked.symm.trans ((invariant.writerLock buffer).mpr here)))
  refine @threads _ _ _ invariant (update system.hdrLock buffer lock) system.backend pc ?_ ?_ invariant.real ?_
    (fun _ => rfl) (fun _ _ _ _ here => here) (by rw [still]; nofun) (fun clears => absurd clears whole)
    invariant.backends facts
  · intro held id
    rw [update_apply, ← invariant.backendLock held id]
    split_ifs with same
    · have := owner (.backend id) nofun
      rcases next with ⟨rfl, -⟩ | ⟨rfl, -⟩ <;> simp [same, this]
    · rfl
  · intro held
    rw [update_apply]
    split_ifs with same
    · rcases next with ⟨rfl, also⟩ | ⟨rfl, also⟩ <;> simp [also, same]
    · rw [invariant.writerLock held]
      rcases before with ⟨here, -⟩ | here <;> rcases next with ⟨-, also⟩ | ⟨-, also⟩ <;>
        simp [here, also, Ne.symm same]
  · intro held free
    rw [update_apply] at free
    split_ifs at free with same
    · exact same ▸ settled
    · exact invariant.settled held free

/-- A step of the page writer that keeps its header lock and the head. -/
theorem writerStep (hdrLock : after.hdrLock = system.hdrLock)
    (backend : after.backend = system.backend) (head : after.head = system.head)
      (tail : after.tail = system.tail)
    (reclsn : after.reclsn = system.reclsn) (same : after.writer.buffer = system.writer.buffer)
    (others : ∀ other, system.writer.buffer ≠ some other → KeepsBuffer sizes system after entry entry' other)
    (comings : ∀ loc lsn id, entry' loc = some (lsn, .coming id) ↔ entry loc = some (lsn, .coming id))
    (queue : OrderedQueue system.head system.tail entry' system.reclsn)
    (slots : ∀ loc, system.head ≤ loc → loc < system.tail → SlotFacts sizes after loc (entry' loc))
    (free : ∀ index, (∀ loc, system.head ≤ loc → loc < system.tail → loc % sizes.size ≠ index) →
      (after.slot index).buffer = 0 ∧
        ((after.slot index).valid → after.writer.clears ∧ index = (system.head - 1) % sizes.size))
    (facts : WriterFacts sizes after entry' after.writer) : QueueInvariant sizes after entry' := by
  refine ⟨?_, ?_, ?_, ?_, ?_, ?_, ?_, ?_, ?_, ?_, ?_, ?_, facts⟩
  · rw [head, tail, reclsn]
    exact queue
  · rw [head, tail]
    exact invariant.more
  · rw [head, tail]
    exact invariant.room
  · rw [reclsn]
    exact invariant.started
  · rw [head, tail]
    exact slots
  · rw [head, tail]
    exact free
  · rw [hdrLock, backend]
    exact invariant.backendLock
  · rw [hdrLock, same]
    exact invariant.writerLock
  · rw [backend]
    exact invariant.real
  · rw [hdrLock]
    intro other unlocked
    refine (invariant.settled other unlocked).keep (others other fun mine => ?_)
    rw [(invariant.writerLock other).mpr mine] at unlocked
    cases unlocked
  · rw [backend]
    intro id
    refine backendFacts_keep (invariant.backends id) ?_
      (fun loc lsn here => (comings loc lsn id).mpr here) head.ge
      tail.ge
    exact fun held has => others held (invariant.writer_apart has)
  · rw [backend]
    exact fun loc lsn id here => invariant.coming loc lsn id ((comings loc lsn id).mp here)

end

/-- A slot of no position while nothing is to be cleared. -/
theorem of_not_clears {slot : DirtyPageQueueSlot} {also next : Prop} (whole : ¬ system.writer.clears)
    (facts : slot.buffer = 0 ∧ (slot.valid → system.writer.clears ∧ also)) : slot.buffer = 0 ∧
      (slot.valid → next) :=
  ⟨facts.1, fun valid => absurd (facts.2 valid).1 whole⟩

variable (invariant : QueueInvariant sizes system entry)
include invariant

theorem copy (here : system.writer = .copying buffer source rest last) :
    QueueInvariant sizes
      { system.setSlot (last % sizes.size)
          { system.slotAt sizes last with buffer := (system.slotAt sizes source).buffer } with
        writer := .relocating buffer source rest last }
      (update (update entry source none) last (some ((system.extra buffer).recLsn, .page buffer))) := by
  have facts := invariant.writer
  rw [here] at facts
  obtain ⟨less, candidates, ⟨lsn, page⟩, settled⟩ := facts
  have low := candidates.ranged source (List.mem_cons_self ..)
  have slotFacts := invariant.slots source low (less.trans candidates.high)
  rw [page] at slotFacts
  obtain ⟨stored, real, rfl, valid, -⟩ := slotFacts
  rw [stored]
  have lastLow := candidates.low
  have high := candidates.high
  have gaps := fun loc above below =>
      @Candidates.gaps sizes system entry source last rest candidates loc above below
  have slotEq := fun second low' high' => @slotAt_setSlot sizes system entry invariant
    { system.slotAt sizes last with buffer } last candidates.low candidates.high second low' high'
  have marks : ∀ second, system.head ≤ second → second < system.tail → (system.slotAt sizes second).valid →
      ((system.setSlot (last % sizes.size) { system.slotAt sizes last with buffer }).slotAt sizes
      second).valid :=
    fun second low' high' => @valid_setSlot sizes system entry invariant
      { system.slotAt sizes last with buffer } last
      candidates.low candidates.high id second low' high'
  have others : ∀ loc lsn item, item ≠ .page buffer →
      (update (update entry source none) last (some ((system.extra buffer).recLsn, .page buffer)) loc =
        some (lsn, item) ↔ entry loc = some (lsn, item)) := by
    intro loc lsn item different
    rw [update_apply, update_apply]
    split_ifs with atLast atSource
    · rw [atLast, candidates.gap]
      simp [different.symm]
    · rw [atSource, page]
      simp [different.symm]
    · rfl
  have known : Moved sizes { system.setSlot (last % sizes.size) { system.slotAt sizes last with buffer } with
        writer := .relocating buffer source rest last }
      (update (update entry source none) last (some ((system.extra buffer).recLsn, .page buffer)))
      buffer source rest last := by
    refine ⟨less, low, (List.pairwise_cons.mp candidates.descending).1, ?_, candidates.high, update_self ..,
      ?_, ?_⟩
    · rw [update_of_ne less.ne, update_self]
    · exact marks last candidates.low candidates.high (candidates.passed last candidates.low le_rfl).1
    · refine ⟨?_, ?_, ?_, (List.pairwise_cons.mp candidates.descending).2,
        fun loc inside => candidates.ranged loc (List.mem_cons_of_mem _ inside), ?_⟩
      · show system.head ≤ last - 1
        omega
      · show last - 1 < system.tail
        omega
      · rw [update_of_ne (by omega), update_apply]
        split_ifs with self
        · rfl
        · exact gaps (last - 1) (by omega) (by omega)
      · intro loc low' high'
        change system.head ≤ loc at low'
        obtain ⟨marked, kind⟩ := candidates.passed loc low' (by omega)
        refine ⟨marks loc low' (by omega) marked, ?_⟩
        rw [update_of_ne (by omega), update_apply]
        split_ifs with self
        · exact Or.inr rfl
        · exact kind.imp_left fun inside => (List.mem_cons.mp inside).resolve_left self
  refine invariant.writerStep rfl rfl rfl rfl rfl (by rw [here]; rfl) ?_
    (fun loc lsn id => others loc lsn _ nofun)
    (invariant.queue.shift page less candidates.high fun loc above below => gaps loc above below) ?_ ?_ known
  · intro other different
    rw [here] at different
    refine ⟨rfl, fun loc lsn => others loc lsn _ fun same => ?_, ?_⟩
    · exact different (congrArg some (QueueItem.page.inj same).symm)
    · intro loc lsn has marked
      obtain ⟨low', high'⟩ := invariant.queue.inside loc lsn _ has
      exact marks loc low' high' marked
  · intro loc low' high'
    by_cases atLast : loc = last
    · subst atLast
      have slot := slotEq loc low' high'
      rw [if_pos rfl] at slot
      rw [update_self]
      exact ⟨congrArg (·.buffer) slot, real, rfl, valid,
        Or.inl ((congrArg (·.valid) slot).trans (candidates.passed loc candidates.low le_rfl).1)⟩
    · have slot := slotEq loc low' high'
      rw [if_neg atLast] at slot
      rw [update_of_ne atLast]
      by_cases atSource : loc = source
      · subst atSource
        rw [update_self]
        have named := (congrArg DirtyPageQueueSlot.buffer slot).trans stored
        refine ⟨marks loc low' high' (candidates.passed loc low' less.le).1, Or.inr ?_⟩
        exact congrArg (fun held => some (loc, held)) named.symm
      · rw [update_of_ne atSource]
        refine slotFacts_keep (invariant.slots loc low' high') slot ?_ (fun _ _ _ => rfl)
          fun _ _ _ _ pending => pending
        rw [here]
        nofun
  · exact fun index free => of_not_clears (by rw [here]; exact id)
      (invariant.free_setSlot candidates.low candidates.high index free)

theorem relocate (here : system.writer = .relocating buffer source rest last) :
    QueueInvariant sizes
      { system.setExtra buffer { system.extra buffer with dirtyQueueLoc := some (last % sizes.size) } with
        writer := .vacating buffer source rest last } entry := by
  have facts := invariant.writer
  rw [here] at facts
  have lsns : ∀ held, (update system.extra buffer
      { system.extra buffer with dirtyQueueLoc := some (last % sizes.size) } held).recLsn =
        (system.extra held).recLsn := by
    intro held
    rw [update_apply]
    split_ifs with self
    · rw [self]
    · rfl
  have known : Moved sizes
      { system.setExtra buffer { system.extra buffer with dirtyQueueLoc := some (last % sizes.size) } with
        writer := .vacating buffer source rest last } entry buffer source rest last := by
    obtain ⟨less, low, later, gap, high, page, valid, candidates⟩ := facts
    refine ⟨less, low, later, gap, high, ?_, valid, candidates.keep ⟨rfl, le_rfl, fun _ _ _ valid => valid,
      fun _ _ _ _ gap => gap, fun _ _ _ _ _ page => Or.inr page⟩⟩
    show entry last = some ((update system.extra buffer _ buffer).recLsn, _)
    rw [lsns]
    exact page
  refine invariant.writerStep rfl rfl rfl rfl rfl (by rw [here]; rfl) ?_ (fun _ _ _ => Iff.rfl)
    invariant.queue ?_ ?_
    ⟨known, ?_⟩
  · intro other different
    refine ⟨update_of_ne ?_ _ _, fun _ _ => Iff.rfl, fun _ _ _ valid => valid⟩
    rintro rfl
    exact different (by rw [here]; rfl)
  · intro loc low high
    refine slotFacts_keep (invariant.slots loc low high) rfl ?_ (fun _ held _ => lsns held)
      fun _ _ _ _ pending => pending
    rw [here]
    exact fun _ => id
  · exact fun index free => of_not_clears (by rw [here]; exact id) (invariant.free index free)
  · show (update system.extra buffer _ buffer).dirtyQueueLoc = _
    rw [update_self]

theorem vacate (here : system.writer = .vacating buffer source rest last) :
    QueueInvariant sizes
      { system.setSlot (source % sizes.size) { system.slotAt sizes source with buffer := 0 } with
        writer := .unlocking buffer rest (last - 1) } entry := by
  have facts := invariant.writer
  rw [here] at facts
  obtain ⟨⟨less, low, -, gap, high, page, valid, candidates⟩, place⟩ := facts
  have below : source < system.tail := less.trans high
  have slotEq := fun second low' high' => @slotAt_setSlot sizes system entry invariant
    { system.slotAt sizes source with buffer := 0 } source low below second low' high'
  have marks : ∀ second, system.head ≤ second → second < system.tail → (system.slotAt sizes second).valid →
      ((system.setSlot (source % sizes.size) { system.slotAt sizes source with buffer := 0 }).slotAt sizes
        second).valid :=
    fun second low' high' => @valid_setSlot sizes system entry invariant
      { system.slotAt sizes source with buffer := 0 }
      source low below id second low' high'
  refine invariant.writerStep rfl rfl rfl rfl rfl (by rw [here]; rfl) ?_ (fun _ _ _ => Iff.rfl)
    invariant.queue ?_ ?_
    ⟨Or.inr ⟨last, page, place, marks last (low.trans less.le) high valid⟩, ?_⟩
  · intro other _
    refine ⟨rfl, fun _ _ => Iff.rfl, fun loc lsn has marked => ?_⟩
    obtain ⟨low', high'⟩ := invariant.queue.inside loc lsn _ has
    exact marks loc low' high' marked
  · intro loc low' high'
    have slot := slotEq loc low' high'
    by_cases self : loc = source
    · subst self
      rw [if_pos rfl] at slot
      rw [gap]
      exact ⟨marks loc low' high' (candidates.passed loc low' (by omega)).1, Or.inl (congrArg (·.buffer) slot)⟩
    · rw [if_neg self] at slot
      refine slotFacts_keep (invariant.slots loc low' high') slot ?_ (fun _ _ _ => rfl)
        fun _ _ _ _ pending => pending
      rw [here]
      exact fun _ moving => absurd (Prod.mk.inj (Option.some.inj moving)).1.symm self
  · exact fun index free => of_not_clears (by rw [here]; exact id) (invariant.free_setSlot low below index free)
  · exact candidates.keep ⟨rfl, le_rfl, marks, fun _ _ _ _ gap => gap, fun _ _ _ _ _ page => Or.inr page⟩

theorem advanceHead (here : system.writer = .advancing num i) :
    QueueInvariant sizes { system with head := system.head + 1, writer := .clearing num i } entry := by
  have facts := invariant.writer
  rw [here] at facts
  obtain ⟨few, inside, valid, gap⟩ := facts
  have more : system.head < system.tail := by omega
  have room := invariant.room
  have kept : ∀ held, KeepsBuffer sizes system
      { system with head := system.head + 1, writer := .clearing num i } entry entry held :=
    fun _ => ⟨rfl, fun _ _ => Iff.rfl, fun _ _ _ valid => valid⟩
  refine ⟨invariant.queue.dropHead gap, more,
    by dsimp only; omega, invariant.started, ?_, ?_, invariant.backendLock, ?_,
    invariant.real, fun held free => (invariant.settled held free).keep (kept held), ?_, invariant.coming, ?_⟩
  · intro loc low high
    have before : system.head ≤ loc := le_trans (Nat.le_succ _) low
    refine slotFacts_keep (invariant.slots loc before high) rfl ?_ (fun _ _ _ => rfl)
      fun _ _ _ _ pending => pending
    rw [here]
    nofun
  · intro index unused
    by_cases passed : index = system.head % sizes.size
    · refine ⟨?_, fun _ => ⟨trivial, passed⟩⟩
      rw [passed]
      exact invariant.empty_of_gap le_rfl more gap (by rw [here]; rfl)
    · have before : ∀ loc, system.head ≤ loc → loc < system.tail → loc % sizes.size ≠ index := by
        intro loc low high
        rcases Nat.lt_or_eq_of_le low with later | first
        · exact unused loc later high
        · exact first ▸ Ne.symm passed
      exact @of_not_clears system _ _ _ (by rw [here]; exact id) (invariant.free index before)
  · intro held
    rw [invariant.writerLock held, here]
    rfl
  · exact fun id => backendFacts_keep (invariant.backends id) (fun held _ => kept held) (fun _ _ here => here)
      (Nat.le_succ _) le_rfl
  · show system.head + 1 + (num - (i + 1)) ≤ system.tail ∧ 0 < system.head + 1
    omega

theorem clearSlot (here : system.writer = .clearing num i) :
    QueueInvariant sizes
      { system.setSlot ((system.head - 1) % sizes.size)
          { system.slotAt sizes (system.head - 1) with valid := false } with
        writer := .skipping num (i + 1) } entry := by
  have facts := invariant.writer
  rw [here] at facts
  obtain ⟨inside, positive⟩ := facts
  have apart := (invariant.cleared_apart (by rw [here]; trivial)).2
  have slotEq : ∀ loc, system.head ≤ loc → loc < system.tail →
      (system.setSlot ((system.head - 1) % sizes.size)
        { system.slotAt sizes (system.head - 1) with valid := false }).slotAt sizes loc =
        system.slotAt sizes loc :=
    fun loc low high => update_of_ne (apart loc low high) _ _
  refine invariant.writerStep rfl rfl rfl rfl rfl (by rw [here]; rfl) ?_ (fun _ _ _ => Iff.rfl)
    invariant.queue ?_ ?_
    inside
  · intro other _
    refine ⟨rfl, fun _ _ => Iff.rfl, fun loc lsn has marked => ?_⟩
    obtain ⟨low, high⟩ := invariant.queue.inside loc lsn _ has
    exact (congrArg (·.valid) (slotEq loc low high)).trans marked
  · intro loc low high
    refine slotFacts_keep (invariant.slots loc low high) (slotEq loc low high) ?_ (fun _ _ _ => rfl)
      fun _ _ _ _ pending => pending
    rw [here]
    nofun
  · intro index unused
    obtain ⟨empty, cleared⟩ := invariant.free index unused
    show (update system.slot _ _ index).buffer = 0 ∧ ((update system.slot _ _ index).valid → _)
    rw [update_apply]
    split_ifs with self
    · refine ⟨?_, nofun⟩
      show (system.slot ((system.head - 1) % sizes.size)).buffer = 0
      exact (invariant.free _ apart).1
    · exact ⟨empty, fun marked => absurd (cleared marked).2 self⟩

end QueueInvariant

end CkptSystem

end OpenGauss.PageWriter
