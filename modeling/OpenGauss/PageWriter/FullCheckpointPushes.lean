import OpenGauss.PageWriter.FullCheckpointInvariant

namespace OpenGauss.PageWriter

open Function (update update_apply update_of_ne update_self)

open Lib

namespace CkptSystem

variable {sizes : QueueSizes} {system after : CkptSystem} {entry entry' : Nat → Option (Nat × QueueItem)}
  {buffer id loc lsn : Nat} {pc : BackendPc}

/-- Steps of a backend that keep its position to come. -/
theorem Placed.before (placed : Placed after entry buffer loc) (invariant : QueueInvariant sizes system entry)
    (backend : after.backend = update system.backend id pc)
    (same : (system.backend id).coming ≠ none → pc.buffer = (system.backend id).buffer) :
    Placed system entry buffer loc := by
  rcases placed with page | ⟨lsn, other, here, holds⟩
  · exact Or.inl page
  · refine Or.inr ⟨lsn, other, here, ?_⟩
    rw [backend, update_apply] at holds
    split_ifs at holds with self
    · have coming := invariant.coming loc lsn other here
      rw [self] at coming ⊢
      rw [← same (by rw [coming]; nofun), holds]
    · exact holds

/-- The record position outlives a write of the place in the queue. -/
theorem recLsn_setExtra {extra : BufferDescExtra} {held : Nat}
    (same : extra.recLsn = (system.extra buffer).recLsn) :
    ((system.setExtra buffer extra).extra held).recLsn = (system.extra held).recLsn := by
  show (update system.extra buffer extra held).recLsn = _
  rw [update_apply]
  split_ifs with self
  · rw [same, self]
  · rfl

namespace PromiseInvariant

section

variable (promise : PromiseInvariant sizes system entry)

include promise

theorem backendEvent (writer : after.writer = system.writer)
    (checkpointer : after.checkpointer = system.checkpointer) (pruneLock : after.pruneLock = system.pruneLock)
    (expected : after.expectedFlushLoc = system.expectedFlushLoc) (head : after.head = system.head)
    (tail : system.tail ≤ after.tail) (own : ∀ loc ∈ system.checkpointer.search, after.tail ≤ loc + sizes.size)
    (promised : ∀ buffer, after.promised buffer → system.promised buffer ∧ (after.extra buffer).recLsn ≠ 0)
    (placed : ∀ buffer loc, after.promised buffer → Placed after entry' buffer loc →
      Placed system entry buffer loc)
    (kept : ∀ loc, Watched sizes system entry loc → entry' loc = entry loc ∨ entry' loc = none) :
    PromiseInvariant sizes after entry' := by
  refine ⟨?_, ?_, ?_, fun buffer has => (promised buffer has).2, ?_, ?_, ?_⟩
  · rw [pruneLock, writer]
    exact promise.lockWriter
  · rw [pruneLock, checkpointer]
    exact promise.lockCheckpointer
  · rw [checkpointer, writer]
    exact promise.outside
  · intro buffer loc has here
    unfold flushLoc
    rw [checkpointer, expected]
    exact promise.bound buffer loc (promised buffer has).1 (placed buffer loc has here)
  · rw [writer]
    refine flushFacts_keep promise.flush head.ge (fun _ => expected) (by rw [checkpointer]; exact id) ?_
    exact fun buffer loc has here => ⟨(promised buffer has).1, placed buffer loc has here⟩
  · rw [checkpointer]
    exact searchFacts_keep promise.search tail own kept

theorem own : ∀ loc ∈ system.checkpointer.search, system.tail ≤ loc + sizes.size := by
  have facts := promise.search
  cases here : system.checkpointer with
  | testing target place =>
    rw [here] at facts
    rintro loc ⟨⟩
    exact facts
  | stating target place =>
    rw [here] at facts
    rintro loc ⟨⟩
    exact facts.2
  | reading target place =>
    rw [here] at facts
    rintro loc ⟨⟩
    exact facts.own
  | stamping target place buffer =>
    rw [here] at facts
    rintro loc ⟨⟩
    exact facts.1.own
  | rereading target place buffer lsn =>
    rw [here] at facts
    rintro loc ⟨⟩
    exact facts.1.own
  | _ => nofun

/-- A step of a backend that changes no position. -/
theorem backendStill (invariant : QueueInvariant sizes system entry)
    (writer : after.writer = system.writer) (checkpointer : after.checkpointer = system.checkpointer)
    (pruneLock : after.pruneLock = system.pruneLock)
      (expected : after.expectedFlushLoc = system.expectedFlushLoc)
    (head : after.head = system.head) (tail : system.tail ≤ after.tail)
    (own : ∀ loc ∈ system.checkpointer.search, after.tail ≤ loc + sizes.size)
    (backend : after.backend = update system.backend id pc)
    (same : (system.backend id).coming ≠ none → pc.buffer = (system.backend id).buffer)
    (promised : ∀ buffer, after.promised buffer → system.promised buffer ∧ (after.extra buffer).recLsn ≠ 0) :
    PromiseInvariant sizes after entry :=
  promise.backendEvent writer checkpointer pruneLock expected head tail own promised
    (fun _ _ _ placed => placed.before invariant backend same) fun _ _ => Or.inl rfl

theorem keepPromised {buffer : Nat} (has : system.promised buffer) :
    system.promised buffer ∧ (system.extra buffer).recLsn ≠ 0 :=
  ⟨has, promise.dirty buffer has⟩

end

section

variable (promise : PromiseInvariant sizes system entry) (invariant : QueueInvariant sizes system entry)

include promise invariant

theorem reserve
    {lsn tail : Nat} (here : system.backend id = .exchanging buffer lsn tail) (equal : system.tail = tail)
    (careful : ∀ loc ∈ system.checkpointer.search, system.tail ≠ loc + sizes.size) :
    PromiseInvariant sizes { system.setBackend id (.reserved buffer lsn tail) with tail := tail + 1 }
      (update entry tail (some (lsn, .coming id))) := by
  subst equal
  have facts := invariant.backends id
  rw [here] at facts
  refine promise.backendEvent rfl rfl rfl rfl rfl (Nat.le_succ _) ?_ (fun _ => promise.keepPromised) ?_ ?_
  · intro loc inside
    exact Nat.lt_of_le_of_ne (promise.own loc inside) (careful loc inside)
  · intro held loc has placed
    have apart : held ≠ buffer := by
      rintro rfl
      exact promise.dirty held has facts.1.1
    rcases placed with ⟨key, page⟩ | ⟨key, other, coming, holds⟩
    · rw [update_apply] at page
      split_ifs at page
      · cases page
      · exact Or.inl ⟨key, page⟩
    · change (update system.backend id _ other).buffer = _ at holds
      by_cases self : other = id
      · rw [self, update_self] at holds
        exact absurd (Option.some.inj holds).symm apart
      · rw [update_of_ne self] at holds
        rw [update_apply] at coming
        split_ifs at coming
        · cases coming
          exact absurd rfl self
        · exact Or.inr ⟨key, other, coming, holds⟩
  · intro loc watched
    exact Or.inl (update_of_ne watched.below.ne _ _)

theorem fill (here : system.backend id = .placed buffer lsn loc) : PromiseInvariant sizes
      ((system.setSlot (loc % sizes.size) { system.slotAt sizes loc with buffer }).setBackend id
        (.filled buffer lsn loc)) (update entry loc (some (lsn, .page buffer))) := by
  have facts := invariant.backends id
  rw [here] at facts
  obtain ⟨-, -, waits, -⟩ := facts
  refine promise.backendEvent rfl rfl rfl rfl rfl le_rfl promise.own (fun _ => promise.keepPromised) ?_ ?_
  · intro held place _ placed
    rcases placed with ⟨key, page⟩ | ⟨key, other, coming, holds⟩
    · by_cases self : place = loc
      · rw [self, update_self] at page
        cases page
        exact Or.inr ⟨_, id, self ▸ waits, by rw [here]; rfl⟩
      · rw [update_of_ne self] at page
        exact Or.inl ⟨key, page⟩
    · by_cases self : place = loc
      · rw [self, update_self] at coming
        cases coming
      · rw [update_of_ne self] at coming
        refine Or.inr ⟨key, other, coming, ?_⟩
        change (update system.backend id _ other).buffer = _ at holds
        rw [update_apply] at holds
        split_ifs at holds with also
        · have again := invariant.coming place key other coming
          rw [also, here] at again
          cases again
          exact absurd rfl self
        · exact holds
  · intro place watched
    refine Or.inl (update_of_ne ?_ _ _)
    rintro rfl
    exact watched.filled _ _ waits

theorem remove (here : system.backend id = .holding buffer) (loc : Nat) :
    PromiseInvariant sizes (system.removeDirtyPage id buffer) (update entry loc none) := by
  have kept : ∀ place, update entry loc none place = entry place ∨ update entry loc none place = none := by
    intro place
    by_cases self : place = loc
    · exact Or.inr (by rw [self, update_self])
    · exact Or.inl (update_of_ne self _ _)
  have before : ∀ {place : Nat} {item : Nat × QueueItem}, update entry loc none place = some item →
      entry place = some item := by
    intro place item has
    rcases kept place with same | gone
    · exact same ▸ has
    · rw [gone] at has
      cases has
  have placed : ∀ {state : CkptSystem} {held place : Nat}, Placed state (update entry loc none) held place →
      Placed state entry held place := by
    rintro state held place (⟨key, page⟩ | ⟨key, other, coming, holds⟩)
    · exact Or.inl ⟨key, before page⟩
    · exact Or.inr ⟨key, other, before coming, holds⟩
  unfold removeDirtyPage
  split
  · exact promise.backendEvent rfl rfl rfl rfl rfl le_rfl promise.own (fun _ => promise.keepPromised)
      (fun _ _ _ has => placed has) fun place _ => kept place
  · refine promise.backendEvent rfl rfl rfl rfl rfl le_rfl promise.own (fun _ => promise.keepPromised) ?_
      fun place _ => kept place
    exact fun held place _ has =>
      (placed has).before invariant rfl (by rw [here]; exact fun absent => absurd rfl absent)

theorem backendAccess
    (careful : Careful sizes system (.backend id)) (follows : EntryStep system entry (.backend id) entry') :
    PromiseInvariant sizes (system.stepBackend sizes id) entry' := by
  have keep : ∀ held, system.promised held → system.promised held ∧ (system.extra held).recLsn ≠ 0 :=
    fun _ => promise.keepPromised
  cases follows with
  | @reserve _ buffer lsn tail here equal =>
    have next : system.stepBackend sizes id =
        { system.setBackend id (.reserved buffer lsn tail) with tail := tail + 1 } := by
      unfold stepBackend
      rw [here]
      exact if_pos equal
    unfold Careful at careful
    dsimp only at careful
    rw [here] at careful
    rw [next]
    exact promise.reserve invariant here equal.2 careful
  | fill here =>
    unfold stepBackend
    rw [here]
    exact promise.fill invariant here
  | still =>
    have facts := invariant.backends id
    unfold stepBackend
    cases here : system.backend id with
    | idle => exact promise
    | holding buffer => exact promise
    | comparing buffer lsn tail =>
      exact promise.backendStill invariant rfl rfl rfl rfl rfl le_rfl promise.own rfl (by rw [here]; nofun) keep
    | measuring buffer lsn tail head =>
      dsimp only
      split_ifs <;>
        exact promise.backendStill invariant rfl rfl rfl rfl rfl le_rfl promise.own rfl
          (by rw [here]; nofun) keep
    | exchanging buffer lsn tail =>
      unfold Careful at careful
      dsimp only at careful ⊢
      rw [here] at careful
      split_ifs with equal
      · refine promise.backendStill invariant rfl rfl rfl rfl rfl ?_ ?_ rfl (by rw [here]; nofun) keep
        · exact equal.2 ▸ Nat.le_succ _
        · intro loc inside
          exact equal.2 ▸ Nat.lt_of_le_of_ne (promise.own loc inside) (careful loc inside)
      · exact promise.backendStill invariant rfl rfl rfl rfl rfl le_rfl promise.own rfl
          (by rw [here]; nofun) keep
    | reserved buffer lsn loc =>
      rw [here] at facts
      refine promise.backendStill invariant rfl rfl rfl rfl rfl le_rfl promise.own rfl
        (by rw [here]; exact fun _ => rfl)
        fun held has => ?_
      refine ⟨has, fun zero => promise.dirty held has ?_⟩
      by_cases self : held = buffer
      · rw [self]
        exact facts.1.1
      · exact (congrArg BufferDescExtra.recLsn (update_of_ne self _ _)).symm.trans zero
    | stamped buffer lsn loc =>
      dsimp only
      refine promise.backendStill invariant rfl rfl rfl rfl rfl le_rfl promise.own rfl
        (by rw [here]; exact fun _ => rfl)
        fun held has => ⟨has, fun zero => promise.dirty held has ?_⟩
      exact (recLsn_setExtra (by rfl)).symm.trans zero
    | placed buffer lsn loc =>
      exact promise.backendStill invariant rfl rfl rfl rfl rfl le_rfl promise.own rfl
        (by rw [here]; exact fun _ => rfl)
        keep
    | filled buffer lsn loc =>
      exact promise.backendStill invariant rfl rfl rfl rfl rfl le_rfl promise.own rfl (by rw [here]; nofun) keep
    | emptied buffer =>
      refine promise.backendStill invariant rfl rfl rfl rfl rfl le_rfl promise.own rfl (by rw [here]; nofun)
        fun held has => ?_
      change update system.promised buffer false held = true at has
      rw [update_apply] at has
      split_ifs at has with self
      refine ⟨has, fun zero => promise.dirty held has ?_⟩
      exact (congrArg BufferDescExtra.recLsn (update_of_ne self _ _)).symm.trans zero
    | unstamped buffer =>
      dsimp only
      refine promise.backendStill invariant rfl rfl rfl rfl rfl le_rfl promise.own rfl (by rw [here]; nofun)
        fun held has => ⟨has, fun zero => promise.dirty held has ?_⟩
      exact (recLsn_setExtra (by rfl)).symm.trans zero

end

end PromiseInvariant

end CkptSystem

open Lib

namespace CkptSystem

variable {sizes : QueueSizes} {system after : CkptSystem} {entry entry' : Nat → Option (Nat × QueueItem)}
  {buffer source last loc : Nat} {rest : List Nat}

theorem Placed.of_backend (placed : Placed after entry buffer loc) (backend : after.backend = system.backend) :
    Placed system entry buffer loc := by
  rcases placed with page | ⟨lsn, id, here, holds⟩
  · exact Or.inl page
  · exact Or.inr ⟨lsn, id, here, backend ▸ holds⟩

theorem Placed.inside (placed : Placed system entry buffer loc)
    (invariant : QueueInvariant sizes system entry) :
    system.head ≤ loc ∧ loc < system.tail := by
  rcases placed with ⟨lsn, here⟩ | ⟨lsn, id, here, -⟩
  · exact invariant.queue.inside loc lsn _ here
  · exact invariant.queue.inside loc lsn _ here

namespace PromiseInvariant

/-- A step of the page writer that moves no buffer and leaves the lock of the prune and the place alone. -/
theorem writerStill (promise : PromiseInvariant sizes system entry)
    (checkpointer : after.checkpointer = system.checkpointer)
    (promised : after.promised = system.promised) (backend : after.backend = system.backend)
    (tail : after.tail = system.tail) (pruneLock : after.pruneLock = system.pruneLock)
    (expected : after.expectedFlushLoc = system.expectedFlushLoc) (head : system.head ≤ after.head)
    (lsns : ∀ held, (after.extra held).recLsn = (system.extra held).recLsn)
    (prunes : after.writer.prunes ↔ system.writer.prunes) (flush : FlushFacts system entry after.writer) :
    PromiseInvariant sizes after entry := by
  refine ⟨?_, ?_, ?_, ?_, ?_, ?_, ?_⟩
  · rw [pruneLock, prunes]
    exact promise.lockWriter
  · rw [pruneLock, checkpointer]
    exact promise.lockCheckpointer
  · rw [checkpointer, prunes]
    exact promise.outside
  · rw [promised]
    intro held has
    rw [lsns]
    exact promise.dirty held has
  · rw [promised]
    intro held loc has placed
    unfold flushLoc
    rw [checkpointer, expected]
    exact promise.bound held loc has (placed.of_backend backend)
  · refine flushFacts_keep flush head (fun _ => expected) (by rw [checkpointer]; exact id) ?_
    rw [promised]
    exact fun held loc has placed => ⟨has, placed.of_backend backend⟩
  · rw [checkpointer]
    exact searchFacts_keep promise.search tail.ge (by rw [tail]; exact promise.own) fun _ _ => Or.inl rfl

/-- A step that changes the state of the page writer only. -/
theorem writerOnly {pc : WriterPc} (promise : PromiseInvariant sizes system entry)
    (prunes : pc.prunes ↔ system.writer.prunes) (flush : FlushFacts system entry pc) :
    PromiseInvariant sizes { system with writer := pc } entry :=
  promise.writerStill rfl rfl rfl rfl rfl rfl le_rfl (fun _ => rfl) prunes flush

section

variable (promise : PromiseInvariant sizes system entry)

include promise

theorem takePruneLock (here : system.writer = .pruning rest last)
    (careful : Careful sizes system .writer) (unlocked : system.pruneLock = none) :
    PromiseInvariant sizes { system with pruneLock := some .writer, writer := .comparing rest last } entry := by
  unfold Careful at careful
  dsimp only at careful
  rw [here] at careful
  refine ⟨⟨fun _ => trivial, fun _ => rfl⟩, ⟨nofun, fun searches => ?_⟩,
    fun loc storing => absurd storing (careful loc),
    promise.dirty, promise.bound, nofun, ?_⟩
  · have locked := promise.lockCheckpointer.mpr searches
    rw [unlocked] at locked
    cases locked
  · exact searchFacts_keep promise.search le_rfl promise.own fun _ _ => Or.inl rfl

theorem raise (here : system.writer = .raising rest last) :
    PromiseInvariant sizes
      { system with expectedFlushLoc := last + 1, writer := .choosing rest last } entry := by
  have prunes : system.writer.prunes := by rw [here]; trivial
  have less : system.expectedFlushLoc < last := by
    have flush := promise.flush
    rw [here] at flush
    exact flush
  have idle := promise.location_none prunes
  refine ⟨⟨fun _ => trivial, fun _ => promise.lockWriter.mpr prunes⟩, promise.lockCheckpointer,
    fun loc storing => absurd prunes (promise.outside loc storing), promise.dirty, ?_, ?_, ?_⟩
  · intro held loc has placed
    have below := promise.bound held loc has placed
    unfold flushLoc at below ⊢
    dsimp only
    rw [idle] at below ⊢
    exact below.trans (less.trans (Nat.lt_succ_self _))
  · rintro target ⟨⟩
    exact Nat.lt_succ_self _
  · exact searchFacts_keep promise.search le_rfl promise.own fun _ _ => Or.inl rfl

theorem move (here : system.writer = .copying buffer source rest last) (slot : DirtyPageQueueSlot) :
    PromiseInvariant sizes
      { system.setSlot (last % sizes.size) slot with writer := .relocating buffer source rest last }
      (update (update entry source none) last (some ((system.extra buffer).recLsn, .page buffer))) := by
  have prunes : system.writer.prunes := by rw [here]; trivial
  have less : last < system.expectedFlushLoc := by
    have flush := promise.flush
    rw [here] at flush
    exact flush last rfl
  have idle := promise.location_none prunes
  refine ⟨⟨fun _ => trivial, fun _ => promise.lockWriter.mpr prunes⟩, promise.lockCheckpointer,
    fun loc storing => absurd prunes (promise.outside loc storing), promise.dirty, ?_, ?_, ?_⟩
  · intro held loc has placed
    show loc < system.flushLoc
    by_cases atLast : loc = last
    · unfold flushLoc
      rw [idle, atLast]
      exact less
    · have before : ∀ {item}, update (update entry source none) last
          (some ((system.extra buffer).recLsn, .page buffer)) loc = some item → entry loc = some item := by
        intro item found
        rw [update_of_ne atLast, update_apply] at found
        split_ifs at found
        exact found
      refine promise.bound held loc has ?_
      rcases placed with ⟨lsn, page⟩ | ⟨lsn, id, coming, holds⟩
      · exact Or.inl ⟨lsn, before page⟩
      · exact Or.inr ⟨lsn, id, before coming, holds⟩
  · rintro target ⟨⟩
    exact less
  · -- nothing is moved while the search runs
    have apart := promise.searches_apart prunes
    show SearchFacts _ _ _ system.checkpointer
    cases pc : system.checkpointer with
    | testing | stating | reading | stamping | rereading =>
      rw [pc] at apart
      exact absurd trivial apart
    | _ => trivial

theorem release (here : system.writer = .releasing) :
    PromiseInvariant sizes { system with pruneLock := none, writer := .idle } entry := by
  have locked := promise.lockWriter.mpr (by rw [here]; trivial)
  refine ⟨⟨nofun, nofun⟩, ⟨nofun, fun searches => ?_⟩, fun _ _ => id, promise.dirty, promise.bound, nofun, ?_⟩
  · rw [promise.lockCheckpointer.mpr searches] at locked
    cases locked
  · exact searchFacts_keep promise.search le_rfl promise.own fun _ _ => Or.inl rfl

/-- The head has reached the place, so nothing that was counted on is left. -/
theorem reached (invariant : QueueInvariant sizes system entry) {head : Nat}
    (before : head ≤ system.head) (passed : system.expectedFlushLoc ≤ head) :
    FlushFacts system entry (.resetting true) := by
  intro idle held loc has placed
  have below := promise.bound held loc has placed
  have low := (placed.inside invariant).1
  unfold flushLoc at below
  rw [idle] at below
  exact absurd (below.trans_le (passed.trans (before.trans low))) (lt_irrefl _)

end

end PromiseInvariant

end CkptSystem

end OpenGauss.PageWriter
