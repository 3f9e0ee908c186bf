import OpenGauss.PageWriter.FullCheckpointPushes

namespace OpenGauss.PageWriter

open Lib

namespace CkptSystem

variable {sizes : QueueSizes} {system : CkptSystem} {entry entry' : Nat → Option (Nat × QueueItem)}

namespace PromiseInvariant

theorem writerAccess (promise : PromiseInvariant sizes system entry)
    (invariant : QueueInvariant sizes system entry)
    (careful : Careful sizes system .writer) (follows : EntryStep system entry .writer entry') :
    PromiseInvariant sizes (system.stepWriter sizes) entry' := by
  cases follows with
  | move here =>
    unfold stepWriter
    rw [here]
    exact promise.move here _
  | still =>
    have flush := promise.flush
    unfold stepWriter
    cases here : system.writer with
    | idle => exact promise
    | panicked => exact promise
    | expecting head =>
      rw [here] at flush
      dsimp only
      split_ifs
      · exact promise.writerOnly (by rw [here]; exact Iff.rfl) flush
      · exact promise.writerOnly (by rw [here]; exact Iff.rfl) nofun
      · exact promise.writerOnly (by rw [here]; exact Iff.rfl) nofun
    | targeting head =>
      rw [here] at flush
      dsimp only
      split_ifs with passed
      · exact promise.writerOnly (by rw [here]; exact Iff.rfl) (promise.reached invariant flush passed)
      · exact promise.writerOnly (by rw [here]; exact Iff.rfl) nofun
    | resetting full =>
      exact promise.writerStill rfl rfl rfl rfl rfl rfl le_rfl (fun _ => rfl)
        (by rw [here]; exact Iff.rfl) nofun
    | scanning num i found =>
      have done : PromiseInvariant sizes { system with writer := Found.done found } entry := by
        unfold Found.done
        split_ifs <;> exact promise.writerOnly (by rw [here]; exact Iff.rfl) nofun
      dsimp only
      split_ifs
      · exact done
      · exact done
      · exact done
      · exact promise.writerOnly (by rw [here]; exact Iff.rfl) nofun
    | looking num i found => exact promise.writerOnly (by rw [here]; exact Iff.rfl) nofun
    | pruning rest last =>
      dsimp only
      split
      · exact promise.takePruneLock here careful ‹_›
      · exact promise
    | comparing rest last =>
      unfold Careful at careful
      dsimp only at careful ⊢
      rw [here] at careful
      split_ifs with below
      · exact promise.writerOnly (by rw [here]; exact Iff.rfl) below
      · refine promise.writerOnly (by rw [here]; exact Iff.rfl) ?_
        rintro target ⟨⟩
        exact Nat.lt_of_le_of_ne (Nat.le_of_not_lt below) careful
    | raising rest last => exact promise.raise here
    | choosing rest last =>
      rw [here] at flush
      cases rest with
      | nil => exact promise.writerOnly (by rw [here]; exact Iff.rfl) nofun
      | cons source rest =>
        dsimp only
        split_ifs
        · exact promise.writerOnly (by rw [here]; exact Iff.rfl) nofun
        · exact promise.writerOnly (by rw [here]; exact Iff.rfl) flush
        · exact promise.writerOnly (by rw [here]; exact Iff.rfl) flush
    | peeking source rest last =>
      rw [here] at flush
      dsimp only
      split_ifs <;> exact promise.writerOnly (by rw [here]; exact Iff.rfl) flush
    | guarding source rest last =>
      rw [here] at flush
      dsimp only
      split_ifs
      · exact promise.writerOnly (by rw [here]; exact Iff.rfl) nofun
      · exact promise.writerOnly (by rw [here]; exact Iff.rfl) flush
    | finding source rest last =>
      rw [here] at flush
      exact promise.writerOnly (by rw [here]; exact Iff.rfl) flush
    | locking buffer source rest last =>
      rw [here] at flush
      dsimp only
      split
      · exact promise.writerStill rfl rfl rfl rfl rfl rfl le_rfl (fun _ => rfl)
          (by rw [here]; exact Iff.rfl) flush
      · exact promise
    | rechecking buffer source rest last =>
      rw [here] at flush
      dsimp only
      split_ifs <;> exact promise.writerOnly (by rw [here]; exact Iff.rfl) flush
    | copying buffer source rest last =>
      rw [here] at flush
      exact promise.writerStill rfl rfl rfl rfl rfl rfl le_rfl (fun _ => rfl)
        (by rw [here]; exact Iff.rfl) flush
    | relocating buffer source rest last =>
      rw [here] at flush
      exact promise.writerStill rfl rfl rfl rfl rfl rfl le_rfl (fun _ => recLsn_setExtra (by rfl))
        (by rw [here]; exact Iff.rfl) flush
    | vacating buffer source rest last =>
      rw [here] at flush
      refine promise.writerStill rfl rfl rfl rfl rfl rfl le_rfl (fun _ => rfl) (by rw [here]; exact Iff.rfl) ?_
      rintro target ⟨⟩
      exact (Nat.sub_le _ _).trans_lt (flush last rfl)
    | unlocking buffer rest last =>
      rw [here] at flush
      exact promise.writerStill rfl rfl rfl rfl rfl rfl le_rfl (fun _ => rfl)
        (by rw [here]; exact Iff.rfl) flush
    | releasing => exact promise.release here
    | skipping num i =>
      dsimp only
      split_ifs <;> exact promise.writerOnly (by rw [here]; exact Iff.rfl) nofun
    | probing num i =>
      dsimp only
      split_ifs <;> exact promise.writerOnly (by rw [here]; exact Iff.rfl) nofun
    | advancing num i =>
      exact promise.writerStill rfl rfl rfl rfl rfl rfl (Nat.le_succ _) (fun _ => rfl)
        (by rw [here]; exact Iff.rfl)
        nofun
    | clearing num i =>
      exact promise.writerStill rfl rfl rfl rfl rfl rfl le_rfl (fun _ => rfl)
        (by rw [here]; exact Iff.rfl) nofun

variable {pc : CheckpointPc} {loc : Nat}

section

variable (promise : PromiseInvariant sizes system entry)
include promise

/-- A step of a checkpoint that determines no place and stores none. -/
theorem checkpointerStill (flushAll : Bool)
    (searches : pc.searches ↔ system.checkpointer.searches) (location : pc.location = none)
    (idle : system.checkpointer.location = none) (search : SearchFacts sizes system entry pc) :
    PromiseInvariant sizes { system with flushAll, checkpointer := pc } entry := by
  refine ⟨promise.lockWriter, promise.lockCheckpointer.trans searches.symm, ?_, promise.dirty, ?_, ?_, ?_⟩
  · rintro loc rfl
    cases location
  · intro buffer loc has placed
    have below := promise.bound buffer loc has (placed.of_backend rfl)
    unfold flushLoc at below ⊢
    dsimp only
    rw [idle] at below
    rw [location]
    exact below
  · exact flushFacts_keep promise.flush le_rfl (fun _ => rfl) (fun _ => idle) fun _ _ has placed =>
      ⟨has, placed.of_backend rfl⟩
  · refine searchFacts_keep search le_rfl ?_ fun _ _ => Or.inl rfl
    cases pc with
    | testing target loc => rintro _ ⟨⟩; exact search
    | stating target loc => rintro _ ⟨⟩; exact search.2
    | reading target loc => rintro _ ⟨⟩; exact search.own
    | stamping target loc buffer => rintro _ ⟨⟩; exact search.1.own
    | rereading target loc buffer lsn => rintro _ ⟨⟩; exact search.1.own
    | _ => nofun

/-- The place is determined, and what is counted on from then on lies before it. -/
theorem determine {promised : Nat → Bool}
    (location : pc.location = some loc) (searches : pc.searches ↔ system.checkpointer.searches)
    (outside : ¬ system.writer.prunes) (dirty : ∀ buffer, promised buffer → (system.extra buffer).recLsn ≠ 0)
    (bound : ∀ buffer place, promised buffer → Placed system entry buffer place → place < loc) :
    PromiseInvariant sizes { system with promised, checkpointer := pc } entry := by
  refine ⟨promise.lockWriter, promise.lockCheckpointer.trans searches.symm, fun _ _ => outside,
    dirty, ?_, ?_, ?_⟩
  · intro buffer place has placed
    unfold flushLoc
    dsimp only
    rw [location]
    exact bound buffer place has (placed.of_backend rfl)
  · have flush := promise.flush
    show FlushFacts _ _ system.writer
    cases here : system.writer with
    | expecting head => rw [here] at flush; exact flush
    | targeting head => rw [here] at flush; exact flush
    | resetting full =>
      cases full with
      | false => nofun
      | true =>
        intro idle
        dsimp only at idle
        rw [location] at idle
        cases idle
    | idle | scanning | looking | pruning | skipping | probing | advancing | clearing => nofun
    | _ =>
      rw [here] at outside
      exact absurd trivial outside
  · show SearchFacts _ _ _ pc
    cases pc with
    | testing | stating | reading | stamping | rereading => cases location
    | _ => trivial

theorem store (careful : Careful sizes system .checkpointer)
    (here : system.checkpointer.location = some loc) (location : pc.location = none)
    (idle : pc.search = none) (searches : pc.searches ↔ system.checkpointer.searches) :
    PromiseInvariant sizes { system with expectedFlushLoc := loc, checkpointer := pc } entry := by
  have apart : ¬ system.writer.prunes := by
    intro prunes
    rw [promise.location_none prunes] at here
    cases here
  refine ⟨promise.lockWriter, promise.lockCheckpointer.trans searches.symm, fun _ _ => apart,
    promise.dirty, ?_, ?_, ?_⟩
  · intro buffer place has placed
    have below := promise.bound buffer place has (placed.of_backend rfl)
    unfold flushLoc at below ⊢
    dsimp only
    rw [here] at below
    rw [location]
    exact below
  · have flush := promise.flush
    have later := careful (by rw [here]; nofun)
    show FlushFacts _ _ system.writer
    cases writer : system.writer with
    | expecting head => rw [writer] at flush; exact flush
    | targeting head => rw [writer] at flush; exact flush
    | resetting full =>
      cases full with
      | false => nofun
      | true => exact absurd writer later
    | idle | scanning | looking | pruning | skipping | probing | advancing | clearing => nofun
    | _ =>
      rw [writer] at apart
      exact absurd trivial apart
  · show SearchFacts _ _ _ pc
    cases pc with
    | testing | stating | reading | stamping | rereading => cases idle
    | _ => trivial

/-- The slot that the search looks at holds a buffer only as long as its position is in the queue. -/
theorem held (invariant : QueueInvariant sizes system entry)
    (watched : Watched sizes system entry loc) (searches : system.checkpointer.searches)
    (names : (system.slotAt sizes loc).buffer ≠ 0) :
    ∃ lsn, entry loc = some (lsn, .page (system.slotAt sizes loc).buffer) := by
  have below := watched.below
  have own := watched.own
  by_cases low : system.head ≤ loc
  · have facts := invariant.slots loc low below
    rcases here : entry loc with _ | ⟨lsn, id | buffer⟩ <;> rw [here] at facts
    · have moving := facts.2.resolve_left names
      refine absurd searches (promise.searches_apart ?_)
      cases pc : system.writer with
      | relocating => trivial
      | vacating => trivial
      | _ =>
        rw [pc] at moving
        cases moving
    · exact absurd here (watched.filled lsn id)
    · exact ⟨lsn, by rw [facts.1]⟩
  · refine absurd (invariant.free (loc % sizes.size) fun place first last same => ?_).1 names
    have far := Nat.le_of_dvd (by omega) ((Nat.modEq_iff_dvd' (show loc ≤ place by omega)).mp same.symm)
    omega

end

/-- The record position of a buffer with a position. -/
theorem key (invariant : QueueInvariant sizes system entry) {buffer place : Nat}
    (placed : Placed system entry buffer place) (dirty : (system.extra buffer).recLsn ≠ 0) :
    ∃ item, entry place = some ((system.extra buffer).recLsn, item) := by
  rcases placed with ⟨lsn, page⟩ | ⟨lsn, id, coming, holds⟩
  · obtain ⟨low, high⟩ := invariant.queue.inside place lsn _ page
    have facts := invariant.slots place low high
    rw [page] at facts
    exact ⟨_, facts.2.2.1 ▸ page⟩
  · have pending := invariant.coming place lsn id coming
    have facts := invariant.backends id
    cases here : system.backend id with
    | reserved held lsn' place' =>
      rw [here] at holds facts
      cases holds
      exact absurd facts.1.1 dirty
    | stamped held lsn' place' =>
      rw [here] at holds facts pending
      cases holds
      cases pending
      exact ⟨_, facts.2.1 ▸ coming⟩
    | placed held lsn' place' =>
      rw [here] at holds facts pending
      cases holds
      cases pending
      exact ⟨_, facts.2.1 ▸ coming⟩
    | _ =>
      rw [here] at pending
      cases pending

variable (promise : PromiseInvariant sizes system entry)
include promise

theorem found (invariant : QueueInvariant sizes system entry)
    {target loc buffer lsn : Nat} (here : system.checkpointer = .rereading target loc buffer lsn)
    (names : (system.slotAt sizes loc).buffer ≠ 0) (enough : target ≤ lsn) :
    PromiseInvariant sizes
      { system with promised := system.counted (some target), checkpointer := .locating loc } entry := by
  have search := promise.search
  have searches : system.checkpointer.searches := by rw [here]; trivial
  rw [here] at search
  obtain ⟨watched, stamps⟩ := search
  obtain ⟨first, page⟩ := promise.held invariant watched searches names
  obtain rfl := stamps _ _ page
  refine promise.determine rfl (by rw [here]; exact Iff.rfl)
    (fun prunes => promise.searches_apart prunes searches) ?_ ?_
  · intro held has
    exact (of_decide_eq_true has).1
  · intro held place has placed
    obtain ⟨dirty, before⟩ := of_decide_eq_true has
    have less := before target rfl
    obtain ⟨item, also⟩ := key invariant placed dirty
    by_contra behind
    rcases Nat.lt_or_eq_of_le (Nat.le_of_not_lt behind) with later | rfl
    · have := invariant.queue.sorted loc place _ _ _ _ later page also
      omega
    · have same := (Prod.mk.inj (Option.some.inj (page.symm.trans also))).1
      omega

theorem determineTail {target : Option Nat}
    (invariant : QueueInvariant sizes system entry) (location : pc.location = some system.tail)
    (searches : pc.searches ↔ system.checkpointer.searches) (outside : ¬ system.writer.prunes) :
    PromiseInvariant sizes { system with promised := system.counted target, checkpointer := pc } entry :=
  promise.determine location searches outside (fun _ has => (of_decide_eq_true has).1)
    fun _ _ _ placed => (placed.inside invariant).2

theorem takeSearchLock {target : Nat}
    (here : system.checkpointer = .locking target) (unlocked : system.pruneLock = none) :
    PromiseInvariant sizes
      { system with pruneLock := some .checkpointer, checkpointer := .starting target } entry := by
  have apart : ¬ system.writer.prunes := by
    rw [← promise.lockWriter, unlocked]
    nofun
  refine ⟨⟨nofun, fun prunes => absurd prunes apart⟩, ⟨fun _ => trivial, fun _ => rfl⟩, nofun,
    promise.dirty, ?_, ?_,
    trivial⟩
  · intro buffer place has placed
    have below := promise.bound buffer place has (placed.of_backend rfl)
    unfold flushLoc at below ⊢
    rw [here] at below
    exact below
  · exact flushFacts_keep promise.flush le_rfl (fun _ => rfl) (fun _ => by rw [here]; rfl) fun _ _ has placed =>
      ⟨has, placed.of_backend rfl⟩

theorem releaseSearchLock (here : system.checkpointer = .unlocking)
    (next : pc = .flagging ∨ pc = .flushing) :
    PromiseInvariant sizes { system with pruneLock := none, checkpointer := pc } entry := by
  have locked := promise.lockCheckpointer.mpr (by rw [here]; trivial)
  have apart : ¬ system.writer.prunes := by
    rw [← promise.lockWriter, locked]
    nofun
  have location : pc.location = none := by rcases next with rfl | rfl <;> rfl
  refine ⟨⟨nofun, fun prunes => absurd prunes apart⟩, ⟨nofun, ?_⟩, fun _ _ => apart, promise.dirty, ?_, ?_, ?_⟩
  · rcases next with rfl | rfl <;> exact False.elim
  · intro buffer place has placed
    have below := promise.bound buffer place has (placed.of_backend rfl)
    unfold flushLoc at below ⊢
    dsimp only
    rw [here] at below
    rw [location]
    exact below
  · exact flushFacts_keep promise.flush le_rfl (fun _ => rfl) (fun _ => by rw [here]; rfl) fun _ _ has placed =>
      ⟨has, placed.of_backend rfl⟩
  · rcases next with rfl | rfl <;> trivial

theorem checkpointerAccess (invariant : QueueInvariant sizes system entry)
    (careful : Careful sizes system .checkpointer) :
    PromiseInvariant sizes (system.stepCheckpointer sizes) entry := by
  have search := promise.search
  have room : system.tail ≤ system.head + sizes.size := by
    have room := invariant.room
    omega
  unfold stepCheckpointer
  cases here : system.checkpointer with
  | idle => exact promise
  | storing loc =>
    exact promise.store careful (by rw [here]; rfl) rfl rfl (by rw [here]; exact Iff.rfl)
  | counting =>
    dsimp only
    split_ifs <;>
      exact promise.checkpointerStill _ (by rw [here]; exact Iff.rfl) rfl (by rw [here]; rfl) trivial
  | flagging => exact promise.checkpointerStill _ (by rw [here]; exact Iff.rfl) rfl (by rw [here]; rfl) trivial
  | flushing =>
    dsimp only
    split_ifs
    · exact promise.checkpointerStill _ (by rw [here]; exact Iff.rfl) rfl (by rw [here]; rfl) trivial
    · exact promise
  | locking target =>
    dsimp only
    split
    · exact promise.takeSearchLock here ‹_›
    · exact promise
  | starting target =>
    dsimp only
    split_ifs
    · exact promise.checkpointerStill _ (by rw [here]; exact Iff.rfl) rfl (by rw [here]; rfl) trivial
    · exact promise.checkpointerStill _ (by rw [here]; exact Iff.rfl) rfl (by rw [here]; rfl) room
  | testing target loc =>
    rw [here] at search
    dsimp only
    split_ifs with below
    · exact promise.checkpointerStill _ (by rw [here]; exact Iff.rfl) rfl (by rw [here]; rfl) ⟨below, search⟩
    · exact promise.checkpointerStill _ (by rw [here]; exact Iff.rfl) rfl (by rw [here]; rfl) trivial
  | stating target loc =>
    rw [here] at search
    dsimp only
    split_ifs with valid
    · refine promise.checkpointerStill _ (by rw [here]; exact Iff.rfl) rfl (by rw [here]; rfl)
        ⟨search.1, search.2, fun lsn id waits => ?_⟩
      rw [(invariant.coming_facts waits).2.2.1] at valid
      cases valid
    · exact promise.checkpointerStill _ (by rw [here]; exact Iff.rfl) rfl (by rw [here]; rfl) room
  | reading target loc =>
    rw [here] at search
    have own := search.own
    dsimp only
    split_ifs with empty
    · refine promise.checkpointerStill _ (by rw [here]; exact Iff.rfl) rfl (by rw [here]; rfl) ?_
      show system.tail ≤ loc + 1 + sizes.size
      omega
    · refine promise.checkpointerStill _ (by rw [here]; exact Iff.rfl) rfl (by rw [here]; rfl)
        ⟨search, fun lsn held page => ?_⟩
      obtain ⟨low, high⟩ := invariant.queue.inside loc lsn _ page
      have facts := invariant.slots loc low high
      rw [page] at facts
      exact facts.1.symm
  | stamping target loc buffer =>
    rw [here] at search
    obtain ⟨watched, names⟩ := search
    refine promise.checkpointerStill _ (by rw [here]; exact Iff.rfl) rfl (by rw [here]; rfl)
      ⟨watched, fun lsn item page => ?_⟩
    cases item with
    | coming id => exact absurd page (watched.filled lsn id)
    | page held =>
      obtain ⟨low, high⟩ := invariant.queue.inside loc lsn _ page
      have facts := invariant.slots loc low high
      rw [page] at facts
      rw [← names lsn held page, facts.2.2.1]
  | rereading target loc buffer lsn =>
    rw [here] at search
    have own := search.1.own
    dsimp only
    split_ifs with enough first
    · exact promise.checkpointerStill _ (by rw [here]; exact Iff.rfl) rfl (by rw [here]; rfl) trivial
    · exact promise.found invariant here enough.1 enough.2
    · refine promise.checkpointerStill _ (by rw [here]; exact Iff.rfl) rfl (by rw [here]; rfl) ?_
      show system.tail ≤ loc + 1 + sizes.size
      omega
  | ending target =>
    refine promise.determineTail invariant rfl (by rw [here]; exact Iff.rfl) fun prunes => ?_
    exact promise.searches_apart prunes (by rw [here]; trivial)
  | locating loc =>
    exact promise.store careful (by rw [here]; rfl) rfl rfl (by rw [here]; exact Iff.rfl)
  | unlocking =>
    refine promise.releaseSearchLock here ?_
    split_ifs
    · exact Or.inl rfl
    · exact Or.inr rfl

end PromiseInvariant

end CkptSystem

end OpenGauss.PageWriter
