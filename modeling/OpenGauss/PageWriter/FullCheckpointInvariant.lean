import OpenGauss.PageWriter.DirtyQueueRuns

namespace OpenGauss.PageWriter

open Lib

def CheckpointPc.location : CheckpointPc → Option Nat
  | .storing loc | .locating loc => some loc
  | _ => none

/-- The place that the search for a record position has come to. -/
def CheckpointPc.search : CheckpointPc → Option Nat
  | .testing _ loc | .stating _ loc | .reading _ loc | .stamping _ loc _ | .rereading _ loc _ _ => some loc
  | _ => none

/-- The search runs under the lock of the prune. -/
def CheckpointPc.searches : CheckpointPc → Prop
  | .starting _ | .testing _ _ | .stating _ _ | .reading _ _ | .stamping _ _ _ | .rereading _ _ _ _ | .ending _
  | .locating _ | .unlocking => True
  | _ => False

def WriterPc.prunes : WriterPc → Prop
  | .comparing _ _ | .raising _ _ | .choosing _ _ | .peeking _ _ _ | .guarding _ _ _ | .finding _ _ _
  | .locking _ _ _ _ | .rechecking _ _ _ _ | .copying _ _ _ _ | .relocating _ _ _ _ | .vacating _ _ _ _
  | .unlocking _ _ _ | .releasing | .panicked => True
  | _ => False

/-- The slot that the prune moves the next buffer to. -/
def WriterPc.target : WriterPc → Option Nat
  | .choosing _ last | .peeking _ _ last | .guarding _ _ last | .finding _ _ last | .locking _ _ _ last
  | .rechecking _ _ _ last | .copying _ _ _ last | .relocating _ _ _ last | .vacating _ _ _ last
  | .unlocking _ _ last => some last
  | _ => none

theorem WriterPc.prunes_of_target {pc : WriterPc} {last : Nat} (moves : pc.target = some last) : pc.prunes := by
  cases pc <;> trivial

namespace CkptSystem

variable (sizes : QueueSizes) (system : CkptSystem) (entry : Nat → Option (Nat × QueueItem))

/-- When the flag is reset because the head has reached the place, no buffer that was counted on is left. -/
def KeepsPromise : Prop :=
  system.writer = .resetting true → system.checkpointer.location = none →
    ∀ buffer, buffer ≠ 0 → system.promised buffer → ∀ loc, system.head ≤ loc → loc < system.tail →
      (system.slotAt sizes loc).buffer ≠ buffer

/-- The condition on the steps of a run. A push does not take the slot that the search looks at, the tail of a
full checkpoint is read and stored outside of a prune, the last slot emptied is not the place itself, and no
place is stored while the flag is being reset for the one before. -/
def Careful : CkptEvent → Prop
  | .backend id =>
    match system.backend id with
    | .exchanging _ _ _ => ∀ loc ∈ system.checkpointer.search, system.tail ≠ loc + sizes.size
    | _ => True
  | .fullCheckpoint => system.pruneLock ≠ some .writer
  | .writer =>
    match system.writer with
    | .pruning _ _ => ∀ loc, system.checkpointer ≠ .storing loc
    | .comparing _ last => last ≠ system.expectedFlushLoc
    | _ => True
  | .checkpointer => system.checkpointer.location ≠ none → system.writer ≠ .resetting true
  | _ => True

instance (pc : CheckpointPc) : Decidable (∀ loc, pc ≠ .storing loc) :=
  decidable_of_iff (∀ loc ∈ pc.location, pc ≠ .storing loc)
    ⟨fun each loc storing => each loc (by rw [storing]; rfl) storing, fun each loc _ => each loc⟩

instance : ∀ event, Decidable (Careful sizes system event)
  | .backend _ | .writer => by
    unfold Careful
    dsimp only
    split <;> infer_instance
  | .fullCheckpoint => inferInstanceAs (Decidable (_ ≠ _))
  | .checkpointer => inferInstanceAs (Decidable (_ → _))
  | .lockHdr _ _ | .remove _ | .push _ | .unlockHdr _ | .updateReclsn _ | .expect | .prune | .skipHead _
  | .restartPoint _ => .isTrue trivial

def Placed (buffer loc : Nat) : Prop :=
  (∃ lsn, entry loc = some (lsn, .page buffer)) ∨
    ∃ lsn id, entry loc = some (lsn, .coming id) ∧ (system.backend id).buffer = some buffer

/-- The place up to which pages are to be flushed, or the one about to be stored. -/
def flushLoc : Nat := system.checkpointer.location.getD system.expectedFlushLoc

/-- The search looks at a position that was filled. -/
structure Watched (loc : Nat) : Prop where
  below : loc < system.tail
  own : system.tail ≤ loc + sizes.size
  filled : ∀ lsn id, entry loc ≠ some (lsn, .coming id)

def SearchFacts : CheckpointPc → Prop
  | .testing _ loc => system.tail ≤ loc + sizes.size
  | .stating _ loc => loc < system.tail ∧ system.tail ≤ loc + sizes.size
  | .reading _ loc => Watched sizes system entry loc
  | .stamping _ loc buffer => Watched sizes system entry loc ∧
      ∀ lsn held, entry loc = some (lsn, .page held) → held = buffer
  | .rereading _ loc _ lsn => Watched sizes system entry loc ∧ ∀ key item, entry loc = some (key,
      item) → key = lsn
  | _ => True

/-- What the page writer does about the place up to which pages are to be flushed. -/
def FlushFacts : WriterPc → Prop
  | .expecting head | .targeting head => head ≤ system.head
  | .resetting true => system.checkpointer.location = none →
      ∀ buffer loc, system.promised buffer → ¬ Placed system entry buffer loc
  | .raising _ last => system.expectedFlushLoc < last
  | pc => ∀ last ∈ pc.target, last < system.expectedFlushLoc

structure PromiseInvariant : Prop where
  lockWriter : system.pruneLock = some .writer ↔ system.writer.prunes
  lockCheckpointer : system.pruneLock = some .checkpointer ↔ system.checkpointer.searches
  outside : ∀ loc, system.checkpointer = .storing loc → ¬ system.writer.prunes
  dirty : ∀ buffer, system.promised buffer → (system.extra buffer).recLsn ≠ 0
  bound : ∀ buffer loc, system.promised buffer → Placed system entry buffer loc → loc < system.flushLoc
  flush : FlushFacts system entry system.writer
  search : SearchFacts sizes system entry system.checkpointer

theorem init_promise (reclsn : Nat) : PromiseInvariant sizes (init reclsn) fun _ => none :=
  ⟨⟨nofun, nofun⟩, ⟨nofun, nofun⟩, fun _ _ => id, nofun, nofun, nofun, trivial⟩

variable {sizes : QueueSizes} {system after : CkptSystem} {entry entry' : Nat → Option (Nat × QueueItem)}
  {buffer loc : Nat}

theorem Watched.keep (watched : Watched sizes system entry loc) (tail : system.tail ≤ after.tail)
    (own : after.tail ≤ loc + sizes.size) (kept : entry' loc = entry loc ∨ entry' loc = none) :
    Watched sizes after entry' loc := by
  refine ⟨watched.below.trans_le tail, own, fun lsn id here => ?_⟩
  rcases kept with same | gone
  · exact watched.filled lsn id (same ▸ here)
  · rw [gone] at here
    cases here

theorem searchFacts_keep {pc : CheckpointPc} (facts : SearchFacts sizes system entry pc)
    (tail : system.tail ≤ after.tail) (own : ∀ loc ∈ pc.search, after.tail ≤ loc + sizes.size)
    (kept : ∀ loc, Watched sizes system entry loc → entry' loc = entry loc ∨ entry' loc = none) :
    SearchFacts sizes after entry' pc := by
  have before : ∀ {loc key item}, Watched sizes system entry loc → entry' loc = some (key, item) →
      entry loc = some (key, item) := by
    intro loc key item watched here
    rcases kept loc watched with same | gone
    · exact same ▸ here
    · rw [gone] at here
      cases here
  cases pc with
  | testing target loc => exact own loc rfl
  | stating target loc => exact ⟨facts.1.trans_le tail, own loc rfl⟩
  | reading target loc => exact Watched.keep facts tail (own loc rfl) (kept loc facts)
  | stamping target loc buffer =>
    obtain ⟨watched, names⟩ := facts
    exact ⟨watched.keep tail (own loc rfl) (kept loc watched),
      fun lsn held here => names lsn held (before watched here)⟩
  | rereading target loc buffer lsn =>
    obtain ⟨watched, stamps⟩ := facts
    exact ⟨watched.keep tail (own loc rfl) (kept loc watched),
      fun key item here => stamps key item (before watched here)⟩
  | _ => trivial

namespace PromiseInvariant

theorem searches_apart (promise : PromiseInvariant sizes system entry) (prunes : system.writer.prunes) :
    ¬ system.checkpointer.searches := by
  intro searches
  have one := promise.lockWriter.mpr prunes
  rw [promise.lockCheckpointer.mpr searches] at one
  cases one

theorem location_none (promise : PromiseInvariant sizes system entry) (prunes : system.writer.prunes) :
    system.checkpointer.location = none := by
  have apart := promise.searches_apart prunes
  cases here : system.checkpointer with
  | storing loc => exact absurd prunes (promise.outside loc here)
  | locating loc =>
    rw [here] at apart
    exact absurd trivial apart
  | _ => rfl

theorem flushFacts_keep {pc : WriterPc} (facts : FlushFacts system entry pc) (head : system.head ≤ after.head)
    (expected : pc.prunes → after.expectedFlushLoc = system.expectedFlushLoc)
    (location : after.checkpointer.location = none → system.checkpointer.location = none)
    (placed : ∀ buffer loc, after.promised buffer → Placed after entry' buffer loc →
      system.promised buffer ∧ Placed system entry buffer loc) : FlushFacts after entry' pc := by
  cases pc with
  | expecting first => exact le_trans facts head
  | targeting first => exact le_trans facts head
  | resetting full =>
    cases full with
    | true =>
      intro idle buffer loc promised here
      obtain ⟨before, there⟩ := placed buffer loc promised here
      exact facts (location idle) buffer loc before there
    | false => nofun
  | raising rest last => exact lt_of_eq_of_lt (expected trivial) facts
  | _ =>
    intro last inside
    exact lt_of_lt_of_eq (facts last inside) (expected (WriterPc.prunes_of_target inside)).symm

end PromiseInvariant

end CkptSystem

end OpenGauss.PageWriter
