import OpenGauss.PageWriter.FullCheckpointSteps
import OpenGauss.PageWriter.DirtyQueueOrder

namespace OpenGauss.PageWriter

open Lib

namespace CkptSystem

variable {sizes : QueueSizes} {system : CkptSystem} {entry entry' : Nat → Option (Nat × QueueItem)}

namespace PromiseInvariant

theorem step {event : CkptEvent} (promise : PromiseInvariant sizes system entry)
    (invariant : QueueInvariant sizes system entry) (careful : Careful sizes system event)
    (follows : EntryStep system entry event entry') :
      PromiseInvariant sizes (system.step sizes event) entry' := by
  cases event with
  | backend id => exact promise.backendAccess invariant careful follows
  | writer => exact promise.writerAccess invariant careful follows
  | remove id =>
    unfold CkptSystem.step
    dsimp only
    cases follows with
    | still =>
      cases here : system.backend id with
      | holding buffer =>
        dsimp only
        split_ifs
        · unfold removeDirtyPage
          split
          · exact promise
          · exact promise.backendStill invariant rfl rfl rfl rfl rfl le_rfl promise.own rfl
              (by rw [here]; nofun)
              fun _ => promise.keepPromised
        · exact promise
      | _ => exact promise
    | remove here dirty loc =>
      rw [here]
      dsimp only
      rw [if_pos dirty]
      exact promise.remove invariant here loc
  | lockHdr id buffer =>
    cases follows
    unfold CkptSystem.step
    dsimp only
    split_ifs with possible
    · exact promise.backendStill invariant rfl rfl rfl rfl rfl le_rfl promise.own rfl
        (by rw [possible.1]; nofun) fun _ => promise.keepPromised
    · exact promise
  | push id =>
    cases follows
    unfold CkptSystem.step
    dsimp only
    cases here : system.backend id with
    | holding buffer =>
      dsimp only
      split_ifs
      · exact promise.backendStill invariant rfl rfl rfl rfl rfl le_rfl promise.own rfl (by rw [here]; nofun)
          fun _ => promise.keepPromised
      · exact promise
    | _ => exact promise
  | unlockHdr id =>
    cases follows
    unfold CkptSystem.step
    dsimp only
    cases here : system.backend id with
    | holding buffer =>
      exact promise.backendStill invariant rfl rfl rfl rfl rfl le_rfl promise.own rfl (by rw [here]; nofun)
        fun _ => promise.keepPromised
    | _ => exact promise
  | updateReclsn lsn =>
    cases follows
    unfold CkptSystem.step
    dsimp only
    split_ifs
    · exact promise.backendEvent rfl rfl rfl rfl rfl le_rfl promise.own (fun _ => promise.keepPromised)
        (fun _ _ _ placed => placed.of_backend rfl) fun _ _ => Or.inl rfl
    · exact promise
  | expect =>
    cases follows
    unfold CkptSystem.step
    dsimp only
    split_ifs with idle
    · exact promise.writerOnly (by rw [idle]; exact Iff.rfl) le_rfl
    · exact promise
  | prune =>
    cases follows
    unfold CkptSystem.step
    dsimp only
    split_ifs with full
    · exact promise.writerOnly (by rw [full.1]; exact Iff.rfl) nofun
    · exact promise
  | skipHead num =>
    cases follows
    unfold CkptSystem.step
    dsimp only
    split_ifs with fits
    · exact promise.writerOnly (by rw [fits.1]; exact Iff.rfl) nofun
    · exact promise
  | fullCheckpoint =>
    cases follows
    unfold CkptSystem.step
    dsimp only
    split_ifs with idle
    · refine promise.determineTail invariant rfl (by rw [idle]; exact Iff.rfl) ?_
      rw [← promise.lockWriter]
      exact careful
    · exact promise
  | restartPoint target =>
    cases follows
    unfold CkptSystem.step
    dsimp only
    split_ifs with idle
    · exact promise.checkpointerStill _ (by rw [idle]; exact Iff.rfl) rfl (by rw [idle]; rfl) trivial
    · exact promise
  | checkpointer =>
    cases follows
    exact promise.checkpointerAccess invariant careful

theorem keepsPromise (promise : PromiseInvariant sizes system entry)
    (invariant : QueueInvariant sizes system entry) :
    KeepsPromise sizes system := by
  intro resets idle buffer real has loc low high names
  have gone := promise.flush
  rw [resets] at gone
  have facts := invariant.slots loc low high
  rcases here : entry loc with _ | ⟨lsn, id | held⟩ <;> rw [here] at facts
  · rcases facts.2 with empty | moving
    · exact real (names.symm.trans empty)
    · rw [resets] at moving
      cases moving
  · rw [facts.1] at names
    exact real names.symm
  · obtain rfl := facts.1.symm.trans names
    exact gone idle held loc has (Or.inl ⟨lsn, here⟩)

end PromiseInvariant

/-- A dirty buffer gets a slot of the queue. -/
def pushed (buffer : Nat) : List CkptEvent :=
  .lockHdr 1 buffer :: .push 1 :: (List.replicate 7 (.backend 1)).concat (.unlockHdr 1)

/-- A buffer that was written leaves the queue. -/
def removed (buffer : Nat) : List CkptEvent :=
  [.lockHdr 1 buffer, .remove 1, .backend 1, .backend 1, .unlockHdr 1]

def tailStored : List CkptEvent := [.fullCheckpoint, .checkpointer, .checkpointer, .checkpointer]

/-- The last slot that was emptied is the place itself: the buffer is moved there without raising the place. -/
theorem promise_not_kept :
    ∃ events, ¬ KeepsPromise ⟨5, 3, 4, 12⟩ (run (step ⟨5, 3, 4, 12⟩) (init 7) events) := by
  let events : List (List CkptEvent) :=
    [pushed 3, pushed 4, tailStored, pushed 5, removed 5, .prune :: List.replicate 31 .writer, removed 3,
      .skipHead 3 :: List.replicate 10 .writer, [.expect, .writer, .writer]]
  refine ⟨events.flatten, fun kept => ?_⟩
  exact kept (by decide +kernel) (by decide +kernel) 4 (by decide) (by decide +kernel) 2 (by decide +kernel)
    (by decide +kernel) (by decide +kernel)

/-- On careful runs no page that a checkpoint counts on is left behind. -/
theorem promise_kept {reclsn : Nat} (started : reclsn ≠ 0) {events : List CkptEvent}
    (careful : Along (step sizes) (Careful sizes) (init reclsn) events) :
    KeepsPromise sizes (run (step sizes) (init reclsn) events) := by
  obtain ⟨entry, invariant, promise⟩ : ∃ entry, QueueInvariant sizes (run (step sizes)
      (init reclsn) events) entry ∧
      PromiseInvariant sizes (run (step sizes) (init reclsn) events) entry := by
    refine run_invariant_along (fun system => ∃ entry, QueueInvariant sizes system entry ∧
      PromiseInvariant sizes system entry) ?_ careful ⟨_, init_invariant sizes started,
      init_promise sizes reclsn⟩
    rintro system event allowed ⟨entry, invariant, promise⟩
    obtain ⟨entry', follows, after⟩ := invariant.step event
    exact ⟨entry', after, promise.step invariant allowed follows⟩
  exact promise.keepsPromise invariant

/-- The place is behind buffers 3 and 4 until a prune moves them and raises it. They are written, the head passes
the place, and the flag is about to be reset while buffer 7 is in the queue. -/
def prunedThenReset : List CkptEvent :=
  [pushed 3, pushed 4, tailStored, pushed 5, pushed 6, removed 6, .prune :: List.replicate 46 .writer,
    removed 3, removed 5, removed 4, pushed 7, .skipHead 5 :: List.replicate 18 .writer,
    [.expect, .writer, .writer]].flatten

theorem promise_kept_moved : KeepsPromise ⟨8, 4, 4, 12⟩ (run (step ⟨8, 4, 4, 12⟩) (init 7) prunedThenReset) ∧
    (run (step ⟨8, 4, 4, 12⟩) (init 7) prunedThenReset).writer = .resetting true ∧
    (run (step ⟨8, 4, 4, 12⟩) (init 7) prunedThenReset).expectedFlushLoc = 4 :=
  ⟨promise_kept (by decide) (by decide +kernel), by decide +kernel, by decide +kernel⟩

end CkptSystem

end OpenGauss.PageWriter
