import OpenGauss.Cfs.RecycleInvariant

namespace OpenGauss.Cfs

open Lib

universe u v

/-- A header whose address of the block stays is the same header. -/
theorem CfsExtentHeader.extendChunksOfBlock_same {header : CfsExtentHeader} {block needChunks actualUse : Nat}
    (same : (header.extendChunksOfBlock block needChunks actualUse).address block = header.address block) :
    header.extendChunksOfBlock block needChunks actualUse = header := by
  unfold extendChunksOfBlock at same ⊢
  dsimp only at same ⊢
  split_ifs at same ⊢ with missing
  · have longer := congrArg (·.chunknos.length) same
    simp only [Function.update_self, List.length_append, List.length_range'] at longer
    omega
  · have kept : ({ nchunks := actualUse, chunknos := (header.address block).chunknos } : CfsExtentAddress) =
        header.address block := by
      simpa only [Function.update_self] using same
    rw [kept, Function.update_eq_self]

namespace RecycleSystem

variable {Page : Type u} {Chunk : Type v} {compression : RelFileNode → PageCompression Page Chunk}
  {readInfo : List Chunk → CfsExtInfo} {system : RecycleSystem Page Chunk} {key : ExtentKey}
  {image : ExtentImage Chunk}

def Careful (compression : RelFileNode → PageCompression Page Chunk) (readInfo : List Chunk → CfsExtInfo)
    (system : RecycleSystem Page Chunk) : RecycleEvent Page Chunk → Prop
  | .page key _ => system.failed ≠ some key
  | .advance =>
    match system.pc with
    | .moved key image => ¬ (readInfo (firstPage (compression key.rnode) image)).Live
    | _ => True
  | .fail written _ _ => written ≤ dataBytes + inOrderOffset
  | _ => True

section

variable (invariant : Invariant compression system)
include invariant

theorem Invariant.pageOperation {event : CfsEvent Page}
    (free : ¬ system.Recycling key) (possible : event.Possible (system.extent key)) :
    Invariant compression (system.pageOperation compression key event) := by
  obtain ⟨extent, same⟩ := invariant.clean key free
  unfold RecycleSystem.pageOperation
  dsimp only
  refine invariant.setExtent free (extent.step event ?_) ?_
  · cases event with
    | recover => exact possible.elim
    | _ => trivial
  · cases event with
    | write block page =>
      have ready : (system.extent key).present ∧ block < (system.extent key).header.nblocks := possible
      simp only [PageCompression.step, if_pos ready, CfsEvent.keepsHeader, decide_eq_true_eq]
      split_ifs with kept
      · exact same.trans (CfsExtentHeader.extendChunksOfBlock_same kept).symm
      · rfl
    | _ => rfl

/-- A header that is given up is read again. -/
theorem Invariant.evict (unlocked : system.pc.locked ≠ some key) :
    Invariant compression
      (system.setExtent key { system.extent key with header := system.disk key } (system.disk key)) := by
  by_cases gone : system.failed = some key
  · obtain ⟨idle, compressed, unordered, image, assist, restores⟩ := invariant.failed key gone
    obtain ⟨extentEq, diskEq⟩ :=
        @setExtent_self _ _ system key { system.extent key with header := system.disk key }
      (system.disk key)
    refine ⟨?_, ?_, fun whole => ?_, ?_⟩
    · intro other free
      have different : other ≠ key := by
        rintro rfl
        exact free (Or.inr gone)
      obtain ⟨extentEq, diskEq⟩ := @setExtent_other _ _ system key other
        { system.extent key with header := system.disk key } (system.disk key) different
      exact (invariant.clean other free).congr extentEq diskEq
    · show AtPc _ _ system.pc
      rw [idle]
      trivial
    · cases whole.symm.trans gone
    · intro other also
      obtain rfl : other = key := Option.some.inj (also.symm.trans gone)
      refine ⟨idle, compressed, (congrArg (·.recycleInOrder) diskEq).trans unordered, image, assist, ?_⟩
      rw [extentEq]
      exact ⟨restores.present, restores.inOrder, restores.invariant⟩
  · have free : ¬ system.Recycling key := not_or.mpr ⟨unlocked, gone⟩
    obtain ⟨extent, same⟩ := invariant.clean key free
    refine invariant.setExtent free ?_ rfl
    rw [same]
    exact extent

/-- A write of an extent fails in the middle of the recycling only. -/
theorem Invariant.whole (running : system.pc ≠ .idle) :
    system.failed = none := by
  cases gone : system.failed with
  | none => rfl
  | some key => exact absurd (invariant.failed key gone).1 running

theorem Invariant.others (locked : system.pc.locked = some key)
    {other : ExtentKey} (different : other ≠ key) : Clean compression system other := by
  refine invariant.clean other ?_
  rintro (also | gone)
  · exact different (Option.some.inj (also.symm.trans locked))
  · have running : system.pc ≠ .idle := by
      intro idle
      rw [idle] at locked
      cases locked
    cases (invariant.whole running).symm.trans gone

end

variable {rnode : RelFileNode} {extentNumber : Nat} {header : CfsExtentHeader} {chunk : Nat → Chunk}
  {written : Nat}

theorem invariant_between (clean : ∀ key, Clean compression system key)
    (here : system.pc = .between rnode extentNumber) (compressed : rnode.opt ≠ 0)
    (whole : system.failed = none) (quiet : system.Quiet) : Invariant compression system where
  clean key _ := clean key
  atPc := by rw [here]; exact compressed
  quiet _ _ := quiet
  failed key gone := by cases whole.symm.trans gone

theorem invariant_locked {pc : RecyclePc Chunk} (here : system.pc = pc) (locked : pc.locked = some key)
    (whole : system.failed = none) (others : ∀ other, other ≠ key → Clean compression system other)
    (atPc : AtPc compression system pc) (quiet : ¬ Saved pc → system.Quiet) : Invariant compression system where
  clean other free := others other fun self => free (Or.inl (by rw [here, locked, self]))
  atPc := here ▸ atPc
  quiet _ unsaved := quiet (here ▸ unsaved)
  failed other gone := by cases whole.symm.trans gone

theorem sortOut_restores (clean : Clean compression system key) (present : (system.extent key).present) :
    Restores (compression key.rnode) (system.extent key)
      (sortOut (compression key.rnode) (system.extent key)) :=
  ⟨present, rfl, clean.invariant.sortedOut present⟩

/-- The hole lies behind the chunks handed out. -/
theorem punchHole_kept {compression : PageCompression Page Chunk} {chunkno : Nat}
    (handedOut : chunkno ≤ header.allocatedChunks) :
    punchHole compression header chunk chunkno = chunk chunkno := by
  unfold punchHole
  split_ifs
  · exact PageCompression.fileAllocate_apart
      (le_trans (Nat.mul_le_mul_right _ handedOut) (PageCompression.le_alignUp _))
  · rfl

theorem Invariant.nextExtent (invariant : Invariant compression system)
    (here : system.pc = .between rnode extentNumber) :
    Invariant compression (system.advance compression readInfo) := by
  have whole := invariant.whole (by rw [here]; nofun)
  have compressed : rnode.opt ≠ 0 := by
    have held := invariant.atPc
    rwa [here] at held
  have quiet := invariant.quiet whole (by rw [here]; exact id)
  have clean : ∀ key, Clean compression system key := by
    refine fun key => invariant.clean key ?_
    rintro (locked | gone)
    · rw [here] at locked
      cases locked
    · cases whole.symm.trans gone
  unfold RecycleSystem.advance
  rw [here]
  dsimp only
  by_cases present : (system.extent ⟨rnode, extentNumber⟩).present = false
  · rw [if_pos present]
    exact invariant
  rw [if_neg present]
  by_cases ordered : (system.extent ⟨rnode, extentNumber⟩).header.recycleInOrder
  · rw [if_pos ordered]
    exact invariant_between (fun key => (clean key).congr rfl rfl) rfl compressed whole quiet
  · rw [if_neg ordered]
    refine invariant_locked rfl rfl whole (fun other _ => (clean other).congr rfl rfl) ?_ fun _ => quiet
    have restores := sortOut_restores (clean ⟨rnode, extentNumber⟩) (by simpa using present)
    refine ⟨compressed, (clean _).congr rfl rfl, ?_, restores⟩
    show (system.disk _).recycleInOrder = false
    rw [(clean ⟨rnode, extentNumber⟩).same]
    simpa using ordered

theorem Invariant.advance (invariant : Invariant compression system)
    (careful : Careful compression readInfo system .advance) :
    Invariant compression (system.advance compression readInfo) := by
  cases here : system.pc with
  | idle =>
    unfold RecycleSystem.advance
    rw [here]
    exact invariant
  | between rnode extentNumber => exact invariant.nextExtent here
  | sorted key image =>
    have whole := invariant.whole (by rw [here]; nofun)
    have others := fun other different => @Invariant.others _ _ _ _ key invariant
        (by rw [here]; rfl) other different
    have held := invariant.atPc
    rw [here] at held
    unfold RecycleSystem.advance
    rw [here]
    refine invariant_locked rfl rfl whole (fun other different => (others other different).congr rfl rfl) ?_
      fun unsaved => absurd trivial unsaved
    exact ⟨Before.congr held rfl rfl, rfl⟩
  | assisted key image =>
    have whole := invariant.whole (by rw [here]; nofun)
    have others := fun other different => @Invariant.others _ _ _ _ key invariant
        (by rw [here]; rfl) other different
    have held := invariant.atPc
    rw [here] at held
    obtain ⟨before, assist⟩ := held
    unfold RecycleSystem.advance
    rw [here]
    obtain ⟨extentEq, diskEq⟩ := @setExtent_self _ _ system key { system.extent key with chunk := image.chunk }
      image.header
    refine invariant_locked rfl rfl whole ?_ ?_ fun unsaved => absurd trivial unsaved
    · intro other different
      obtain ⟨extentEq, diskEq⟩ := @setExtent_other _ _ system key other
        { system.extent key with chunk := image.chunk } image.header different
      exact (others other different).congr extentEq diskEq
    · refine ⟨⟨before.compressed, ?_, (congrArg (·.chunk) extentEq :), diskEq⟩, assist⟩
      refine extentEq.symm ▸ ⟨before.restores.present, before.restores.inOrder, before.restores.invariant⟩
  | moved key image =>
    have whole := invariant.whole (by rw [here]; nofun)
    have others := fun other different => @Invariant.others _ _ _ _ key invariant
        (by rw [here]; rfl) other different
    have held := invariant.atPc
    rw [here] at held
    obtain ⟨written, assist⟩ := held
    have dead : ¬ (readInfo (firstPage (compression key.rnode) image)).Live := by
      have condition := careful
      unfold Careful at condition
      rwa [here] at condition
    unfold RecycleSystem.advance
    rw [here]
    refine invariant_locked rfl rfl whole (fun other different => (others other different).congr rfl rfl)
      (After.congr written rfl rfl) ?_
    intro _ file has
    dsimp only at has
    rw [assist] at has
    obtain rfl := Option.some.inj has
    exact dead
  | cleared key image =>
    have whole := invariant.whole (by rw [here]; nofun)
    have others := fun other different => @Invariant.others _ _ _ _ key invariant
        (by rw [here]; rfl) other different
    have quiet := invariant.quiet whole (by rw [here]; exact id)
    have written : After compression system key image := by
      have held := invariant.atPc
      rwa [here] at held
    unfold RecycleSystem.advance
    rw [here]
    dsimp only
    refine invariant_between (fun other => ?_) rfl written.compressed whole quiet
    by_cases self : other = key
    · subst self
      obtain ⟨extentEq, diskEq⟩ := @setExtent_self _ _ system other
        { system.extent other with
          header := system.disk other
          chunk := punchHole (compression other.rnode) image.header (system.extent other).chunk }
            (system.disk other)
      refine ⟨extentEq.symm ▸ ?_, diskEq.trans (congrArg (·.header) extentEq).symm⟩
      rw [written.disk, written.chunk]
      exact written.restores.invariant.congrChunks fun chunkno handedOut => punchHole_kept handedOut
    · obtain ⟨extentEq, diskEq⟩ := @setExtent_other _ _ system key other
        { system.extent key with
          header := system.disk key
          chunk := punchHole (compression key.rnode) image.header (system.extent key).chunk }
            (system.disk key) self
      exact (others other self).congr extentEq diskEq

theorem tornHeader_unordered {torn old new : CfsExtentHeader} (unordered : old.recycleInOrder = false)
    (short : written ≤ dataBytes + inOrderOffset) :
      (tornHeader written torn old new).recycleInOrder = false := by
  unfold tornHeader
  split_ifs <;> exact unordered

/-- A state after a failed write of the extent. -/
theorem invariant_failed {disk : CfsExtentHeader} (before : Before compression system key image)
    (assist : system.assist = some ⟨image, key.info⟩)
    (others : ∀ other, other ≠ key → Clean compression system other)
    (unordered : disk.recycleInOrder = false) :
    Invariant compression { system.setExtent key { system.extent key with chunk } disk with
      pc := .idle
      failed := some key } := by
  obtain ⟨extentEq, diskEq⟩ := @setExtent_self _ _ system key { system.extent key with chunk } disk
  refine ⟨?_, trivial, nofun, ?_⟩
  · intro other free
    have different : other ≠ key := fun self => free (Or.inr (congrArg some self.symm))
    obtain ⟨extentEq, diskEq⟩ := @setExtent_other _ _ system key other
        { system.extent key with chunk } disk different
    exact (others other different).congr extentEq diskEq
  · intro other gone
    obtain rfl : key = other := Option.some.inj gone
    refine ⟨rfl, before.compressed, (congrArg (·.recycleInOrder) diskEq).trans unordered, image, assist, ?_⟩
    exact extentEq.symm ▸ ⟨before.restores.present, before.restores.inOrder, before.restores.invariant⟩

theorem Invariant.fail (invariant : Invariant compression system) {chunk : Chunk}
    (short : written ≤ dataBytes + inOrderOffset) :
    Invariant compression (system.fail compression written chunk header) := by
  unfold RecycleSystem.fail
  split
  · rename_i key image here
    split_ifs
    · have others := fun other different =>
        @Invariant.others _ _ _ _ key invariant (by rw [here]; rfl) other different
      have held := invariant.atPc
      rw [here] at held
      exact invariant_failed held.1 held.2 others (tornHeader_unordered held.1.unordered short)
    · exact invariant
  · exact invariant

theorem Invariant.step (invariant : Invariant compression system) (event : RecycleEvent Page Chunk)
    (careful : Careful compression readInfo system event) :
    Invariant compression (step compression readInfo system event) := by
  cases event with
  | page key event =>
    simp only [RecycleSystem.step]
    split_ifs with ready
    · exact invariant.pageOperation (not_or.mpr ⟨ready.1, careful⟩) ready.2
    · exact invariant
  | evict key =>
    simp only [RecycleSystem.step]
    split_ifs with unlocked
    · exact invariant.evict unlocked
    · exact invariant
  | start rnode =>
    simp only [RecycleSystem.step]
    split
    · rename_i idle
      split_ifs with ready
      · refine invariant_between (fun key => ?_) rfl ready.1 ready.2
          (invariant.quiet ready.2 (by rw [idle]; exact id))
        refine (invariant.clean key ?_).congr rfl rfl
        rintro (locked | gone)
        · rw [idle] at locked
          cases locked
        · cases ready.2.symm.trans gone
      · exact invariant
    · exact invariant
  | advance => exact invariant.advance careful
  | finish =>
    simp only [RecycleSystem.step]
    split
    · rename_i rnode extentNumber here
      have whole := invariant.whole (by rw [here]; nofun)
      refine invariant_of_clean (fun key => ?_) rfl rfl whole
      refine (invariant.clean key ?_).congr rfl rfl
      rintro (locked | gone)
      · rw [here] at locked
        cases locked
      · cases whole.symm.trans gone
    · exact invariant
  | fail written chunk header => exact invariant.fail careful
  | crash => exact invariant.restart.1

/-- A crash in this state is survived: the restart leaves alone every extent but the one that was being
recycled, and every block reads as the page last written to it. -/
structure Survives (compression : RelFileNode → PageCompression Page Chunk)
    (system : RecycleSystem Page Chunk) :
    Prop where
  spared : ∀ key, ¬ system.Recycling key →
    system.restart.extent key = { system.extent key with header := system.disk key }
  reads : ∀ key block, (compression key.rnode).readPage (system.restart.extent key) block =
    (system.extent key).written block

theorem recycling_survives (compression : RelFileNode → PageCompression Page Chunk)
    (readInfo : List Chunk → CfsExtInfo) (events : List (RecycleEvent Page Chunk))
    (careful : Along (step compression readInfo) (Careful compression readInfo) (init compression) events) :
    Survives compression (run (step compression readInfo) (init compression) events) := by
  have invariant := run_invariant_along (Invariant compression)
    (fun _ event allowed invariant => invariant.step event allowed) careful init_invariant
  obtain ⟨-, restarted⟩ := invariant.restart
  refine ⟨fun key => (restarted key).2.2, fun key block => ?_⟩
  obtain ⟨clean, written, -⟩ := restarted key
  rw [clean.invariant.read, written]

/-- No page is taken for the information page. -/
private def deadInfo : List Nat → CfsExtInfo := fun _ => ⟨{}, mainForknum, 0, 0⟩

/-- The write of the sorted extent fails before its first byte, and nothing is written to the extent after. -/
theorem recycling_survives_assisted : Survives (fun _ => PageCompression.halving)
      (run (step (fun _ => PageCompression.halving) deadInfo) (init fun _ => PageCompression.halving)
        [.page ⟨{ opt := 1 }, 0⟩ (.extend 0 (some 5)), .start { opt := 1 }, .advance, .advance,
        .fail 0 0 {}]) :=
  recycling_survives (fun _ => PageCompression.halving) deadInfo _
    ⟨nofun, trivial, trivial, trivial, Nat.zero_le _, trivial⟩

/-- A page is written after the write of the sorted extent failed, and the restart brings back the page before
it from the assist file. -/
theorem recycling_not_survives : ¬ ∀ events : List (RecycleEvent Nat Nat),
    Survives (fun _ => PageCompression.halving)
      (run (step (fun _ => PageCompression.halving) deadInfo)
      (init fun _ => PageCompression.halving) events) := by
  intro all
  have reads := (all [.page ⟨{ opt := 1 }, 0⟩ (.extend 0 (some 5)), .start { opt := 1 }, .advance, .advance,
    .fail 0 0 {}, .page ⟨{ opt := 1 }, 0⟩ (.write 0 6)]).reads ⟨{ opt := 1 }, 0⟩ 0
  exact absurd reads (by decide)

end RecycleSystem

end OpenGauss.Cfs
