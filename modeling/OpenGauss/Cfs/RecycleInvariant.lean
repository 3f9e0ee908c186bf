import OpenGauss.Cfs.RecycleSystem

namespace OpenGauss.Cfs

universe u v

/-- The information written with the sorted extent. -/
def ExtentKey.info (key : ExtentKey) : CfsExtInfo := ⟨key.rnode, mainForknum, key.extentNumber, 1⟩

/-- The image of an extent has every page of it. -/
structure Restores {Page : Type u} {Chunk : Type v} (compression : PageCompression Page Chunk)
    (extent : CfsExtent Page Chunk) (image : ExtentImage Chunk) : Prop where
  present : extent.present
  inOrder : image.header.recycleInOrder
  invariant : compression.Invariant { extent with header := image.header, chunk := image.chunk }

namespace RecycleSystem

variable {Page : Type u} {Chunk : Type v} {compression : RelFileNode → PageCompression Page Chunk}
  {readInfo : List Chunk → CfsExtInfo} {system : RecycleSystem Page Chunk} {key other : ExtentKey}
  {image : ExtentImage Chunk} {file : AssistFile Chunk}

/-- The extent that is being recycled, or was when its write failed. -/
def Recycling (system : RecycleSystem Page Chunk) (key : ExtentKey) : Prop :=
  system.pc.locked = some key ∨ system.failed = some key

/-- Cached and stored headers agree and the pages are in place. -/
structure Clean (compression : RelFileNode → PageCompression Page Chunk) (system : RecycleSystem Page Chunk)
    (key : ExtentKey) : Prop where
  invariant : (compression key.rnode).Invariant (system.extent key)
  same : system.disk key = (system.extent key).header

/-- The assist file asks for nothing. -/
def Quiet (system : RecycleSystem Page Chunk) : Prop := ∀ file, system.assist = some file → ¬ file.info.Live

structure Before (compression : RelFileNode → PageCompression Page Chunk) (system : RecycleSystem Page Chunk)
    (key : ExtentKey) (image : ExtentImage Chunk) : Prop where
  compressed : key.rnode.opt ≠ 0
  clean : Clean compression system key
  unordered : (system.disk key).recycleInOrder = false
  restores : Restores (compression key.rnode) (system.extent key) image

structure After (compression : RelFileNode → PageCompression Page Chunk) (system : RecycleSystem Page Chunk)
    (key : ExtentKey) (image : ExtentImage Chunk) : Prop where
  compressed : key.rnode.opt ≠ 0
  restores : Restores (compression key.rnode) (system.extent key) image
  chunk : (system.extent key).chunk = image.chunk
  disk : system.disk key = image.header

def AtPc (compression : RelFileNode → PageCompression Page Chunk) (system : RecycleSystem Page Chunk) :
    RecyclePc Chunk → Prop
  | .idle => True
  | .between rnode _ => rnode.opt ≠ 0
  | .sorted key image => Before compression system key image
  | .assisted key image => Before compression system key image ∧ system.assist = some ⟨image, key.info⟩
  | .moved key image => After compression system key image ∧ system.assist = some ⟨image, key.info⟩
  | .cleared key image => After compression system key image

/-- The assist file is for the extent at hand. -/
def Saved : RecyclePc Chunk → Prop
  | .assisted _ _ | .moved _ _ => True
  | _ => False

structure Invariant (compression : RelFileNode → PageCompression Page Chunk)
    (system : RecycleSystem Page Chunk) :
    Prop where
  clean : ∀ key, ¬ system.Recycling key → Clean compression system key
  atPc : AtPc compression system system.pc
  quiet : system.failed = none → ¬ Saved system.pc → system.Quiet
  failed : ∀ key, system.failed = some key → system.pc = .idle ∧ key.rnode.opt ≠ 0 ∧
    (system.disk key).recycleInOrder = false ∧
    ∃ image, system.assist = some ⟨image, key.info⟩ ∧ Restores (compression key.rnode) (system.extent key) image

theorem init_invariant : Invariant compression (init compression) where
  clean _ _ := ⟨PageCompression.init_invariant, rfl⟩
  atPc := trivial
  quiet _ _ := nofun
  failed _ := nofun

variable (extent : CfsExtent Page Chunk) (disk : CfsExtentHeader)

@[simp] theorem setExtent_self :
    (system.setExtent key extent disk).extent key = extent ∧
      (system.setExtent key extent disk).disk key = disk :=
  ⟨Function.update_self .., Function.update_self ..⟩

theorem setExtent_other (different : other ≠ key) :
    (system.setExtent key extent disk).extent other = system.extent other ∧
      (system.setExtent key extent disk).disk other = system.disk other :=
  ⟨Function.update_of_ne different _ _, Function.update_of_ne different _ _⟩

section

variable {after : RecycleSystem Page Chunk}

/-- Only the extent and its headers are looked at. -/
theorem Clean.congr (clean : Clean compression system key)
    (extent : after.extent key = system.extent key) (disk : after.disk key = system.disk key) :
    Clean compression after key :=
  ⟨extent ▸ clean.invariant, by rw [extent, disk, clean.same]⟩

theorem Before.congr (before : Before compression system key image)
    (extent : after.extent key = system.extent key) (disk : after.disk key = system.disk key) :
    Before compression after key image :=
  ⟨before.compressed, before.clean.congr extent disk, disk ▸ before.unordered, extent ▸ before.restores⟩

theorem After.congr (written : After compression system key image)
    (extent : after.extent key = system.extent key) (disk : after.disk key = system.disk key) :
    After compression after key image :=
  ⟨written.compressed, extent ▸ written.restores, extent ▸ written.chunk, disk ▸ written.disk⟩

theorem AtPc.congr {pc : RecyclePc Chunk} (held : AtPc compression system pc)
    (frame : ∀ key, pc.locked = some key → after.extent key = system.extent key ∧
      after.disk key = system.disk key)
    (assist : after.assist = system.assist) : AtPc compression after pc := by
  cases pc with
  | idle => trivial
  | between => exact held
  | sorted key image => exact Before.congr held (frame key rfl).1 (frame key rfl).2
  | assisted key image => exact ⟨held.1.congr (frame key rfl).1 (frame key rfl).2, assist.trans held.2⟩
  | moved key image => exact ⟨held.1.congr (frame key rfl).1 (frame key rfl).2, assist.trans held.2⟩
  | cleared key image => exact After.congr held (frame key rfl).1 (frame key rfl).2

end

/-- An operation on an extent that nobody is recycling. -/
theorem Invariant.setExtent (invariant : Invariant compression system) {extent : CfsExtent Page Chunk}
    {disk : CfsExtentHeader} (unlocked : ¬ system.Recycling key)
    (kept : (compression key.rnode).Invariant extent) (same : disk = extent.header) :
    Invariant compression (system.setExtent key extent disk) := by
  have frame : ∀ other, system.Recycling other →
      (system.setExtent key extent disk).extent other = system.extent other ∧
        (system.setExtent key extent disk).disk other = system.disk other := by
    intro other recycling
    refine setExtent_other extent disk ?_
    rintro rfl
    exact unlocked recycling
  refine ⟨?_, ?_, invariant.quiet, ?_⟩
  · intro other free
    by_cases self : other = key
    · subst self
      obtain ⟨extentEq, diskEq⟩ := @setExtent_self _ _ system other extent disk
      exact ⟨extentEq.symm ▸ kept, by rw [diskEq, extentEq, same]⟩
    · obtain ⟨extentEq, diskEq⟩ := @setExtent_other _ _ system key other extent disk self
      exact (invariant.clean other free).congr extentEq diskEq
  · exact invariant.atPc.congr (fun other locked => frame other (Or.inl locked)) rfl
  · intro other gone
    obtain ⟨idle, compressed, unordered, image, assist, restores⟩ := invariant.failed other gone
    obtain ⟨extentEq, diskEq⟩ := frame other (Or.inr gone)
    exact ⟨idle, compressed, diskEq ▸ unordered, image, assist, extentEq ▸ restores⟩

theorem smgrAssistFileProcess_quiet (quiet : ¬ file.info.Live) : system.smgrAssistFileProcess file =
    system := by
  unfold smgrAssistFileProcess
  by_cases compressed : file.info.rnode.opt ≠ 0 ∧ file.info.forknum = mainForknum
  · rw [if_neg (not_not.mpr compressed), if_pos]
    exact not_not.mp fun flag => quiet ⟨compressed, flag⟩
  · rw [if_pos compressed]

theorem smgrAssistFileProcess_live (compressed : key.rnode.opt ≠ 0) (present : (system.extent key).present) :
    system.smgrAssistFileProcess ⟨image, key.info⟩ = if (system.extent key).header.recycleInOrder then system
      else system.setExtent key { system.extent key with header := image.header, chunk := image.chunk }
        image.header := by
  unfold smgrAssistFileProcess
  rw [if_neg (not_not.mpr ⟨compressed, rfl⟩), if_neg (show key.info.assistFlag ≠ 0 from Nat.one_ne_zero)]
  unfold mdAssistFileProcess
  exact if_neg (by simpa [ExtentKey.info] using present)

/-- At a crash no extent needs the assist file, or one does and the file is for it. -/
theorem Invariant.assist_cases (invariant : Invariant compression system) :
    (system.Quiet ∧ ∀ key, (compression key.rnode).Invariant
      { system.extent key with header := system.disk key }) ∨
    ∃ key image, system.Recycling key ∧ key.rnode.opt ≠ 0 ∧ system.assist = some ⟨image, key.info⟩ ∧
      Restores (compression key.rnode) (system.extent key) image ∧
      (∀ other, other ≠ key → Clean compression system other) ∧
      ((system.disk key).recycleInOrder →
        system.disk key = image.header ∧ (system.extent key).chunk = image.chunk) := by
  have settled : ∀ key, Clean compression system key →
      (compression key.rnode).Invariant { system.extent key with header := system.disk key } :=
    fun key clean => by rw [clean.same]; exact clean.invariant
  cases gone : system.failed with
  | some key =>
    obtain ⟨idle, compressed, unordered, image, assist, restores⟩ := invariant.failed key gone
    refine Or.inr ⟨key, image, Or.inr gone, compressed, assist, restores, ?_, ?_⟩
    · intro other different
      refine invariant.clean other ?_
      rintro (locked | also)
      · rw [idle] at locked
        cases locked
      · exact different (Option.some.inj (also.symm.trans gone))
    · intro ordered
      cases unordered.symm.trans ordered
  | none =>
    have atPc := invariant.atPc
    have quiet := invariant.quiet gone
    have others : ∀ other, system.pc.locked ≠ some other → Clean compression system other := by
      intro other free
      refine invariant.clean other ?_
      rintro (locked | also)
      · exact free locked
      · cases gone.symm.trans also
    cases here : system.pc with
    | idle =>
      rw [here] at quiet others
      exact Or.inl ⟨quiet nofun, fun key => settled key (others key nofun)⟩
    | between rnode extentNumber =>
      rw [here] at quiet others
      exact Or.inl ⟨quiet nofun, fun key => settled key (others key nofun)⟩
    | sorted key image =>
      rw [here] at atPc quiet others
      refine Or.inl ⟨quiet nofun, fun other => settled other ?_⟩
      by_cases self : other = key
      · exact self ▸ atPc.clean
      · exact others other fun locked => self (Option.some.inj locked).symm
    | cleared key image =>
      rw [here] at atPc quiet others
      refine Or.inl ⟨quiet nofun, fun other => ?_⟩
      by_cases self : other = key
      · subst self
        have invariant := atPc.restores.invariant
        rwa [← atPc.chunk, ← atPc.disk] at invariant
      · exact settled other (others other fun locked => self (Option.some.inj locked).symm)
    | assisted key image =>
      rw [here] at atPc others
      obtain ⟨before, assist⟩ := atPc
      refine Or.inr ⟨key, image, Or.inl (by rw [here]; rfl), before.compressed, assist, before.restores, ?_, ?_⟩
      · exact fun other different => others other fun locked => different (Option.some.inj locked).symm
      · intro ordered
        cases before.unordered.symm.trans ordered
    | moved key image =>
      rw [here] at atPc others
      obtain ⟨written, assist⟩ := atPc
      refine Or.inr ⟨key, image, Or.inl (by rw [here]; rfl), written.compressed, assist,
        written.restores, ?_, ?_⟩
      · exact fun other different => others other fun locked => different (Option.some.inj locked).symm
      · exact fun _ => ⟨written.disk, written.chunk⟩

theorem invariant_of_clean (clean : ∀ key, Clean compression system key) (idle : system.pc = .idle)
    (removed : system.assist = none) (whole : system.failed = none) : Invariant compression system where
  clean key _ := clean key
  atPc := by rw [idle]; trivial
  quiet _ _ file has := by cases removed.symm.trans has
  failed key gone := by cases whole.symm.trans gone

/-- A restart leaves every page in place and changes the extent that was being recycled at most. -/
theorem Invariant.restart (invariant : Invariant compression system) :
    Invariant compression system.restart ∧ ∀ key, Clean compression system.restart key ∧
      (system.restart.extent key).written = (system.extent key).written ∧
      (¬ system.Recycling key → system.restart.extent key =
      { system.extent key with header := system.disk key }) := by
  rcases invariant.assist_cases with ⟨quiet, kept⟩ | ⟨key, image, recycling, compressed, assist,
    restores, others, ordered⟩
  · have reloaded : system.restart = { system.reload with assist := none } := by
      unfold RecycleSystem.restart
      cases has : system.assist with
      | none =>
        dsimp only
        rw [← has]
        rfl
      | some file =>
        dsimp only
        rw [smgrAssistFileProcess_quiet (quiet file has)]
    rw [reloaded]
    have clean : ∀ key, Clean compression { system.reload with assist := none } key := fun key =>
        ⟨kept key, rfl⟩
    exact ⟨invariant_of_clean clean rfl rfl rfl, fun key => ⟨clean key, rfl, fun _ => rfl⟩⟩
  · have settled : ∀ other, other ≠ key → (compression other.rnode).Invariant (system.reload.extent other) := by
      intro other different
      show (compression other.rnode).Invariant { system.extent other with header := system.disk other }
      rw [(others other different).same]
      exact (others other different).invariant
    have processed : system.restart = { system.reload.smgrAssistFileProcess ⟨image, key.info⟩
        with assist := none } := by
      unfold RecycleSystem.restart
      rw [assist]
    have present : (system.reload.extent key).present := restores.present
    rw [smgrAssistFileProcess_live compressed present] at processed
    rw [processed]
    split_ifs with inOrder
    · obtain ⟨disk, chunk⟩ := ordered inOrder
      have clean : ∀ other, Clean compression { system.reload with assist := none } other := by
        refine fun other => ⟨?_, rfl⟩
        by_cases self : other = key
        · subst self
          have whole := restores.invariant
          rwa [← chunk, ← disk] at whole
        · exact settled other self
      exact ⟨invariant_of_clean clean rfl rfl rfl, fun other => ⟨clean other, rfl, fun _ => rfl⟩⟩
    · obtain ⟨extentEq, diskEq⟩ := @setExtent_self _ _ system.reload key
        { system.reload.extent key with header := image.header, chunk := image.chunk } image.header
      have frame := fun other different => @setExtent_other _ _ system.reload key other
        { system.reload.extent key with header := image.header, chunk := image.chunk } image.header different
      have idle : (system.reload.setExtent key
        { system.reload.extent key with header := image.header, chunk := image.chunk }
        image.header).pc = .idle := rfl
      have whole : (system.reload.setExtent key
        { system.reload.extent key with header := image.header, chunk := image.chunk }
        image.header).failed = none := rfl
      generalize system.reload.setExtent key _ image.header = after at extentEq diskEq frame idle whole ⊢
      have clean : ∀ other, Clean compression after other := by
        intro other
        by_cases self : other = key
        · subst self
          exact ⟨extentEq.symm ▸ restores.invariant, diskEq.trans (congrArg (·.header) extentEq).symm⟩
        · exact Clean.congr ⟨settled other self, rfl⟩ (frame other self).1 (frame other self).2
      refine ⟨invariant_of_clean (fun other => (clean other).congr rfl rfl) idle rfl whole, fun other => ?_⟩
      refine ⟨(clean other).congr rfl rfl, ?_⟩
      by_cases self : other = key
      · subst self
        exact ⟨(congrArg (·.written) extentEq :), fun free => absurd recycling free⟩
      · exact ⟨(congrArg (·.written) (frame other self).1 :), fun _ => (frame other self).1⟩

end RecycleSystem

end OpenGauss.Cfs
