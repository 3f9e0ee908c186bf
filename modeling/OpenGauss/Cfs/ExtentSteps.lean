import OpenGauss.Cfs.ExtentInvariant

namespace OpenGauss.Cfs

universe u v

namespace PageCompression

variable {Page : Type u} {Chunk : Type v} {compression : PageCompression Page Chunk}

theorem compressPage_length (page : Page) :
    0 < (compression.compressPage page).length ∧ (compression.compressPage page).length ≤
      compression.chunksPerBlock := by
  have most : 0 < compression.chunksPerBlock := lt_of_le_of_lt (Nat.zero_le _) compression.prealloc_lt
  unfold compressPage
  split_ifs with full
  · rw [compression.split_length]
    exact ⟨most, le_rfl⟩
  · exact ⟨List.length_pos_iff.mpr (compression.pack_ne_nil page), (not_le.mp full).le⟩

theorem decompress_compress (page : Page) :
    compression.decompressPage (compression.compressPage page) = some page := by
  unfold decompressPage compressPage
  by_cases full : compression.chunksPerBlock ≤ (compression.pack page).length
  · have whole : (compression.split page).length = compression.chunksPerBlock := compression.split_length page
    rw [if_pos full, if_pos whole, compression.join_split]
  · rw [if_neg full, if_neg (by omega), compression.unpack_pack]

theorem fileAllocate_apart {start size chunkno : Nat} {chunk : Nat → Chunk}
    (before : chunkno * compression.chunkSize ≤ start) :
      compression.fileAllocate start size chunk chunkno = chunk chunkno :=
  if_neg fun both => absurd both.1 (not_lt.mpr before)

/-- What holds of an extent between operations. -/
structure Invariant (compression : PageCompression Page Chunk) (extent : CfsExtent Page Chunk) : Prop where
  counted : extent.header.Counted
  fits : ∀ block, (extent.header.address block).nchunks ≤ (extent.header.address block).chunknos.length ∧
    (extent.header.address block).chunknos.length ≤ compression.chunksPerBlock
  few : extent.header.nblocks ≤ cfsLogicBlocksPerExtent
  beyond : ∀ block, extent.header.nblocks ≤ block → (extent.header.address block).nchunks = 0
  held : extent.present → ∀ block page, extent.written block = some page → block < extent.header.nblocks ∧
    (extent.header.address block).nchunks = (compression.compressPage page).length ∧
    ((extent.header.address block).chunknos.take (extent.header.address block).nchunks).map extent.chunk =
      compression.compressPage page
  empty : extent.present → ∀ block, extent.written block = none → (extent.header.address block).nchunks = 0
  absent : extent.present = false → ∀ block, extent.written block = none

theorem init_invariant : compression.Invariant compression.init := by
  exact ⟨CfsExtentHeader.counted_empty, fun _ => ⟨le_rfl, Nat.zero_le _⟩, Nat.zero_le _,
    fun _ _ => rfl, nofun, nofun,
    fun _ _ => rfl⟩

variable {extent : CfsExtent Page Chunk}

section

variable (invariant : compression.Invariant extent)

include invariant

/-- No more chunks are handed out than the data area has. -/
theorem Invariant.bounded : extent.header.allocatedChunks ≤ compression.maxLogicChunks := by
  rw [← invariant.counted.length, CfsExtentHeader.recorded, CfsExtentHeader.chunknosBelow, List.length_flatMap]
  have each := List.sum_le_card_nsmul
    ((List.range cfsLogicBlocksPerExtent).map fun block => (extent.header.address block).chunknos.length)
    compression.chunksPerBlock ?_
  · simpa [maxLogicChunks] using each
  · intro length inside
    obtain ⟨block, -, rfl⟩ := List.mem_map.mp inside
    exact (invariant.fits block).2

/-- A block below the end reads as the page last written to it. -/
theorem Invariant.read (block : Nat) : compression.readPage extent block = extent.written block := by
  unfold readPage
  dsimp only
  by_cases present : extent.present
  · cases written : extent.written block with
    | none => rw [if_pos (Or.inr (invariant.empty present block written))]
    | some page =>
      obtain ⟨-, count, data⟩ := invariant.held present block page written
      rw [if_neg, data, decompress_compress]
      rintro (missing | absent)
      · rw [present] at missing
        cases missing
      · exact absurd (count.symm.trans absent) (Nat.pos_iff_ne_zero.mp (compressPage_length page).1)
  · rw [if_pos (Or.inl (by simpa using present)), invariant.absent (by simpa using present) block]

theorem Invariant.initExtent (gone : extent.present = false) :
    compression.Invariant (compression.initExtent extent) := by
  refine ⟨CfsExtentHeader.counted_empty, fun _ => ⟨le_rfl, Nat.zero_le _⟩, Nat.zero_le _, fun _ _ => rfl, ?_,
    fun _ _ _ => rfl, nofun⟩
  intro _ block page written
  have absent : extent.written block = none := invariant.absent gone block
  cases absent.symm.trans written

theorem Invariant.writePage {block nblocks : Nat} (page : Page)
    (present : extent.present) (grows : extent.header.nblocks ≤ nblocks) (covers : block < nblocks)
    (few : nblocks ≤ cfsLogicBlocksPerExtent) :
    compression.Invariant { compression.writePage extent block page with
      header := { (compression.writePage extent block page).header with nblocks } } := by
  obtain ⟨given, most⟩ := compression.compressPage_length page
  generalize dataEq : compression.compressPage page = data at given most
  have written : compression.writePage extent block page =
      let header := extent.header.extendChunksOfBlock block
        (if data.length < compression.compressPreallocChunks then compression.compressPreallocChunks
        else data.length)
        data.length
      { extent with
        header
        chunk := writeChunks extent.chunk (header.address block).chunknos data
        written := Function.update extent.written block (.some page) } := by
    rw [← dataEq]
    rfl
  have needs : data.length ≤
      (if data.length < compression.compressPreallocChunks then compression.compressPreallocChunks
      else data.length) ∧
      (if data.length < compression.compressPreallocChunks then compression.compressPreallocChunks
      else data.length) ≤
        compression.chunksPerBlock := by
    have := compression.prealloc_lt
    unfold chunksPerBlock at most ⊢
    split_ifs <;> omega
  generalize (if data.length < compression.compressPreallocChunks then compression.compressPreallocChunks
    else data.length) = need at written needs
  have inside : block < cfsLogicBlocksPerExtent := lt_of_lt_of_le covers few
  have counted := invariant.counted.extend inside need data.length
  have elsewhere : ∀ other, other ≠ block →
      (extent.header.extendChunksOfBlock block need data.length).address other =
      extent.header.address other := by
    intro other different
    unfold CfsExtentHeader.extendChunksOfBlock
    dsimp only
    split_ifs
    · exact Function.update_of_ne different _ _
    · exact Function.update_of_ne different _ _
  have here : ((extent.header.extendChunksOfBlock block need data.length).address block).nchunks = data.length ∧
      ((extent.header.extendChunksOfBlock block need data.length).address block).chunknos.length =
        max (extent.header.address block).chunknos.length need := by
    unfold CfsExtentHeader.extendChunksOfBlock
    dsimp only
    split_ifs with missing
    · simp only [Function.update_self, List.length_append, List.length_range', true_and]
      omega
    · simp only [Function.update_self, true_and]
      omega
  rw [written]
  dsimp only
  generalize extent.header.extendChunksOfBlock block need data.length = header at counted elsewhere here
  have used := invariant.fits block
  have kept : ∀ other, other ≠ block → other < cfsLogicBlocksPerExtent →
      ((header.address other).chunknos.take (header.address other).nchunks).map
        (writeChunks extent.chunk (header.address block).chunknos data) =
      ((extent.header.address other).chunknos.take (extent.header.address other).nchunks).map extent.chunk := by
    intro other different low
    rw [elsewhere other different]
    refine List.map_congr_left fun chunkno used => writeChunks_apart ?_
    refine counted.disjoint low inside different ?_
    rw [elsewhere other different]
    exact List.mem_of_mem_take used
  refine ⟨counted, ?_, few, ?_, ?_, ?_, fun gone => absurd (present.symm.trans gone) nofun⟩
  · intro other
    by_cases same : other = block
    · subst same
      dsimp only
      omega
    · show _ ≤ ((header.address other).chunknos).length ∧ _
      rw [elsewhere other same]
      exact invariant.fits other
  · intro other past
    have different : other ≠ block := by
      rintro rfl
      exact absurd covers (not_lt.mpr past)
    show (header.address other).nchunks = 0
    rw [elsewhere other different]
    exact invariant.beyond other (le_trans grows past)
  · intro _ other stored last
    by_cases same : other = block
    · subst same
      obtain rfl : page = stored := by simpa using last
      refine ⟨covers, by rw [dataEq]; exact here.1, ?_⟩
      rw [dataEq]
      show ((header.address other).chunknos.take (header.address other).nchunks).map _ = data
      rw [here.1]
      exact map_writeChunks (counted.block_nodup inside) (by omega)
    · have before : extent.written other = .some stored := by simpa [same] using last
      obtain ⟨low, count, content⟩ := invariant.held present other stored before
      refine ⟨lt_of_lt_of_le low grows, ?_, ?_⟩
      · show (header.address other).nchunks = _
        rw [elsewhere other same]
        exact count
      · exact (kept other same (lt_of_lt_of_le low invariant.few)).trans content
  · intro _ other absent
    have different : other ≠ block := by
      rintro rfl
      simp at absent
    show (header.address other).nchunks = 0
    rw [elsewhere other different]
    exact invariant.empty present other (by simpa [different] using absent)

theorem Invariant.grow {nblocks : Nat}
    (grows : extent.header.nblocks ≤ nblocks) (few : nblocks ≤ cfsLogicBlocksPerExtent) :
    compression.Invariant { extent with header := { extent.header with nblocks } } := by
  refine ⟨invariant.counted, invariant.fits, few, ?_, ?_, invariant.empty, invariant.absent⟩
  · exact fun block past => invariant.beyond block (le_trans grows past)
  · intro present block page written
    obtain ⟨low, rest⟩ := invariant.held present block page written
    exact ⟨lt_of_lt_of_le low grows, rest⟩

theorem Invariant.extendExtent {block : Nat} (page : Option Page)
    (inside : block < cfsLogicBlocksPerExtent) (begins : block = 0 ↔ extent.present = false) :
    compression.Invariant (compression.extendExtent extent block page) := by
  have started : compression.Invariant (if block = 0 then compression.initExtent extent else extent) ∧
      (if block = 0 then compression.initExtent extent else extent).present := by
    split_ifs with first
    · exact ⟨invariant.initExtent (begins.mp first), rfl⟩
    · exact ⟨invariant, by simpa using mt begins.mpr first⟩
  unfold PageCompression.extendExtent
  dsimp only
  generalize (if block = 0 then compression.initExtent extent else extent) = before at started
  have few : max before.header.nblocks (block + 1) ≤ cfsLogicBlocksPerExtent := max_le started.1.few inside
  cases page with
  | none => exact started.1.grow (le_max_left _ _) few
  | some page =>
    have same : (compression.writePage before block page).header.nblocks = before.header.nblocks := by
      unfold PageCompression.writePage CfsExtentHeader.extendChunksOfBlock
      dsimp only
      split_ifs <;> rfl
    have written := started.1.writePage page started.2 (le_max_left _ (block + 1))
      (lt_of_lt_of_le (Nat.lt_succ_self block) (le_max_right _ _)) few
    dsimp only
    rw [same]
    exact written

theorem Invariant.mdTruncate {block : Nat} (present : extent.present)
    (below : block < extent.header.nblocks) : compression.Invariant (compression.mdTruncate extent block) := by
  unfold PageCompression.mdTruncate
  by_cases first : block = 0
  · dsimp only
    rw [if_pos first]
    refine ⟨invariant.counted, invariant.fits, invariant.few, invariant.beyond, nofun, nofun, ?_⟩
    exact fun _ other => if_pos (by omega)
  dsimp only
  rw [if_neg first]
  generalize start_eq : extent.header.maxChunk block * compression.chunkSize = start
  generalize compression.maxLogicChunks * compression.chunkSize - start = len
  have untouched : ∀ other, other < block → ∀ chunkno ∈ (extent.header.address other).chunknos,
      (if minFallocateSize ≤ len then
          compression.fileAllocate (start + len % minFallocateSize) (len - len % minFallocateSize) extent.chunk
        else extent.chunk) chunkno = extent.chunk chunkno := by
    intro other before chunkno used
    split_ifs
    · refine fileAllocate_apart ?_
      have most := CfsExtentHeader.le_maxChunk before used
      rw [← start_eq]
      exact le_trans (Nat.mul_le_mul_right _ most) (Nat.le_add_right _ _)
    · rfl
  generalize (if minFallocateSize ≤ len then
      compression.fileAllocate (start + len % minFallocateSize) (len - len % minFallocateSize) extent.chunk
    else extent.chunk) = chunk at untouched
  have numbers : ∀ other, (if block ≤ other then { extent.header.address other with nchunks := 0 }
      else extent.header.address other).chunknos = (extent.header.address other).chunknos := by
    intro other
    split_ifs <;> rfl
  refine ⟨?_, ?_, (le_of_lt below).trans invariant.few, ?_, ?_, ?_,
    fun gone => absurd (present.symm.trans gone) nofun⟩
  · show (CfsExtentHeader.chunknosBelow _ _).Perm _
    rw [CfsExtentHeader.chunknosBelow_congr fun other _ => numbers other]
    exact invariant.counted
  · intro other
    rw [numbers]
    refine ⟨?_, (invariant.fits other).2⟩
    dsimp only
    split_ifs
    · exact Nat.zero_le _
    · exact (invariant.fits other).1
  · intro other past
    dsimp only at past ⊢
    rw [if_pos past]
  · intro _ other page written
    dsimp only at written ⊢
    split_ifs at written ⊢ with past
    obtain ⟨-, count, data⟩ := invariant.held present other page written
    refine ⟨not_le.mp past, count, ?_⟩
    rw [← data]
    exact List.map_congr_left fun chunkno used => untouched other (not_le.mp past) chunkno
      (List.mem_of_mem_take used)
  · intro _ other absent
    dsimp only at absent ⊢
    split_ifs at absent ⊢ with past
    · rfl
    · exact invariant.empty present other absent

end

/-- After `blocks` turns the chunks of the first blocks follow each other. -/
theorem sortOutChunk_spec (fits : ∀ block, (extent.header.address block).nchunks ≤
      (extent.header.address block).chunknos.length) (blocks : Nat) :
    ((List.range blocks).flatMap fun block =>
        ((compression.sortOutChunk extent blocks).address block).chunknos) =
      List.range' 1 (compression.sortOutChunk extent blocks).chunknum ∧
    (∀ block, blocks ≤ block → (compression.sortOutChunk extent blocks).address block = {}) ∧
    ∀ block, block < blocks →
      ((compression.sortOutChunk extent blocks).address block).nchunks = (extent.header.address block).nchunks ∧
      ((compression.sortOutChunk extent blocks).address block).chunknos.length =
      (extent.header.address block).nchunks ∧
      ((compression.sortOutChunk extent blocks).address block).chunknos.map
      (compression.sortOutChunk extent blocks).chunk =
        ((extent.header.address block).chunknos.take (extent.header.address block).nchunks).map
        extent.chunk := by
  induction blocks with
  | zero => exact ⟨rfl, fun _ _ => rfl, nofun⟩
  | succ blocks ih =>
    obtain ⟨numbers, beyond, sorted⟩ := ih
    have next : compression.sortOutChunk extent (blocks + 1) =
        sortOutBlock extent (compression.sortOutChunk extent blocks) blocks := by
      simp [sortOutChunk, List.range_succ]
    rw [next]
    generalize compression.sortOutChunk extent blocks = assist at numbers beyond sorted
    unfold sortOutBlock
    dsimp only
    generalize source_eq : extent.header.address blocks = source
    have elsewhere : ∀ block, block < blocks → ∀ address : CfsExtentAddress,
        Function.update assist.address blocks address block = assist.address block :=
      fun block below _ => Function.update_of_ne (by omega) _ _
    refine ⟨?_, ?_, ?_⟩
    · rw [List.range_succ, List.flatMap_append, List.flatMap_singleton, Function.update_self]
      rw [List.flatMap_congr fun block inside => by rw [elsewhere block (List.mem_range.mp inside)], numbers,
        Nat.add_comm assist.chunknum 1]
      exact List.range'_append_1 ..
    · intro block past
      rw [Function.update_of_ne (by omega)]
      exact beyond block (by omega)
    · intro block below
      rcases Nat.lt_succ_iff_lt_or_eq.mp below with before | rfl
      · rw [elsewhere block before]
        obtain ⟨count, length, content⟩ := sorted block before
        refine ⟨count, length, ?_⟩
        rw [← content]
        refine List.map_congr_left fun chunkno used => writeChunks_apart ?_
        have recorded : chunkno ∈ List.range' 1 assist.chunknum := by
          rw [← numbers]
          exact List.mem_flatMap.mpr ⟨block, List.mem_range.mpr before, used⟩
        rw [List.mem_range'_1] at recorded ⊢
        omega
      · rw [Function.update_self, source_eq]
        dsimp only
        have enough : source.nchunks ≤ source.chunknos.length := source_eq ▸ fits block
        refine ⟨rfl, List.length_range', ?_⟩
        have written := @map_writeChunks Chunk assist.chunk (List.range' (assist.chunknum + 1) source.nchunks)
          ((source.chunknos.take source.nchunks).map extent.chunk) List.nodup_range' (by simp)
        have whole : ((source.chunknos.take source.nchunks).map extent.chunk).length =
            (List.range' (assist.chunknum + 1) source.nchunks).length := by
          simp [enough]
        rwa [whole, List.take_length] at written

theorem chunknosBelow_beyond {header : CfsExtentHeader} {blocks more : Nat} (atLeast : blocks ≤ more)
    (absent : ∀ block, blocks ≤ block → (header.address block).chunknos = []) :
    header.chunknosBelow more = header.chunknosBelow blocks := by
  induction more, atLeast using Nat.le_induction with
  | base => rfl
  | succ more low ih => rw [CfsExtentHeader.chunknosBelow_succ, ih, absent more low, List.append_nil]

theorem le_alignUp (value : Nat) :
    value ≤ (value + (minFallocateSize - 1)) / minFallocateSize * minFallocateSize := by
  unfold minFallocateSize
  omega

/-- Chunks above those handed out do not matter. -/
theorem Invariant.congrChunks (invariant : compression.Invariant extent) {chunk : Nat → Chunk}
    (same : ∀ chunkno, chunkno ≤ extent.header.allocatedChunks → chunk chunkno = extent.chunk chunkno) :
    compression.Invariant { extent with chunk } := by
  refine ⟨invariant.counted, invariant.fits, invariant.few, invariant.beyond, ?_, invariant.empty,
    invariant.absent⟩
  intro present block page written
  obtain ⟨below, count, data⟩ := invariant.held present block page written
  refine ⟨below, count, ?_⟩
  rw [← data]
  refine List.map_congr_left fun chunkno used => same chunkno (invariant.counted.mem.mp ?_).2
  exact CfsExtentHeader.mem_chunknosBelow.mpr ⟨block, lt_of_lt_of_le below invariant.few,
    List.mem_of_mem_take used⟩

/-- The extent as `CfsSortOutChunk` arranges it. -/
theorem Invariant.sortedOut (invariant : compression.Invariant extent) (present : extent.present) :
    compression.Invariant
      { extent with
        header :=
          { nblocks := extent.header.nblocks
            allocatedChunks := (compression.sortOutChunk extent extent.header.nblocks).chunknum
            recycleInOrder := true
            address := (compression.sortOutChunk extent extent.header.nblocks).address }
        chunk := (compression.sortOutChunk extent extent.header.nblocks).chunk } := by
  obtain ⟨numbers, beyond, sorted⟩ := @sortOutChunk_spec Page Chunk compression extent
    (fun block => (invariant.fits block).1) extent.header.nblocks
  generalize compression.sortOutChunk extent extent.header.nblocks = assist at numbers beyond sorted
  refine ⟨?_, ?_, invariant.few, ?_, ?_, ?_, fun gone => absurd (present.symm.trans gone) nofun⟩
  · show (CfsExtentHeader.chunknosBelow _ _).Perm _
    rw [chunknosBelow_beyond invariant.few fun block past => by dsimp only; rw [beyond block past]]
    exact List.Perm.of_eq numbers
  · intro block
    dsimp only
    by_cases below : block < extent.header.nblocks
    · obtain ⟨count, length, -⟩ := sorted block below
      rw [count, length]
      exact ⟨le_rfl, (invariant.fits block).1.trans (invariant.fits block).2⟩
    · rw [beyond block (not_lt.mp below)]
      exact ⟨le_rfl, Nat.zero_le _⟩
  · intro block past
    dsimp only
    rw [beyond block past]
  · intro _ block page written
    obtain ⟨low, count, data⟩ := invariant.held present block page written
    obtain ⟨sameCount, length, content⟩ := sorted block low
    refine ⟨low, sameCount.trans count, ?_⟩
    dsimp only
    rw [sameCount, ← length, List.take_length, ← data, ← content]
  · intro _ block absent
    dsimp only
    by_cases below : block < extent.header.nblocks
    · rw [(sorted block below).1]
      exact invariant.empty present block absent
    · rw [beyond block (not_lt.mp below)]

theorem Invariant.recycleChunk (invariant : compression.Invariant extent) (present : extent.present) :
    compression.Invariant (compression.recycleChunk extent) := by
  unfold PageCompression.recycleChunk
  by_cases inOrder : extent.header.recycleInOrder
  · rw [if_pos inOrder]
    exact invariant
  rw [if_neg inOrder]
  refine (invariant.sortedOut present).congrChunks fun chunkno handedOut => ?_
  split_ifs
  · exact fileAllocate_apart (le_trans (Nat.mul_le_mul_right _ handedOut) (le_alignUp _))
  · rfl

/-- No block beyond the end keeps a chunk above those of the blocks before it. -/
def Kept (extent : CfsExtent Page Chunk) : CfsEvent Page → Prop
  | .recover => extent.present → ∀ block, extent.header.nblocks ≤ block → block < cfsLogicBlocksPerExtent →
      ∀ chunkno ∈ (extent.header.address block).chunknos, chunkno ≤ extent.header.maxChunk extent.header.nblocks
  | _ => True

theorem Invariant.recoveryPcaPage (invariant : compression.Invariant extent) (present : extent.present)
    (kept : Kept extent .recover) : recoveryPcaPage extent = extent := by
  have most : extent.header.maxChunk extent.header.nblocks ≤ extent.header.allocatedChunks := by
    refine foldl_max_le (Nat.zero_le _) fun chunkno inside => ?_
    obtain ⟨block, below, used⟩ := CfsExtentHeader.mem_chunknosBelow.mp inside
    exact (invariant.counted.mem.mp (CfsExtentHeader.mem_chunknosBelow.mpr
      ⟨block, lt_of_lt_of_le below invariant.few, used⟩)).2
  have least : extent.header.allocatedChunks ≤ extent.header.maxChunk extent.header.nblocks := by
    by_cases zero : extent.header.allocatedChunks = 0
    · omega
    · obtain ⟨block, inside, used⟩ := CfsExtentHeader.mem_chunknosBelow.mp
        (invariant.counted.mem.mpr ⟨Nat.one_le_iff_ne_zero.mpr zero, le_rfl⟩)
      by_cases below : block < extent.header.nblocks
      · exact CfsExtentHeader.le_maxChunk below used
      · exact kept present block (not_lt.mp below) inside _ used
  unfold PageCompression.recoveryPcaPage
  rw [le_antisymm most least]

theorem Invariant.step (invariant : compression.Invariant extent) (event : CfsEvent Page)
    (kept : Kept extent event) :
    compression.Invariant (compression.step extent event) := by
  cases event with
  | extend block page =>
    simp only [PageCompression.step]
    split_ifs with ready
    · exact invariant.extendExtent page ready.1 ready.2
    · exact invariant
  | write block page =>
    simp only [PageCompression.step]
    split_ifs with ready
    · have same : (compression.writePage extent block page).header.nblocks = extent.header.nblocks := by
        unfold PageCompression.writePage CfsExtentHeader.extendChunksOfBlock
        dsimp only
        split_ifs <;> rfl
      have written := invariant.writePage page ready.1 le_rfl ready.2 invariant.few
      rw [← same] at written
      exact written
    · exact invariant
  | truncate block =>
    simp only [PageCompression.step]
    split_ifs with ready
    · exact invariant.mdTruncate ready.1 ready.2
    · exact invariant
  | recycle =>
    simp only [PageCompression.step]
    split_ifs with present
    · exact invariant.recycleChunk present
    · exact invariant
  | recover =>
    simp only [PageCompression.step]
    split_ifs with present
    · rw [invariant.recoveryPcaPage present kept]
      exact invariant
    · exact invariant

end PageCompression

open Lib

def CfsEvent.touches {Page : Type u} : CfsEvent Page → Nat → Prop
  | .extend block _, other | .write block _, other => other = block
  | .truncate block, other => block ≤ other
  | .recycle, _ | .recover, _ => False

namespace PageCompression

variable {Page : Type u} {Chunk : Type v} {compression : PageCompression Page Chunk}
    {extent : CfsExtent Page Chunk}

/-- What a state shows: the recorded chunk numbers are in range, distinct and counted, every block below
the end reads as the page last written to it, and no operation changes what another block reads. -/
structure Sound (compression : PageCompression Page Chunk) (extent : CfsExtent Page Chunk) : Prop where
  ranged : ∀ chunkno ∈ extent.header.recorded, 1 ≤ chunkno ∧ chunkno ≤ compression.maxLogicChunks
  distinct : extent.header.recorded.Nodup
  counted : ∀ chunkno ∈ extent.header.recorded, chunkno ≤ extent.header.allocatedChunks
  reads : ∀ block, block < extent.header.nblocks → compression.readPage extent block = extent.written block
  steady : ∀ event block, ¬ event.touches block →
    compression.readPage (compression.step extent event) block = compression.readPage extent block

/-- Only the pages of the blocks an operation is about change. -/
theorem step_written (event : CfsEvent Page) (block : Nat) (other : ¬ event.touches block) :
    (compression.step extent event).written block = extent.written block := by
  cases event with
  | extend target page =>
    have started : (if target = 0 then compression.initExtent extent else extent).written = extent.written := by
      split_ifs <;> rfl
    simp only [PageCompression.step]
    split_ifs
    · cases page with
      | none => exact congrFun started block
      | some page =>
        have apart : block ≠ target := other
        exact (Function.update_of_ne apart _ _).trans (congrFun started block)
    · rfl
  | write target page =>
    simp only [PageCompression.step]
    split_ifs
    · have apart : block ≠ target := other
      exact Function.update_of_ne apart _ _
    · rfl
  | truncate target =>
    simp only [PageCompression.step, mdTruncate]
    split_ifs
    · exact if_neg other
    · exact if_neg other
    · exact if_neg other
    · rfl
  | recycle =>
    simp only [PageCompression.step, recycleChunk]
    split_ifs <;> rfl
  | recover =>
    simp only [PageCompression.step, recoveryPcaPage]
    split_ifs <;> rfl

theorem Invariant.sound (invariant : compression.Invariant extent) : Sound compression extent := by
  refine ⟨?_, invariant.counted.nodup, ?_, fun block _ => invariant.read block, ?_⟩
  · intro chunkno inside
    obtain ⟨low, high⟩ := invariant.counted.mem.mp inside
    exact ⟨low, high.trans invariant.bounded⟩
  · exact fun chunkno inside => (invariant.counted.mem.mp inside).2
  · intro event block other
    have kept : event ≠ .recover → Kept extent event := by
      intro different
      cases event with
      | recover => exact absurd rfl different
      | _ => trivial
    by_cases correction : event = .recover
    · subst correction
      simp only [PageCompression.step]
      split_ifs <;> rfl
    · rw [(invariant.step event (kept correction)).read, step_written event block other, invariant.read]

theorem run_invariant_kept (events : List (CfsEvent Page))
    (kept : Along compression.step Kept compression.init events) :
    compression.Invariant (run compression.step compression.init events) :=
  run_invariant_along compression.Invariant (fun _ event allowed invariant => invariant.step event allowed) kept
    init_invariant

/-- A run is sound throughout exactly when no recovery correction runs while a block beyond the end keeps a
chunk above those of the blocks before it. -/
theorem compression_sound_iff (compression : PageCompression Page Chunk) (events : List (CfsEvent Page)) :
    (∀ front back, events = front ++ back → Sound compression (run compression.step compression.init front)) ↔
      Along compression.step Kept compression.init events := by
  constructor
  · intro sound
    refine along_iff.mpr ?_
    rintro before event after rfl
    have next := sound (before ++ [event]) after (by simp)
    rw [run_append] at next
    generalize run compression.step compression.init before = extent at next ⊢
    cases event with
    | recover =>
      intro present block _ inside chunkno used
      have counted := next.counted chunkno
      simp only [run_cons, run_nil, PageCompression.step, if_pos present] at counted
      exact counted (CfsExtentHeader.mem_chunknosBelow.mpr ⟨block, inside, used⟩)
    | _ => trivial
  · rintro kept front back rfl
    exact (run_invariant_kept front ((along_append _ _ _ _).mp kept).1).sound

/-- Pages that are compressed to half their size. -/
def halving : PageCompression Nat Nat where
  chunkSize := 4096
  compressPreallocChunks := 0
  zero := 0
  pack page := [page]
  unpack
    | [page] => some page
    | _ => none
  split page := [page, page]
  join chunks := chunks.headD 0
  chunkSize_mem := by decide
  prealloc_lt := by decide
  pack_ne_nil _ := by simp
  unpack_pack _ := rfl
  split_length _ := by simp [blcksz]
  join_split _ := rfl

/-- Block 1 is truncated and keeps chunk 2, the correction counts chunk 1 only, and block 2 gets chunk 2
again: block 1 reads the page of block 2. -/
theorem compression_not_sound : ¬ ∀ events :
    List (CfsEvent Nat), Sound halving (run halving.step halving.init events) := by
  intro all
  have reads := (all [.extend 0 (some 5), .extend 1 (some 6), .truncate 1, .recover, .extend 1 (some 7),
    .extend 2 (some 8)]).reads 1 (by decide)
  exact absurd reads (by decide)

end PageCompression

end OpenGauss.Cfs
