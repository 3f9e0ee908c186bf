import OpenGauss.Lib.Run

/-! One extent of a compressed relation: the header with the addresses of its 128 blocks, and the
chunks of its data area. -/

namespace OpenGauss.Cfs

def blcksz : Nat := 8192

def cfsLogicBlocksPerExtent : Nat := 128

def minFallocateSize : Nat := 4096

universe u v

/-- The compression of a relation: its options, the compressed form of a page cut into chunks with the
last one filled up, and the page itself cut into chunks. -/
structure PageCompression (Page : Type u) (Chunk : Type v) where
  chunkSize : Nat
  compressPreallocChunks : Nat
  zero : Chunk
  pack : Page → List Chunk
  unpack : List Chunk → Option Page
  split : Page → List Chunk
  join : List Chunk → Page
  chunkSize_mem : chunkSize ∈ [blcksz / 2, blcksz / 4, blcksz / 8, blcksz / 16]
  prealloc_lt : compressPreallocChunks < blcksz / chunkSize
  pack_ne_nil : ∀ page, pack page ≠ []
  unpack_pack : ∀ page, unpack (pack page) = some page
  split_length : ∀ page, (split page).length = blcksz / chunkSize
  join_split : ∀ page, join (split page) = page

/-- The address of a block: the chunks in use, and the numbers of those allocated for it. -/
structure CfsExtentAddress where
  nchunks : Nat := 0
  chunknos : List Nat := []
  deriving DecidableEq, Repr

structure CfsExtentHeader where
  nblocks : Nat := 0
  allocatedChunks : Nat := 0
  recycleInOrder : Bool := false
  address : Nat → CfsExtentAddress := fun _ => {}

namespace CfsExtentHeader

variable (header : CfsExtentHeader)

def chunknosBelow (blocks : Nat) : List Nat :=
  (List.range blocks).flatMap fun block => (header.address block).chunknos

def recorded : List Nat := header.chunknosBelow cfsLogicBlocksPerExtent

def maxChunk (blocks : Nat) : Nat := (header.chunknosBelow blocks).foldl max 0

def extendChunksOfBlock (block needChunks actualUse : Nat) : CfsExtentHeader :=
  let address := header.address block
  if address.chunknos.length < needChunks then
    let allocateNumber := needChunks - address.chunknos.length
    { header with
      recycleInOrder := false
      allocatedChunks := header.allocatedChunks + allocateNumber
      address := Function.update header.address block
        { nchunks := actualUse
          chunknos := address.chunknos ++ List.range' (header.allocatedChunks + 1) allocateNumber } }
  else
    { header with address := Function.update header.address block { address with nchunks := actualUse } }

end CfsExtentHeader

/-- The extent with its data area; `written` is the page last written to a block since it was last
truncated. -/
structure CfsExtent (Page : Type u) (Chunk : Type v) where
  /-- The file reaches over the extent. -/
  present : Bool := false
  header : CfsExtentHeader := {}
  chunk : Nat → Chunk
  written : Nat → Option Page := fun _ => none

def writeChunks {Chunk : Type v} (chunk : Nat → Chunk) : List Nat → List Chunk → Nat → Chunk
  | chunkno :: chunknos, data :: rest => writeChunks (Function.update chunk chunkno data) chunknos rest
  | _, _ => chunk

inductive CfsEvent (Page : Type u) where
  /-- `CfsExtendExtent`, with a page or with an empty one. -/
  | extend (block : Nat) (page : Option Page)
  | write (block : Nat) (page : Page)
  | truncate (block : Nat)
  | recycle
  | recover
  deriving Repr

namespace PageCompression

variable {Page : Type u} {Chunk : Type v} (compression : PageCompression Page Chunk)

def chunksPerBlock : Nat := blcksz / compression.chunkSize

def maxLogicChunks : Nat := cfsLogicBlocksPerExtent * compression.chunksPerBlock

/-- `CfsCompressPage`: the page itself when nothing is saved. -/
def compressPage (page : Page) : List Chunk :=
  if compression.chunksPerBlock ≤ (compression.pack page).length then compression.split page
  else compression.pack page

def decompressPage (chunks : List Chunk) : Option Page :=
  if chunks.length = compression.chunksPerBlock then some (compression.join chunks)
  else compression.unpack chunks

/-- `FileAllocate`, which punches a hole, in bytes from the start of the extent. -/
def fileAllocate (start size : Nat) (chunk : Nat → Chunk) : Nat → Chunk := fun chunkno =>
  if start < chunkno * compression.chunkSize ∧ (chunkno - 1) * compression.chunkSize < start + size then
    compression.zero
  else chunk chunkno

variable (extent : CfsExtent Page Chunk)

/-- `InitExtentHeader`, with the hole that is punched after it. -/
def initExtent : CfsExtent Page Chunk :=
  { extent with
    present := true
    header := {}
    chunk := compression.fileAllocate 0 (cfsLogicBlocksPerExtent * blcksz) extent.chunk }

/-- `CfsReadPage`; nothing where the block has no chunks. -/
def readPage (block : Nat) : Option Page :=
  let address := extent.header.address block
  if extent.present = false ∨ address.nchunks = 0 then none
  else compression.decompressPage ((address.chunknos.take address.nchunks).map extent.chunk)

/-- `CfsWritePage` of a page that is not empty. -/
def writePage (block : Nat) (page : Page) : CfsExtent Page Chunk :=
  let data := compression.compressPage page
  let needChunks :=
    if data.length < compression.compressPreallocChunks then compression.compressPreallocChunks else data.length
  let header := extent.header.extendChunksOfBlock block needChunks data.length
  { extent with
    header
    chunk := writeChunks extent.chunk (header.address block).chunknos data
    written := Function.update extent.written block (some page) }

def extendExtent (block : Nat) (page : Option Page) : CfsExtent Page Chunk :=
  let extent := if block = 0 then compression.initExtent extent else extent
  let extent := match page with
    | none => extent
    | some page => compression.writePage extent block page
  { extent with header := { extent.header with nblocks := max extent.header.nblocks (block + 1) } }

/-- `CfsMdTruncate`, with the file cut by its caller. -/
def mdTruncate (block : Nat) : CfsExtent Page Chunk :=
  let written := fun other => if block ≤ other then none else extent.written other
  if block = 0 then { extent with present := false, chunk := fun _ => compression.zero, written }
  else
    let address := fun other =>
      if block ≤ other then { extent.header.address other with nchunks := 0 } else extent.header.address other
    let start := extent.header.maxChunk block * compression.chunkSize
    let len := compression.maxLogicChunks * compression.chunkSize - start
    { extent with
      header := { extent.header with nblocks := block, address }
      chunk :=
        if minFallocateSize ≤ len then
          compression.fileAllocate (start + len % minFallocateSize) (len - len % minFallocateSize) extent.chunk
        else extent.chunk
      written }

structure Assist (Chunk : Type v) where
  chunknum : Nat
  address : Nat → CfsExtentAddress
  chunk : Nat → Chunk

def sortOutBlock (assist : Assist Chunk) (block : Nat) : Assist Chunk :=
  let source := extent.header.address block
  let chunknos := List.range' (assist.chunknum + 1) source.nchunks
  { chunknum := assist.chunknum + source.nchunks
    address := Function.update assist.address block { nchunks := source.nchunks, chunknos }
    chunk := writeChunks assist.chunk chunknos ((source.chunknos.take source.nchunks).map extent.chunk) }

def sortOutChunk (blocks : Nat) : Assist Chunk :=
  (List.range blocks).foldl (sortOutBlock extent)
    { chunknum := 0, address := fun _ => {}, chunk := fun _ => compression.zero }

/-- `CfsRecycleChunkInExt`, with the hole of `CfsPunchHole`. -/
def recycleChunk : CfsExtent Page Chunk :=
  if extent.header.recycleInOrder then extent
  else
    let assist := compression.sortOutChunk extent extent.header.nblocks
    let punchOffset := (assist.chunknum * compression.chunkSize + (minFallocateSize - 1)) / minFallocateSize *
      minFallocateSize
    let punchSize := cfsLogicBlocksPerExtent * blcksz - punchOffset
    { extent with
      header :=
        { nblocks := extent.header.nblocks
          allocatedChunks := assist.chunknum
          recycleInOrder := true
          address := assist.address }
      chunk := if punchSize ≠ 0 then compression.fileAllocate punchOffset punchSize assist.chunk
        else assist.chunk }

def recoveryPcaPage : CfsExtent Page Chunk :=
  { extent with
    header := { extent.header with allocatedChunks := extent.header.maxChunk extent.header.nblocks } }

/-- An extent begins with its first block, blocks that exist are written and truncated, and only an
extent that exists is recycled or corrected. -/
def step : CfsEvent Page → CfsExtent Page Chunk
  | .extend block page =>
    if block < cfsLogicBlocksPerExtent ∧ (block = 0 ↔ extent.present = false) then
      compression.extendExtent extent block page
    else extent
  | .write block page =>
    if extent.present ∧ block < extent.header.nblocks then compression.writePage extent block page else extent
  | .truncate block =>
    if extent.present ∧ block < extent.header.nblocks then compression.mdTruncate extent block else extent
  | .recycle => if extent.present then compression.recycleChunk extent else extent
  | .recover => if extent.present then recoveryPcaPage extent else extent

def init : CfsExtent Page Chunk := { chunk := fun _ => compression.zero }

end PageCompression

theorem flatMap_update_perm {items : List Nat} {share share' : Nat → List Nat} {item : Nat} {extra : List Nat}
    (inside : item ∈ items) (nodup : items.Nodup) (here : share' item = share item ++ extra)
    (elsewhere : ∀ other, other ≠ item → share' other = share other) :
    (items.flatMap share').Perm (items.flatMap share ++ extra) := by
  induction items with
  | nil => cases inside
  | cons head rest ih =>
    obtain ⟨fresh, tail⟩ := List.nodup_cons.mp nodup
    rw [List.flatMap_cons, List.flatMap_cons]
    by_cases same : head = item
    · subst same
      have others : rest.flatMap share' = rest.flatMap share := by
        refine List.flatMap_congr fun other member => elsewhere other ?_
        rintro rfl
        exact fresh member
      rw [here, others, List.append_assoc, List.append_assoc]
      exact List.Perm.append_left _ List.perm_append_comm
    · rw [elsewhere head same, List.append_assoc]
      exact (ih ((List.mem_cons.mp inside).resolve_left fun eq => same eq.symm) tail).append_left _

theorem le_foldl_max (numbers : List Nat) (start : Nat) :
    start ≤ numbers.foldl max start ∧ ∀ number ∈ numbers, number ≤ numbers.foldl max start := by
  induction numbers generalizing start with
  | nil => exact ⟨le_rfl, nofun⟩
  | cons head rest ih =>
    obtain ⟨base, each⟩ := ih (max start head)
    refine ⟨le_trans (le_max_left _ _) base, ?_⟩
    intro number inside
    rcases List.mem_cons.mp inside with rfl | later
    · exact le_trans (le_max_right _ _) base
    · exact each number later

theorem foldl_max_le {numbers : List Nat} {start bound : Nat} (low : start ≤ bound)
    (each : ∀ number ∈ numbers, number ≤ bound) : numbers.foldl max start ≤ bound := by
  induction numbers generalizing start with
  | nil => exact low
  | cons head rest ih =>
    exact ih (max_le low (each head (by simp))) fun number inside => each number (by simp [inside])

namespace CfsExtentHeader

theorem mem_chunknosBelow {header : CfsExtentHeader} {blocks chunkno : Nat} :
    chunkno ∈ header.chunknosBelow blocks ↔ ∃ block, block < blocks ∧
      chunkno ∈ (header.address block).chunknos := by
  simp [chunknosBelow]

theorem le_maxChunk {header : CfsExtentHeader} {blocks block chunkno : Nat} (below : block < blocks)
    (inside : chunkno ∈ (header.address block).chunknos) : chunkno ≤ header.maxChunk blocks :=
  (le_foldl_max _ 0).2 chunkno (mem_chunknosBelow.mpr ⟨block, below, inside⟩)

theorem chunknosBelow_succ (header : CfsExtentHeader) (blocks : Nat) :
    header.chunknosBelow (blocks + 1) = header.chunknosBelow blocks ++ (header.address blocks).chunknos := by
  simp [chunknosBelow, List.range_succ]

theorem chunknosBelow_congr {header header' : CfsExtentHeader} {blocks : Nat}
    (same : ∀ block, block < blocks → (header'.address block).chunknos = (header.address block).chunknos) :
    header'.chunknosBelow blocks = header.chunknosBelow blocks :=
  List.flatMap_congr fun block inside => same block (List.mem_range.mp inside)

/-- The recorded chunk numbers are `1, …, allocated_chunks`, each once. -/
def Counted (header : CfsExtentHeader) : Prop := header.recorded.Perm (List.range' 1 header.allocatedChunks)

theorem counted_empty : ({} : CfsExtentHeader).Counted := by
  have absent : ({} : CfsExtentHeader).recorded = [] := List.flatMap_eq_nil_iff.mpr fun _ _ => rfl
  unfold Counted
  rw [absent]
  exact List.Perm.refl []

namespace Counted

variable {header : CfsExtentHeader} {block other chunkno : Nat}

section

variable (counted : header.Counted)

include counted

theorem mem : chunkno ∈ header.recorded ↔ 1 ≤ chunkno ∧ chunkno ≤ header.allocatedChunks := by
  rw [counted.mem_iff, List.mem_range'_1]
  omega

theorem nodup : header.recorded.Nodup :=
  counted.nodup_iff.mpr List.nodup_range'

theorem length : header.recorded.length = header.allocatedChunks := by
  rw [counted.length_eq, List.length_range']

theorem disjoint (first : block < cfsLogicBlocksPerExtent)
    (second : other < cfsLogicBlocksPerExtent) (different : block ≠ other)
    (inside : chunkno ∈ (header.address block).chunknos) : chunkno ∉ (header.address other).chunknos := by
  have pairs := (List.nodup_flatMap.mp counted.nodup).2
  have apart := (List.pairwise_iff_getElem.mp pairs)
  intro also
  rcases lt_or_gt_of_ne different with less | more
  · have := apart block other (by simpa using first) (by simpa using second) less
    simp only [List.getElem_range, Function.onFun] at this
    exact this inside also
  · have := apart other block (by simpa using second) (by simpa using first) more
    simp only [List.getElem_range, Function.onFun] at this
    exact this also inside

theorem block_nodup (inside : block < cfsLogicBlocksPerExtent) : (header.address block).chunknos.Nodup :=
  (List.nodup_flatMap.mp counted.nodup).1 block (List.mem_range.mpr inside)

/-- `ExtendChunksOfBlockCore` hands out the next numbers. -/
theorem extend (inside : block < cfsLogicBlocksPerExtent) (need use : Nat) :
    (header.extendChunksOfBlock block need use).Counted := by
  unfold Counted extendChunksOfBlock
  dsimp only
  split_ifs with missing
  · generalize fresh : List.range' (header.allocatedChunks + 1)
      (need - (header.address block).chunknos.length) = extra
    have handedOut : (List.range' 1 header.allocatedChunks ++ extra) =
        List.range' 1 (header.allocatedChunks + (need - (header.address block).chunknos.length)) := by
      rw [← List.range'_append_1, ← fresh, Nat.add_comm 1]
    have before :
        ((List.range cfsLogicBlocksPerExtent).flatMap fun other =>
        (header.address other).chunknos).Perm
        (List.range' 1 header.allocatedChunks) := counted
    show List.Perm (List.flatMap _ _) (List.range' 1 (header.allocatedChunks + _))
    rw [← handedOut]
    refine (flatMap_update_perm (List.mem_range.mpr inside) List.nodup_range ?_ ?_).trans
      (List.Perm.append_right extra before)
    · dsimp only
      rw [Function.update_self]
    · intro other different
      dsimp only
      rw [Function.update_of_ne different]
  · show (CfsExtentHeader.chunknosBelow _ _).Perm _
    rw [chunknosBelow_congr]
    · exact counted
    · intro other _
      dsimp only
      by_cases same : other = block
      · rw [same, Function.update_self]
      · rw [Function.update_of_ne same]

end

end Counted

end CfsExtentHeader

section Chunks

variable {Chunk : Type v} {chunk : Nat → Chunk} {chunknos : List Nat} {data : List Chunk}

theorem writeChunks_apart {chunkno : Nat} (apart : chunkno ∉ chunknos) :
    writeChunks chunk chunknos data chunkno = chunk chunkno := by
  induction chunknos generalizing chunk data with
  | nil => rfl
  | cons head rest ih =>
    cases data with
    | nil => rfl
    | cons value values =>
      obtain ⟨different, later⟩ := not_or.mp (mt List.mem_cons.mpr apart)
      rw [writeChunks, ih later, Function.update_of_ne different]

theorem map_writeChunks (nodup : chunknos.Nodup) (enough : data.length ≤ chunknos.length) :
    (chunknos.take data.length).map (writeChunks chunk chunknos data) = data := by
  induction chunknos generalizing chunk data with
  | nil => simpa using enough
  | cons head rest ih =>
    obtain ⟨fresh, tail⟩ := List.nodup_cons.mp nodup
    cases data with
    | nil => rfl
    | cons value values =>
      rw [List.length_cons, List.take_succ_cons, List.map_cons, writeChunks, writeChunks_apart fresh,
        Function.update_self]
      rw [ih tail (by simpa using enough)]

end Chunks

end OpenGauss.Cfs
