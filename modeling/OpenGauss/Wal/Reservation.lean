import OpenGauss.Lib.Run

/-! Positions in the write-ahead log. A usable byte position counts the bytes of records only; a
record pointer counts the page headers too. -/

namespace OpenGauss.Wal

def xlogBlcksz : Nat := 8192

def sizeOfXLogShortPHD : Nat := 24

/-- `SizeOfXLogLongPHD`, on the first page of a segment. -/
def sizeOfXLogLongPHD : Nat := 40

def sizeOfXLogRecord : Nat := 32

def usableBytesInPage : Nat := xlogBlcksz - sizeOfXLogShortPHD

/-- `XLogSegmentSize` in pages: 16 MB, or 1 GB on shared storage. -/
structure XLogSegment where
  pages : Nat
  known : pages = 2048 ∨ pages = 131072

namespace XLogSegment

variable (segment : XLogSegment)

def size : Nat := segment.pages * xlogBlcksz

def usableBytes : Nat :=
  segment.pages * usableBytesInPage - (sizeOfXLogLongPHD - sizeOfXLogShortPHD)

def bytePosToRecPtr (bytepos : Nat) : Nat :=
  let fullsegs := bytepos / segment.usableBytes
  let bytesleft := bytepos % segment.usableBytes
  if bytesleft < xlogBlcksz - sizeOfXLogLongPHD then
    fullsegs * segment.size + (bytesleft + sizeOfXLogLongPHD)
  else
    let bytesleft := bytesleft - (xlogBlcksz - sizeOfXLogLongPHD)
    let fullpages := bytesleft / usableBytesInPage
    let bytesleft := bytesleft % usableBytesInPage
    fullsegs * segment.size + (xlogBlcksz + (fullpages * xlogBlcksz + bytesleft + sizeOfXLogShortPHD))

/-- `XLogBytePosToEndRecPtr`: at a page boundary, before the header of the page. -/
def bytePosToEndRecPtr (bytepos : Nat) : Nat :=
  let fullsegs := bytepos / segment.usableBytes
  let bytesleft := bytepos % segment.usableBytes
  if bytesleft < xlogBlcksz - sizeOfXLogLongPHD then
    if bytesleft = 0 then fullsegs * segment.size
    else fullsegs * segment.size + (bytesleft + sizeOfXLogLongPHD)
  else
    let bytesleft := bytesleft - (xlogBlcksz - sizeOfXLogLongPHD)
    let fullpages := bytesleft / usableBytesInPage
    let bytesleft := bytesleft % usableBytesInPage
    if bytesleft = 0 then fullsegs * segment.size + (xlogBlcksz + fullpages * xlogBlcksz)
    else fullsegs * segment.size + (xlogBlcksz + (fullpages * xlogBlcksz + bytesleft + sizeOfXLogShortPHD))

def recPtrToBytePos (ptr : Nat) : Nat :=
  let fullsegs := ptr / segment.size
  let fullpages := ptr % segment.size / xlogBlcksz
  let offset := ptr % xlogBlcksz
  if fullpages = 0 then
    fullsegs * segment.usableBytes + (if offset > 0 then offset - sizeOfXLogLongPHD else 0)
  else
    fullsegs * segment.usableBytes + (xlogBlcksz - sizeOfXLogLongPHD) + (fullpages - 1) * usableBytesInPage +
      (if offset > 0 then offset - sizeOfXLogShortPHD else 0)

variable {segment}

theorem usableBytes_pos : 0 < segment.usableBytes := by
  rcases segment.known with pages | pages <;>
    simp [usableBytes, pages, usableBytesInPage, xlogBlcksz, sizeOfXLogLongPHD, sizeOfXLogShortPHD]

theorem size_pos : 0 < segment.size := by
  rcases segment.known with pages | pages <;> simp [size, pages, xlogBlcksz]

theorem sizes : segment.usableBytes = 16728048 ∧ segment.size = 16777216 ∨
    segment.usableBytes = 1070596080 ∧ segment.size = 1073741824 := by
  rcases segment.known with pages | pages
  · left
    rw [usableBytes, size, pages]
    exact ⟨rfl, rfl⟩
  · right
    rw [usableBytes, size, pages]
    exact ⟨rfl, rfl⟩

variable (bytepos : Nat)

/-- An end pointer is in the segment of its byte position, and at the segment's start only when the
byte position is. -/
theorem endRecPtr_spec :
    ∃ offset, segment.bytePosToEndRecPtr bytepos = bytepos / segment.usableBytes * segment.size + offset ∧
      offset < segment.size ∧ (offset = 0 ↔ bytepos % segment.usableBytes = 0) := by
  have bound := Nat.mod_lt bytepos (@usableBytes_pos segment)
  unfold bytePosToEndRecPtr usableBytesInPage xlogBlcksz sizeOfXLogLongPHD sizeOfXLogShortPHD
  simp only
  generalize bytepos % segment.usableBytes = left at bound ⊢
  generalize bytepos / segment.usableBytes = segs
  have sizes := segment.sizes
  split_ifs with firstPage boundary boundary
  · exact ⟨0, by omega, by omega, by omega⟩
  · exact ⟨left + 40, rfl, by omega, by omega⟩
  · exact ⟨8192 + (left - (8192 - 40)) / (8192 - 24) * 8192, rfl, by omega, by omega⟩
  · exact ⟨_, rfl, by omega, by omega⟩

theorem endRecPtr_mod :
    segment.bytePosToEndRecPtr bytepos % segment.size = 0 ↔ bytepos % segment.usableBytes = 0 := by
  obtain ⟨offset, same, bound, zero⟩ := @endRecPtr_spec segment bytepos
  rw [same, Nat.add_comm, Nat.add_mul_mod_self_right, Nat.mod_eq_of_lt bound, zero]

theorem recPtrToBytePos_segment (segno : Nat) :
    segment.recPtrToBytePos (segno * segment.size) = segno * segment.usableBytes := by
  have aligned : segno * segment.size % xlogBlcksz = 0 := by
    rw [size, ← Nat.mul_assoc]
    exact Nat.mul_mod_left ..
  simp [recPtrToBytePos, Nat.mul_div_cancel segno size_pos, aligned]

theorem endRecPtr_roundUp : segment.bytePosToEndRecPtr bytepos +
        (segment.size - segment.bytePosToEndRecPtr bytepos % segment.size) =
      (bytepos / segment.usableBytes + 1) * segment.size := by
  obtain ⟨offset, same, bound, -⟩ := @endRecPtr_spec segment bytepos
  rw [same, Nat.add_comm _ offset, Nat.add_mul_mod_self_right, Nat.mod_eq_of_lt bound, Nat.succ_mul]
  omega

theorem recPtrToBytePos_spec (ptr : Nat) : segment.recPtrToBytePos ptr ≤ segment.recPtrToBytePos (ptr + 1) ∧
    segment.recPtrToBytePos (segment.bytePosToRecPtr bytepos) = bytepos ∧
    segment.recPtrToBytePos (segment.bytePosToEndRecPtr bytepos) = bytepos ∧
    segment.bytePosToEndRecPtr bytepos ≤ segment.bytePosToRecPtr bytepos := by
  unfold recPtrToBytePos bytePosToRecPtr bytePosToEndRecPtr usableBytesInPage xlogBlcksz sizeOfXLogLongPHD
    sizeOfXLogShortPHD
  rcases segment.sizes with ⟨usable, size⟩ | ⟨usable, size⟩ <;> rw [usable, size] <;> dsimp only <;>
    refine ⟨?_, ?_, ?_, ?_⟩ <;> split_ifs <;> omega

theorem strictMono_of_back {pointer : Nat → Nat} (back : Function.LeftInverse segment.recPtrToBytePos pointer) :
    StrictMono pointer := by
  have mono : Monotone segment.recPtrToBytePos := monotone_nat_of_le_succ fun ptr =>
      (recPtrToBytePos_spec 0 ptr).1
  intro first second less
  apply mono.reflect_lt
  rwa [back first, back second]

/-- Both pointers keep the order of the byte positions and lead back to them. -/
theorem bytePos_pointers (segment : XLogSegment) :
    StrictMono segment.bytePosToRecPtr ∧ StrictMono segment.bytePosToEndRecPtr ∧
      Function.LeftInverse segment.recPtrToBytePos segment.bytePosToRecPtr ∧
      Function.LeftInverse segment.recPtrToBytePos segment.bytePosToEndRecPtr := by
  have back (bytepos : Nat) := (@recPtrToBytePos_spec segment bytepos 0).2.1
  have ends (bytepos : Nat) := (@recPtrToBytePos_spec segment bytepos 0).2.2.1
  exact ⟨strictMono_of_back back, strictMono_of_back ends, back, ends⟩

end XLogSegment

/-- The 16 bytes of `XLogCtlInsert` that are exchanged at once. -/
structure InsertWord where
  currentBytePos : Nat
  byteSize : Nat
  lrc : Int
  deriving DecidableEq, Repr

def walCopySuspend : Int := -1

def nextLrc (lrc : Int) : Int := (lrc + 1) % 2147483648

def alignedSize (totLen : Nat) : Nat := (totLen + 7) / 8 * 8 % 4294967296

structure WalRecord where
  start : Nat
  stop : Nat
  prev : Nat
  deriving DecidableEq, Repr

namespace WalRecord

variable (segment : XLogSegment) (record : WalRecord)

def startPos : Nat := segment.bytePosToRecPtr record.start

def endPos : Nat := segment.bytePosToEndRecPtr record.stop

def xlPrev : Nat := segment.bytePosToRecPtr record.prev

end WalRecord

/-- One successful exchange: the range, its records, the counter its inserter got, and the counters it
has used up. -/
structure Reservation where
  start : Nat
  stop : Nat
  records : List WalRecord
  lrc : Int
  counters : List Int
  deriving DecidableEq, Repr

def handOut (start prev : Nat) : List Nat → List WalRecord
  | [] => []
  | size :: rest => { start, stop := start + size, prev } :: handOut (start + size) start rest

def InsertWord.reserve (word : InsertWord) (size lastRecordSize : Nat) : InsertWord where
  currentBytePos := word.currentBytePos + size
  byteSize := lastRecordSize
  lrc := nextLrc word.lrc

/-- The end of the range that `ReserveXLogSwitch` reserves, with the rest of the segment. -/
def switchEnd (segment : XLogSegment) (startbytepos size : Nat) : Nat :=
  let endPos := segment.bytePosToEndRecPtr (startbytepos + size)
  let segleft := segment.size - endPos % segment.size
  if segleft ≠ segment.size then segment.recPtrToBytePos (endPos + segleft) else startbytepos + size

def InsertWord.reserveSwitch (segment : XLogSegment) (word : InsertWord) (size : Nat) : InsertWord :=
  let endbytepos := switchEnd segment word.currentBytePos size
  { currentBytePos := endbytepos
    byteSize := (endbytepos - word.currentBytePos) % 4294967296
    lrc := word.lrc }

inductive InsertPc where
  | idle
  /-- In the loop of a reservation for records of these sizes, with the word last seen. -/
  | reserving (sizes : List Nat) (compare : InsertWord)
  | suspending (compare : InsertWord)
  | waiting (lrc : Int)
  /-- In the loop of `ReserveXLogSwitch`, which keeps its `size` from one turn to the next. -/
  | switching (lrc : Int) (compare : InsertWord) (size : Nat)
  /-- In `CopyXLogRecordToWAL`, about to report the page that ends at `currPos`. -/
  | copying (lrc : Int) (currPos endPos : Nat)
  | stopping (lrc : Int)
  deriving DecidableEq, Repr

structure WalSystem where
  word : InsertWord
  pc : Nat → InsertPc := fun _ => .idle
  reserved : List Reservation := []

inductive InsertEvent where
  | single (backend totLen : Nat)
  | group (backend : Nat) (totLens : List Nat)
  | logSwitch (backend : Nat)
  | advance (backend : Nat)
  deriving Repr

namespace WalSystem

variable (segment : XLogSegment)

variable (system : WalSystem)

variable (backend : Nat)

def setPc (pc : InsertPc) : WalSystem :=
  { system with pc := Function.update system.pc backend pc }

def tryReserve (sizes : List Nat) (compare : InsertWord) : WalSystem :=
  if compare.lrc = walCopySuspend then system.setPc backend (.reserving sizes system.word)
  else if system.word = compare then
    { system.setPc backend .idle with
      word := compare.reserve sizes.sum (sizes.getLastD 0)
      reserved :=
        { start := compare.currentBytePos
          stop := compare.currentBytePos + sizes.sum
          records := handOut compare.currentBytePos (compare.currentBytePos - compare.byteSize) sizes
          lrc := compare.lrc
          counters := [compare.lrc] } :: system.reserved }
  else system.setPc backend (.reserving sizes system.word)

def trySuspend (compare : InsertWord) : WalSystem :=
  if compare.lrc = walCopySuspend then system.setPc backend (.suspending system.word)
  else if system.word = compare then
    { system.setPc backend (.waiting compare.lrc) with word := { compare with lrc := walCopySuspend } }
  else system.setPc backend (.suspending system.word)

/-- Where `CopyXLogRecordToWAL` goes on after the switch record itself. -/
def afterSwitch (lrc : Int) (startbytepos size endbytepos : Nat) : InsertPc :=
  let currPos := segment.bytePosToEndRecPtr (startbytepos + size)
  if currPos % segment.size = 0 then .stopping lrc
  else .copying lrc (currPos + (xlogBlcksz - currPos % xlogBlcksz) % xlogBlcksz)
    (segment.bytePosToEndRecPtr endbytepos)

def trySwitch (lrc : Int) (compare : InsertWord) (size : Nat) :
    WalSystem :=
  if segment.bytePosToEndRecPtr compare.currentBytePos % segment.size = 0 then
    system.setPc backend (.stopping lrc)
  else
    let exchange := compare.reserveSwitch segment size
    if system.word = compare then
      { system.setPc backend
          (afterSwitch segment lrc compare.currentBytePos sizeOfXLogRecord exchange.currentBytePos) with
        word := exchange
        reserved :=
          { start := compare.currentBytePos
            stop := exchange.currentBytePos
            records := [{ start := compare.currentBytePos, stop := exchange.currentBytePos
                          prev := compare.currentBytePos - compare.byteSize }]
            lrc
            counters := [] } :: system.reserved }
    else system.setPc backend (.switching lrc system.word exchange.byteSize)

/-- The switch in progress uses up one more counter. -/
def count (lrc : Int) : List Reservation → List Reservation
  | [] => []
  | newest :: older => { newest with counters := newest.counters ++ [lrc] } :: older

def copyPage (lrc : Int) (currPos endPos : Nat) : WalSystem :=
  if currPos ≤ endPos then
    { system.setPc backend (.copying (nextLrc lrc) (currPos + xlogBlcksz) endPos) with
      reserved := count lrc system.reserved }
  else system.setPc backend (.stopping lrc)

def advance : WalSystem :=
  match system.pc backend with
  | .idle => system
  | .reserving sizes compare => system.tryReserve backend sizes compare
  | .suspending compare => system.trySuspend backend compare
  | .waiting lrc => system.setPc backend (.switching lrc system.word sizeOfXLogRecord)
  | .switching lrc compare size => system.trySwitch segment backend lrc compare size
  | .copying lrc currPos endPos => system.copyPage backend lrc currPos endPos
  | .stopping lrc => { system.setPc backend .idle with word := { system.word with lrc } }

/-- A backend starts with a load of the word. A group reserves less than 2^32 bytes. -/
def step : InsertEvent → WalSystem
  | .single backend totLen =>
    if system.pc backend = .idle then
      system.setPc backend (.reserving [alignedSize totLen] system.word)
    else system
  | .group backend totLens =>
    if system.pc backend = .idle ∧ totLens ≠ [] ∧ (totLens.map alignedSize).sum < 4294967296 then
      system.setPc backend (.reserving (totLens.map alignedSize) system.word)
    else system
  | .logSwitch backend =>
    if system.pc backend = .idle then system.setPc backend (.suspending system.word) else system
  | .advance backend => system.advance segment backend

/-- After startup: the end of the log, the size of its last record, and counter 0. -/
def init (endOfLog lastSize : Nat) : WalSystem :=
  { word := { currentBytePos := endOfLog, byteSize := lastSize, lrc := 0 } }

end WalSystem

end OpenGauss.Wal
