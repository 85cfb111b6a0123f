import EECS339.Lib.ByteFile
import EECS339.Lib.PackedBits
import EECS339.Block

/-!
# The simulated disk

`disksystem.cc`: the configuration, the head model, block reads and writes on the
data file, and the allocation bitmap. File operations succeed and the data file
keeps what is written; `fread` is short only at the end of the file.
-/
namespace BTreeLab
open Words

/-- What the `.config` file stores, the file stem aside. -/
structure DiskConfig where
  offset : SizeT
  numblocks : SizeT
  blocksize : SizeT
  numheads : SizeT
  blockspertrack : SizeT
  numtracks : SizeT
  averageseeklatency : ℚ
  trackseeklatency : ℚ
  rotationallatency : ℚ
  deriving DecidableEq

structure DiskSystem extends DiskConfig where
  machine : Machine
  bitmap : List ByteT
  datafile : ByteFile
  lastTrack : SizeT
  lastSector : SizeT

def sanityCheckConfig (c : DiskConfig) : ErrorT :=
  if c.averageseeklatency ≤ 0 ∨ c.trackseeklatency ≤ 0 ∨ c.rotationallatency ≤ 0 then .badConfig
  else if c.numblocks ≠ c.numheads * c.blockspertrack * c.numtracks then .badConfig
  else .noError

theorem sanityCheckConfig_ok {c : DiskConfig} : sanityCheckConfig c = .noError ↔
    (0 < c.averageseeklatency ∧ 0 < c.trackseeklatency ∧ 0 < c.rotationallatency) ∧
      c.numblocks = c.numheads * c.blockspertrack * c.numtracks := by
  unfold sanityCheckConfig
  split_ifs with latencies geometry
  · simp only [false_iff]
    rintro ⟨⟨average, track, rotational⟩, -⟩
    rcases latencies with bad | bad | bad
    · exact absurd average (not_lt.mpr bad)
    · exact absurd track (not_lt.mpr bad)
    · exact absurd rotational (not_lt.mpr bad)
  · simp only [false_iff]
    exact fun h => geometry h.2
  · simp only [not_or, not_le] at latencies
    exact ⟨fun _ => ⟨latencies, not_not.mp geometry⟩, fun _ => rfl⟩

/-! ## File access -/

/-- The loop of `mywrite` with `left` bytes to go; `fwrite` sends what it is given. -/
def mywriteFrom (f : ByteFile) (off : SizeT) (buf : List ByteT) (left : Nat) : Nat × ByteFile :=
  if left = 0 then (buf.length - left, f)
  else
    let chunk := buf.drop (buf.length - left)
    if _hsent : chunk.length = 0 then (buf.length - left, f)
    else mywriteFrom (f.write (off.toNat + (buf.length - left)) chunk) off buf (left - chunk.length)
termination_by left
decreasing_by exact Nat.sub_lt (Nat.pos_of_ne_zero ‹_›) (Nat.pos_of_ne_zero _hsent)

/-- Reads `len` bytes of the source buffer, which must have that many. -/
def mywrite (f : ByteFile) (off : SizeT) (buf : List ByteT) (len : SizeT) :
    Except Fault (Nat × ByteFile) :=
  if buf.length < len.toNat then .error .outOfBounds
  else .ok (mywriteFrom f off (buf.take len.toNat) len.toNat)

/-- The `len` bytes from the start of a block on, whether it has as many or not. -/
def Machine.bytesAt (m : Machine) (b : Block) (len : SizeT) : Except Fault (List ByteT) :=
  match (List.range (len.toNat - b.length)).mapM (m.behindBlock b.data) with
  | none => .error .outOfBounds
  | some behind => .ok (b.data ++ behind)

/-- The loop of `myread` with `left` bytes to go and `buf` filled so far. The first
end of file sets the length of the file to the 32-bit sum `off + len` and starts
over; the second one gives up. -/
def myreadFrom (f : ByteFile) (off len : SizeT) (trunconeof : Bool) (left : Nat)
    (buf : List ByteT) : List ByteT × ByteFile :=
  if left = 0 then (buf, f)
  else
    let sent := f.read (off.toNat + (len.toNat - left)) left
    if _hsent : sent.length = 0 then
      if trunconeof then myreadFrom (f.truncate (off + len).toNat) off len false len.toNat []
      else (buf, f)
    else myreadFrom f off len trunconeof (left - sent.length) (buf ++ sent)
termination_by (trunconeof.toNat, left)
decreasing_by
  · exact Prod.Lex.left _ _ (by simp [*])
  · exact Prod.Lex.right _ (Nat.sub_lt (Nat.pos_of_ne_zero ‹_›) (Nat.pos_of_ne_zero _hsent))

/-- The bytes obtained; their number is the value `myread` returns. -/
def myread (f : ByteFile) (off len : SizeT) (trunconeof : Bool) : List ByteT × ByteFile :=
  myreadFrom f off len trunconeof len.toNat []

namespace DiskSystem

/-- Where block `n` starts in the data file, in the arithmetic of the code. -/
def blockPos (d : DiskSystem) (n : SizeT) : SizeT := d.offset + n * d.blocksize

/-- The sectors that the head model distinguishes. -/
def sectors (d : DiskSystem) : SizeT := d.numheads * d.blockspertrack

/-- The rotational wait, in sectors. -/
def sectorhop (d : DiskSystem) (offblock : SizeT) : SizeT :=
  let reqSectorstart := offblock % d.sectors
  if d.lastSector ≤ reqSectorstart then reqSectorstart - d.lastSector
  else d.blockspertrack - (d.lastSector - reqSectorstart)

def modelAccess (d : DiskSystem) (offblock numblock : SizeT) : Except Fault (ℚ × DiskSystem) :=
  if d.sectors = 0 then .error .divisionByZero
  else
    let add := d.machine.add
    let mul := d.machine.mul
    let div := d.machine.div
    let reqTrackstart := offblock / d.sectors
    let reqTrackend := (offblock + numblock - 1) / d.sectors
    let reqSectorend := (offblock + numblock - 1) % d.sectors
    let trackhop : Nat := ((reqTrackstart.toNat : Int) - d.lastTrack.toNat).natAbs
    let trackhopfrac := div trackhop d.numtracks.toNat
    let trackbytracktime := mul trackhop d.trackseeklatency
    let longseektime := mul (div trackhopfrac (1 / 2)) d.averageseeklatency
    let timeinseek := if trackbytracktime < longseektime then trackbytracktime else longseektime
    let sectorhopfrac := div (d.sectorhop offblock).toNat d.blockspertrack.toNat
    let timeinrotation := mul d.rotationallatency sectorhopfrac
    let numtrackbytrackhops := reqTrackend - reqTrackstart
    let timeintrackbytrackhops := mul numtrackbytrackhops.toNat d.trackseeklatency
    let timeinreadsectors := mul d.rotationallatency (div numblock.toNat d.blockspertrack.toNat)
    .ok (add (add (add timeinseek timeinrotation) timeintrackbytrackhops) timeinreadsectors,
      { d with lastTrack := reqTrackend, lastSector := reqSectorend })

/-- The byte of index `k` from the start of the bitmap on. The code does not compare the index with
the size of the array. -/
def bitmapByte (d : DiskSystem) (k : Nat) : Except Fault ByteT :=
  let size := PackedBits.byteCount d.numblocks.toNat
  if k < size then .ok (d.bitmap.getD k 0)
  else
    match d.machine.behindBitmap (k - size) with
    | none => .error .outOfBounds
    | some b => .ok b

/-- `GETBIT`. -/
def isBlockAllocated (d : DiskSystem) (block : SizeT) : Except Fault Bool :=
  (d.bitmapByte (block.toNat / 8)).map fun b : ByteT => ((b >>> (7 - block.toNat % 8)) &&& 1) != 0

/-- The loop of `Read` from block `n`, `count` blocks to go. Whether a block is allocated is asked
for a message that is compiled out. -/
def readLoop (d : DiskSystem) (n : SizeT) :
    Nat → List Block → Except Fault (ErrorT × List Block × DiskSystem)
  | 0, blocks => .ok (.noError, blocks, d)
  | count + 1, blocks =>
      match d.isBlockAllocated n with
      | .error e => .error e
      | .ok _ =>
          let (buf, f) := myread d.datafile (d.blockPos n) d.blocksize true
          let d' := { d with datafile := f }
          if buf.length ≠ d.blocksize.toNat then .ok (.implBug, blocks, d')
          else readLoop d' (n + 1) count (blocks ++ [Block.ofBytes buf])

/-- The error code, the blocks pushed, `reqtime` and the disk afterwards. -/
def read (d : DiskSystem) (inoffblock numblock : SizeT) :
    Except Fault (ErrorT × List Block × ℚ × DiskSystem) :=
  if inoffblock + numblock > d.numblocks then .ok (.noSpace, [], 0, d)
  else
    match d.modelAccess inoffblock numblock with
    | .error e => .error e
    | .ok (reqtime, d') =>
        match d'.readLoop inoffblock numblock.toNat [] with
        | .error e => .error e
        | .ok (rc, blocks, d'') => .ok (rc, blocks, reqtime, d'')

def writeLoop (d : DiskSystem) (n : SizeT) : Nat → List Block → Except Fault (ErrorT × DiskSystem)
  | 0, _ => .ok (.noError, d)
  | _ + 1, [] => .error .outOfBounds
  | count + 1, b :: blocks =>
      match d.isBlockAllocated n with
      | .error e => .error e
      | .ok _ =>
          match d.machine.bytesAt b d.blocksize with
          | .error e => .error e
          | .ok buf =>
              match mywrite d.datafile (d.blockPos n) buf d.blocksize with
              | .error e => .error e
              | .ok (sent, f) =>
                  let d' := { d with datafile := f }
                  if sent ≠ d.blocksize.toNat then .ok (.implBug, d')
                  else writeLoop d' (n + 1) count blocks

def write (d : DiskSystem) (inoffblock numblock : SizeT) (blocks : List Block) :
    Except Fault (ErrorT × ℚ × DiskSystem) :=
  if inoffblock + numblock > d.numblocks then .ok (.noSpace, 0, d)
  else
    match d.modelAccess inoffblock numblock with
    | .error e => .error e
    | .ok (reqtime, d') =>
        match d'.writeLoop inoffblock numblock.toNat blocks with
        | .error e => .error e
        | .ok (rc, d'') => .ok (rc, reqtime, d'')

/-- `Read` of one block; on an error the caller's block is left as it was. -/
def readOne (d : DiskSystem) (inoffblock : SizeT) :
    Except Fault (ErrorT × Option Block × ℚ × DiskSystem) :=
  match d.read inoffblock 1 with
  | .error e => .error e
  | .ok (rc, bl, reqtime, d') => .ok (rc, if rc = .noError then bl[0]? else none, reqtime, d')

def writeOne (d : DiskSystem) (inoffblock : SizeT) (b : Block) :
    Except Fault (ErrorT × ℚ × DiskSystem) :=
  d.write inoffblock 1 [b]

/-! ## The allocation bitmap -/

/-- Both notifications run over the numbers from `offset` up to the 32-bit sum. -/
def notifyBlocks (change : List ByteT → Nat → List ByteT) (d : DiskSystem)
    (offset innumblocks : SizeT) : ErrorT × DiskSystem :=
  if offset + innumblocks > d.numblocks then (.noSuchBlock, d)
  else
    let range := List.range' offset.toNat ((offset + innumblocks).toNat - offset.toNat)
    (.noError, { d with bitmap := range.foldl change d.bitmap })

def notifyAllocateBlocks (d : DiskSystem) (offset innumblocks : SizeT) : ErrorT × DiskSystem :=
  d.notifyBlocks PackedBits.setBit offset innumblocks

def notifyDeallocateBlocks (d : DiskSystem) (offset innumblocks : SizeT) : ErrorT × DiskSystem :=
  d.notifyBlocks PackedBits.clearBit offset innumblocks

/-- A disk as `InitFromInMemoryConfig` leaves it: a clear bitmap, the head at rest,
and whatever the data file already held. -/
def make (m : Machine) (c : DiskConfig) (datafile : ByteFile) : DiskSystem where
  toDiskConfig := c
  machine := m
  bitmap := List.replicate (PackedBits.byteCount c.numblocks.toNat) 0
  datafile := datafile
  lastTrack := 0
  lastSector := 0

end DiskSystem
end BTreeLab
