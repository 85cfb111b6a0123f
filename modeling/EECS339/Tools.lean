import EECS339.CacheErrors
import EECS339.OpenErrors
import EECS339.RefImpl

/-!
# The tools

`makedisk`, `infodisk`, `readdisk`, `writedisk`, `readbuffer`, `writebuffer` and
`freebuffer`: each of them is a process that opens the disk, works on it and closes it.
Between two processes there are only the three files. The arguments are the numbers that
`atoi` and `atof` make of them; of what goes to the standard error only the bitmap and the
error are kept.
-/
namespace BTreeLab
open PackedBits

/-- What the three files of a disk hold. -/
structure Files where
  configfile : Option Text
  bitmapfile : Option ByteFile
  datafile : Option ByteFile

/-- What a process depends on beside its arguments and files: the machine, and memory that it
reads before it writes it (the buffer of `ReadConfig`, the array of the bitmap, and the array of
the block that is to become block `i`). -/
structure Uninitialized where
  machine : Machine
  buf : Text
  bitmap : Nat → ByteT
  block : SizeT → Nat → ByteT

namespace DiskFiles

/-- The object before the constructor's body runs; every file may be opened. -/
def before (m : Machine) (f : Files) (filestem : Text) (config : DiskConfig) : DiskFiles where
  machine := m
  diskfilestem := filestem
  config := config
  bitmap := none
  configfile := ⟨f.configfile, true, false⟩
  bitmapfile := ⟨f.bitmapfile, true, false⟩
  datafile := ⟨f.datafile, true, false⟩

def files (o : DiskFiles) : Files :=
  ⟨o.configfile.content, o.bitmapfile.content, o.datafile.content⟩

/-- The object as the functions on blocks see it: the head has not moved yet. -/
def onBlocks (o : DiskFiles) : DiskSystem :=
  { o.disk with datafile := o.datafile.content.getD ByteFile.empty }

/-- The object that those functions have left as `d`. -/
def leave (o : DiskFiles) (d : DiskSystem) : DiskFiles :=
  { o with
    config := d.toDiskConfig
    bitmap := some d.bitmap
    datafile := { o.datafile with content := some d.datafile } }

end DiskFiles

/-- A `main` with a `DiskSystem` on its stack. The result of the constructor's `Init`
function is dropped, and every `return` runs the destructor. If a file could not be opened
the destructor faults, whatever `body` has done. -/
def process {α : Type} (filestem : Text) (create : Bool) (c : DiskConfig) (u : Uninitialized)
    (body : DiskSystem → Except Fault (α × DiskSystem)) (f : Files) : Except Fault (α × Files) := do
  let (_, o) ← (DiskFiles.before u.machine f filestem c).construct create u.buf u.bitmap
  let (a, d) ← body o.onBlocks
  let o ← (o.leave d).destroy
  return (a, o.files)

/-- The standard output, the error that ends the process, if one does, and the bitmap in
what `Print` shows of the disk. -/
structure Outcome where
  stdout : List ByteT
  error : ErrorT
  bitmap : Text
  deriving DecidableEq

inductive Tool where
  | infodisk
  | readdisk (blocknum numblocks : SizeT)
  | writedisk (blocknum numblocks : SizeT) (stdin : List ByteT)
  | readbuffer (cachesize blocknum numblocks : SizeT)
  | writebuffer (cachesize blocknum numblocks : SizeT) (stdin : List ByteT)
  | freebuffer (cachesize blocknum numblocks : SizeT)

namespace Tools

/-- The numbers from `n` on, as a loop counts them. -/
def upFrom (n : SizeT) : Nat → List SizeT
  | 0 => []
  | count + 1 => n :: upFrom (n + 1) count

/-- `for (i = blocknum; i < blocknum + numblocks; i++)`. -/
def loopRange (blocknum numblocks : SizeT) : List SizeT :=
  upFrom blocknum ((blocknum + numblocks).toNat - blocknum.toNat)

/-- The part of `Print` that shows the bitmap. -/
def printBitmap (numblocks : SizeT) (allocated : SizeT → Bool) : Text :=
  (upFrom 0 numblocks.toNat).map fun i => if allocated i then '*' else '.'

/-- The same part, as it asks for the bits. -/
def printBits (d : DiskSystem) : Except Fault Text :=
  (upFrom 0 d.numblocks.toNat).mapM fun i => (d.isBlockAllocated i).map fun bit => if bit then '*' else '.'

/-- `cin >> c` skips white space. At the end of the input `c` keeps its value. -/
def readByte (c : ByteT) : List ByteT → ByteT × List ByteT
  | [] => (c, [])
  | b :: stdin => if isSpace b then readByte c stdin else (b, stdin)

/-- The loop over the bytes of a block, which holds `data` before it. -/
def readBytes : List ByteT → List ByteT → List ByteT × List ByteT
  | [], stdin => ([], stdin)
  | c :: data, stdin =>
      let (b, stdin) := readByte c stdin
      let (bs, stdin) := readBytes data stdin
      (b :: bs, stdin)

def fresh (u : Uninitialized) (blocksize i : SizeT) : List ByteT :=
  (List.range blocksize.toNat).map (u.block i)

/-! ## Tools that work on the disk -/

def infodisk (d : DiskSystem) : Except Fault (Outcome × DiskSystem) := do
  return (⟨[], .noError, ← printBits d⟩, d)

def readdisk (blocknum numblocks : SizeT) (d : DiskSystem) : Except Fault (Outcome × DiskSystem) := do
  let (rc, b, _, d) ← d.read blocknum numblocks
  return (⟨if rc ≠ .noError then [] else b.flatMap Block.data, rc, []⟩, d)

/-- The blocks that `writedisk` reads before it writes the first one. -/
def readBlocks (u : Uninitialized) (blocksize i : SizeT) : Nat → List ByteT → List Block
  | 0, _ => []
  | count + 1, stdin =>
      let (data, stdin) := readBytes (fresh u blocksize i) stdin
      Block.ofBytes data :: readBlocks u blocksize (i + 1) count stdin

def writedisk (u : Uninitialized) (blocknum numblocks : SizeT) (stdin : List ByteT) (d : DiskSystem) :
    Except Fault (Outcome × DiskSystem) := do
  let (rc, _, d) ← d.write blocknum numblocks (readBlocks u d.blocksize blocknum numblocks.toNat stdin)
  return (⟨[], rc, []⟩, d)

/-! ## Tools that work through a cache -/

def attached (d : DiskSystem) (cachesize : SizeT) : BufferCache := (BufferCache.make d cachesize).attach.2

/-- The end of a `main` with a cache: `Detach`, unless an error ended it, and then the
destructor, which detaches once more. -/
def closeCache (rc : ErrorT) (c : BufferCache) : Except Fault DiskSystem := do
  let (_, c) ← if rc = .noError then c.detach else .ok (rc, c)
  let (_, c) ← c.detach
  return c.disk

/-- One turn of the loop of `readbuffer`, with what has been printed so far. -/
def readTurn (s : BufferCache × List ByteT) (i : SizeT) :
    Except Fault (ErrorT × BufferCache × List ByteT) := do
  let (rc, block, c) ← s.1.readBlock i
  if rc ≠ .noError then return (rc, c, s.2)
  return (rc, c, s.2 ++ (block.map Block.data).getD [])

def readbuffer (cachesize blocknum numblocks : SizeT) (d : DiskSystem) :
    Except Fault (Outcome × DiskSystem) := do
  let (rc, c, stdout) ← Runs.untilError .noError readTurn (attached d cachesize, [])
    (loopRange blocknum numblocks)
  let d ← closeCache rc c
  return (⟨stdout, rc, []⟩, d)

/-- One turn of the loop of `writebuffer`, with what is left of the input. -/
def writeTurn (u : Uninitialized) (s : BufferCache × List ByteT) (i : SizeT) :
    Except Fault (ErrorT × BufferCache × List ByteT) := do
  let (data, stdin) := readBytes (fresh u s.1.getBlockSize i) s.2
  let (rc, c) := s.1.notifyAllocateBlock i
  if rc ≠ .noError then return (rc, c, stdin)
  let (rc, c) ← c.writeBlock i (Block.ofBytes data)
  return (rc, c, stdin)

def writebuffer (u : Uninitialized) (cachesize blocknum numblocks : SizeT) (stdin : List ByteT)
    (d : DiskSystem) : Except Fault (Outcome × DiskSystem) := do
  let (rc, c, _) ← Runs.untilError .noError (writeTurn u) (attached d cachesize, stdin)
    (loopRange blocknum numblocks)
  let d ← closeCache rc c
  return (⟨[], rc, []⟩, d)

def freeTurn (c : BufferCache) (i : SizeT) : Except Fault (ErrorT × BufferCache) :=
  .ok (c.notifyDeallocateBlock i)

def freebuffer (cachesize blocknum numblocks : SizeT) (d : DiskSystem) :
    Except Fault (Outcome × DiskSystem) := do
  let (rc, c) ← Runs.untilError .noError freeTurn (attached d cachesize) (loopRange blocknum numblocks)
  let d ← closeCache rc c
  return (⟨[], rc, []⟩, d)

def main (u : Uninitialized) : Tool → DiskSystem → Except Fault (Outcome × DiskSystem)
  | .infodisk => infodisk
  | .readdisk n k => readdisk n k
  | .writedisk n k stdin => writedisk u n k stdin
  | .readbuffer cachesize n k => readbuffer cachesize n k
  | .writebuffer cachesize n k stdin => writebuffer u cachesize n k stdin
  | .freebuffer cachesize n k => freebuffer cachesize n k

/-- One process after the other on the files of the disk `filestem`. -/
def step (filestem : Text) (f : Files) (p : Uninitialized × Tool) : Except Fault (Outcome × Files) :=
  process filestem false ConfigFile.byDefault p.1 (main p.1 p.2) f

/-- `makedisk`, which shows the disk it has made. -/
def makedisk (filestem : Text) (c : DiskConfig) (u : Uninitialized) (f : Files) :
    Except Fault (Outcome × Files) :=
  process filestem true c u infodisk f

end Tools

/-! ## What the files stand for -/

/-- An array of blocks and the set of the allocated ones. -/
structure Store where
  blocks : BlockArray
  used : SizeT → Bool

namespace Store

def setUsed (s : Store) (i : SizeT) (b : Bool) : Store := { s with used := Function.update s.used i b }

/-- The first bytes of the input over the bytes that were there. -/
def overlay (old input : List ByteT) : List ByteT := input.take old.length ++ old.drop input.length

/-- Block `i` takes its share of the characters that are left. -/
def take (u : Uninitialized) (blocksize : SizeT) (s : Store × List ByteT) (i : SizeT) :
    Store × List ByteT :=
  ({ s.1 with blocks := Function.update s.1.blocks i (overlay (Tools.fresh u blocksize i) s.2) },
    s.2.drop blocksize.toNat)

def allocateAndTake (u : Uninitialized) (blocksize : SizeT) (s : Store × List ByteT) (i : SizeT) :
    Store × List ByteT := take u blocksize (s.1.setUsed i true, s.2) i

/-- The characters that `>>` does not skip. -/
def characters (stdin : List ByteT) : List ByteT := stdin.filter fun b => !isSpace b

/-- What a tool does to the store, and what it prints: the tools on the disk refuse a
range that does not fit, those on the cache stop at the first block that does not exist. -/
def act (c : DiskConfig) (u : Uninitialized) (s : Store) : Tool → Outcome × Store
  | .infodisk => (⟨[], .noError, Tools.printBitmap c.numblocks s.used⟩, s)
  | .readdisk n k =>
      if n.toNat + k.toNat ≤ c.numblocks.toNat then
        (⟨(Tools.upFrom n k.toNat).flatMap s.blocks, .noError, []⟩, s)
      else (⟨[], .noSpace, []⟩, s)
  | .writedisk n k stdin =>
      if n.toNat + k.toNat ≤ c.numblocks.toNat then
        (⟨[], .noError, []⟩,
          ((Tools.upFrom n k.toNat).foldl (take u c.blocksize) (s, characters stdin)).1)
      else (⟨[], .noSpace, []⟩, s)
  | .readbuffer _ n k =>
      (⟨(existing (Tools.loopRange n k)).flatMap s.blocks, result .noSpace (Tools.loopRange n k), []⟩, s)
  | .writebuffer _ n k stdin =>
      (⟨[], result .noSuchBlock (Tools.loopRange n k), []⟩,
        ((existing (Tools.loopRange n k)).foldl (allocateAndTake u c.blocksize)
          (s, characters stdin)).1)
  | .freebuffer _ n k =>
      (⟨[], result .noSuchBlock (Tools.loopRange n k), []⟩,
        (existing (Tools.loopRange n k)).foldl (fun s i => s.setUsed i false) s)
where
  there (i : SizeT) : Bool := i < c.numblocks
  existing (is : List SizeT) : List SizeT := is.takeWhile there
  result (rc : ErrorT) (is : List SizeT) : ErrorT := if is.all there then .noError else rc

end Store
end BTreeLab
