import EECS339.DiskSystem

/-!
# The buffer cache

`buffercache.cc`: a write-back, write-allocate cache with least recently used
replacement. `std::map` is a tree map, iterated in increasing block number.
-/
namespace BTreeLab

structure BufferCache where
  disk : DiskSystem
  cachesize : SizeT
  blockmap : Std.TreeMap SizeT Block
  curtime : ℚ
  allocs : SizeT
  deallocs : SizeT
  reads : SizeT
  writes : SizeT
  diskreads : SizeT
  diskwrites : SizeT

namespace BufferCache

def make (disk : DiskSystem) (cachesize : SizeT) : BufferCache :=
  ⟨disk, cachesize, ∅, 0, 0, 0, 0, 0, 0, 0⟩

def attach (c : BufferCache) : ErrorT × BufferCache := (.noError, { c with blockmap := ∅ })

def writeBack (c : BufferCache) (n : SizeT) (b : Block) : Except Fault (ErrorT × BufferCache) :=
  match c.disk.writeOne n b with
  | .error e => .error e
  | .ok (rc, reqtime, d) =>
      .ok (rc, { c with
        disk := d, curtime := d.machine.add c.curtime reqtime, diskwrites := c.diskwrites + 1 })

/-- Write the entry out if it is dirty, then erase it; on an error it stays. -/
def removeBlock (c : BufferCache) (n : SizeT) (b : Block) : Except Fault (ErrorT × BufferCache) :=
  if b.dirty then
    match c.writeBack n b with
    | .error e => .error e
    | .ok (rc, c') =>
        if rc ≠ .noError then .ok (rc, c')
        else .ok (.noError, { c' with blockmap := c'.blockmap.erase n })
  else .ok (.noError, { c with blockmap := c.blockmap.erase n })

/-- The first entry with the least access time below `bound`. -/
def findOldest (bound : ℚ) (entries : List (SizeT × Block)) : Option (SizeT × Block) :=
  (entries.foldl (fun (best : Option (SizeT × Block) × ℚ) e =>
    if e.2.lastaccessed < best.2 then (some e, e.2.lastaccessed) else best) (none, bound)).1

def checkDeleteOldest (c : BufferCache) : Except Fault (ErrorT × BufferCache) :=
  if c.blockmap.size < c.cachesize.toNat then .ok (.noError, c)
  else
    match findOldest (c.disk.machine.add c.curtime 1) c.blockmap.toList with
    | none => .ok (.noError, c)
    | some (n, b) => c.removeBlock n b

def detachLoop (c : BufferCache) : List (SizeT × Block) → Except Fault (ErrorT × BufferCache)
  | [] => .ok (.noError, { c with blockmap := ∅ })
  | (n, b) :: rest =>
      if b.dirty then
        match c.writeBack n b with
        | .error e => .error e
        | .ok (rc, c') => if rc ≠ .noError then .ok (rc, c') else c'.detachLoop rest
      else c.detachLoop rest

def detach (c : BufferCache) : Except Fault (ErrorT × BufferCache) :=
  c.detachLoop c.blockmap.toList

def getBlockSize (c : BufferCache) : SizeT := c.disk.blocksize

def getNumBlocks (c : BufferCache) : SizeT := c.disk.numblocks

def notifyAllocateBlock (c : BufferCache) (n : SizeT) : ErrorT × BufferCache :=
  let (rc, d) := c.disk.notifyAllocateBlocks n 1
  (rc, { c with allocs := c.allocs + 1, disk := d })

def notifyDeallocateBlock (c : BufferCache) (n : SizeT) : ErrorT × BufferCache :=
  let (rc, d) := c.disk.notifyDeallocateBlocks n 1
  (rc, { c with deallocs := c.deallocs + 1, disk := d })

def isBlockAllocated (c : BufferCache) (n : SizeT) : Except Fault Bool := c.disk.isBlockAllocated n

/-- The error code and the block assigned to `outblock`, which an error leaves as it
was. The result of `CheckDeleteOldest` is ignored, and that of `IsBlockAllocated` only
guards a message that is compiled out. -/
def readBlock (c : BufferCache) (n : SizeT) : Except Fault (ErrorT × Option Block × BufferCache) :=
  match c.blockmap[n]? with
  | some b =>
      .ok (.noError, some b, { c with
        blockmap := c.blockmap.insert n { b with lastaccessed := c.curtime }
        reads := c.reads + 1 })
  | none =>
      match c.checkDeleteOldest with
      | .error e => .error e
      | .ok (_, c1) =>
          match c1.isBlockAllocated n with
          | .error e => .error e
          | .ok _ =>
              match c1.disk.readOne n with
              | .error e => .error e
              | .ok (rc, outblock, reqtime, d) =>
                  let c2 := { c1 with
                    disk := d
                    curtime := d.machine.add c1.curtime reqtime
                    diskreads := c1.diskreads + 1 }
                  match outblock with
                  | none => .ok (rc, none, c2)
                  | some b =>
                      let b' := { b with lastaccessed := c2.curtime, dirty := false }
                      .ok (.noError, some b', { c2 with
                        blockmap := c2.blockmap.insert n b', reads := c2.reads + 1 })

/-- Neither the block number nor the length of the block is checked before it is cached. -/
def writeBlock (c : BufferCache) (n : SizeT) (inblock : Block) :
    Except Fault (ErrorT × BufferCache) :=
  match c.blockmap[n]? with
  | some _ =>
      .ok (.noError, { c with
        blockmap := c.blockmap.insert n { inblock with lastaccessed := c.curtime, dirty := true }
        writes := c.writes + 1 })
  | none =>
      match c.checkDeleteOldest with
      | .error e => .error e
      | .ok (_, c1) =>
          match c1.isBlockAllocated n with
          | .error e => .error e
          | .ok _ =>
              .ok (.noError, { c1 with
                blockmap := c1.blockmap.insert n { inblock with lastaccessed := c1.curtime, dirty := true }
                writes := c1.writes + 1 })

def flushBlock (c : BufferCache) (n : SizeT) : Except Fault (ErrorT × BufferCache) :=
  match c.blockmap[n]? with
  | none => .ok (.noError, c)
  | some b => c.removeBlock n b

end BufferCache
end BTreeLab
