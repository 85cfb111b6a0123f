import EECS339.Drawing
import EECS339.Tools

/-!
# The tools of the index

`btree_init`, `btree_insert`, `btree_update`, `btree_delete`, `btree_lookup`,
`btree_display`, `btree_show` and `btree_sane`. Each of them is a process that mounts the
index of a disk through a cache of its own, calls one function and unmounts it again, unless
an insertion ends the process before.
-/
namespace BTreeLab

namespace Block

def hexDigit (x : ByteT) : ByteT := if x < 10 then 48 + x else 97 + (x - 10)

def high2hex (x : ByteT) : ByteT := hexDigit ((x >>> 4) &&& 0xf)

def low2hex (x : ByteT) : ByteT := hexDigit (x &&& 0xf)

/-- `double` is what the stream makes of a time. -/
def print (double : ℚ → List ByteT) (b : Block) : List ByteT :=
  text s!"Block(length={b.length}, data=0x" ++ (b.data.flatMap fun x => [high2hex x, low2hex x]) ++
    text ", lastaccessed=" ++ double b.lastaccessed ++
    text ", dirty=" ++ text (if b.dirty then "1" else "0") ++ text ")"

end Block

/-- What a process does besides what `Outcome` keeps: `said` is the error that it reports
before it goes on. -/
structure IndexOutcome extends Outcome where
  said : ErrorT
  deriving DecidableEq

/-- The arguments; a key or a value is the string as it was given. -/
inductive IndexTool where
  | infodisk
  | btreeInit (cachesize keysize valuesize : SizeT)
  | btreeInsert (cachesize : SizeT) (key value : List ByteT)
  | btreeUpdate (cachesize : SizeT) (key value : List ByteT)
  | btreeDelete (cachesize : SizeT) (key : List ByteT)
  | btreeLookup (cachesize : SizeT) (key : List ByteT)
  | btreeDisplay (cachesize : SizeT) (mode : List ByteT)
  | btreeShow (cachesize : SizeT)
  | btreeSane (cachesize : SizeT)

namespace IndexTools
open Tools

/-- The destructor of the cache, which detaches it once more. -/
def dropCache (c : BufferCache) : Except Fault DiskSystem := do
  let (_, c) ← c.detach
  return c.disk

/-- The frame of every `main`: `use` is what it does with the mounted index, that is what it
prints and the error that it reports. -/
def withIndex (u : Memory) (cachesize keysize valuesize : SizeT) (isNew : Bool)
    (use : BTreeIndex → Except Fault (List ByteT × ErrorT × BTreeIndex)) (d : DiskSystem) :
    Except Fault (IndexOutcome × DiskSystem) := do
  let t := BTreeIndex.make u keysize valuesize (attached d cachesize)
  let (rc, t) ← t.attach u 0 isNew
  if rc ≠ .noError then
    return (⟨⟨[], rc, []⟩, .noError⟩, ← dropCache t.buffercache)
  let (stdout, said, t) ← use t
  let (rc, t) ← t.detach u
  if rc ≠ .noError then
    return (⟨⟨stdout, rc, []⟩, said⟩, ← dropCache t.buffercache)
  let (rc, c) ← t.buffercache.detach
  return (⟨⟨stdout, rc, []⟩, said⟩, ← dropCache c)

variable (double : ℚ → List ByteT) (u : Memory) (fuel : Nat)

def btreeInit (cachesize keysize valuesize : SizeT) :=
  withIndex u cachesize keysize valuesize true fun t => .ok ([], .noError, t)

def btreeInsert (cachesize : SizeT) (key value : List ByteT) :=
  withIndex u cachesize 0 0 false fun t => do
    let (rc, t) ← t.insert u fuel (Block.ofBytes key) (Block.ofBytes value)
    return ([], rc, t)

def btreeUpdate (cachesize : SizeT) (key value : List ByteT) :=
  withIndex u cachesize 0 0 false fun t =>
    let (rc, t) := t.update (Block.ofBytes key) (Block.ofBytes value)
    .ok ([], rc, t)

def btreeDelete (cachesize : SizeT) (key : List ByteT) :=
  withIndex u cachesize 0 0 false fun t =>
    let (rc, t) := t.delete (Block.ofBytes key)
    .ok ([], rc, t)

/-- Before the lookup the value is an empty block. -/
def btreeLookup (cachesize : SizeT) (key : List ByteT) :=
  withIndex u cachesize 0 0 false fun t => do
    let (rc, val, t) ← t.lookup u fuel (Block.ofBytes key)
    return (if rc ≠ .noError then [] else (val.getD (Block.ofBytes [])).print double, rc, t)

/-- Only the first letter of the mode counts. -/
def displayType (mode : List ByteT) : BTreeDisplayType :=
  if mode.head? = some 100 ∨ mode.head? = some 68 then .depthDot else .depth

def btreeDisplay (cachesize : SizeT) (mode : List ByteT) :=
  withIndex u cachesize 0 0 false fun t => do
    let (rc, o, t) ← t.display u fuel (displayType mode)
    return (o, rc, t)

/-- `Print` writes nothing. -/
def btreeShow (cachesize : SizeT) := withIndex u cachesize 0 0 false fun t => .ok ([], .noError, t)

def btreeSane (cachesize : SizeT) := withIndex u cachesize 0 0 false fun t => .ok ([], t.sanityCheck, t)

def main : IndexTool → DiskSystem → Except Fault (IndexOutcome × DiskSystem)
  | .infodisk => fun d => (infodisk d).map fun r => (⟨r.1, .noError⟩, r.2)
  | .btreeInit cachesize keysize valuesize => btreeInit u cachesize keysize valuesize
  | .btreeInsert cachesize key value => btreeInsert u fuel cachesize key value
  | .btreeUpdate cachesize key value => btreeUpdate u cachesize key value
  | .btreeDelete cachesize key => btreeDelete u cachesize key
  | .btreeLookup cachesize key => btreeLookup double u fuel cachesize key
  | .btreeDisplay cachesize mode => btreeDisplay u fuel cachesize mode
  | .btreeShow cachesize => btreeShow u cachesize
  | .btreeSane cachesize => btreeSane u cachesize

/-- `btree_insert` up to the read that follows the lookup. -/
def upToRead (cachesize : SizeT) (key : List ByteT) (d : DiskSystem) : Except Fault (Unit × DiskSystem) := do
  let t := BTreeIndex.make u 0 0 (attached d cachesize)
  let (_, t) ← t.attach u 0 false
  let (_, _, t) ← t.lookup u fuel (Block.ofBytes key)
  return ((), t.buffercache.disk)

/-- One process after the other on the files of the disk `filestem`, each with what it finds in
its memory. An insertion that looks at the bit of a block far behind the end of the disk, where
there is no memory, is killed and has no outcome. No destructor runs then, so of the files only
the data file can be another, by what the process has read before. -/
def step (filestem : Text) (f : Files) (p : (Uninitialized × Memory) × IndexTool) :
    Except Fault (Option IndexOutcome × Files) :=
  match p.2, process filestem false ConfigFile.byDefault p.1.1 (main double p.1.2 fuel p.2) f with
  | _, .ok (o, f') => .ok (some o, f')
  | .btreeInsert cachesize key _, .error .outOfBounds =>
      (process filestem false ConfigFile.byDefault p.1.1 (upToRead p.1.2 fuel cachesize key) f).map
        fun r => (none, { f with datafile := r.2.datafile })
  | _, .error e => .error e

end IndexTools

/-! ## What the files stand for -/

/-- A search tree and where it lies. -/
structure Index where
  keysize : SizeT
  valuesize : SizeT
  placed : Placed

/-- The allocated blocks, and the index if the disk has one. -/
structure Volume where
  used : SizeT → Bool
  index : Option Index

namespace Index

/-- What the tools say about the tree. None of them changes it: an insertion takes the error
code of its lookup for the block to insert into, the others are not written yet. -/
def answer (double : ℚ → List ByteT) (x : Index) : IndexTool → List ByteT × ErrorT
  | .infodisk | .btreeInit _ _ _ | .btreeShow _ => ([], .noError)
  | .btreeInsert _ key _ =>
      ([], if (SearchTree.find key x.placed.tree.entries).isSome then .insane else .noSpace)
  | .btreeUpdate _ _ _ | .btreeDelete _ _ | .btreeSane _ => ([], .unimpl)
  | .btreeLookup _ key =>
      match SearchTree.find key x.placed.tree.entries with
      | none => ([], .nonexistent)
      | some v => ((Block.ofBytes v).print double, .noError)
  | .btreeDisplay _ mode =>
      let dt := IndexTools.displayType mode
      (BTreeIndex.framed dt (x.placed.statements.flatMap (Statement.bytes dt)), .noError)

end Index

namespace Volume

/-- The block that an insertion of an absent key reads. -/
def farBlock : SizeT := BitVec.ofInt 32 ErrorT.nonexistent.code

/-- An insertion of an absent key is killed where the machine has no memory at the bit of the far
block. -/
def Kills (m : Machine) (c : DiskConfig) (x : Index) : IndexTool → Prop
  | .btreeInsert _ key _ => SearchTree.find key x.placed.tree.entries = none ∧
      ¬ (DiskSystem.make m c ByteFile.empty).ReadableBit farBlock
  | _ => False

instance (m : Machine) (c : DiskConfig) (x : Index) : DecidablePred (Kills m c x)
  | .btreeInsert _ _ _ => inferInstanceAs (Decidable (_ ∧ _))
  | .infodisk | .btreeInit .. | .btreeUpdate .. | .btreeDelete .. | .btreeLookup .. | .btreeDisplay ..
  | .btreeShow _ | .btreeSane _ => .isFalse id

/-- What a tool prints and reports, if it is not killed, and the volume that it leaves. A new index
has an empty root in block 1. -/
def act (double : ℚ → List ByteT) (c : DiskConfig) (m : Machine) (s : Volume) (tool : IndexTool) :
    Option IndexOutcome × Volume :=
  match tool, s.index with
  | .infodisk, _ => (some ⟨⟨[], .noError, Tools.printBitmap c.numblocks s.used⟩, .noError⟩, s)
  | .btreeInit _ keysize valuesize, _ =>
      (some ⟨⟨[], .noError, []⟩, .noError⟩,
        ⟨Function.update (Function.update s.used 0 true) 1 true, some ⟨keysize, valuesize, .empty 1 0⟩⟩)
  | _, none => (some ⟨⟨[], .notAnIndex, []⟩, .noError⟩, s)
  | tool, some x =>
      (if Kills m c x tool then none
        else some ⟨⟨(x.answer double tool).1, .noError, []⟩, (x.answer double tool).2⟩, s)

/-- There is an index to mount, and a key is as long as the keys in it. -/
def Legal (s : Volume) : IndexTool → Prop
  | .infodisk | .btreeInit _ _ _ => True
  | .btreeInsert _ key _ | .btreeLookup _ key => ∃ x, s.index = some x ∧ key.length = x.keysize.toNat
  | _ => ∃ x, s.index = some x

end Volume
end BTreeLab
