import EECS339.BTreeDs

/-!
# The index

`btree.cc`: node allocation, mounting, lookup, insertion and display. Recursive
functions take fuel and fault with `outOfFuel` when it does not suffice. Streams
are the bytes written to them.
-/
namespace BTreeLab
open Words

inductive BTreeOp where
  | insert
  | delete
  | update
  | lookup
  deriving DecidableEq

inductive BTreeDisplayType where
  | depth
  | depthDot
  | sortedKeyval
  deriving DecidableEq

/-- What memory holds before the program writes it: the fields of a node that its
default constructor leaves alone, and the array of a block about to be written. -/
structure Memory where
  info : NodeMetadata
  array : SizeT → Nat → ByteT

def zeroMemory : Memory := ⟨⟨0, 0, 0, 0, 0, 0, 0⟩, fun _ _ => 0⟩

structure BTreeIndex where
  buffercache : BufferCache
  superblockIndex : SizeT
  superblock : BTreeNode

namespace BTreeIndex

def make (u : Memory) (keysize valuesize : SizeT) (cache : BufferCache) : BTreeIndex where
  buffercache := cache
  superblockIndex := 0
  superblock := BTreeNode.default { u.info with keysize, valuesize }

/-- The error code and the block number assigned to `n`. -/
def allocateNode (u : Memory) (t : BTreeIndex) : Except Fault (ErrorT × SizeT × BTreeIndex) := do
  let n := t.superblock.info.freelist
  if n = 0 then return (.noSpace, n, t)
  let (_, node, c) ← (BTreeNode.default u.info).unserialize t.buffercache n
  if node.info.nodetype ≠ btreeUnallocatedBlock then throw .assertion
  let superblock := t.superblock.withFreelist node.info.freelist
  let (_, c) ← superblock.serialize (u.array t.superblockIndex) c t.superblockIndex
  let (_, c) := c.notifyAllocateBlock n
  return (.noError, n, { t with buffercache := c, superblock })

def deallocateNode (u : Memory) (t : BTreeIndex) (n : SizeT) : Except Fault (ErrorT × BTreeIndex) := do
  let (_, node, c) ← (BTreeNode.default u.info).unserialize t.buffercache n
  if node.info.nodetype = btreeUnallocatedBlock then throw .assertion
  let node : BTreeNode := ⟨{ node.info with nodetype := btreeUnallocatedBlock }, node.data⟩
  let node := node.withFreelist t.superblock.info.freelist
  let (_, c) ← node.serialize (u.array n) c n
  let superblock := t.superblock.withFreelist n
  let (_, c) ← superblock.serialize (u.array t.superblockIndex) c t.superblockIndex
  let (_, c) := c.notifyDeallocateBlock n
  return (.noError, { t with buffercache := c, superblock })

/-! ## Mounting -/

def newsuperblock (c : BufferCache) (superblockIndex keysize valuesize : SizeT) : BTreeNode :=
  let n := BTreeNode.make btreeSuperblock keysize valuesize c.getBlockSize
  ⟨{ n.info with
    rootnode := superblockIndex + 1, freelist := superblockIndex + 2, numkeys := 0 }, n.data⟩

def newrootnode (c : BufferCache) (superblockIndex keysize valuesize : SizeT) : BTreeNode :=
  let n := BTreeNode.make btreeRootNode keysize valuesize c.getBlockSize
  ⟨{ n.info with
    rootnode := superblockIndex + 1, freelist := superblockIndex + 2, numkeys := 0 }, n.data⟩

def newfreenode (c : BufferCache) (superblockIndex keysize valuesize i : SizeT) : BTreeNode :=
  let n := BTreeNode.make btreeUnallocatedBlock keysize valuesize c.getBlockSize
  ⟨{ n.info with
    rootnode := superblockIndex + 1
    freelist := if i + 1 = c.getNumBlocks then 0 else i + 1 }, n.data⟩

def writeFreeNodes (u : Memory) (superblockIndex keysize valuesize : SizeT) (c : BufferCache)
    (i : SizeT) : Nat → Except Fault (ErrorT × BufferCache)
  | 0 => .ok (.noError, c)
  | count + 1 => do
      let (rc, c) ← (newfreenode c superblockIndex keysize valuesize i).serialize (u.array i) c i
      if rc ≠ .noError then return (rc, c)
      writeFreeNodes u superblockIndex keysize valuesize c (i + 1) count

/-- What `Attach` writes when it creates the index. -/
def create (u : Memory) (superblockIndex keysize valuesize : SizeT) (c : BufferCache) :
    Except Fault (ErrorT × BufferCache) := do
  let (_, c) := c.notifyAllocateBlock superblockIndex
  let (rc, c) ← (newsuperblock c superblockIndex keysize valuesize).serialize
    (u.array superblockIndex) c superblockIndex
  if rc ≠ .noError then return (rc, c)
  let (_, c) := c.notifyAllocateBlock (superblockIndex + 1)
  let (rc, c) ← (newrootnode c superblockIndex keysize valuesize).serialize
    (u.array (superblockIndex + 1)) c (superblockIndex + 1)
  if rc ≠ .noError then return (rc, c)
  writeFreeNodes u superblockIndex keysize valuesize c (superblockIndex + 2)
    (c.getNumBlocks.toNat - (superblockIndex + 2).toNat)

def attach (u : Memory) (t : BTreeIndex) (initblock : SizeT) (isNew : Bool) :
    Except Fault (ErrorT × BTreeIndex) := do
  if initblock ≠ 0 then throw .assertion
  let (rc, c) ← if isNew then
      create u initblock t.superblock.info.keysize t.superblock.info.valuesize t.buffercache
    else .ok (.noError, t.buffercache)
  if rc ≠ .noError then return (rc, { t with buffercache := c, superblockIndex := initblock })
  let (rc, superblock, c) ← t.superblock.unserialize c initblock
  return (rc, ⟨c, initblock, superblock⟩)

/-- Nothing is stored in the argument `initblock`. -/
def detach (u : Memory) (t : BTreeIndex) : Except Fault (ErrorT × BTreeIndex) := do
  let (rc, c) ← t.superblock.serialize (u.array t.superblockIndex) t.buffercache t.superblockIndex
  return (rc, { t with buffercache := c })

/-! ## Lookup -/

/-- The loop over the keys of an interior node from `offset`, `count` of them, and
the last pointer behind it: the pointer to follow, or the code to return. -/
def scanPtrs (b : BTreeNode) (key : KeyT) (offset : SizeT) : Nat → Except Fault (Except ErrorT SizeT)
  | 0 => if b.info.numkeys > 0 then b.getPtr b.info.numkeys else .ok (.error .nonexistent)
  | count + 1 => do
      match ← b.getKey offset with
      | .error rc => return .error rc
      | .ok testkey =>
          if ← key.lt testkey then b.getPtr offset
          else if ← key.eq testkey then b.getPtr offset
          else scanPtrs b key (offset + 1) count

def scanLeaf (b : BTreeNode) (op : BTreeOp) (key : KeyT) (offset : SizeT) :
    Nat → Except Fault (Except ErrorT ValueT)
  | 0 => .ok (.error .nonexistent)
  | count + 1 => do
      match ← b.getKey offset with
      | .error rc => return .error rc
      | .ok testkey =>
          if ← testkey.eq key then
            if op = .lookup then b.getVal offset else return .error .unimpl
          else scanLeaf b op key (offset + 1) count

/-- The error code and the block assigned to `value`, which an error leaves as it was. -/
def lookupOrUpdateInternal (u : Memory) (op : BTreeOp) (key : KeyT) :
    Nat → BufferCache → SizeT → Except Fault (ErrorT × Option ValueT × BufferCache)
  | 0, _, _ => .error .outOfFuel
  | fuel + 1, c, node => do
      let (rc, b, c) ← (BTreeNode.default u.info).unserialize c node
      if rc ≠ .noError then return (rc, none, c)
      if b.info.Interior then
        match ← scanPtrs b key 0 b.info.numkeys.toNat with
        | .error rc => return (rc, none, c)
        | .ok ptr => lookupOrUpdateInternal u op key fuel c ptr
      else if b.info.nodetype = btreeLeafNode then
        match ← scanLeaf b op key 0 b.info.numkeys.toNat with
        | .error rc => return (rc, none, c)
        | .ok value => return (.noError, some value, c)
      else return (.insane, none, c)

def lookup (u : Memory) (fuel : Nat) (t : BTreeIndex) (key : KeyT) :
    Except Fault (ErrorT × Option ValueT × BTreeIndex) := do
  let (rc, value, c) ←
    lookupOrUpdateInternal u .lookup key fuel t.buffercache t.superblock.info.rootnode
  return (rc, value, { t with buffercache := c })

/-! ## Insertion -/

def update (t : BTreeIndex) (_key : KeyT) (_value : ValueT) : ErrorT × BTreeIndex := (.unimpl, t)

def delete (t : BTreeIndex) (_key : KeyT) : ErrorT × BTreeIndex := (.unimpl, t)

def shiftKeys (b : BTreeNode) (i : SizeT) : Nat → Except Fault BTreeNode
  | 0 => .ok b
  | count + 1 => do
      match ← b.getKey (i - 1) with
      | .error _ => throw .nullPointer
      | .ok temp =>
          let (_, b) ← b.setKey i temp
          shiftKeys b (i - 1) count

def shiftKeyVals (b : BTreeNode) (i : SizeT) : Nat → Except Fault BTreeNode
  | 0 => .ok b
  | count + 1 => do
      match ← b.getKeyVal (i - 1) with
      | .error _ => throw .nullPointer
      | .ok temp =>
          let (_, b) ← b.setKeyVal i temp
          shiftKeyVals b (i - 1) count

/-- The loop of both branches with room, with the shift that the branch makes. The
result of `Update` is ignored. The slot the shift starts with does not exist yet, so
what the source does after a shift is never reached. -/
def insertScan (shift : BTreeNode → SizeT → Nat → Except Fault BTreeNode) (b : BTreeNode)
    (key : KeyT) (offset : SizeT) : Nat → Except Fault (ErrorT × BTreeNode)
  | 0 => .ok (.noError, b)
  | count + 1 => do
      match ← b.getKey offset with
      | .error rc => return (rc, b)
      | .ok testkey =>
          if ← testkey.eq key then insertScan shift b key (offset + 1) count
          else if decide (offset = b.info.numkeys - 1) || (← testkey.lt key) then
            let b ← shift b b.info.numkeys (b.info.numkeys.toNat - offset.toNat)
            insertScan shift b key (offset + 1) count
          else insertScan shift b key (offset + 1) count

/-- The branches without room: the copy of the node is cleared by a `memcpy` from the
null pointer, whether or not a block could be allocated. -/
def insertSplit (u : Memory) (t : BTreeIndex) : Except Fault (ErrorT × BTreeIndex) := do
  let _ ← t.allocateNode u
  throw .nullPointer

/-- One case of the `switch`; the code is zero when control falls through to the next. -/
def insertCase (u : Memory) (shift : BTreeNode → SizeT → Nat → Except Fault BTreeNode)
    (slots : SizeT) (t : BTreeIndex) (b : BTreeNode) (key : KeyT) :
    Except Fault (ErrorT × BTreeNode) := do
  if 0 < (slots - b.info.numkeys).toInt then insertScan shift b key 0 b.info.numkeys.toNat
  else
    let (rc, _) ← insertSplit u t
    return (rc, b)

/-- The error code of the lookup is taken for the number of the block to insert into. -/
def insert (u : Memory) (fuel : Nat) (t : BTreeIndex) (key : KeyT) (_value : ValueT) :
    Except Fault (ErrorT × BTreeIndex) := do
  let (found, _, t) ← t.lookup u fuel key
  let nodeAddress := BitVec.ofInt 32 found.code
  let (rc, b, c) ← (BTreeNode.default u.info).unserialize t.buffercache nodeAddress
  let t := { t with buffercache := c }
  if rc ≠ .noError then return (rc, t)
  let (rc, b) ← if b.info.Interior then
      insertCase u shiftKeys b.info.getNumSlotsAsInterior t b key
    else .ok (.noError, b)
  if rc ≠ .noError then return (rc, t)
  let (rc, _) ← if b.info.Interior ∨ b.info.nodetype = btreeLeafNode then do
      insertCase u shiftKeyVals (← b.info.getNumSlotsAsLeaf) t b key
    else .ok (.noError, b)
  if rc ≠ .noError then return (rc, t)
  return (.insane, t)

/-! ## Display -/

def printPtrs (b : BTreeNode) (offset : SizeT) : Nat → Except Fault (ErrorT × List ByteT)
  | 0 => do
      match ← b.getPtr offset with
      | .error rc => return (rc, [])
      | .ok ptr => return (.noError, text s!"*{ptr.toNat} ")
  | count + 1 => do
      match ← b.getPtr offset with
      | .error rc => return (rc, [])
      | .ok ptr =>
          let o := text s!"*{ptr.toNat} "
          match ← b.getKey offset with
          | .error rc => return (rc, o)
          | .ok key =>
              let (rc, o') ← printPtrs b (offset + 1) count
              return (rc, o ++ key.data ++ text " " ++ o')

def printPairs (b : BTreeNode) (dt : BTreeDisplayType) (offset : SizeT) :
    Nat → Except Fault (ErrorT × List ByteT)
  | 0 => .ok (.noError, [])
  | count + 1 => do
      let (rc, o) ← if offset = 0 then do
          match ← b.getPtr offset with
          | .error rc => .ok (rc, [])
          | .ok ptr => .ok (.noError, if dt = .sortedKeyval then [] else text s!"*{ptr.toNat} ")
        else .ok (.noError, [])
      if rc ≠ .noError then return (rc, o)
      let o := if dt = .sortedKeyval then o ++ text "(" else o
      match ← b.getKey offset with
      | .error rc => return (rc, o)
      | .ok key =>
          let o := o ++ key.data ++ text (if dt = .sortedKeyval then "," else " ")
          match ← b.getVal offset with
          | .error rc => return (rc, o)
          | .ok value =>
              let o := o ++ value.data ++ text (if dt = .sortedKeyval then ")\n" else " ")
              let (rc, o') ← printPairs b dt (offset + 1) count
              return (rc, o ++ o')

def printNode (nodenum : SizeT) (b : BTreeNode) (dt : BTreeDisplayType) :
    Except Fault (ErrorT × List ByteT) := do
  let start := match dt with
    | .depthDot => text s!"{nodenum.toNat} [ label=\"{nodenum.toNat}: "
    | .depth => text s!"{nodenum.toNat}: "
    | .sortedKeyval => []
  let (rc, o) ← if b.info.Interior then
      if dt = .sortedKeyval then .ok (.noError, start)
      else do
        let (rc, o) ← printPtrs b 0 b.info.numkeys.toNat
        .ok (rc, start ++ (if dt = .depthDot then [] else text "Interior: ") ++ o)
    else if b.info.nodetype = btreeLeafNode then do
      let (rc, o) ← printPairs b dt 0 b.info.numkeys.toNat
      .ok (rc, start ++ (if dt = .depth then text "Leaf: " else []) ++ o)
    else if dt = .depthDot then .ok (.noError, start ++ text s!"Unknown({b.info.nodetype.toInt})")
    else .ok (.noError, start ++ text s!"Unsupported Node Type {b.info.nodetype.toInt}")
  if rc ≠ .noError then return (rc, o)
  return (.noError, if dt = .depthDot then o ++ text "\" ]" else o)

/-- The loop over the pointers of a node from `offset`, `count` of them after the
first; `display` shows one subtree. -/
def displayPtrs (display : BufferCache → SizeT → Except Fault (ErrorT × List ByteT × BufferCache))
    (dt : BTreeDisplayType) (node : SizeT) (b : BTreeNode) (c : BufferCache) (offset : SizeT)
    (count : Nat) : Except Fault (ErrorT × List ByteT × BufferCache) := do
  match ← b.getPtr offset with
  | .error rc => return (rc, [], c)
  | .ok ptr =>
      let o := if dt = .depthDot then text s!"{node.toNat} -> {ptr.toNat};\n" else []
      let (rc, o', c) ← display c ptr
      if rc ≠ .noError then return (rc, o ++ o', c)
      match count with
      | 0 => return (.noError, o ++ o', c)
      | count + 1 =>
          let (rc, o'', c) ← displayPtrs display dt node b c (offset + 1) count
          return (rc, o ++ o' ++ o'', c)

def displayInternal (u : Memory) (dt : BTreeDisplayType) :
    Nat → BufferCache → SizeT → Except Fault (ErrorT × List ByteT × BufferCache)
  | 0, _, _ => .error .outOfFuel
  | fuel + 1, c, node => do
      let (rc, b, c) ← (BTreeNode.default u.info).unserialize c node
      if rc ≠ .noError then return (rc, [], c)
      let (rc, o) ← printNode node b dt
      if rc ≠ .noError then return (rc, o, c)
      let o := if dt = .depthDot then o ++ text ";" else o
      let o := if dt = .sortedKeyval then o else o ++ endl
      if b.info.Interior then
        if b.info.numkeys > 0 then
          let (rc, o', c) ←
            displayPtrs (displayInternal u dt fuel) dt node b c 0 b.info.numkeys.toNat
          return (rc, o ++ o', c)
        else return (.noError, o, c)
      else if b.info.nodetype = btreeLeafNode then return (.noError, o, c)
      else if dt = .depthDot then return (.insane, o, c)
      else return (.insane, o ++ text s!"Unsupported Node Type {b.info.nodetype.toInt}", c)

/-- The code of the traversal is not returned. -/
def display (u : Memory) (fuel : Nat) (t : BTreeIndex) (dt : BTreeDisplayType) :
    Except Fault (ErrorT × List ByteT × BTreeIndex) := do
  let (_, o, c) ← displayInternal u dt fuel t.buffercache t.superblock.info.rootnode
  let o := if dt = .depthDot then text "digraph tree \x7b \n" ++ o ++ text "\x7d\n" else o
  return (.noError, o, { t with buffercache := c })

def sanityCheck (_t : BTreeIndex) : ErrorT := .unimpl

end BTreeIndex
end BTreeLab
