import EECS339.BufferCache

/-!
# Nodes of the tree

`btree_ds.cc`: the metadata record, nodes, their images in blocks, and the
accessors. `sizeof` and pointers are 64 bits wide, a `SIZE_T` is 32, so slot
counts and interior offsets are computed in 64 bits and leaf offsets in 32.
-/
namespace BTreeLab
open Words

abbrev KeyT := Block
abbrev ValueT := Block

def btreeUnallocatedBlock : BitVec 32 := 0
def btreeSuperblock : BitVec 32 := 1
def btreeRootNode : BitVec 32 := 2
def btreeInteriorNode : BitVec 32 := 3
def btreeLeafNode : BitVec 32 := 4

structure NodeMetadata where
  nodetype : BitVec 32
  keysize : SizeT
  valuesize : SizeT
  blocksize : SizeT
  rootnode : SizeT
  freelist : SizeT
  numkeys : SizeT
  deriving DecidableEq

namespace NodeMetadata

def sizeof : Nat := 28

def bytes (m : NodeMetadata) : List ByteT :=
  wordBytes m.nodetype ++ (wordBytes m.keysize ++ (wordBytes m.valuesize ++
    (wordBytes m.blocksize ++ (wordBytes m.rootnode ++ (wordBytes m.freelist ++ wordBytes m.numkeys)))))

/-- The record at the start of a buffer. -/
def ofBytes (bs : List ByteT) : Option NodeMetadata := do
  let (nodetype, bs) ← takeWord bs
  let (keysize, bs) ← takeWord bs
  let (valuesize, bs) ← takeWord bs
  let (blocksize, bs) ← takeWord bs
  let (rootnode, bs) ← takeWord bs
  let (freelist, bs) ← takeWord bs
  let (numkeys, _) ← takeWord bs
  return ⟨nodetype, keysize, valuesize, blocksize, rootnode, freelist, numkeys⟩

def getNumDataBytes (m : NodeMetadata) : SizeT := m.blocksize - 28

def getNumSlotsAsInterior (m : NodeMetadata) : SizeT :=
  ((m.getNumDataBytes.setWidth 64 - 4) / (m.keysize.setWidth 64 + 4)).setWidth 32

def getNumSlotsAsLeaf (m : NodeMetadata) : Except Fault SizeT :=
  if m.keysize + m.valuesize = 0 then .error .divisionByZero
  else .ok (((m.getNumDataBytes.setWidth 64 - 4) / (m.keysize + m.valuesize).setWidth 64).setWidth 32)

def Blank (m : NodeMetadata) : Prop :=
  m.nodetype = btreeUnallocatedBlock ∨ m.nodetype = btreeSuperblock

instance (m : NodeMetadata) : Decidable m.Blank := inferInstanceAs (Decidable (_ ∨ _))

def Interior (m : NodeMetadata) : Prop :=
  m.nodetype = btreeInteriorNode ∨ m.nodetype = btreeRootNode

instance (m : NodeMetadata) : Decidable m.Interior := inferInstanceAs (Decidable (_ ∨ _))

@[simp] theorem bytes_length (m : NodeMetadata) : m.bytes.length = sizeof := rfl

@[simp] theorem ofBytes_append (m : NodeMetadata) (rest : List ByteT) :
    ofBytes (m.bytes ++ rest) = some m := by
  simp only [ofBytes, bytes, List.append_assoc, takeWord_append, Option.bind_eq_bind,
    Option.bind_some]
  rfl

end NodeMetadata

/-- `data` is null or points to an array. -/
structure BTreeNode where
  info : NodeMetadata
  data : Option (List ByteT)
  deriving DecidableEq

/-- A value that exists unless the access that yields it is out of bounds. -/
def inBounds {α : Type} : Option α → Except Fault α
  | none => .error .outOfBounds
  | some a => .ok a

namespace BTreeNode

/-- `BTreeNode()`: only the type is set, the other fields are what memory holds. -/
def default (memory : NodeMetadata) : BTreeNode :=
  ⟨{ memory with nodetype := btreeUnallocatedBlock }, none⟩

def make (nodeType : BitVec 32) (keySize valueSize blockSize : SizeT) : BTreeNode :=
  let info : NodeMetadata := ⟨nodeType, keySize, valueSize, blockSize, 0, 0, 0⟩
  ⟨info, if info.Blank then none else some (List.replicate info.getNumDataBytes.toNat 0)⟩

/-- The assignment `info.freelist = head`. -/
def withFreelist (n : BTreeNode) (head : SizeT) : BTreeNode :=
  ⟨{ n.info with freelist := head }, n.data⟩

/-- The block that `Serialize` fills; `fresh` is what its array holds before. -/
def toBlock (fresh : Nat → ByteT) (n : BTreeNode) : Except Fault Block := do
  let size : SizeT := 28 + n.info.getNumDataBytes
  let block := Block.ofSize size.toNat fresh
  let filled ← inBounds (putBytes block.data 0 n.info.bytes)
  if n.info.Blank then return { block with data := filled }
  match n.data with
  | none => throw .nullPointer
  | some d =>
      let d ← inBounds (bytesAt d 0 n.info.getNumDataBytes.toNat)
      let filled ← inBounds (putBytes filled NodeMetadata.sizeof d)
      return { block with data := filled }

def serialize (fresh : Nat → ByteT) (n : BTreeNode) (b : BufferCache) (blocknum : SizeT) :
    Except Fault (ErrorT × BufferCache) := do
  if n.info.blocksize ≠ b.getBlockSize then throw .assertion
  let block ← n.toBlock fresh
  b.writeBlock blocknum block

/-- The node that `Unserialize` makes of the bytes of a block. -/
def ofBytes (blocksize : SizeT) (bs : List ByteT) : Except Fault BTreeNode := do
  let info ← inBounds (NodeMetadata.ofBytes bs)
  if blocksize ≠ info.blocksize then throw .assertion
  if info.Blank then return ⟨info, none⟩
  let data ← inBounds (bytesAt bs NodeMetadata.sizeof info.getNumDataBytes.toNat)
  return ⟨info, some data⟩

/-- On a read error the node stays as it was. -/
def unserialize (n : BTreeNode) (b : BufferCache) (blocknum : SizeT) :
    Except Fault (ErrorT × BTreeNode × BufferCache) := do
  let (rc, block, b) ← b.readBlock blocknum
  if rc ≠ .noError then return (rc, n, b)
  match block with
  | none => throw .nullPointer
  | some block =>
      let n ← ofBytes b.getBlockSize block.data
      return (.noError, n, b)

/-! ## Accessors

The `Resolve` functions yield a position in `data`, or none for a null pointer;
a failed `assert` ends the program. -/

def pointer (n : BTreeNode) (pos : Nat) : Option Nat :=
  if n.data = none ∧ pos = 0 then none else some pos

def resolveKey (n : BTreeNode) (offset : SizeT) : Except Fault (Option Nat) :=
  if n.info.Interior then
    if offset < n.info.numkeys then
      .ok (n.pointer ((4 + offset.toNat * (4 + n.info.keysize.toNat)) % 2 ^ 64))
    else .error .assertion
  else if n.info.nodetype = btreeLeafNode then
    if offset < n.info.numkeys then
      .ok (n.pointer (4 + (offset * (n.info.keysize + n.info.valuesize)).toNat))
    else .error .assertion
  else .ok none

def resolvePtr (n : BTreeNode) (offset : SizeT) : Except Fault (Option Nat) :=
  if n.info.Interior then
    if offset ≤ n.info.numkeys then
      .ok (n.pointer ((offset.toNat * (4 + n.info.keysize.toNat)) % 2 ^ 64))
    else .error .assertion
  else if n.info.nodetype = btreeLeafNode then
    if offset = 0 then .ok (n.pointer 0) else .error .assertion
  else .ok none

def resolveVal (n : BTreeNode) (offset : SizeT) : Except Fault (Option Nat) :=
  if n.info.nodetype = btreeLeafNode then
    if offset < n.info.numkeys then
      .ok (n.pointer (4 + (offset * (n.info.keysize + n.info.valuesize)).toNat + n.info.keysize.toNat))
    else .error .assertion
  else .ok none

/-- The `len` bytes behind a pointer, or `ERROR_NOMEM` when it is null. -/
def fetch (n : BTreeNode) (p : Option Nat) (len : Nat) : Except Fault (Except ErrorT (List ByteT)) :=
  match p, n.data with
  | none, _ => .ok (.error .noMem)
  | some _, none => .error .nullPointer
  | some p, some d => (inBounds (bytesAt d p len)).map .ok

def getKey (n : BTreeNode) (offset : SizeT) : Except Fault (Except ErrorT KeyT) := do
  let bs ← n.fetch (← n.resolveKey offset) n.info.keysize.toNat
  return bs.map Block.ofBytes

def getPtr (n : BTreeNode) (offset : SizeT) : Except Fault (Except ErrorT SizeT) := do
  match ← n.fetch (← n.resolvePtr offset) 4 with
  | .error rc => return .error rc
  | .ok bs => return .ok (← inBounds (wordOfBytes bs))

def getVal (n : BTreeNode) (offset : SizeT) : Except Fault (Except ErrorT ValueT) := do
  let bs ← n.fetch (← n.resolveVal offset) n.info.valuesize.toNat
  return bs.map Block.ofBytes

def getKeyVal (n : BTreeNode) (offset : SizeT) : Except Fault (Except ErrorT (KeyT × ValueT)) := do
  match ← n.getKey offset with
  | .error rc => return .error rc
  | .ok key => return (← n.getVal offset).map fun value => (key, value)

def assign (n : BTreeNode) (p : Option Nat) (src : List ByteT) (len : Nat) :
    Except Fault (ErrorT × BTreeNode) :=
  match p, n.data with
  | none, _ => .ok (.noMem, n)
  | some _, none => .error .nullPointer
  | some p, some d => do
      let bs ← inBounds (bytesAt src 0 len)
      let d ← inBounds (putBytes d p bs)
      return (.noError, { n with data := some d })

def setKey (n : BTreeNode) (offset : SizeT) (k : KeyT) : Except Fault (ErrorT × BTreeNode) := do
  n.assign (← n.resolveKey offset) k.data n.info.keysize.toNat

def setPtr (n : BTreeNode) (offset : SizeT) (ptr : SizeT) : Except Fault (ErrorT × BTreeNode) := do
  n.assign (← n.resolvePtr offset) (wordBytes ptr) 4

def setVal (n : BTreeNode) (offset : SizeT) (v : ValueT) : Except Fault (ErrorT × BTreeNode) := do
  n.assign (← n.resolveVal offset) v.data n.info.valuesize.toNat

def setKeyVal (n : BTreeNode) (offset : SizeT) (p : KeyT × ValueT) :
    Except Fault (ErrorT × BTreeNode) := do
  let (rc, n) ← n.setKey offset p.1
  if rc ≠ .noError then return (rc, n)
  n.setVal offset p.2

end BTreeNode
end BTreeLab
