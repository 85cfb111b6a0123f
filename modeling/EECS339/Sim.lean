import EECS339.BTree
import EECS339.RefImpl

/-!
# The driver `sim`

`sim.cc`: one request line after the other, over one buffer cache. What is printed
to standard output is kept, what goes to standard error is not.
-/
namespace BTreeLab
open Tokens BTreeIndex

/-- `btree` points to an index only between `INIT` and `DEINIT`. -/
inductive Sim where
  | noIndex (cache : BufferCache)
  | index (btree : BTreeIndex)

namespace Sim

def cache : Sim → BufferCache
  | .noIndex c => c
  | .index t => t.buffercache

/-- `fgets(line, 8192, file)` into 1024 bytes, which the terminating null must fit as
well. -/
def fgets (line : Line) : Except Fault Line :=
  if line.length < 1024 then .ok line else .error .outOfBounds

/-- The string of the buffer ends at its first null; then three words are read. -/
def parse (line : Line) : List ByteT × List ByteT × List ByteT :=
  let line2 := line.takeWhile fun b => b ≠ 0
  let (action, rest) := token isSpace line2
  let (key, rest) := token isSpace rest
  let (value, _) := token isSpace rest
  (action, key, value)

def digit (b : ByteT) : Option Nat := if 48 ≤ b ∧ b ≤ 57 then some (b.toNat - 48) else none

def digits (acc : Nat) : List ByteT → Nat
  | [] => acc
  | b :: bs =>
      match digit b with
      | none => acc
      | some d => digits (10 * acc + d) bs

/-- The value of a word without leading white space, converted to a `SIZE_T`. -/
def atoi : List ByteT → SizeT
  | 45 :: bs => BitVec.ofInt 32 (-(digits 0 bs : Int))
  | 43 :: bs => BitVec.ofNat 32 (digits 0 bs)
  | bs => BitVec.ofNat 32 (digits 0 bs)

def answer (rc : ErrorT) : List ByteT := if rc ≠ .noError then text "FAIL\n" else text "OK\n"

/-- The index of a request; there is none before `INIT`. -/
def getIndex : Sim → Except Fault BTreeIndex
  | .noIndex _ => .error .nullPointer
  | .index t => .ok t

/-- One turn of the main loop: what it prints and leaves. -/
def simLine (u : Memory) (fuel : Nat) (s : Sim) (line : Line) :
    Except Fault (List ByteT × Sim) := do
  let (action, key, value) := parse (← fgets line)
  match Action.ofWord action with
  | .init =>
      let (rc, t) ← (BTreeIndex.make u (atoi key) (atoi value) s.cache).attach u 0 true
      return (answer rc, .index t)
  | .insert =>
      let (rc, t) ← (← s.getIndex).insert u fuel (Block.ofBytes key) (Block.ofBytes value)
      return (answer rc, .index t)
  | .update =>
      let (rc, t) := (← s.getIndex).update (Block.ofBytes key) (Block.ofBytes value)
      return (answer rc, .index t)
  | .delete =>
      let (rc, t) := (← s.getIndex).delete (Block.ofBytes key)
      return (answer rc, .index t)
  | .lookup =>
      let (rc, value, t) ← (← s.getIndex).lookup u fuel (Block.ofBytes key)
      if rc ≠ .noError then return (text "FAIL\n", .index t)
      else return (text "OK " ++ (value.map Block.data).getD [] ++ endl, .index t)
  | .display =>
      let (_, o, t) ← (← s.getIndex).display u fuel .sortedKeyval
      return (text "OK BEGIN DISPLAY\n" ++ o ++ text "OK END DISPLAY\n", .index t)
  | .deinit =>
      let (rc, t) ← (← s.getIndex).detach u
      if rc ≠ .noError then return (text "FAIL\n", .index t)
      let (rc, c) ← t.buffercache.detach
      if rc ≠ .noError then return (text "FAIL\n", .index { t with buffercache := c })
      else return (text "OK\n", .noIndex c)
  | .unknown => return ([], s)

end Sim
end BTreeLab
