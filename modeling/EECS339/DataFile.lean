import EECS339.DiskArray

/-!
# Reading past the end of the data file

The data file grows only as blocks are used: the first read of a block extends it. The
new length is a 32-bit sum.
-/
namespace BTreeLab
namespace DiskSystem

variable {d : DiskSystem} {n : SizeT}

/-- Reading block `n` returns all of its bytes, zeros where the file has ended, and
changes no byte that the file had. -/
structure ReadsHarmlessly (d : DiskSystem) (n : SizeT) : Prop where
  returns : (myread d.datafile (d.blockPos n) d.blocksize true).1.length = d.blocksize.toNat
  fills : (myread d.datafile (d.blockPos n) d.blocksize true).1 =
    d.datafile.content (d.blockPos n).toNat d.blocksize.toNat
  kept : ∀ i, i < d.datafile.size →
    i < (myread d.datafile (d.blockPos n) d.blocksize true).2.size ∧
      (myread d.datafile (d.blockPos n) d.blocksize true).2.byte i = d.datafile.byte i

theorem Reach.readsHarmlessly (reach : d.Reach n) : d.ReadsHarmlessly n := by
  obtain ⟨f, hread, file⟩ := myread_ok reach
  refine ⟨?_, ?_, fun i inside => ?_⟩ <;> rw [hread]
  · exact ByteFile.content_length _ _ _
  · exact ⟨lt_of_lt_of_le inside file.size,
      ByteFile.byte_of_content_eq (file.content i 1) le_rfl (Nat.lt_succ_self i)⟩

/-- A read is harmless exactly if its end lies below 2^32 or inside the file. -/
theorem readsHarmlessly_iff (d : DiskSystem) (n : SizeT) : d.ReadsHarmlessly n ↔ d.Reach n := by
  refine ⟨fun h => ?_, Reach.readsHarmlessly⟩
  by_contra past
  simp only [Reach, not_or, not_lt, not_le] at past
  have nothing := h.returns
  rw [myread_wraps past.2 past.1, List.length_nil] at nothing
  have pos := (d.blockPos n).isLt
  omega

/-- The only block of this disk ends 512 bytes behind 2^32. -/
def lastConfig : DiskConfig := ⟨0xfffffe00, 1, 1024, 1, 1, 1, 100, 10, 28 / 100⟩

/-- A read of it cuts a data file of a thousand bytes down to 512. -/
theorem read_cuts_the_file : sanityCheckConfig lastConfig = .noError ∧
    (0 : SizeT) < lastConfig.numblocks ∧
    (myread (ByteFile.empty.truncate 1000) ((make .small lastConfig ByteFile.empty).blockPos 0) 1024
      true).2.size = 512 ∧
    ¬ (make .small lastConfig (ByteFile.empty.truncate 1000)).ReadsHarmlessly 0 := by
  have short : (ByteFile.empty.truncate 1000).size < (0xfffffe00 : SizeT).toNat + (1024 : SizeT).toNat := by
    decide
  have start : (make .small lastConfig ByteFile.empty).blockPos 0 = 0xfffffe00 := by decide
  refine ⟨by norm_num [sanityCheckConfig, lastConfig], by decide, ?_, fun h => ?_⟩
  · rw [start, myread, myreadFrom_short short (by decide),
      myreadFrom_eof false [] (by decide) (by rw [ByteFile.truncate_size]; decide)]
    rfl
  · have nothing := h.returns
    have empty : (myread (ByteFile.empty.truncate 1000) 0xfffffe00 1024 true).1 = [] :=
      myread_wraps short (by decide)
    change (myread (ByteFile.empty.truncate 1000) ((make .small lastConfig ByteFile.empty).blockPos 0) 1024
      true).1.length = _ at nothing
    rw [start, empty] at nothing
    cases nothing

end DiskSystem
end BTreeLab
