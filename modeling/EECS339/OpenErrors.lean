import EECS339.BitmapFile
import EECS339.ConfigFile

/-!
# A disk that could not be opened

The constructor of `DiskSystem` drops the error of its `Init` function, and the destructor
writes to and closes the three files in any case.
-/
namespace BTreeLab
open ConfigFile

/-- A file, whether `fopen` is allowed to open or create it, and whether the handle on it
is not null. -/
structure Slot (α : Type) where
  content : Option α
  granted : Bool
  handle : Bool

namespace Slot

variable {α : Type}

/-- Mode `r+`. -/
def openOld (s : Slot α) : Slot α := { s with handle := s.granted && s.content.isSome }

/-- Mode `w+`, which leaves a file that is empty. -/
def openNew (s : Slot α) (empty : α) : Slot α :=
  if s.granted then ⟨some empty, true, true⟩ else { s with handle := false }

def fclose (s : Slot α) : Except Fault (Slot α) :=
  if s.handle then .ok { s with handle := false } else .error .nullPointer

end Slot

/-- The object, without the position of the head, and its three files. -/
structure DiskFiles where
  machine : Machine
  diskfilestem : Text
  config : DiskConfig
  bitmap : Option (List ByteT)
  configfile : Slot Text
  bitmapfile : Slot ByteFile
  datafile : Slot ByteFile

namespace DiskFiles

def writeConfig (o : DiskFiles) : Except Fault DiskFiles :=
  if o.configfile.handle then
    .ok { o with configfile := { o.configfile with
      content := some (ConfigFile.writeConfig o.diskfilestem o.config) } }
  else .error .nullPointer

/-- The disk as the functions on the bitmap see it. -/
def disk (o : DiskFiles) : DiskSystem :=
  { DiskSystem.make o.machine o.config ByteFile.empty with bitmap := o.bitmap.getD [] }

def writeBitMap (o : DiskFiles) : Except Fault (ErrorT × DiskFiles) :=
  if o.bitmapfile.handle then
    match o.disk.writeBitMap (o.bitmapfile.content.getD ByteFile.empty) with
    | .error e => .error e
    | .ok (rc, f) => .ok (rc, { o with bitmapfile := { o.bitmapfile with content := some f } })
  else .error .nullPointer

/-- The array is new, with the memory `u`. -/
def readBitMap (o : DiskFiles) (u : Nat → ByteT) : ErrorT × DiskFiles :=
  let (rc, d, f) := o.disk.readBitMap u (o.bitmapfile.content.getD ByteFile.empty)
  (rc, { o with bitmap := some d.bitmap, bitmapfile := { o.bitmapfile with content := some f } })

/-- `InitFromConfigFile`, with null handles before it. If `ReadConfig` never returns, no
fuel is enough. -/
def initFromConfigFile (o : DiskFiles) (buf : Text) (u : Nat → ByteT) : Except Fault (ErrorT × DiskFiles) :=
  let o := { o with configfile := o.configfile.openOld }
  if !o.configfile.handle then .ok (.noFile, o)
  else
    match readConfig buf (o.configfile.content.getD []) o.config with
    | none => .error .outOfFuel
    | some (diskfilestem, config) =>
        let o := { o with diskfilestem, config }
        if sanityCheckConfig config ≠ .noError then .ok (sanityCheckConfig config, o)
        else
          let o := { o with datafile := o.datafile.openOld }
          if !o.datafile.handle then .ok (.noFile, o)
          else
            let o := { o with bitmapfile := o.bitmapfile.openOld }
            if !o.bitmapfile.handle then .ok (.noFile, o) else .ok (o.readBitMap u)

/-- The end of `InitFromInMemoryConfig`: a data file that exists is used again. -/
def openData (o : DiskFiles) : ErrorT × DiskFiles :=
  let o := { o with
    datafile := if o.datafile.content.isSome then o.datafile.openOld
      else o.datafile.openNew ByteFile.empty }
  (if o.datafile.handle then .noError else .noFile, o)

/-- `InitFromInMemoryConfig`, with null handles before it. -/
def initFromInMemoryConfig (o : DiskFiles) : Except Fault (ErrorT × DiskFiles) :=
  if sanityCheckConfig o.config ≠ .noError then .ok (sanityCheckConfig o.config, o)
  else if o.configfile.content.isSome || o.bitmapfile.content.isSome then .ok (.badConfig, o)
  else
    let o := { o with configfile := o.configfile.openNew [] }
    if !o.configfile.handle then .ok (.noFile, o)
    else
      match o.writeConfig with
      | .error e => .error e
      | .ok o =>
          let o := { o with
            bitmap := some (List.replicate o.disk.numbitmapbytes.toNat 0)
            bitmapfile := o.bitmapfile.openNew ByteFile.empty }
          if !o.bitmapfile.handle then .ok (.noFile, o)
          else
            match o.writeBitMap with
            | .error e => .error e
            | .ok (rc, o) =>
                if rc ≠ .noError then .ok (rc, o) else .ok o.openData

/-- The constructor: what its `Init` function returns, and the object. -/
def construct (create : Bool) (o : DiskFiles) (buf : Text) (u : Nat → ByteT) :
    Except Fault (ErrorT × DiskFiles) :=
  if create then o.initFromInMemoryConfig else o.initFromConfigFile buf u

/-- The destructor. -/
def destroy (o : DiskFiles) : Except Fault DiskFiles := do
  let o ← o.writeConfig
  let (_, o) ← o.writeBitMap
  let configfile ← o.configfile.fclose
  let bitmapfile ← o.bitmapfile.fclose
  let datafile ← o.datafile.fclose
  return { o with configfile, bitmapfile, datafile }

/-- No handle is open and no bitmap allocated. -/
structure Fresh (o : DiskFiles) : Prop where
  configfile : o.configfile.handle = false
  bitmapfile : o.bitmapfile.handle = false
  datafile : o.datafile.handle = false
  bitmap : o.bitmap = none

/-- The files that there were are still what they were. -/
structure Kept (o o' : DiskFiles) : Prop where
  configfile : ∀ x, o.configfile.content = some x → o'.configfile.content = some x
  bitmapfile : ∀ x, o.bitmapfile.content = some x → o'.bitmapfile.content = some x
  datafile : ∀ x, o.datafile.content = some x → o'.datafile.content = some x

/-- The object can be destroyed, and all that was there before is unchanged. -/
def Harmless (before o : DiskFiles) : Prop := ∃ after, o.destroy = .ok after ∧ before.Kept after

/-! ## The destructor -/

variable {o o' before after : DiskFiles} {rc : ErrorT} {create : Bool} {buf : Text} {u : Nat → ByteT}

theorem fclose_ok {α : Type} {s s' : Slot α} (ran : s.fclose = .ok s') :
    s.handle = true ∧ s'.content = s.content := by
  unfold Slot.fclose at ran
  split_ifs at ran with opened
  cases ran
  exact ⟨opened, rfl⟩

theorem writeConfig_ok (ran : o.writeConfig = .ok o') :
    o'.disk = o.disk ∧ o'.bitmapfile = o.bitmapfile ∧ o'.datafile = o.datafile := by
  unfold writeConfig at ran
  split_ifs at ran
  cases ran
  exact ⟨rfl, rfl, rfl⟩

theorem writeBitMap_ok (ran : o.writeBitMap = .ok (rc, o')) :
    o.bitmapfile.handle = true ∧ o'.datafile = o.datafile ∧
      ∃ f, o.disk.writeBitMap (o.bitmapfile.content.getD ByteFile.empty) = .ok (rc, f) ∧
        o'.bitmapfile.content = some f := by
  unfold writeBitMap at ran
  split_ifs at ran with opened
  cases wrote : o.disk.writeBitMap (o.bitmapfile.content.getD ByteFile.empty) with
  | error e =>
      rw [wrote] at ran
      cases ran
  | ok r =>
      obtain ⟨rc1, f⟩ := r
      rw [wrote] at ran
      cases ran
      exact ⟨opened, rfl, f, rfl, rfl⟩

/-- It needs the handles, and leaves the bitmap in its file. -/
theorem destroy_ok (ran : o.destroy = .ok after) :
    o.bitmapfile.handle = true ∧ o.datafile.handle = true ∧
      ∃ rc f, o.disk.writeBitMap (o.bitmapfile.content.getD ByteFile.empty) = .ok (rc, f) ∧
        after.bitmapfile.content = some f := by
  unfold destroy at ran
  obtain ⟨o1, wrote, ran⟩ := Runs.bind_eq_ok ran
  obtain ⟨⟨rc, o2⟩, wrote', ran⟩ := Runs.bind_eq_ok ran
  obtain ⟨configfile1, -, ran⟩ := Runs.bind_eq_ok ran
  obtain ⟨bitmapfile1, closed, ran⟩ := Runs.bind_eq_ok ran
  obtain ⟨datafile1, closed', ran⟩ := Runs.bind_eq_ok ran
  cases ran
  obtain ⟨disk, bitmapfile, datafile⟩ := writeConfig_ok wrote
  obtain ⟨opened, datafile', f, bits, content⟩ := writeBitMap_ok wrote'
  rw [bitmapfile] at opened
  rw [disk, bitmapfile] at bits
  have data := (fclose_ok closed').1
  rw [datafile', datafile] at data
  exact ⟨opened, data, rc, f, bits, (fclose_ok closed).2.trans content⟩

/-! ## Where an error is returned -/

theorem openData_failed (ran : o.openData = (rc, o')) (failed : rc ≠ .noError) :
    o'.datafile.handle = false := by
  cases ran
  refine Bool.eq_false_of_not_eq_true fun opened => failed ?_
  exact if_pos opened

/-- No data file is open then. -/
theorem create_failed (fresh : o.Fresh) (ran : o.initFromInMemoryConfig = .ok (rc, o'))
    (failed : rc ≠ .noError) : o'.datafile.handle = false := by
  unfold initFromInMemoryConfig at ran
  dsimp only at ran
  split_ifs at ran with insane there closed
  · cases ran
    exact fresh.datafile
  · cases ran
    exact fresh.datafile
  · cases ran
    exact fresh.datafile
  · cases wrote : writeConfig { o with configfile := o.configfile.openNew [] } with
    | error e =>
        rw [wrote] at ran
        cases ran
    | ok o1 =>
        have data := (writeConfig_ok wrote).2.2
        rw [wrote] at ran
        dsimp only at ran
        split_ifs at ran with closed'
        · cases ran
          exact (congrArg Slot.handle data).trans fresh.datafile
        · split at ran
          · cases ran
          · rename_i rc1 o2 wrote'
            have data' := (writeBitMap_ok wrote').2.1
            split_ifs at ran with unwritten
            · cases ran
              exact (congrArg Slot.handle (data'.trans data)).trans fresh.datafile
            · exact openData_failed (Except.ok.inj ran) failed

/-- Without the second chance the file stays as it is. -/
theorem myread_short {f : ByteFile} {len : SizeT} (short : f.size < len.toNat) :
    ∃ buf : List ByteT, buf.length ≤ len.toNat ∧ myread f 0 len false = (buf, f) := by
  have more : len.toNat ≠ 0 := by omega
  have zero : (0 : SizeT).toNat = 0 := rfl
  by_cases some_ : 0 < f.size
  · refine ⟨f.read 0 len.toNat, ?_, ?_⟩
    · rw [ByteFile.read_length]
      exact min_le_left _ _
    · rw [myread, myreadFrom_some false [] more (by omega), myreadFrom_eof false _ (by omega) (by omega),
        if_neg Bool.false_ne_true, zero, Nat.sub_self, List.nil_append]
  · refine ⟨[], Nat.zero_le _, ?_⟩
    rw [myread, myreadFrom_eof false _ more (by omega), if_neg Bool.false_ne_true]

/-- A bitmap file that is too short fills the front of the array. -/
theorem readBitMap_failed {f : ByteFile} (content : o.bitmapfile.content = some f)
    (ran : o.readBitMap u = (rc, o')) (failed : rc ≠ .noError) : o'.bitmapfile.content = some f ∧
      f.size < o'.disk.numbitmapbytes.toNat ∧ o'.disk.bitmap.length = o'.disk.numbitmapbytes.toNat := by
  rw [DiskFiles.readBitMap, content, Option.getD_some] at ran
  have short : f.size < o.disk.numbitmapbytes.toNat := by
    by_contra enough
    rw [BitmapDisk.readBitMap_ok (not_lt.mp enough)] at ran
    cases ran
    exact failed rfl
  obtain ⟨buf, fewer, read⟩ := myread_short short
  rw [DiskSystem.readBitMap, read] at ran
  cases ran
  refine ⟨rfl, short, ?_⟩
  change (buf ++ _).length = o.disk.numbitmapbytes.toNat
  rw [List.length_append, List.length_map, List.length_range]
  exact Nat.add_sub_cancel' fewer

/-- The bitmap file is not open then, or it was too short. -/
theorem open_failed (fresh : o.Fresh) (ran : o.initFromConfigFile buf u = .ok (rc, o'))
    (failed : rc ≠ .noError) : o'.bitmapfile.handle = false ∨
      ∃ f, o.bitmapfile.content = some f ∧ o'.bitmapfile.content = some f ∧
        f.size < o'.disk.numbitmapbytes.toNat ∧ o'.disk.bitmap.length = o'.disk.numbitmapbytes.toNat := by
  unfold initFromConfigFile at ran
  dsimp only at ran
  split at ran
  · cases ran
    exact Or.inl fresh.bitmapfile
  split at ran
  · cases ran
  rename_i stem config _
  split at ran
  · cases ran
    exact Or.inl fresh.bitmapfile
  split at ran
  · cases ran
    exact Or.inl fresh.bitmapfile
  split at ran
  · rename_i closed
    cases ran
    exact Or.inl (by simpa using closed)
  · rename_i opened
    right
    obtain ⟨f, content⟩ : ∃ f, o.bitmapfile.content = some f := by
      rw [← Option.isSome_iff_exists]
      simp only [Slot.openOld, Bool.not_eq_true', Bool.not_eq_false, Bool.and_eq_true] at opened
      exact opened.2
    have kept : ({ o with
        diskfilestem := stem, config, configfile := o.configfile.openOld, datafile := o.datafile.openOld,
        bitmapfile := o.bitmapfile.openOld } : DiskFiles).bitmapfile.content = some f := content
    exact ⟨f, content, readBitMap_failed kept (Except.ok.inj ran) failed⟩

/-! ## After an error -/

/-- If the bitmap file was too short the destructor extends it; in every other case it
uses a handle that is null. -/
theorem failed_never_harmless (create : Bool) (o : DiskFiles) (buf : Text) (u : Nat → ByteT)
    (fresh : o.Fresh) (rc : ErrorT) (o' : DiskFiles) (ran : construct create o buf u = .ok (rc, o'))
    (failed : rc ≠ .noError) : ¬ o.Harmless o' := by
  rintro ⟨after, destroyed, kept⟩
  obtain ⟨bits, data, rc', g, wrote, content⟩ := destroy_ok destroyed
  cases create with
  | true =>
      have closed := create_failed fresh ran failed
      rw [closed] at data
      cases data
  | false =>
      rcases open_failed fresh ran failed with closed | ⟨f, old, same, short, length⟩
      · rw [closed] at bits
        cases bits
      · have left := kept.bitmapfile f old
        rw [content, Option.some.injEq] at left
        rw [same, Option.getD_some, DiskSystem.writeBitMap, mywrite_ok f 0 length] at wrote
        cases wrote
        have nonempty : o'.disk.bitmap ≠ [] := by
          rw [← List.length_pos_iff, length]
          exact (Nat.zero_le _).trans_lt short
        have grown := ByteFile.write_size_ge f (0 : SizeT).toNat o'.disk.bitmap nonempty
        rw [left, length] at grown
        exact absurd short (not_lt.mpr ((Nat.le_add_left _ _).trans grown))

/-- A call in a directory without any of the files. -/
def unopened (config : DiskConfig) : DiskFiles where
  machine := .small
  diskfilestem := "disk".toList
  config := config
  bitmap := none
  configfile := ⟨none, true, false⟩
  bitmapfile := ⟨none, true, false⟩
  datafile := ⟨none, true, false⟩

theorem unopened_fresh (config : DiskConfig) : (unopened config).Fresh := ⟨rfl, rfl, rfl, rfl⟩

open DiskSystem (smallConfig)

theorem failed_never_harmless_small :
    ¬ (unopened { smallConfig with numblocks := 63 }).Harmless
      (unopened { smallConfig with numblocks := 63 }) := by
  have mismatch : sanityCheckConfig { smallConfig with numblocks := 63 } = .badConfig := by
    rw [sanityCheckConfig, if_neg (by norm_num [smallConfig]), if_pos (by decide)]
  have ran : construct true (unopened { smallConfig with numblocks := 63 }) [] (fun _ => 0) =
      .ok (.badConfig, unopened { smallConfig with numblocks := 63 }) := by
    rw [construct, if_pos rfl, initFromInMemoryConfig]
    simp only [unopened, mismatch, ne_eq, reduceCtorEq, not_false_eq_true, if_true]
  exact failed_never_harmless true _ [] (fun _ => 0) (unopened_fresh _) .badConfig _ ran (by decide)

/-- There is no disk of that name, and the destructor starts with the configuration. -/
theorem missing_disk_not_harmless :
    (unopened smallConfig).Fresh ∧
      construct false (unopened smallConfig) [] (fun _ => 0) = .ok (.noFile, unopened smallConfig) ∧
      (unopened smallConfig).destroy = .error .nullPointer ∧
      ¬ (unopened smallConfig).Harmless (unopened smallConfig) := by
  have crashes : (unopened smallConfig).destroy = .error .nullPointer := rfl
  refine ⟨unopened_fresh _, rfl, crashes, ?_⟩
  rintro ⟨after, destroyed, -⟩
  rw [crashes] at destroyed
  cases destroyed

end DiskFiles
end BTreeLab
