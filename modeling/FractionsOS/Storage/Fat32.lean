import FractionsOS.Library.MemoryRegions
import FractionsOS.Storage.Ata

/-!
# Mounting a FAT32 volume

The static variables of `fat32.c` lie anywhere in memory, apart from each other.
`fat32_init` has a whole sector read to where `bs` lies, which is shorter than a
sector, and looks at the signature afterwards.
-/

namespace FractionsOS.Fat32

open Library.MemoryRegions Library.PortPrograms Library.StackMemory Ata

set_option autoImplicit false

def bootSectorFields : List (String × Nat) :=
  [("jump", 3), ("oem", 8), ("bytes_per_sector", 2), ("sectors_per_cluster", 1),
    ("reserved_sectors", 2), ("fat_count", 1), ("root_entries", 2), ("total_sectors16", 2),
    ("media_type", 1), ("sectors_per_fat16", 2), ("sectors_per_track", 2), ("head_count", 2),
    ("hidden_sectors", 4), ("total_sectors32", 4), ("sectors_per_fat", 4), ("flags", 2),
    ("version", 2), ("root_cluster", 4), ("fs_info_sector", 2), ("backup_boot_sector", 2),
    ("reserved", 12), ("drive_number", 1), ("nt_flags", 1), ("signature", 1), ("volume_id", 4),
    ("volume_label", 11), ("fs_type", 8)]

def bootSectorBytes : Nat := (bootSectorFields.map Prod.snd).sum

def fieldOffset (field : String) : Nat :=
  ((bootSectorFields.takeWhile fun entry => entry.1 ≠ field).map Prod.snd).sum

def fieldSize (field : String) : Nat := (bootSectorFields.lookup field).getD 0

theorem boot_sector_bytes : bootSectorBytes = 90 := by decide

theorem fs_type_offset : fieldOffset "fs_type" = 82 := by decide

def fat32Signature : List UInt8 := [0x46, 0x41, 0x54, 0x33, 0x32, 0x20, 0x20, 0x20]

inductive Static where
  | bs
  | fatBeginLba
  | dataBeginLba
  | sectorsPerCluster
  | currentDrive
  deriving DecidableEq, Repr

def Static.size : Static → Nat
  | .bs => bootSectorBytes
  | .fatBeginLba => 4
  | .dataBeginLba => 4
  | .sectorsPerCluster => 4
  | .currentDrive => 1

/-- Where the linker puts the static variables. -/
structure Layout where
  base : Static → UInt32
  disjoint : ∀ left right, left ≠ right → ∀ address,
    InRegion (base left) left.size address → ¬InRegion (base right) right.size address

def bootField (layout : Layout) (memory : Memory) (field : String) : UInt32 :=
  UInt32.ofNat (loadNumber memory (byteAddress (layout.base .bs) (fieldOffset field))
    (fieldSize field))

def fsType (layout : Layout) (memory : Memory) : List UInt8 :=
  (List.range (fieldSize "fs_type")).map fun i =>
    memory (byteAddress (layout.base .bs) (fieldOffset "fs_type" + i))

def wordBytes (words : List UInt16) : List UInt8 :=
  words.flatMap fun word : UInt16 => [word.toUInt8, (word >>> 8).toUInt8]

/-- Memory after `current_drive = drive` and the transfer of the sector to `bs`. -/
def sectorStored (layout : Layout) (drive : UInt8) (words : List UInt16) (memory : Memory) :
    Memory :=
  storeBytes (storeBytes memory (layout.base .currentDrive) [drive]) (layout.base .bs)
    (wordBytes words)

def geometryStored (layout : Layout) (memory : Memory) : Memory :=
  let memory := storeWord memory (layout.base .sectorsPerCluster)
    (bootField layout memory "sectors_per_cluster")
  let memory := storeWord memory (layout.base .fatBeginLba)
    (bootField layout memory "reserved_sectors")
  storeWord memory (layout.base .dataBeginLba)
    (loadWord memory (layout.base .fatBeginLba) +
      bootField layout memory "fat_count" * bootField layout memory "sectors_per_fat")

/-- `fat32_init` on a drive that gives the words of its first sector. -/
def mount (layout : Layout) (drive : UInt8) (words : List UInt16) (memory : Memory) :
    Bool × Memory :=
  let memory := sectorStored layout drive words memory
  if fsType layout memory ≠ fat32Signature then (false, memory)
  else (true, geometryStored layout memory)

def fat32Init (layout : Layout) (drive : UInt8) (memory : Memory) :
    PortProgram (Bool × Memory) := do
  let words ← ataReadSectors drive 0 1
  return mount layout drive words memory

def clusterToLba (layout : Layout) (memory : Memory) (cluster : UInt32) : UInt32 :=
  loadWord memory (layout.base .dataBeginLba) +
    (cluster - 2) * loadWord memory (layout.base .sectorsPerCluster)

structure MountCall where
  drive : UInt8
  sector : List UInt16
  whole : sector.length = 256

def MountCall.bytes (call : MountCall) : List UInt8 := wordBytes call.sector

theorem word_bytes_length (words : List UInt16) : (wordBytes words).length = 2 * words.length := by
  induction words with
  | nil => rfl
  | cons word words induction =>
      change ([word.toUInt8, (word >>> 8).toUInt8] ++ wordBytes words).length = _
      rw [List.length_append, induction]
      change 2 + 2 * words.length = 2 * (words.length + 1)
      omega

theorem MountCall.bytes_length (call : MountCall) : call.bytes.length = 512 := by
  rw [MountCall.bytes, word_bytes_length, call.whole]

theorem read_sectors_length (drive : UInt8) (lba : UInt32) (count : UInt8) :
    Yields (ataReadSectors drive lba count) fun words => words.length = 256 * count.toNat := by
  unfold ataReadSectors
  iterate 9
    refine yields_bind (yields_any _) fun _ _ => ?_
  exact yields_insw ataData (256 * count.toNat)

/-- Whatever the device, a call that returns is one that finds some sector. -/
theorem fat32_init_mounts (layout : Layout) (drive : UInt8) (memory : Memory) :
    Yields (fat32Init layout drive memory) fun result =>
      ∃ call : MountCall, call.drive = drive ∧ result = mount layout drive call.sector memory := by
  refine yields_bind (read_sectors_length drive 0 1) fun words whole => ?_
  exact yields_pure ⟨⟨drive, words, whole⟩, rfl, rfl⟩

end FractionsOS.Fat32
