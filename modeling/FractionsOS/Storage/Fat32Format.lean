import FractionsOS.Library.DataLayout
import FractionsOS.Library.PackedRecords
import FractionsOS.Storage.AtaPieces
import FractionsOS.Storage.Fat32Mounts

/-!
# Formatting and mounting

A boot sector written with `ata_write_sectors` is the one that `fat32_init` mounts, as
long as nothing else is written there in between. What the fields were when the record was
packed is what `bs` and the cached geometry hold afterwards.
-/

namespace FractionsOS.Fat32

open Library.BlockArrays Library.BlockHandshake Library.MemoryRegions Library.PackedRecords
open Library.PortPrograms Library.StackMemory Ata

set_option autoImplicit false

def bytesWords : List UInt8 → List UInt16
  | low :: high :: bytes => (low.toUInt16 ||| (high.toUInt16 <<< 8)) :: bytesWords bytes
  | _ => []

theorem word_low (low high : UInt8) : (low.toUInt16 ||| (high.toUInt16 <<< 8)).toUInt8 = low := by
  apply UInt8.eq_of_toBitVec_eq
  ext bit bound
  simp

theorem word_high (low high : UInt8) :
    ((low.toUInt16 ||| (high.toUInt16 <<< 8)) >>> 8).toUInt8 = high := by
  apply UInt8.eq_of_toBitVec_eq
  ext bit bound
  have first : 8 + bit < 16 := by omega
  have second : bit < 16 := by omega
  simp [first, second, BitVec.getLsbD_eq_getElem bound]

theorem word_bytes_of_bytes (count : Nat) (bytes : List UInt8) (whole : bytes.length = 2 * count) :
    wordBytes (bytesWords bytes) = bytes ∧ (bytesWords bytes).length = count := by
  induction count generalizing bytes with
  | zero =>
      rw [List.length_eq_zero_iff.mp whole]
      exact ⟨rfl, rfl⟩
  | succ count induction =>
      cases bytes with
      | nil => cases whole
      | cons low bytes =>
          cases bytes with
          | nil =>
              rw [List.length_singleton] at whole
              omega
          | cons high bytes =>
              rw [List.length_cons, List.length_cons] at whole
              rcases induction bytes (by omega) with ⟨same, length⟩
              constructor
              · rw [bytesWords, wordBytes, List.flatMap_cons, word_low, word_high]
                exact congrArg (fun rest => low :: high :: rest) same
              · rw [bytesWords, List.length_cons, length]

/-- The bytes of each field of `fat32_boot_sector`, and those behind the record. -/
structure BootSector where
  contents : String → Nat → UInt8
  behind : List UInt8
  whole : behind.length = 512 - bootSectorBytes

namespace BootSector

variable (sector : BootSector)

def bytes : List UInt8 := pack bootSectorFields sector.contents ++ sector.behind

def words : List UInt16 := bytesWords sector.bytes

def field (name : String) : UInt32 :=
  UInt32.ofNat (littleEndian ((List.range (fieldSize name)).map (sector.contents name)))

def Signed : Prop :=
  (List.range (fieldSize "fs_type")).map (sector.contents "fs_type") = fat32Signature

theorem bytes_length : sector.bytes.length = 2 * 256 := by
  have record : (pack bootSectorFields sector.contents).length = bootSectorBytes :=
    pack_length bootSectorFields sector.contents
  rw [bytes, List.length_append, record, sector.whole, boot_sector_bytes]

def found (drive : UInt8) : MountCall :=
  ⟨drive, sector.words, (word_bytes_of_bytes 256 sector.bytes sector.bytes_length).2⟩

theorem found_bytes (drive : UInt8) : (sector.found drive).bytes = sector.bytes :=
  (word_bytes_of_bytes 256 sector.bytes sector.bytes_length).1

theorem found_byte (drive : UInt8) (name : String) {index : Nat} (inside : index < fieldSize name) :
    (sector.found drive).bytes.getD (fieldOffset name + index) 0 = sector.contents name index := by
  rw [found_bytes]
  exact packed_get sector.contents sector.behind inside

theorem found_signed_iff (drive : UInt8) : (sector.found drive).Signed ↔ sector.Signed := by
  have same : ((List.range (fieldSize "fs_type")).map fun index =>
      (sector.found drive).bytes.getD (fieldOffset "fs_type" + index) 0) =
        (List.range (fieldSize "fs_type")).map (sector.contents "fs_type") := by
    apply List.map_congr_left
    intro index below
    exact sector.found_byte drive "fs_type" (List.mem_range.mp below)
  unfold MountCall.Signed Signed
  rw [same]

end BootSector

/-- The mounted record is that of the sector, byte by byte, and the geometry is that of its
fields. -/
structure HoldsSector (layout : Layout) (sector : BootSector) (memory : Memory) : Prop where
  fields : ∀ name index, fieldOffset name + fieldSize name ≤ bootSectorBytes →
    index < fieldSize name →
    memory (byteAddress (layout.base .bs) (fieldOffset name + index)) = sector.contents name index
  perCluster : loadWord memory (layout.base .sectorsPerCluster) = sector.field "sectors_per_cluster"
  fatBegin : loadWord memory (layout.base .fatBeginLba) = sector.field "reserved_sectors"
  dataBegin : loadWord memory (layout.base .dataBeginLba) =
    sector.field "reserved_sectors" + sector.field "fat_count" * sector.field "sectors_per_fat"

theorem mounted_byte (layout : Layout) (memory : Memory) (sector : BootSector) (drive : UInt8)
    {name : String} {index : Nat} (inside : fieldOffset name + fieldSize name ≤ bootSectorBytes)
    (below : index < fieldSize name) :
    geometryStored layout (sectorStored layout drive sector.words memory)
        (byteAddress (layout.base .bs) (fieldOffset name + index)) =
      sector.contents name index := by
  have record : InRegion (layout.base .bs) bootSectorBytes
      (byteAddress (layout.base .bs) (fieldOffset name + index)) :=
    byte_address_in_region _ (by omega) (by decide)
  rw [@geometry_keeps layout _ .bs (by decide) _ record, ← sector.found_byte drive name below]
  rw [boot_sector_bytes] at inside
  exact @sector_stored_offset layout memory (sector.found drive) _ (by omega)

theorem mounted_value (layout : Layout) (memory : Memory) (sector : BootSector) (drive : UInt8)
    {name : String} (inside : fieldOffset name + fieldSize name ≤ bootSectorBytes) :
    bootField layout (geometryStored layout (sectorStored layout drive sector.words memory)) name =
      sector.field name := by
  rw [bootField, load_number_bytes, BootSector.field]
  congr 2
  apply List.map_congr_left
  intro index below
  exact mounted_byte layout memory sector drive inside (List.mem_range.mp below)

theorem mount_holds_sector (layout : Layout) (memory : Memory) (sector : BootSector)
    (drive : UInt8) (signed : sector.Signed) :
    HoldsSector layout sector (mount layout drive sector.words memory).2 := by
  have mounted := @mount_signed layout memory (sector.found drive)
    ((sector.found_signed_iff drive).mpr signed)
  have after : (mount layout drive sector.words memory).2 =
      geometryStored layout (sectorStored layout drive sector.words memory) :=
    congrArg Prod.snd mounted
  rw [after]
  rcases geometry_cached layout (sectorStored layout drive sector.words memory) with
    ⟨perCluster, fatBegin, dataBegin⟩
  rw [mounted_value layout memory sector drive (by decide)] at perCluster
  rw [mounted_value layout memory sector drive (by decide)] at fatBegin
  rw [fatBegin, mounted_value layout memory sector drive (by decide),
    mounted_value layout memory sector drive (by decide)] at dataBegin
  exact ⟨fun _ _ => mounted_byte layout memory sector drive, perCluster, fatBegin, dataBegin⟩

theorem mount_succeeds_iff (layout : Layout) (memory : Memory) (sector : BootSector)
    (drive : UInt8) :
    (mount layout drive sector.words memory).1 = true ↔ sector.Signed := by
  rw [← sector.found_signed_iff drive]
  constructor
  · intro succeeded
    by_contra unsigned
    have failed := congrArg Prod.fst (@mount_unsigned layout memory (sector.found drive) unsigned)
    exact absurd (failed.symm.trans succeeded) Bool.false_ne_true
  · intro signed
    exact congrArg Prod.fst (@mount_signed layout memory (sector.found drive) signed)

theorem one_sector : 0 < (1 : UInt8).toNat := by decide

theorem first_sector_fits : (0 : UInt32).toNat + (1 : UInt8).toNat ≤ 2 ^ 28 := by decide

def firstSector (second : Bool) : SectorRange := ⟨second, 0, 1, one_sector, first_sector_fits⟩

/-- The boot sector is written, other calls are made, and the drive is mounted. -/
def formatAndMount (layout : Layout) (second : Bool) (sector : BootSector)
    (calls : List SectorCall) (memory : Memory) : PortProgram (Bool × Memory) := do
  let _ ← serveCalls (.write (firstSector second) (fun index => sector.words.getD index 0) :: calls)
  fat32Init layout second.toUInt8 memory

theorem sector_read_back (sector : BootSector) (store : BlockStore Bool UInt16 sectorWords)
    (second : Bool) {requests : List (Request Bool UInt16)}
    (untouched : ∀ request ∈ requests, ¬BlockStore.Writes second 0 request) :
    ((store.write second 0 1 fun index => sector.words.getD index 0).transact requests).2.read
      second 0 1 = sector.words := by
  have kept : ((store.write second 0 1 fun index => sector.words.getD index 0).transact
      requests).2.read second 0 1 =
        (store.write second 0 1 fun index => sector.words.getD index 0).read second 0 1 := by
    apply BlockStore.read_same
    intro block _ ended
    rw [Nat.lt_one_iff.mp ended]
    exact BlockStore.transact_untouched _ untouched
  have length : sector.words.length = 256 := (sector.found 0).whole
  rw [kept, BlockStore.read_written, Nat.mul_one]
  apply List.ext_getElem
  · rw [List.length_map, List.length_range, length]
    rfl
  · intro index inRange inWords
    rw [List.getElem_map, List.getElem_range, List.getD_eq_getElem _ _ inWords]

/-- `fat32_init` mounts the sector that the drive holds, and leaves the drives alone. -/
theorem mount_found_sector (pause : Nat → Pause) (layout : Layout) (memory : Memory)
    (device : AtaDevice) (idle : device.line.left = 0) (second : Bool) :
    ∃ outcome, Returns (ataPorts (errorFree pause)) (fat32Init layout second.toUInt8 memory)
        device outcome ∧
      outcome.state.line.left = 0 ∧ sectors outcome.state = sectors device ∧
      outcome.result =
        mount layout second.toUInt8 ((sectors device).read second 0 1) memory := by
  have seamless : Seamless pause (.read (firstSector second)) := Or.inl rfl
  rcases seamless_serves device idle seamless with ⟨served, returns, drained, stored⟩
  rcases Prod.mk.inj stored with ⟨words, same⟩
  rcases returns_bind_inv returns with ⟨first, rest, reads, paired, rfl⟩
  rw [returns_unique paired (returns_pure (true, first.result) first.state)] at drained words same
  have joined : Returns (ataPorts (errorFree pause))
      (ataReadSectors second.toUInt8 0 1 >>= fun words =>
        pure (mount layout second.toUInt8 words memory)) device _ :=
    returns_bind reads (returns_pure _ _)
  refine ⟨_, joined, drained, same, ?_⟩
  exact congrArg (fun words => mount layout second.toUInt8 words memory) words

/-- A boot sector that was written to a drive is mounted from it, whatever the drives held
before and whatever is read and written elsewhere in between: the mount succeeds if and
only if the record has the signature, and then holds the record's fields and geometry. -/
theorem format_then_mount (pause : Nat → Pause) (layout : Layout) (memory : Memory)
    (device : AtaDevice) (idle : device.line.left = 0) (second : Bool) (sector : BootSector)
    (calls : List SectorCall) (seamless : ∀ call ∈ calls, Seamless pause call)
    (elsewhere : ∀ call ∈ calls, ¬BlockStore.Writes second 0 call.request) :
    ∃ outcome,
      Returns (ataPorts (errorFree pause)) (formatAndMount layout second sector calls memory)
        device outcome ∧
      (outcome.result.1 = true ↔ sector.Signed) ∧
      (sector.Signed → HoldsSector layout sector outcome.result.2) := by
  have first : Seamless pause (.write (firstSector second) fun index => sector.words.getD index 0) :=
    Or.inl rfl
  rcases serve_calls_return device idle (List.forall_mem_cons.mpr ⟨first, seamless⟩) with
    ⟨served, returnsCalls, drained, stored⟩
  rcases mount_found_sector pause layout memory served.state drained second with
    ⟨mounted, returnsMount, _, _, result⟩
  have untouched : ∀ request ∈ calls.map SectorCall.request,
      ¬BlockStore.Writes second 0 request := by
    intro request member
    rcases List.mem_map.mp member with ⟨call, made, rfl⟩
    exact elsewhere call made
  have left : sectors served.state =
      (((sectors device).write second 0 1 fun index => sector.words.getD index 0).transact
        (calls.map SectorCall.request)).2 := congrArg Prod.snd stored
  rw [left, sector_read_back sector (sectors device) second untouched] at result
  have whole : Returns (ataPorts (errorFree pause))
      (formatAndMount layout second sector calls memory) device _ :=
    returns_bind returnsCalls returnsMount
  refine ⟨_, whole, ?_, ?_⟩
  · change mounted.result.1 = true ↔ _
    rw [result]
    exact mount_succeeds_iff layout memory sector second.toUInt8
  · intro signed
    change HoldsSector layout sector mounted.result.2
    rw [result]
    exact mount_holds_sector layout memory sector second.toUInt8 signed

def smallVolume : BootSector where
  contents name index :=
    if name = "fs_type" then fat32Signature.getD index 0
    else if name = "reserved_sectors" then Library.DataLayout.byteOf 32 index
    else if name = "fat_count" then Library.DataLayout.byteOf 2 index
    else if name = "sectors_per_fat" then Library.DataLayout.byteOf 1000 index
    else if name = "sectors_per_cluster" then Library.DataLayout.byteOf 8 index
    else 0
  behind := List.replicate 422 0
  whole := List.length_replicate

theorem format_then_mount_second_drive :
    let calls := [SectorCall.write ⟨false, 0, 4, by decide, by decide⟩ fun _ => 0xFFFF,
      SectorCall.write ⟨true, 1, 255, by decide, by decide⟩ fun _ => 0xFFFF]
    ∃ outcome,
      Returns (ataPorts alwaysReady)
        (formatAndMount twoDriveLayout true smallVolume calls fun _ => 0) blankDevice outcome ∧
      (outcome.result.1 = true ↔ smallVolume.Signed) ∧
      (smallVolume.Signed → HoldsSector twoDriveLayout smallVolume outcome.result.2) := by
  intro calls
  apply format_then_mount (fun _ => Pause.none) twoDriveLayout (fun _ => 0) blankDevice rfl true
    smallVolume calls (fun _ _ => Or.inr fun _ => rfl)
  intro call made written
  rcases List.mem_pair.mp made with rfl | rfl
  · exact absurd written.1 (by decide)
  · exact absurd written.2.1 (by decide)

example : smallVolume.Signed := by
  unfold BootSector.Signed
  decide

end FractionsOS.Fat32
