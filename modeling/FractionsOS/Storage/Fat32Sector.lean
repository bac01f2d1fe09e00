import FractionsOS.Storage.AtaDevice
import FractionsOS.Storage.Fat32

/-!
# The transfer of the boot sector

`ata_read_sectors` moves the 256 words of a sector, and `fat32_init` has them
stored to `bs`, which has 90 bytes.
-/

namespace FractionsOS.Fat32

open Library.MemoryRegions Library.PortPrograms Library.StackMemory Ata

set_option autoImplicit false

def wordsStored (base : UInt32) (words : List UInt16) (memory : Memory) : Memory :=
  storeBytes memory base (wordBytes words)

/-- Memory when the transfer begins: `current_drive` was set. -/
def driveStored (layout : Layout) (drive : UInt8) (memory : Memory) : Memory :=
  storeBytes memory (layout.base .currentDrive) [drive]

theorem sector_stored_words (layout : Layout) (drive : UInt8) (words : List UInt16)
    (memory : Memory) :
    sectorStored layout drive words memory =
      wordsStored (layout.base .bs) words (driveStored layout drive memory) := rfl

/-- The transfer changes no byte outside `bs`. -/
def WritesRecordOnly (layout : Layout) (drive : UInt8) (words : List UInt16) (memory : Memory) :
    Prop :=
  ∀ address, ¬InRegion (layout.base .bs) bootSectorBytes address →
    sectorStored layout drive words memory address = driveStored layout drive memory address

theorem behind_record {bs address : UInt32} (moved : InRegion bs 512 address)
    (outside : ¬InRegion bs bootSectorBytes address) :
    ∃ offset, bootSectorBytes ≤ offset ∧ offset < 512 ∧ address = byteAddress bs offset := by
  refine ⟨(address - bs).toNat, Nat.le_of_not_lt outside, moved, ?_⟩
  rw [byteAddress, UInt32.ofNat_toNat, UInt32.add_comm, UInt32.sub_add_cancel]

theorem byte_address_region_iff (bs : UInt32) {offset : Nat} (small : offset < 512) (size : Nat) :
    InRegion bs size (byteAddress bs offset) ↔ offset < size := by
  rw [InRegion, byte_address_offset bs (by omega)]

theorem words_stored_offset (bs : UInt32) {words : List UInt16} (whole : words.length = 256)
    (memory : Memory) {offset : Nat} (small : offset < 512) :
    wordsStored bs words memory (byteAddress bs offset) = (wordBytes words).getD offset 0 := by
  have size : (wordBytes words).length = 512 := by
    rw [word_bytes_length, whole]
  have inside : InRegion bs (wordBytes words).length (byteAddress bs offset) := by
    rw [size, byte_address_region_iff bs small]
    exact small
  rw [wordsStored, store_bytes_inside memory inside, byte_address_offset bs (by omega)]

theorem writes_record_only_iff (layout : Layout) (drive : UInt8) {words : List UInt16}
    (whole : words.length = 256) (memory : Memory) :
    WritesRecordOnly layout drive words memory ↔
      ∀ offset, bootSectorBytes ≤ offset → offset < 512 →
        (wordBytes words).getD offset 0 =
          driveStored layout drive memory (byteAddress (layout.base .bs) offset) := by
  unfold WritesRecordOnly
  rw [sector_stored_words]
  constructor
  · intro only offset behind small
    rw [← words_stored_offset (layout.base .bs) whole (driveStored layout drive memory) small]
    apply only
    rw [byte_address_region_iff (layout.base .bs) small]
    exact Nat.not_lt.mpr behind
  · intro same address outside
    by_cases moved : InRegion (layout.base .bs) 512 address
    · obtain ⟨offset, behind, small, rfl⟩ := behind_record moved outside
      rw [words_stored_offset (layout.base .bs) whole _ small]
      exact same offset behind small
    · apply store_bytes_outside
      rw [word_bytes_length, whole]
      exact moved

/-- Whatever device the first sector of a drive comes from, `fat32_init` goes on from the words
that `ata_read_sectors` gives it, and their transfer keeps to `bs` exactly when the sector's bytes
behind the record are those that memory holds there. -/
theorem sector_transfer_iff (layout : Layout) (drive : UInt8) (memory : Memory) {State : Type}
    (device : PortDevice State) (state : State) (read : Outcome (List UInt16) State)
    (returned : Returns device (ataReadSectors drive 0 1) state read) :
    Returns device (fat32Init layout drive memory) state
        ⟨mount layout drive read.result memory, read.state, read.trace⟩ ∧
      (WritesRecordOnly layout drive read.result memory ↔
        ∀ offset, bootSectorBytes ≤ offset → offset < 512 →
          (wordBytes read.result).getD offset 0 =
            driveStored layout drive memory (byteAddress (layout.base .bs) offset)) := by
  constructor
  · let mounted := mount layout drive read.result memory
    have stored : Returns device (pure mounted) read.state ⟨mounted, read.state, []⟩ :=
      returns_pure mounted read.state
    have onward : Returns device (fat32Init layout drive memory) state
        (Outcome.after read.trace ⟨mounted, read.state, []⟩) := returns_bind returned stored
    rw [Outcome.after, List.append_nil] at onward
    exact onward
  · have whole := read_sectors_length drive 0 1 State device state read returned
    exact writes_record_only_iff layout drive whole memory

def twoDriveLayout : Layout where
  base
    | .bs => 0x1000
    | .fatBeginLba => 0x2000
    | .dataBeginLba => 0x2004
    | .sectorsPerCluster => 0x2008
    | .currentDrive => 0x200C
  disjoint := by
    intro left right different address inside
    refine regions_apart ?_ ?_ inside <;> revert different <;> cases left <;> cases right <;> decide

theorem sector_transfer_blank :
    ∃ read, Returns (ataPorts alwaysReady) (ataReadSectors 0 0 1) blankDevice read ∧
      Returns (ataPorts alwaysReady) (fat32Init twoDriveLayout 0 fun _ => 1) blankDevice
        ⟨mount twoDriveLayout 0 read.result fun _ => 1, read.state, read.trace⟩ ∧
      (WritesRecordOnly twoDriveLayout 0 read.result (fun _ => 1) ↔
        ∀ offset, bootSectorBytes ≤ offset → offset < 512 →
          (wordBytes read.result).getD offset 0 =
            driveStored twoDriveLayout 0 (fun _ => 1)
              (byteAddress (twoDriveLayout.base .bs) offset)) := by
  obtain ⟨read, returned, -⟩ :
      ∃ read, Returns (ataPorts alwaysReady) (ataReadSectors 0 0 1) blankDevice read ∧
        read.result.length = 256 :=
    returns_tested 2 (by decide +kernel)
  exact ⟨read, returned, sector_transfer_iff _ _ _ _ _ read returned⟩

/-- A sector of zeros, stored where the byte behind the record is 1. -/
theorem sector_overwrites_neighbour :
    ¬∀ (layout : Layout) (drive : UInt8) (memory : Memory) (State : Type)
      (device : PortDevice State) (state : State) (read : Outcome (List UInt16) State),
      Returns device (ataReadSectors drive 0 1) state read →
        WritesRecordOnly layout drive read.result memory := by
  intro only
  obtain ⟨read, returned, overwritten⟩ :
      ∃ read, Returns (ataPorts alwaysReady) (ataReadSectors 0 0 1) blankDevice read ∧
        sectorStored twoDriveLayout 0 read.result (fun _ => 1) 0x105A ≠
          driveStored twoDriveLayout 0 (fun _ => 1) 0x105A :=
    returns_tested 2 (by decide +kernel)
  exact overwritten (only twoDriveLayout 0 (fun _ => 1) _ _ _ read returned 0x105A (by decide))

end FractionsOS.Fat32
