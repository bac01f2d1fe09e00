import FractionsOS.Storage.Fat32Sector
import Mathlib.Data.List.Induction

/-!
# Runs of mounts

What a sequence of calls of `fat32_init` leaves in the static variables. A call
that fails has already stored the drive and the sector, so it leaves the
variables as they were only when it finds there what it stores.
-/

namespace FractionsOS.Fat32

open Library.MemoryRegions Library.StackMemory

set_option autoImplicit false

def Keeps (layout : Layout) (static : Static) (before after : Memory) : Prop :=
  KeepsRegion before after (layout.base static) static.size

def Unchanged (layout : Layout) (before after : Memory) : Prop :=
  ∀ static, Keeps layout static before after

/-- The static variables are those of one volume: the drive and the boot sector that
a call found there, and the geometry computed from that sector. -/
structure Mounted (layout : Layout) (call : MountCall) (memory : Memory) : Prop where
  drive : memory (layout.base .currentDrive) = call.drive
  sector : ∀ offset, offset < bootSectorBytes →
    memory (byteAddress (layout.base .bs) offset) = call.bytes.getD offset 0
  perCluster : loadWord memory (layout.base .sectorsPerCluster) =
    bootField layout memory "sectors_per_cluster"
  fatBegin : loadWord memory (layout.base .fatBeginLba) =
    bootField layout memory "reserved_sectors"
  dataBegin : loadWord memory (layout.base .dataBeginLba) =
    loadWord memory (layout.base .fatBeginLba) +
      bootField layout memory "fat_count" * bootField layout memory "sectors_per_fat"

/-- Memory, and the last call that returned true. -/
structure MountState where
  memory : Memory
  volume : Option MountCall

def MountState.next (layout : Layout) (state : MountState) (call : MountCall) : MountState :=
  let (mounted, memory) := mount layout call.drive call.sector state.memory
  ⟨memory, if mounted then some call else state.volume⟩

def mountAll (layout : Layout) (memory : Memory) (calls : List MountCall) : MountState :=
  calls.foldl (MountState.next layout) ⟨memory, none⟩

structure AtomicRun (layout : Layout) (memory : Memory) (calls : List MountCall) : Prop where
  failures : ∀ earlier call, earlier ++ [call] <+: calls →
    (mount layout call.drive call.sector (mountAll layout memory earlier).memory).1 = false →
    Unchanged layout (mountAll layout memory earlier).memory
      (mount layout call.drive call.sector (mountAll layout memory earlier).memory).2
  volumes : ∀ reached, reached <+: calls → ∀ volume,
    (mountAll layout memory reached).volume = some volume →
    Mounted layout volume (mountAll layout memory reached).memory

/-- `memcmp(bs.fs_type, "FAT32   ", 8) == 0`, said of the sector. -/
def MountCall.Signed (call : MountCall) : Prop :=
  ((List.range (fieldSize "fs_type")).map fun i =>
    call.bytes.getD (fieldOffset "fs_type" + i) 0) = fat32Signature

def Transferred (layout : Layout) (address : UInt32) : Prop := InRegion (layout.base .bs) 512 address

def MountCall.stored (call : MountCall) (layout : Layout) (address : UInt32) : UInt8 :=
  call.bytes.getD (address - layout.base .bs).toNat 0

/-- A sector with the signature may not overwrite the drive; one without must be
what memory already holds, for the drive already held. -/
structure Harmless (layout : Layout) (memory : Memory) (call : MountCall) : Prop where
  signed : call.Signed → Transferred layout (layout.base .currentDrive) →
    call.stored layout (layout.base .currentDrive) = call.drive
  sameSector : ¬call.Signed → ∀ (static : Static) (address : UInt32),
    InRegion (layout.base static) static.size address → Transferred layout address →
    call.stored layout address = memory address
  sameDrive : ¬call.Signed → ¬Transferred layout (layout.base .currentDrive) →
    call.drive = memory (layout.base .currentDrive)

section Stores

variable {layout : Layout} {memory : Memory}

theorem store_keeps {stored kept : Static} (word : UInt32) (different : stored ≠ kept)
    (whole : stored.size = 4) :
    Keeps layout kept memory (storeWord memory (layout.base stored) word) := by
  intro address inside
  apply store_word_outside
  rw [← whole]
  exact layout.disjoint kept stored different.symm address inside

theorem boot_field_kept {after : Memory} {field : String} (kept : Keeps layout .bs memory after)
    (inside : fieldOffset field + fieldSize field ≤ bootSectorBytes) :
    bootField layout after field = bootField layout memory field :=
  congrArg UInt32.ofNat (keeps_region_number kept (by decide) inside)

theorem sector_stored_inside (call : MountCall) {address : UInt32}
    (inside : Transferred layout address) :
    sectorStored layout call.drive call.sector memory address = call.stored layout address := by
  apply store_bytes_inside
  change InRegion _ call.bytes.length address
  rw [call.bytes_length]
  exact inside

theorem sector_stored_outside (call : MountCall) {address : UInt32}
    (outside : ¬Transferred layout address) :
    sectorStored layout call.drive call.sector memory address =
      if address = layout.base .currentDrive then call.drive else memory address := by
  have untouched : ¬InRegion (layout.base .bs) call.bytes.length address := by
    rw [call.bytes_length]
    exact outside
  refine (store_bytes_outside _ untouched).trans ?_
  split_ifs with drive
  · rw [drive]
    have single := (single_byte_region (layout.base .currentDrive) _).mpr rfl
    rw [store_bytes_inside memory single, UInt32.sub_self]
    rfl
  · exact store_bytes_outside memory fun single => drive ((single_byte_region _ _).mp single)

theorem boot_sector_transferred {offset : Nat} (inside : offset < 512) :
    Transferred layout (byteAddress (layout.base .bs) offset) :=
  byte_address_in_region _ inside (by decide)

theorem stored_at_offset (call : MountCall) {offset : Nat} (inside : offset < 512) :
    call.stored layout (byteAddress (layout.base .bs) offset) = call.bytes.getD offset 0 := by
  rw [MountCall.stored, byte_address_offset _ (by omega)]

theorem sector_stored_offset (call : MountCall) {offset : Nat} (inside : offset < 512) :
    sectorStored layout call.drive call.sector memory (byteAddress (layout.base .bs) offset) =
      call.bytes.getD offset 0 := by
  rw [sector_stored_words]
  exact words_stored_offset _ call.whole _ inside

theorem stored_signature (call : MountCall) :
    fsType layout (sectorStored layout call.drive call.sector memory) = fat32Signature ↔
      call.Signed := by
  have same : fsType layout (sectorStored layout call.drive call.sector memory) =
      (List.range (fieldSize "fs_type")).map fun i =>
        call.bytes.getD (fieldOffset "fs_type" + i) 0 := by
    apply List.map_congr_left
    intro index below
    have small : index < 8 := List.mem_range.mp below
    have offset := fs_type_offset
    exact sector_stored_offset call (by omega)
  rw [same]
  exact Iff.rfl

theorem mount_signed {call : MountCall} (signed : call.Signed) :
    mount layout call.drive call.sector memory =
      (true, geometryStored layout (sectorStored layout call.drive call.sector memory)) :=
  if_neg fun different => different ((stored_signature call).mpr signed)

theorem mount_unsigned {call : MountCall} (unsigned : ¬call.Signed) :
    mount layout call.drive call.sector memory =
      (false, sectorStored layout call.drive call.sector memory) :=
  if_pos fun same => unsigned ((stored_signature call).mp same)

/-- The three words of geometry are stored away from the boot sector and the drive. -/
theorem geometry_keeps {kept : Static} (other : kept.size ≠ 4) :
    Keeps layout kept memory (geometryStored layout memory) := by
  have different : ∀ stored : Static, stored.size = 4 → stored ≠ kept := by
    rintro stored whole rfl
    exact other whole
  have perCluster := @store_keeps layout memory .sectorsPerCluster kept
  have fatBegin := fun before => @store_keeps layout before .fatBeginLba kept
  have dataBegin := fun before => @store_keeps layout before .dataBeginLba kept
  exact keeps_region_trans (keeps_region_trans (perCluster _ (different _ rfl) rfl)
    (fatBegin _ _ (different _ rfl) rfl)) (dataBegin _ _ (different _ rfl) rfl)

theorem geometry_cached (layout : Layout) (memory : Memory) :
    let after := geometryStored layout memory
    loadWord after (layout.base .sectorsPerCluster) =
      bootField layout after "sectors_per_cluster" ∧
    loadWord after (layout.base .fatBeginLba) = bootField layout after "reserved_sectors" ∧
    loadWord after (layout.base .dataBeginLba) =
      loadWord after (layout.base .fatBeginLba) +
        bootField layout after "fat_count" * bootField layout after "sectors_per_fat" := by
  let first := storeWord memory (layout.base .sectorsPerCluster)
    (bootField layout memory "sectors_per_cluster")
  let second := storeWord first (layout.base .fatBeginLba)
    (bootField layout first "reserved_sectors")
  let data := loadWord second (layout.base .fatBeginLba) +
    bootField layout second "fat_count" * bootField layout second "sectors_per_fat"
  let third := storeWord second (layout.base .dataBeginLba) data
  change loadWord third _ = bootField layout third _ ∧ loadWord third _ = bootField layout third _ ∧
    loadWord third _ = loadWord third _ + bootField layout third _ * bootField layout third _
  have boot : Keeps layout .bs second third := store_keeps _ (by decide) rfl
  have bootSecond : Keeps layout .bs first third :=
    keeps_region_trans (store_keeps _ (by decide) rfl) boot
  have bootFirst : Keeps layout .bs memory third :=
    keeps_region_trans (store_keeps _ (by decide) rfl) bootSecond
  have perCluster : Keeps layout .sectorsPerCluster first third :=
    keeps_region_trans (store_keeps _ (by decide) rfl) (store_keeps _ (by decide) rfl)
  have fatBegin : Keeps layout .fatBeginLba second third := store_keeps _ (by decide) rfl
  refine ⟨?_, ?_, ?_⟩
  · rw [keeps_region_word perCluster, boot_field_kept bootFirst (by decide)]
    exact load_store_same _ _ _
  · rw [keeps_region_word fatBegin, boot_field_kept bootSecond (by decide)]
    exact load_store_same _ _ _
  · rw [keeps_region_word fatBegin, boot_field_kept boot (by decide),
      boot_field_kept boot (by decide)]
    exact load_store_same _ _ _

end Stores

section Calls

variable {layout : Layout} {memory : Memory} {call : MountCall}

theorem current_drive_region : InRegion (layout.base .currentDrive) Static.currentDrive.size
    (layout.base .currentDrive) := (single_byte_region _ _).mpr rfl

theorem drive_geometry (layout : Layout) (before : Memory) :
    geometryStored layout before (layout.base .currentDrive) = before (layout.base .currentDrive) :=
  @geometry_keeps layout before .currentDrive (by decide) _ current_drive_region

theorem sector_stored_drive :
    sectorStored layout call.drive call.sector memory (layout.base .currentDrive) = call.drive ↔
      (Transferred layout (layout.base .currentDrive) →
        call.stored layout (layout.base .currentDrive) = call.drive) := by
  by_cases moved : Transferred layout (layout.base .currentDrive)
  · rw [sector_stored_inside call moved]
    exact ⟨fun same _ => same, fun same => same moved⟩
  · rw [sector_stored_outside call moved, if_pos rfl]
    exact ⟨fun _ inside => absurd inside moved, fun _ => rfl⟩

theorem signed_mounts :
    Mounted layout call (geometryStored layout
        (sectorStored layout call.drive call.sector memory)) ↔
      (Transferred layout (layout.base .currentDrive) →
        call.stored layout (layout.base .currentDrive) = call.drive) := by
  have kept := drive_geometry layout (sectorStored layout call.drive call.sector memory)
  rw [← @sector_stored_drive layout memory call, ← kept]
  constructor
  · intro mounted
    exact mounted.drive
  · intro drive
    obtain ⟨perCluster, fatBegin, dataBegin⟩ :=
      geometry_cached layout (sectorStored layout call.drive call.sector memory)
    refine ⟨drive, ?_, perCluster, fatBegin, dataBegin⟩
    intro offset below
    have record : InRegion (layout.base .bs) bootSectorBytes (byteAddress (layout.base .bs) offset) :=
      byte_address_in_region _ below (by decide)
    rw [@geometry_keeps layout _ .bs (by decide) _ record]
    rw [boot_sector_bytes] at below
    exact sector_stored_offset call (by omega)

theorem unsigned_unchanged :
    Unchanged layout memory (sectorStored layout call.drive call.sector memory) ↔
      (∀ (static : Static) (address : UInt32), InRegion (layout.base static) static.size address →
        Transferred layout address → call.stored layout address = memory address) ∧
      (¬Transferred layout (layout.base .currentDrive) →
        call.drive = memory (layout.base .currentDrive)) := by
  constructor
  · intro unchanged
    constructor
    · intro static address inside moved
      rw [← @sector_stored_inside layout memory call address moved]
      exact unchanged static address inside
    · intro apart
      have same := unchanged .currentDrive _ current_drive_region
      rw [sector_stored_outside call apart, if_pos rfl] at same
      exact same
  · rintro ⟨sameSector, sameDrive⟩ static address inside
    by_cases moved : Transferred layout address
    · rw [sector_stored_inside call moved]
      exact sameSector static address inside moved
    · rw [sector_stored_outside call moved]
      split_ifs with drive
      · rw [drive] at moved ⊢
        exact sameDrive moved
      · rfl

/-- What one call must not do is what a harmless call does not do. -/
theorem harmless_iff :
    Harmless layout memory call ↔
      ((mount layout call.drive call.sector memory).1 = false →
        Unchanged layout memory (mount layout call.drive call.sector memory).2) ∧
      ((mount layout call.drive call.sector memory).1 = true →
        Mounted layout call (mount layout call.drive call.sector memory).2) := by
  by_cases signature : call.Signed
  · rw [mount_signed signature]
    constructor
    · intro harmless
      constructor
      · intro failed
        cases failed
      · intro _
        exact signed_mounts.mpr (harmless.signed signature)
    · rintro ⟨-, mounts⟩
      exact ⟨fun _ => signed_mounts.mp (mounts rfl), fun unsigned => absurd signature unsigned,
        fun unsigned => absurd signature unsigned⟩
  · rw [mount_unsigned signature]
    constructor
    · intro harmless
      constructor
      · intro _
        exact unsigned_unchanged.mpr ⟨harmless.sameSector signature, harmless.sameDrive signature⟩
      · intro mounted
        cases mounted
    · rintro ⟨unchanged, -⟩
      obtain ⟨sameSector, sameDrive⟩ := unsigned_unchanged.mp (unchanged rfl)
      exact ⟨fun signed => absurd signed signature, fun _ => sameSector, fun _ => sameDrive⟩

end Calls

section Runs

variable {layout : Layout}

theorem mounted_unchanged {volume : MountCall} {before after : Memory}
    (unchanged : Unchanged layout before after) (mounted : Mounted layout volume before) :
    Mounted layout volume after := by
  have boot := unchanged .bs
  have perCluster := keeps_region_word (unchanged .sectorsPerCluster)
  have fatBegin := keeps_region_word (unchanged .fatBeginLba)
  have dataBegin := keeps_region_word (unchanged .dataBeginLba)
  constructor
  · rw [unchanged .currentDrive _ current_drive_region]
    exact mounted.drive
  · intro offset below
    rw [boot _ (byte_address_in_region _ below (by decide))]
    exact mounted.sector offset below
  · rw [perCluster, boot_field_kept boot (by decide)]
    exact mounted.perCluster
  · rw [fatBegin, boot_field_kept boot (by decide)]
    exact mounted.fatBegin
  · rw [dataBegin, fatBegin, boot_field_kept boot (by decide), boot_field_kept boot (by decide)]
    exact mounted.dataBegin

def Consistent (layout : Layout) (state : MountState) : Prop :=
  ∀ volume, state.volume = some volume → Mounted layout volume state.memory

theorem harmless_call_consistent {state : MountState} {call : MountCall}
    (harmless : Harmless layout state.memory call) (consistent : Consistent layout state) :
    Consistent layout (state.next layout call) := by
  obtain ⟨unchanged, mounts⟩ := harmless_iff.mp harmless
  intro volume held
  cases outcome : (mount layout call.drive call.sector state.memory).1 with
  | false =>
      simp only [MountState.next, outcome] at held
      exact mounted_unchanged (unchanged outcome) (consistent volume held)
  | true =>
      simp only [MountState.next, outcome, if_true, Option.some.injEq] at held
      rw [← held]
      exact mounts outcome

theorem mount_all_append (memory : Memory) (earlier : List MountCall) (call : MountCall) :
    mountAll layout memory (earlier ++ [call]) = (mountAll layout memory earlier).next layout call := by
  rw [mountAll, List.foldl_append]
  rfl

theorem harmless_run_consistent {memory : Memory} {calls : List MountCall}
    (harmless : ∀ earlier call, earlier ++ [call] <+: calls →
      Harmless layout (mountAll layout memory earlier).memory call)
    {reached : List MountCall} (made : reached <+: calls) :
    Consistent layout (mountAll layout memory reached) := by
  induction reached using List.reverseRecOn with
  | nil =>
      intro volume held
      cases held
  | append_singleton earlier call induction =>
      rw [mount_all_append]
      apply harmless_call_consistent (harmless earlier call made)
      exact induction ((List.prefix_append earlier [call]).trans made)

theorem volume_signed {memory : Memory} {calls : List MountCall} {volume : MountCall}
    (held : (mountAll layout memory calls).volume = some volume) : volume.Signed := by
  induction calls using List.reverseRecOn with
  | nil => cases held
  | append_singleton earlier call induction =>
      rw [mount_all_append] at held
      by_cases signature : call.Signed
      · simp only [MountState.next, mount_signed signature, if_true, Option.some.injEq] at held
        rw [← held]
        exact signature
      · simp only [MountState.next, mount_unsigned signature] at held
        exact induction held

/-- With a volume mounted, no call that fails is harmless: `bs` has the signature. -/
theorem failure_after_mount_harms {memory : Memory} {calls : List MountCall}
    {volume call : MountCall} (held : (mountAll layout memory calls).volume = some volume)
    (mounted : Mounted layout volume (mountAll layout memory calls).memory)
    (unsigned : ¬call.Signed) : ¬Harmless layout (mountAll layout memory calls).memory call := by
  intro harmless
  apply unsigned
  rw [MountCall.Signed, ← volume_signed held]
  apply List.map_congr_left
  intro index below
  have small : index < 8 := List.mem_range.mp below
  have start := fs_type_offset
  have whole := boot_sector_bytes
  have record : fieldOffset "fs_type" + index < bootSectorBytes := by omega
  have region : InRegion (layout.base .bs) bootSectorBytes
      (byteAddress (layout.base .bs) (fieldOffset "fs_type" + index)) :=
    byte_address_in_region _ record (by decide)
  have moved : fieldOffset "fs_type" + index < 512 := by omega
  rw [← mounted.sector _ record, ← stored_at_offset call moved]
  exact harmless.sameSector unsigned .bs _ region (boot_sector_transferred moved)

/-- Runs of mounts are atomic exactly when each call finds a state that it does no harm. -/
theorem mounts_atomic_iff (layout : Layout) (memory : Memory) (calls : List MountCall) :
    AtomicRun layout memory calls ↔
      ∀ earlier call, earlier ++ [call] <+: calls →
        Harmless layout (mountAll layout memory earlier).memory call := by
  constructor
  · intro atomic earlier call made
    refine harmless_iff.mpr ⟨atomic.failures earlier call made, fun mounted => ?_⟩
    have held := atomic.volumes _ made call
    rw [mount_all_append] at held
    apply held
    exact if_pos mounted
  · intro harmless
    constructor
    · intro earlier call made
      exact (harmless_iff.mp (harmless earlier call made)).1
    · intro reached made
      exact harmless_run_consistent harmless made

end Runs

/-- 16384 sectors, 32 of them reserved and 2000 in two tables, eight in a cluster. -/
def fat32Volume : MountCall where
  drive := 0
  sector := List.replicate 6 0 ++ [0x0802, 32, 2] ++ List.replicate 7 0 ++ [16384, 0, 1000] ++
    List.replicate 22 0 ++ [0x4146, 0x3354, 0x2032, 0x2020] ++ List.replicate 211 0
  whole := by
    simp only [List.length_append, List.length_replicate, List.length_cons, List.length_nil]

def blankDrive : MountCall := ⟨1, List.replicate 256 0, List.length_replicate⟩

/-- The second drive has no FAT32 volume, and is the current one all the same. -/
theorem failed_mount_moves_drive :
    ¬AtomicRun twoDriveLayout (fun _ => 0) [fat32Volume, blankDrive] := by
  intro atomic
  have failed : (mount twoDriveLayout blankDrive.drive blankDrive.sector
      (mountAll twoDriveLayout (fun _ => 0) [fat32Volume]).memory).1 = false := by
    decide +kernel
  have unchanged := atomic.failures [fat32Volume] blankDrive (List.prefix_refl _) failed
  have same := unchanged .currentDrive 0x200C (by decide)
  have before : (mountAll twoDriveLayout (fun _ => 0) [fat32Volume]).memory 0x200C = 0 := by
    decide +kernel
  have after : (mount twoDriveLayout blankDrive.drive blankDrive.sector
      (mountAll twoDriveLayout (fun _ => 0) [fat32Volume]).memory).2 0x200C = 1 := by
    decide +kernel
  rw [before, after] at same
  exact absurd same (by decide)

end FractionsOS.Fat32
