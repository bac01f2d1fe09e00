import FractionsOS.Storage.Fat32Mounts

/-!
# The cluster map

The sectors that `cluster_to_lba` gives the clusters of a mounted volume, compared
with what the boot sector says in numbers that do not wrap.
-/

namespace FractionsOS.Fat32

open Library.MemoryRegions Library.StackMemory

set_option autoImplicit false

namespace MountCall

variable (call : MountCall)

def field (name : String) : Nat :=
  littleEndian ((List.range (fieldSize name)).map fun i => call.bytes.getD (fieldOffset name + i) 0)

/-- The sectors of the reserved area and of all copies of the FAT. -/
def metadataSectors : Nat :=
  call.field "reserved_sectors" + call.field "fat_count" * call.field "sectors_per_fat"

def clusterStart (cluster : Nat) : Nat :=
  call.metadataSectors + (cluster - 2) * call.field "sectors_per_cluster"

/-- The cluster's sectors end at or before the last one of the volume. -/
def InVolume (cluster : Nat) : Prop :=
  call.clusterStart cluster + call.field "sectors_per_cluster" ≤ call.field "total_sectors32"

instance (cluster : Nat) : Decidable (call.InVolume cluster) :=
  inferInstanceAs (Decidable (_ ≤ _))

def InReserved (sector : Nat) : Prop := sector < call.field "reserved_sectors"

def InFat (copy sector : Nat) : Prop :=
  call.field "reserved_sectors" + copy * call.field "sectors_per_fat" ≤ sector ∧
    sector < call.field "reserved_sectors" + (copy + 1) * call.field "sectors_per_fat"

end MountCall

def InCluster (layout : Layout) (memory : Memory) (cluster : UInt32) (sector : Nat) : Prop :=
  (clusterToLba layout memory cluster).toNat ≤ sector ∧
    sector < (clusterToLba layout memory cluster).toNat +
      (loadWord memory (layout.base .sectorsPerCluster)).toNat

/-- Two clusters have sectors, none of them in common and none in the metadata. -/
structure Separate (layout : Layout) (call : MountCall) (memory : Memory) (c d : UInt32) : Prop where
  first : ∃ sector, InCluster layout memory c sector
  second : ∃ sector, InCluster layout memory d sector
  disjoint : ∀ sector, InCluster layout memory c sector → ¬InCluster layout memory d sector
  reserved : ∀ sector, InCluster layout memory c sector ∨ InCluster layout memory d sector →
    ¬call.InReserved sector
  fats : ∀ sector, InCluster layout memory c sector ∨ InCluster layout memory d sector →
    ∀ copy, copy < call.field "fat_count" → ¬call.InFat copy sector

def SoundMap (layout : Layout) (call : MountCall) (memory : Memory) : Prop :=
  ∀ c d : UInt32, c ≠ d → 2 ≤ c → 2 ≤ d → call.InVolume c.toNat → call.InVolume d.toNat →
    Separate layout call memory c d

section Geometry

variable {layout : Layout} {memory : Memory} {call : MountCall}

theorem field_lt {name : String} (small : fieldSize name ≤ 4) : call.field name < 2 ^ 32 := by
  have bound := little_endian_lt ((List.range (fieldSize name)).map fun i =>
    call.bytes.getD (fieldOffset name + i) 0)
  rw [List.length_map, List.length_range] at bound
  exact Nat.lt_of_lt_of_le bound (Nat.pow_le_pow_right (by decide) small)

theorem mounted_field {name : String} (inside : fieldOffset name + fieldSize name ≤ bootSectorBytes) :
    bootField layout (geometryStored layout (sectorStored layout call.drive call.sector memory))
        name = UInt32.ofNat (call.field name) := by
  have kept := @geometry_keeps layout (sectorStored layout call.drive call.sector memory) .bs
    (by decide)
  rw [boot_field_kept kept inside, bootField, load_number_bytes, MountCall.field]
  congr 2
  apply List.map_congr_left
  intro index below
  have small := List.mem_range.mp below
  rw [boot_sector_bytes] at inside
  exact sector_stored_offset call (by omega)

theorem accepted_memory (accepted : (mount layout call.drive call.sector memory).1 = true) :
    (mount layout call.drive call.sector memory).2 =
      geometryStored layout (sectorStored layout call.drive call.sector memory) := by
  by_cases signature : call.Signed
  · rw [mount_signed signature]
  · rw [mount_unsigned signature] at accepted
    cases accepted

theorem mounted_sectors_per_cluster
    (accepted : (mount layout call.drive call.sector memory).1 = true) :
    (loadWord (mount layout call.drive call.sector memory).2
      (layout.base .sectorsPerCluster)).toNat = call.field "sectors_per_cluster" := by
  have cached := geometry_cached layout (sectorStored layout call.drive call.sector memory)
  rw [accepted_memory accepted, cached.1, mounted_field (by decide)]
  exact UInt32.toNat_ofNat_of_lt' (field_lt (by decide))

/-- A cluster whose first sector has a number of 32 bits is found there. -/
theorem cluster_to_lba_value
    (accepted : (mount layout call.drive call.sector memory).1 = true) {cluster : UInt32}
    (real : 2 ≤ cluster) (small : call.clusterStart cluster.toNat < 2 ^ 32) :
    (clusterToLba layout (mount layout call.drive call.sector memory).2 cluster).toNat =
      call.clusterStart cluster.toNat := by
  have cached := geometry_cached layout (sectorStored layout call.drive call.sector memory)
  have index : (cluster - 2).toNat = cluster.toNat - 2 := UInt32.toNat_sub_of_le _ _ real
  have perCluster := mounted_sectors_per_cluster accepted
  have data : loadWord (mount layout call.drive call.sector memory).2 (layout.base .dataBeginLba) =
      UInt32.ofNat (call.field "reserved_sectors") +
        UInt32.ofNat (call.field "fat_count") * UInt32.ofNat (call.field "sectors_per_fat") := by
    rw [accepted_memory accepted, cached.2.2, cached.2.1, mounted_field (by decide),
      mounted_field (by decide), mounted_field (by decide)]
  have reserved : (UInt32.ofNat (call.field "reserved_sectors")).toNat =
      call.field "reserved_sectors" := UInt32.toNat_ofNat_of_lt' (field_lt (by decide))
  have copies : (UInt32.ofNat (call.field "fat_count")).toNat = call.field "fat_count" :=
    UInt32.toNat_ofNat_of_lt' (field_lt (by decide))
  have perFat : (UInt32.ofNat (call.field "sectors_per_fat")).toNat =
      call.field "sectors_per_fat" := UInt32.toNat_ofNat_of_lt' (field_lt (by decide))
  rw [clusterToLba, data, UInt32.toNat_add, UInt32.toNat_add, UInt32.toNat_mul, UInt32.toNat_mul,
    index, perCluster, reserved, copies, perFat]
  unfold MountCall.clusterStart MountCall.metadataSectors at small ⊢
  generalize call.field "fat_count" * call.field "sectors_per_fat" = fats at small ⊢
  generalize (cluster.toNat - 2) * call.field "sectors_per_cluster" = distance at small ⊢
  omega

theorem in_cluster_iff (accepted : (mount layout call.drive call.sector memory).1 = true)
    {cluster : UInt32} (real : 2 ≤ cluster) (inVolume : call.InVolume cluster.toNat) (sector : Nat) :
    InCluster layout (mount layout call.drive call.sector memory).2 cluster sector ↔
      call.clusterStart cluster.toNat ≤ sector ∧
        sector < call.clusterStart cluster.toNat + call.field "sectors_per_cluster" := by
  have total : call.field "total_sectors32" < 2 ^ 32 := field_lt (by decide)
  have small : call.clusterStart cluster.toNat < 2 ^ 32 := by
    unfold MountCall.InVolume at inVolume
    omega
  rw [InCluster, cluster_to_lba_value accepted real small, mounted_sectors_per_cluster accepted]

theorem cluster_ends_before {first second : Nat} (real : 2 ≤ first) (before : first < second) :
    call.clusterStart first + call.field "sectors_per_cluster" ≤ call.clusterStart second := by
  have steps : (first - 2 + 1) * call.field "sectors_per_cluster" ≤
      (second - 2) * call.field "sectors_per_cluster" := Nat.mul_le_mul_right _ (by omega)
  rw [Nat.add_mul, Nat.one_mul] at steps
  unfold MountCall.clusterStart
  omega

theorem behind_metadata {cluster sector : Nat} (inside : call.clusterStart cluster ≤ sector) :
    ¬call.InReserved sector ∧
      ∀ copy, copy < call.field "fat_count" → ¬call.InFat copy sector := by
  unfold MountCall.clusterStart MountCall.metadataSectors at inside
  constructor
  · unfold MountCall.InReserved
    omega
  · rintro copy below ⟨-, last⟩
    have copies : (copy + 1) * call.field "sectors_per_fat" ≤
        call.field "fat_count" * call.field "sectors_per_fat" := Nat.mul_le_mul_right _ below
    omega

theorem clusters_separate (accepted : (mount layout call.drive call.sector memory).1 = true)
    (sectors : call.field "sectors_per_cluster" ≠ 0) {c d : UInt32} (different : c ≠ d)
    (realC : 2 ≤ c) (realD : 2 ≤ d) (inVolumeC : call.InVolume c.toNat)
    (inVolumeD : call.InVolume d.toNat) :
    Separate layout call (mount layout call.drive call.sector memory).2 c d := by
  have sectorsC := in_cluster_iff accepted realC inVolumeC
  have sectorsD := in_cluster_iff accepted realD inVolumeD
  have behind : ∀ sector,
      InCluster layout (mount layout call.drive call.sector memory).2 c sector ∨
          InCluster layout (mount layout call.drive call.sector memory).2 d sector →
        ¬call.InReserved sector ∧
          ∀ copy, copy < call.field "fat_count" → ¬call.InFat copy sector := by
    rintro sector (inside | inside)
    · exact behind_metadata ((sectorsC sector).mp inside).1
    · exact behind_metadata ((sectorsD sector).mp inside).1
  constructor
  · exact ⟨_, (sectorsC _).mpr ⟨Nat.le_refl _, by omega⟩⟩
  · exact ⟨_, (sectorsD _).mpr ⟨Nat.le_refl _, by omega⟩⟩
  · intro sector inC inD
    rw [sectorsC] at inC
    rw [sectorsD] at inD
    rcases Nat.lt_or_gt_of_ne fun same => different (UInt32.toNat_inj.mp same) with before | after
    · have apart := @cluster_ends_before call _ _ (UInt32.le_iff_toNat_le.mp realC) before
      omega
    · have apart := @cluster_ends_before call _ _ (UInt32.le_iff_toNat_le.mp realD) after
      omega
  · exact fun sector inside => (behind sector inside).1
  · exact fun sector inside => (behind sector inside).2

end Geometry

/-- The cluster map of an accepted volume is sound exactly when its clusters have sectors,
or there is no room for one behind the metadata. -/
theorem sound_map_iff (layout : Layout) (memory : Memory) (call : MountCall)
    (accepted : (mount layout call.drive call.sector memory).1 = true) :
    SoundMap layout call (mount layout call.drive call.sector memory).2 ↔
      call.field "sectors_per_cluster" ≠ 0 ∨
        call.field "total_sectors32" < call.metadataSectors := by
  constructor
  · intro sound
    by_contra otherwise
    rw [not_or, not_not, Nat.not_lt] at otherwise
    rcases otherwise with ⟨empty, room⟩
    have inVolume : ∀ cluster, call.InVolume cluster := by
      intro cluster
      rw [MountCall.InVolume, MountCall.clusterStart, empty, Nat.mul_zero, Nat.add_zero]
      exact room
    have separate := sound 2 3 (by decide) (by decide) (by decide) (inVolume _) (inVolume _)
    obtain ⟨sector, inside⟩ := separate.first
    rw [in_cluster_iff accepted (by decide) (inVolume _), empty] at inside
    omega
  · intro condition c d different realC realD inVolumeC inVolumeD
    have sectors : call.field "sectors_per_cluster" ≠ 0 := by
      rcases condition with sectors | full
      · exact sectors
      · unfold MountCall.InVolume MountCall.clusterStart at inVolumeC
        omega
    exact clusters_separate accepted sectors different realC realD inVolumeC inVolumeD

theorem sound_map_two_fats :
    fat32Volume.InVolume 2 ∧ fat32Volume.InVolume 3 ∧
      (SoundMap twoDriveLayout fat32Volume
          (mount twoDriveLayout fat32Volume.drive fat32Volume.sector fun _ => 0).2 ↔
        fat32Volume.field "sectors_per_cluster" ≠ 0 ∨
          fat32Volume.field "total_sectors32" < fat32Volume.metadataSectors) :=
  ⟨by decide +kernel, by decide +kernel,
    sound_map_iff twoDriveLayout (fun _ => 0) fat32Volume (by decide +kernel)⟩

/-- 32 reserved sectors, two tables of 1000 and 100000 sectors in all, none in a cluster. -/
def emptyClusters : MountCall where
  drive := 0
  sector := List.replicate 6 0 ++ [0x0002, 32, 2] ++ List.replicate 7 0 ++ [0x86A0, 1, 1000] ++
    List.replicate 22 0 ++ [0x4146, 0x3354, 0x2032, 0x2020] ++ List.replicate 211 0
  whole := by
    simp only [List.length_append, List.length_replicate, List.length_cons, List.length_nil]

theorem empty_clusters_accepted :
    ¬∀ (layout : Layout) (memory : Memory) (call : MountCall),
      (mount layout call.drive call.sector memory).1 = true →
        SoundMap layout call (mount layout call.drive call.sector memory).2 := by
  intro sound
  have accepted : (mount twoDriveLayout emptyClusters.drive emptyClusters.sector
      fun _ => 0).1 = true := by
    decide +kernel
  have inVolume : ∀ cluster, cluster = 2 ∨ cluster = 3 → emptyClusters.InVolume cluster := by
    rintro cluster (rfl | rfl) <;> decide +kernel
  have empty : emptyClusters.field "sectors_per_cluster" = 0 := by
    decide +kernel
  have separate := sound twoDriveLayout (fun _ => 0) emptyClusters accepted 2 3 (by decide)
    (by decide) (by decide) (inVolume 2 (Or.inl rfl)) (inVolume 3 (Or.inr rfl))
  obtain ⟨sector, inside⟩ := separate.first
  rw [in_cluster_iff accepted (by decide) (inVolume _ (Or.inl rfl)), empty] at inside
  omega

/-- The byte at which a cluster starts, in sectors of the volume's own size. -/
def MountCall.clusterByte (call : MountCall) (cluster : Nat) : Nat :=
  call.field "bytes_per_sector" * call.clusterStart cluster

/-- The driver finds a cluster in sectors of 512 bytes, which is where it starts exactly
when the volume's sectors have that size, or none comes before the cluster. -/
theorem cluster_byte_iff (layout : Layout) (memory : Memory) (call : MountCall)
    (accepted : (mount layout call.drive call.sector memory).1 = true) {cluster : UInt32}
    (real : 2 ≤ cluster) (small : call.clusterStart cluster.toNat < 2 ^ 32) :
    512 * (clusterToLba layout (mount layout call.drive call.sector memory).2 cluster).toNat =
        call.clusterByte cluster.toNat ↔
      call.field "bytes_per_sector" = 512 ∨ call.clusterStart cluster.toNat = 0 := by
  rw [cluster_to_lba_value accepted real small, MountCall.clusterByte]
  rcases Nat.eq_zero_or_pos (call.clusterStart cluster.toNat) with zero | behind
  · rw [zero]
    exact iff_of_true rfl (Or.inr rfl)
  · rw [Nat.mul_left_inj (Nat.ne_of_gt behind), or_iff_left (Nat.ne_of_gt behind)]
    exact eq_comm

theorem cluster_byte_second :
    fat32Volume.InVolume 3 ∧
      (512 * (clusterToLba twoDriveLayout (mount twoDriveLayout fat32Volume.drive
          fat32Volume.sector fun _ => 0).2 3).toNat = fat32Volume.clusterByte 3 ↔
        fat32Volume.field "bytes_per_sector" = 512 ∨ fat32Volume.clusterStart 3 = 0) :=
  ⟨by decide +kernel,
    cluster_byte_iff twoDriveLayout (fun _ => 0) fat32Volume (by decide +kernel) (by decide)
      (by decide +kernel)⟩

structure WellFormed (call : MountCall) : Prop where
  bytesPerSector : call.field "bytes_per_sector" ∈ [512, 1024, 2048, 4096]
  sectorsPerCluster : ∃ exponent, call.field "sectors_per_cluster" = 2 ^ exponent
  metadata : 0 < call.metadataSectors
  cluster : call.InVolume 2

/-- 1000 sectors of 4096 bytes, 32 of them reserved and 20 in two tables. -/
def largeSectors : MountCall where
  drive := 0
  sector := List.replicate 6 0 ++ [0x0110, 32, 2] ++ List.replicate 7 0 ++ [1000, 0, 10] ++
    List.replicate 22 0 ++ [0x4146, 0x3354, 0x2032, 0x2020] ++ List.replicate 211 0
  whole := by
    simp only [List.length_append, List.length_replicate, List.length_cons, List.length_nil]

theorem large_sectors_well_formed : WellFormed largeSectors :=
  ⟨by decide +kernel, ⟨0, by decide +kernel⟩, by decide +kernel, by decide +kernel⟩

theorem large_sectors_displaced :
    ¬∀ (layout : Layout) (memory : Memory) (call : MountCall),
      (mount layout call.drive call.sector memory).1 = true → WellFormed call →
        ∀ cluster : UInt32, 2 ≤ cluster → call.InVolume cluster.toNat →
          512 * (clusterToLba layout (mount layout call.drive call.sector memory).2 cluster).toNat =
            call.clusterByte cluster.toNat := by
  intro addressed
  have found := addressed twoDriveLayout (fun _ => 0) largeSectors (by decide +kernel)
    large_sectors_well_formed 2 (by decide) (by decide +kernel)
  exact absurd found (by decide +kernel)

end FractionsOS.Fat32
