import FractionsOS.Library.PlacedRecords
import FractionsOS.Storage.Fat32Clusters
import FractionsOS.Storage.Fat32Format

/-!
# The clusters of a mounted volume

Whole clusters, transferred at the addresses that `cluster_to_lba` gives once the volume is
mounted, are a table of records: each is what was last written to it, and the metadata and
the other drive stay as they are.
-/

namespace FractionsOS.Fat32

open Library.BlockArrays Library.BlockHandshake Library.MemoryRegions Library.PlacedRecords
open Library.PortPrograms Library.StackMemory Ata

set_option autoImplicit false

/-- A signed volume whose clusters have sectors, all below the end of the 28-bit address
space. -/
structure Volume extends MountCall where
  second : Bool
  onDrive : drive = second.toUInt8
  signed : toMountCall.Signed
  filled : toMountCall.field "sectors_per_cluster" ≠ 0
  small : toMountCall.field "total_sectors32" ≤ 2 ^ 28

structure Cluster (volume : Volume) where
  number : UInt32
  real : 2 ≤ number
  inVolume : volume.InVolume number.toNat
  deriving DecidableEq

section Clusters

variable (volume : Volume)

def Volume.perCluster : Nat := volume.field "sectors_per_cluster"

def Volume.start (cluster : Cluster volume) : Nat := volume.clusterStart cluster.number.toNat

theorem clusters_apart (one other : Cluster volume) (block : Nat)
    (start : volume.start one ≤ block) (last : block < volume.start one + volume.perCluster)
    (otherStart : volume.start other ≤ block)
    (otherLast : block < volume.start other + volume.perCluster) : one = other := by
  have same : one.number.toNat = other.number.toNat := by
    rcases Nat.lt_trichotomy one.number.toNat other.number.toNat with before | same | after
    · have apart := @cluster_ends_before volume.toMountCall _ _
        (UInt32.le_iff_toNat_le.mp one.real) before
      unfold Volume.start Volume.perCluster at *
      omega
    · exact same
    · have apart := @cluster_ends_before volume.toMountCall _ _
        (UInt32.le_iff_toNat_le.mp other.real) after
      unfold Volume.start Volume.perCluster at *
      omega
  cases one
  cases other
  congr 1
  exact UInt32.toNat_inj.mp same

def Volume.placement : Placement (Cluster volume) Bool where
  drive _ := volume.second
  start := volume.start
  count _ := volume.perCluster
  apart one other _ := clusters_apart volume one other

end Clusters

/-- The call that transfers a cluster, its count cut to the `uint8_t` parameter. -/
def clusterCall (layout : Layout) (memory : Memory) (drive : UInt8) :
    RecordRequest UInt32 UInt16 → AtaCall
  | .read cluster => .read drive (clusterToLba layout memory cluster)
      (loadWord memory (layout.base .sectorsPerCluster)).toUInt8
  | .write cluster buffer => .write drive (clusterToLba layout memory cluster)
      (loadWord memory (layout.base .sectorsPerCluster)).toUInt8 buffer

def transferClusters (layout : Layout) (memory : Memory) (drive : UInt8) :
    List (RecordRequest UInt32 UInt16) → PortProgram (List UInt16)
  | [] => pure []
  | request :: requests => do
      let first ← (clusterCall layout memory drive request).program
      let rest ← transferClusters layout memory drive requests
      return first.2 ++ rest

def mountAndTransfer (layout : Layout) (drive : UInt8)
    (requests : List (RecordRequest UInt32 UInt16)) (memory : Memory) :
    PortProgram ((Bool × Memory) × List UInt16) := do
  let mounted ← fat32Init layout drive memory
  let words ← transferClusters layout mounted.2 drive requests
  return (mounted, words)

def numbered {volume : Volume} (request : RecordRequest (Cluster volume) UInt16) :
    RecordRequest UInt32 UInt16 := request.rename Cluster.number

section Volumes

variable (volume : Volume)

theorem per_cluster_lt : volume.perCluster < 256 := by
  have bound := little_endian_lt ((List.range (fieldSize "sectors_per_cluster")).map fun i =>
    volume.bytes.getD (fieldOffset "sectors_per_cluster" + i) 0)
  rw [List.length_map, List.length_range] at bound
  exact bound

theorem start_small (cluster : Cluster volume) :
    volume.start cluster + volume.perCluster ≤ 2 ^ 28 := Nat.le_trans cluster.inVolume volume.small

theorem start_value (cluster : Cluster volume) :
    (UInt32.ofNat (volume.start cluster)).toNat = volume.start cluster := by
  have small := Nat.le_of_add_right_le (start_small volume cluster)
  exact UInt32.toNat_ofNat_of_lt' (Nat.lt_of_le_of_lt small (by decide))

theorem per_cluster_value : (UInt8.ofNat volume.perCluster).toNat = volume.perCluster :=
  UInt8.toNat_ofNat_of_lt' (per_cluster_lt volume)

theorem per_cluster_positive : 0 < (UInt8.ofNat volume.perCluster).toNat := by
  rw [per_cluster_value]
  exact Nat.pos_of_ne_zero volume.filled

theorem start_fits (cluster : Cluster volume) :
    (UInt32.ofNat (volume.start cluster)).toNat + (UInt8.ofNat volume.perCluster).toNat ≤
      2 ^ 28 := by
  rw [start_value, per_cluster_value]
  exact start_small volume cluster

def clusterRange (cluster : Cluster volume) : SectorRange where
  second := volume.second
  lba := UInt32.ofNat (volume.start cluster)
  count := UInt8.ofNat volume.perCluster
  positive := per_cluster_positive volume
  fits := start_fits volume cluster

def sectorCall : RecordRequest (Cluster volume) UInt16 → SectorCall
  | .read cluster => .read (clusterRange volume cluster)
  | .write cluster buffer => .write (clusterRange volume cluster) buffer

theorem sector_call_request (request : RecordRequest (Cluster volume) UInt16) :
    (sectorCall volume request).request = volume.placement.request request := by
  cases request with
  | read cluster =>
      change Request.read volume.second (UInt32.ofNat (volume.start cluster)).toNat
        (UInt8.ofNat volume.perCluster).toNat = _
      rw [start_value, per_cluster_value]
      rfl
  | write cluster buffer =>
      change Request.write volume.second (UInt32.ofNat (volume.start cluster)).toNat
        (UInt8.ofNat volume.perCluster).toNat buffer = _
      rw [start_value, per_cluster_value]
      rfl

variable {volume} (layout : Layout) (memory : Memory)

theorem cluster_call_sectors (request : RecordRequest (Cluster volume) UInt16) :
    clusterCall layout (mount layout volume.drive volume.sector memory).2 volume.drive
      (numbered request) = (sectorCall volume request).call := by
  have accepted : (mount layout volume.drive volume.sector memory).1 = true :=
    congrArg Prod.fst (@mount_signed layout memory volume.toMountCall volume.signed)
  have count : (loadWord (mount layout volume.drive volume.sector memory).2
      (layout.base .sectorsPerCluster)).toUInt8 = UInt8.ofNat volume.perCluster := by
    apply UInt8.toNat_inj.mp
    rw [UInt32.toNat_toUInt8, mounted_sectors_per_cluster accepted, per_cluster_value]
    exact Nat.mod_eq_of_lt (per_cluster_lt volume)
  have address : ∀ cluster : Cluster volume,
      clusterToLba layout (mount layout volume.drive volume.sector memory).2 cluster.number =
        UInt32.ofNat (volume.start cluster) := by
    intro cluster
    have small := start_small volume cluster
    apply UInt32.toNat_inj.mp
    rw [start_value]
    apply cluster_to_lba_value accepted cluster.real
    unfold Volume.start at small
    omega
  cases request with
  | read cluster =>
      change AtaCall.read _ (clusterToLba layout _ cluster.number) _ = _
      rw [count, address, volume.onDrive]
      rfl
  | write cluster buffer =>
      change AtaCall.write _ (clusterToLba layout _ cluster.number) _ buffer = _
      rw [count, address, volume.onDrive]
      rfl

theorem transfer_calls (requests : List (RecordRequest (Cluster volume) UInt16)) :
    transferClusters layout (mount layout volume.drive volume.sector memory).2 volume.drive
      (requests.map numbered) = serveCalls (requests.map (sectorCall volume)) := by
  induction requests with
  | nil => rfl
  | cons request requests induction =>
      rw [List.map_cons, List.map_cons, transferClusters, serveCalls, induction,
        cluster_call_sectors]

end Volumes

theorem outside_clusters {volume : Volume} {drive : Bool} {block : Nat}
    (outside : drive ≠ volume.second ∨ block < volume.metadataSectors ∨
      volume.field "total_sectors32" ≤ block) (cluster : Cluster volume) :
    ¬(drive = volume.second ∧ volume.start cluster ≤ block ∧
      block < volume.start cluster + volume.perCluster) := by
  rintro ⟨same, started, ended⟩
  have inVolume := cluster.inVolume
  unfold MountCall.InVolume at inVolume
  unfold Volume.start at started ended
  unfold Volume.perCluster at ended
  have behind : volume.metadataSectors ≤ volume.clusterStart cluster.number.toNat :=
    Nat.le_add_right _ _
  rcases outside with other | metadata | beyond
  · exact other same
  · omega
  · omega

/-- The clusters have one sector each, or the device never pauses. -/
def SeamlessClusters (pause : Nat → Pause) (volume : Volume) : Prop :=
  volume.perCluster = 1 ∨ ∀ number, pause number = Pause.none

theorem cluster_call_seamless {pause : Nat → Pause} {volume : Volume}
    (seamless : SeamlessClusters pause volume) (request : RecordRequest (Cluster volume) UInt16) :
    Seamless pause (sectorCall volume request) := by
  rcases seamless with single | never
  · have count : (UInt8.ofNat volume.perCluster).toNat = 1 := (per_cluster_value volume).trans single
    cases request with
    | read cluster => exact Or.inl count
    | write cluster buffer => exact Or.inl count
  · exact Or.inr never

/-- A volume found on its drive is mounted, and the calls for its clusters are served. -/
theorem mounted_transfers {pause : Nat → Pause} (layout : Layout) (memory : Memory)
    (device : AtaDevice) (idle : device.line.left = 0) {volume : Volume}
    (seamless : SeamlessClusters pause volume)
    (found : (sectors device).read volume.second 0 1 = volume.sector)
    (requests : List (RecordRequest (Cluster volume) UInt16)) :
    ∃ outcome,
      Returns (ataPorts (errorFree pause))
        (mountAndTransfer layout volume.drive (requests.map numbered) memory) device outcome ∧
      outcome.state.line.left = 0 ∧ outcome.result.1.1 = true ∧
      (outcome.result.2, sectors outcome.state) =
        (sectors device).transact (requests.map volume.placement.request) := by
  rcases mount_found_sector pause layout memory device idle volume.second with
    ⟨mounted, returnsMount, drained, same, result⟩
  have smooth : ∀ call ∈ requests.map (sectorCall volume), Seamless pause call := by
    intro call member
    rcases List.mem_map.mp member with ⟨request, _, rfl⟩
    exact cluster_call_seamless seamless request
  rcases serve_calls_return mounted.state drained smooth with ⟨served, returnsCalls, left, stored⟩
  rw [found, ← volume.onDrive] at result
  have requested : (requests.map (sectorCall volume)).map SectorCall.request =
      requests.map volume.placement.request := by
    rw [List.map_map]
    apply List.map_congr_left
    intro request _
    exact sector_call_request volume request
  rw [requested, same] at stored
  rw [← transfer_calls layout memory, ← result] at returnsCalls
  rw [← volume.onDrive] at returnsMount
  have whole : Returns (ataPorts (errorFree pause))
      (mountAndTransfer layout volume.drive (requests.map numbered) memory) device _ :=
    returns_bind returnsMount (returns_bind returnsCalls (returns_pure _ _))
  refine ⟨_, whole, left, ?_, stored⟩
  change mounted.result.1 = true
  rw [result]
  exact congrArg Prod.fst (@mount_signed layout memory volume.toMountCall volume.signed)

/-- Mounting a volume and transferring clusters of it, in any order and number, reads and
writes a table that has a record for each cluster; the metadata of the volume, what lies
behind it and the other drive are not changed. -/
theorem clusters_stored (pause : Nat → Pause) (layout : Layout) (memory : Memory)
    (device : AtaDevice) (idle : device.line.left = 0) (volume : Volume)
    (seamless : SeamlessClusters pause volume)
    (found : (sectors device).read volume.second 0 1 = volume.sector)
    (requests : List (RecordRequest (Cluster volume) UInt16)) :
    ∃ outcome,
      Returns (ataPorts (errorFree pause))
        (mountAndTransfer layout volume.drive (requests.map numbered) memory) device outcome ∧
      outcome.result.1.1 = true ∧
      (outcome.result.2, volume.placement.records (sectors outcome.state)) =
        transactRecords (fun _ => sectorWords * volume.perCluster)
          (volume.placement.records (sectors device)) requests ∧
      ∀ drive block, drive ≠ volume.second ∨ block < volume.metadataSectors ∨
        volume.field "total_sectors32" ≤ block →
          ∀ word, sectors outcome.state drive block word = sectors device drive block word := by
  rcases mounted_transfers layout memory device idle seamless found requests with
    ⟨outcome, returns, _, mounted, stored⟩
  rcases Prod.mk.inj stored with ⟨words, after⟩
  refine ⟨outcome, returns, mounted, ?_, ?_⟩
  · rw [words, after]
    exact placed_transacted (sectors device) requests
  · intro drive block outside word
    rw [after]
    exact outside_records_kept (sectors device) requests (outside_clusters outside) word

def volumeWords (sizes totalLow totalHigh tableSectors : UInt16) : List UInt16 :=
  List.replicate 6 0 ++ [sizes, 32, 2] ++ List.replicate 7 0 ++
    [totalLow, totalHigh, tableSectors] ++ List.replicate 22 0 ++
    [0x4146, 0x3354, 0x2032, 0x2020] ++ List.replicate 211 0

theorem volume_words_length (sizes totalLow totalHigh tableSectors : UInt16) :
    (volumeWords sizes totalLow totalHigh tableSectors).length = 256 := by
  simp only [volumeWords, List.length_append, List.length_replicate, List.length_cons,
    List.length_nil]

theorem first_drive : (0 : UInt8) = Bool.toUInt8 false := rfl

def storedVolume : Volume where
  drive := 0
  sector := volumeWords 0x0802 0x86A0 1 1000
  whole := volume_words_length 0x0802 0x86A0 1 1000
  second := false
  onDrive := first_drive
  signed := by
    unfold MountCall.Signed
    decide +kernel
  filled := by decide +kernel
  small := by decide +kernel

theorem clusters_stored_two :
    let first : Cluster storedVolume := ⟨2, by decide, by decide +kernel⟩
    let last : Cluster storedVolume := ⟨12247, by decide, by decide +kernel⟩
    let requests := [.write first fun index => UInt16.ofNat index, .write last fun _ => 0xFFFF,
      .read first]
    let device := { blankDevice with
      medium := fun _ address => storedVolume.sector.getD address 0 }
    ∃ outcome,
      Returns (ataPorts alwaysReady)
        (mountAndTransfer twoDriveLayout storedVolume.drive (requests.map numbered) fun _ => 0)
          device outcome ∧
      outcome.result.1.1 = true ∧
      (outcome.result.2, storedVolume.placement.records (sectors outcome.state)) =
        transactRecords (fun _ => sectorWords * storedVolume.perCluster)
          (storedVolume.placement.records (sectors device)) requests ∧
      ∀ drive block, drive ≠ storedVolume.second ∨ block < storedVolume.metadataSectors ∨
        storedVolume.field "total_sectors32" ≤ block →
          ∀ word, sectors outcome.state drive block word = sectors device drive block word := by
  intro first last requests device
  exact clusters_stored (fun _ => Pause.none) twoDriveLayout (fun _ => 0) device rfl storedVolume
    (Or.inr fun _ => rfl) (by decide +kernel) requests

end FractionsOS.Fat32
