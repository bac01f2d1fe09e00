import FractionsOS.Storage.Fat32Store

/-!
# Two volumes in turn

A volume on each drive, mounted in any order and as often as one likes, clusters of the
mounted one transferred in between. No transfer reaches a boot sector, so that each mount
finds its volume, and the clusters of both are one table.
-/

namespace FractionsOS.Fat32

open Library.BlockArrays Library.BlockHandshake Library.PlacedRecords Library.PortPrograms
open Library.StackMemory Ata

set_option autoImplicit false

/-- A volume on each drive, its clusters behind its boot sector. -/
structure VolumePair where
  on : Bool → Volume
  ownDrive : ∀ drive, (on drive).second = drive
  reserved : ∀ drive, 0 < (on drive).metadataSectors

/-- A drive that is mounted, and the transfers of its volume's clusters. -/
structure Visit (volumes : VolumePair) where
  second : Bool
  requests : List (RecordRequest (Cluster (volumes.on second)) UInt16)

def VolumePair.Place (volumes : VolumePair) : Type := Σ second, Cluster (volumes.on second)

instance (volumes : VolumePair) : DecidableEq volumes.Place :=
  inferInstanceAs (DecidableEq (Σ second, Cluster (volumes.on second)))

section Visits

variable {volumes : VolumePair}

def Visit.placed (visit : Visit volumes) : List (RecordRequest volumes.Place UInt16) :=
  visit.requests.map fun request => request.rename fun cluster => ⟨visit.second, cluster⟩

/-- Visits one after the other: what each mount returned, and the words that were read. -/
def visitAll (layout : Layout) :
    List (Visit volumes) → Memory → PortProgram (List Bool × List UInt16)
  | [], _ => pure ([], [])
  | visit :: visits, memory => do
      let first ← mountAndTransfer layout visit.second.toUInt8 (visit.requests.map numbered) memory
      let rest ← visitAll layout visits first.1.2
      return (first.1.1 :: rest.1, first.2 ++ rest.2)

theorem places_apart (one other : volumes.Place) (same : one.1 = other.1) (block : Nat)
    (start : (volumes.on one.1).start one.2 ≤ block)
    (last : block < (volumes.on one.1).start one.2 + (volumes.on one.1).perCluster)
    (otherStart : (volumes.on other.1).start other.2 ≤ block)
    (otherLast : block < (volumes.on other.1).start other.2 + (volumes.on other.1).perCluster) :
    one = other := by
  rcases one with ⟨drive, one⟩
  rcases other with ⟨second, other⟩
  cases same
  have sameCluster := clusters_apart (volumes.on drive) one other block start last otherStart
    otherLast
  rw [sameCluster]

variable (volumes) in
def VolumePair.placement : Placement volumes.Place Bool where
  drive place := place.1
  start place := (volumes.on place.1).start place.2
  count place := (volumes.on place.1).perCluster
  apart := places_apart

theorem outside_volumes {drive : Bool} {block : Nat}
    (outside : block < (volumes.on drive).metadataSectors ∨
      (volumes.on drive).field "total_sectors32" ≤ block) (place : volumes.Place) :
    ¬(drive = volumes.placement.drive place ∧ volumes.placement.start place ≤ block ∧
      block < volumes.placement.start place + volumes.placement.count place) := by
  rcases place with ⟨second, cluster⟩
  rintro ⟨same, inside⟩
  cases same
  exact outside_clusters (Or.inr outside) cluster ⟨(volumes.ownDrive second).symm, inside⟩

theorem boot_sectors_kept (store : BlockStore Bool UInt16 sectorWords)
    (requests : List (RecordRequest volumes.Place UInt16)) (drive : Bool) :
    (store.transact (requests.map volumes.placement.request)).2.read drive 0 1 =
      store.read drive 0 1 := by
  apply BlockStore.read_same
  intro block _ ended
  rw [Nat.lt_one_iff.mp ended]
  exact outside_records_kept store requests (outside_volumes (Or.inl (volumes.reserved drive)))

theorem visit_requests (visit : Visit volumes) :
    visit.requests.map (volumes.on visit.second).placement.request =
      visit.placed.map volumes.placement.request := by
  unfold Visit.placed
  rw [List.map_map]
  apply List.map_congr_left
  intro request _
  cases request with
  | read cluster =>
      change Request.read (volumes.on visit.second).second _ _ = _
      rw [volumes.ownDrive]
      rfl
  | write cluster buffer =>
      change Request.write (volumes.on visit.second).second _ _ buffer = _
      rw [volumes.ownDrive]
      rfl

theorem visits_served {pause : Nat → Pause} (layout : Layout) (memory : Memory)
    (device : AtaDevice) (idle : device.line.left = 0)
    (seamless : ∀ drive, SeamlessClusters pause (volumes.on drive))
    (found : ∀ drive, (sectors device).read drive 0 1 = (volumes.on drive).sector)
    (visits : List (Visit volumes)) :
    ∃ outcome, Returns (ataPorts (errorFree pause)) (visitAll layout visits memory) device
        outcome ∧
      outcome.result.1 = visits.map (fun _ => true) ∧
      (outcome.result.2, sectors outcome.state) =
        (sectors device).transact
          ((visits.flatMap Visit.placed).map volumes.placement.request) := by
  induction visits generalizing memory device with
  | nil => exact ⟨_, returns_pure _ _, rfl, rfl⟩
  | cons visit visits induction =>
      have drive : (volumes.on visit.second).drive = visit.second.toUInt8 := by
        rw [(volumes.on visit.second).onDrive, volumes.ownDrive]
      have here : (sectors device).read (volumes.on visit.second).second 0 1 =
          (volumes.on visit.second).sector := by
        rw [volumes.ownDrive]
        exact found visit.second
      rcases mounted_transfers layout memory device idle (seamless visit.second) here
        visit.requests with ⟨first, returnsFirst, drained, mounted, stored⟩
      rw [drive] at returnsFirst
      rw [visit_requests] at stored
      rcases Prod.mk.inj stored with ⟨words, after⟩
      have foundLater : ∀ drive,
          (sectors first.state).read drive 0 1 = (volumes.on drive).sector := by
        intro drive
        rw [after, boot_sectors_kept]
        exact found drive
      rcases induction first.result.1.2 first.state drained foundLater with
        ⟨rest, returnsRest, mountedRest, storedRest⟩
      have whole : Returns (ataPorts (errorFree pause)) (visitAll layout (visit :: visits) memory)
          device _ := returns_bind returnsFirst (returns_bind returnsRest (returns_pure _ _))
      rcases Prod.mk.inj storedRest with ⟨wordsRest, afterRest⟩
      refine ⟨_, whole, congrArg₂ List.cons mounted mountedRest, ?_⟩
      rw [List.flatMap_cons, List.map_append, BlockStore.transact_append, ← after, ← words,
        ← wordsRest, ← afterRest]
      rfl

end Visits

/-- Whatever volumes are mounted in turn and whatever clusters of the mounted one are
transferred, every mount succeeds, each cluster of either volume holds what was last written
to it, and no other sector of a drive is changed. -/
theorem volumes_stored (pause : Nat → Pause) (layout : Layout) (memory : Memory)
    (device : AtaDevice) (idle : device.line.left = 0) (volumes : VolumePair)
    (seamless : ∀ drive, SeamlessClusters pause (volumes.on drive))
    (found : ∀ drive, (sectors device).read drive 0 1 = (volumes.on drive).sector)
    (visits : List (Visit volumes)) :
    ∃ outcome, Returns (ataPorts (errorFree pause)) (visitAll layout visits memory) device
        outcome ∧
      outcome.result.1 = visits.map (fun _ => true) ∧
      (outcome.result.2, volumes.placement.records (sectors outcome.state)) =
        transactRecords (fun place => sectorWords * (volumes.on place.1).perCluster)
          (volumes.placement.records (sectors device)) (visits.flatMap Visit.placed) ∧
      ∀ drive block, block < (volumes.on drive).metadataSectors ∨
        (volumes.on drive).field "total_sectors32" ≤ block →
          ∀ word, sectors outcome.state drive block word = sectors device drive block word := by
  rcases visits_served layout memory device idle seamless found visits with
    ⟨outcome, returns, mounted, stored⟩
  rcases Prod.mk.inj stored with ⟨words, after⟩
  refine ⟨outcome, returns, mounted, ?_, ?_⟩
  · rw [words, after]
    exact placed_transacted (sectors device) (visits.flatMap Visit.placed)
  · intro drive block outside word
    rw [after]
    exact outside_records_kept (sectors device) _ (outside_volumes outside) word

def singleSectors : Volume where
  drive := 0
  sector := volumeWords 0x0102 3000 0 20
  whole := volume_words_length 0x0102 3000 0 20
  second := false
  onDrive := first_drive
  signed := by
    unfold MountCall.Signed
    decide +kernel
  filled := by decide +kernel
  small := by decide +kernel

def copiedVolume : VolumePair where
  on second := { singleSectors with drive := second.toUInt8, second, onDrive := rfl }
  ownDrive _ := rfl
  reserved _ := by
    change 0 < singleSectors.metadataSectors
    decide +kernel

def slower (number : Nat) : Pause := ⟨7 * number, number⟩

theorem volumes_stored_slow :
    let cluster (second : Bool) : Cluster (copiedVolume.on second) :=
      ⟨2, by decide, (by decide +kernel : singleSectors.InVolume 2)⟩
    let visits : List (Visit copiedVolume) :=
      [⟨false, [.write (cluster false) fun _ => 0xFFFF]⟩, ⟨true, []⟩,
        ⟨true, [.write (cluster true) fun index => UInt16.ofNat index, .read (cluster true)]⟩,
        ⟨false, [.read (cluster false)]⟩]
    let device := { blankDevice with
      medium := fun _ address => singleSectors.sector.getD address 0 }
    ∃ outcome,
      Returns (ataPorts (errorFree slower)) (visitAll twoDriveLayout visits fun _ => 0) device
        outcome ∧
      outcome.result.1 = visits.map (fun _ => true) ∧
      (outcome.result.2, copiedVolume.placement.records (sectors outcome.state)) =
        transactRecords (fun place => sectorWords * (copiedVolume.on place.1).perCluster)
          (copiedVolume.placement.records (sectors device)) (visits.flatMap Visit.placed) ∧
      ∀ drive block, block < (copiedVolume.on drive).metadataSectors ∨
        (copiedVolume.on drive).field "total_sectors32" ≤ block →
          ∀ word, sectors outcome.state drive block word = sectors device drive block word := by
  intro cluster visits device
  have single : singleSectors.perCluster = 1 := by decide +kernel
  apply volumes_stored slower twoDriveLayout (fun _ => 0) device rfl copiedVolume
  · exact fun _ => Or.inl single
  · intro drive
    cases drive with
    | false => decide +kernel
    | true => decide +kernel

end FractionsOS.Fat32
