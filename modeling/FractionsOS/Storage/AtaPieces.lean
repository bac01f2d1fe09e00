import FractionsOS.Storage.AtaPauses

/-!
# Transfers in pieces

A call moves at most 255 sectors, so larger transfers are made of several calls. As long as
no call is interrupted, how a transfer is cut into calls leaves no mark on the drives, nor
on the words read back.
-/

namespace FractionsOS.Ata

open Library.PortPrograms Library.BlockHandshake Library.BlockArrays
open Library.BlockArrays.BlockStore

set_option autoImplicit false

def serveCalls : List SectorCall → PortProgram (List UInt16)
  | [] => pure []
  | call :: calls => do
      let first ← call.call.program
      let rest ← serveCalls calls
      return first.2 ++ rest

theorem serve_calls_return {pause : Nat → Pause} (device : AtaDevice)
    (idle : device.line.left = 0) {calls : List SectorCall}
    (seamless : ∀ call ∈ calls, Seamless pause call) :
    ∃ outcome, Returns (ataPorts (errorFree pause)) (serveCalls calls) device outcome ∧
      outcome.state.line.left = 0 ∧
      (outcome.result, sectors outcome.state) =
        (sectors device).transact (calls.map SectorCall.request) := by
  induction calls generalizing device with
  | nil => exact ⟨_, returns_pure [] device, idle, rfl⟩
  | cons call calls induction =>
      rw [List.forall_mem_cons] at seamless
      rcases seamless_serves device idle seamless.1 with ⟨first, returnsFirst, drained, served⟩
      rcases induction first.state drained seamless.2 with
        ⟨rest, returnsRest, drainedRest, servedRest⟩
      have joined : Returns (ataPorts (errorFree pause))
          (serveCalls calls >>= fun rest => pure (first.result.2 ++ rest)) first.state _ :=
        returns_bind returnsRest (returns_pure (first.result.2 ++ rest.result) rest.state)
      have whole : Returns (ataPorts (errorFree pause)) (serveCalls (call :: calls)) device _ :=
        returns_bind returnsFirst joined
      refine ⟨_, whole, drainedRest, ?_⟩
      rw [List.map_cons, transact, ← served, ← servedRest]
      rfl

/-- Ranges of one drive, each of which goes on where the one before it ended. -/
def Consecutive (second : Bool) : Nat → List SectorRange → Prop
  | _, [] => True
  | first, range :: ranges =>
      range.second = second ∧ range.lba.toNat = first ∧
        Consecutive second (first + range.count.toNat) ranges

def sectorCounts (ranges : List SectorRange) : List Nat :=
  ranges.map fun range => range.count.toNat

/-- One call for each range, the buffer of each starting behind that of the one before. -/
def writeCalls (buffer : Nat → UInt16) : List SectorRange → List SectorCall
  | [] => []
  | range :: ranges =>
      .write range buffer ::
        writeCalls (fun index => buffer (sectorWords * range.count.toNat + index)) ranges

theorem write_calls_requests {second : Bool} {first : Nat} {ranges : List SectorRange}
    (consecutive : Consecutive second first ranges) (buffer : Nat → UInt16) :
    (writeCalls buffer ranges).map SectorCall.request =
      writePieces sectorWords second first buffer (sectorCounts ranges) := by
  induction ranges generalizing first buffer with
  | nil => rfl
  | cons range ranges induction =>
      rcases consecutive with ⟨drive, start, rest⟩
      have here : (SectorCall.write range buffer).request =
          .write second first range.count.toNat buffer := by
        rw [← drive, ← start]
        rfl
      rw [writeCalls, List.map_cons, induction rest, here]
      rfl

theorem read_calls_requests {second : Bool} {first : Nat} {ranges : List SectorRange}
    (consecutive : Consecutive second first ranges) :
    (ranges.map SectorCall.read).map SectorCall.request =
      readPieces second first (sectorCounts ranges) := by
  induction ranges generalizing first with
  | nil => rfl
  | cons range ranges induction =>
      rcases consecutive with ⟨drive, start, rest⟩
      have here : (SectorCall.read range).request = .read second first range.count.toNat := by
        rw [← drive, ← start]
        rfl
      rw [List.map_cons, List.map_cons, induction rest, here]
      rfl

/-- A buffer written in any pieces is read back in any other pieces: the reads together
give its words in order, and the drives hold what a single write of all the sectors makes
of them. -/
theorem write_read_in_pieces (pause : Nat → Pause) (device : AtaDevice)
    (idle : device.line.left = 0) (second : Bool) (first : Nat)
    (written read : List SectorRange) (buffer : Nat → UInt16)
    (seamless : ∀ call ∈ writeCalls buffer written ++ read.map SectorCall.read,
      Seamless pause call)
    (writesOn : Consecutive second first written) (readsOn : Consecutive second first read)
    (same : (sectorCounts read).sum = (sectorCounts written).sum) :
    ∃ outcome,
      Returns (ataPorts (errorFree pause))
        (serveCalls (writeCalls buffer written ++ read.map SectorCall.read)) device outcome ∧
      outcome.result = (List.range (sectorWords * (sectorCounts written).sum)).map buffer ∧
      sectors outcome.state =
        (sectors device).write second first (sectorCounts written).sum buffer := by
  rcases serve_calls_return device idle seamless with ⟨outcome, returns, _, served⟩
  rw [List.map_append, write_calls_requests writesOn, read_calls_requests readsOn,
    pieces_round_trip (sectors device) second first buffer same] at served
  rcases Prod.mk.inj served with ⟨words, stored⟩
  exact ⟨outcome, returns, words, stored⟩

def rangeAt (lba : UInt32) (count : UInt8) (positive : 0 < count.toNat)
    (fits : lba.toNat + count.toNat ≤ 2 ^ 28) : SectorRange :=
  ⟨false, lba, count, positive, fits⟩

/-- 300 sectors written in two calls and read in three. -/
theorem write_read_in_pieces_large :
    let buffer := fun index => UInt16.ofNat index
    let written := [rangeAt 7 255 (by decide) (by decide), rangeAt 262 45 (by decide) (by decide)]
    let read := [rangeAt 7 100 (by decide) (by decide), rangeAt 107 100 (by decide) (by decide),
      rangeAt 207 100 (by decide) (by decide)]
    ∃ outcome,
      Returns (ataPorts alwaysReady)
        (serveCalls (writeCalls buffer written ++ read.map SectorCall.read)) blankDevice outcome ∧
      outcome.result = (List.range (sectorWords * (sectorCounts written).sum)).map buffer ∧
      sectors outcome.state =
        (sectors blankDevice).write false 7 (sectorCounts written).sum buffer := by
  intro buffer written read
  refine write_read_in_pieces (fun _ => Pause.none) blankDevice rfl false 7 written read buffer
    (fun _ _ => Or.inr fun _ => rfl) ?_ ?_ (by decide)
  · exact ⟨rfl, rfl, rfl, rfl, trivial⟩
  · exact ⟨rfl, rfl, rfl, rfl, rfl, rfl, trivial⟩

end FractionsOS.Ata
