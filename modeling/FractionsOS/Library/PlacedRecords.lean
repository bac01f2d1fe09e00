import FractionsOS.Library.BlockArrays
import Mathlib.Logic.Function.Basic

/-!
# Records placed in a store

Records of whole blocks, no two of which share a block of a drive. Reading and writing
records at their places is reading and updating a table of records.
-/

namespace Library.PlacedRecords

open Library.BlockArrays Library.BlockArrays.BlockStore

set_option autoImplicit false

structure Placement (Key Drive : Type) where
  drive : Key → Drive
  start : Key → Nat
  count : Key → Nat
  apart : ∀ one other, drive one = drive other → ∀ block,
    start one ≤ block → block < start one + count one →
      start other ≤ block → block < start other + count other → one = other

inductive RecordRequest (Key Word : Type) where
  | read (key : Key)
  | write (key : Key) (buffer : Nat → Word)

def RecordRequest.rename {Key Other Word : Type} (name : Key → Other) :
    RecordRequest Key Word → RecordRequest Other Word
  | .read key => .read (name key)
  | .write key buffer => .write (name key) buffer

section Records

variable {Key Drive Word : Type} {size : Nat} (placement : Placement Key Drive)

def Placement.request : RecordRequest Key Word → Request Drive Word
  | .read key => .read (placement.drive key) (placement.start key) (placement.count key)
  | .write key buffer =>
      .write (placement.drive key) (placement.start key) (placement.count key) buffer

def Placement.records (store : BlockStore Drive Word size) (key : Key) : List Word :=
  store.read (placement.drive key) (placement.start key) (placement.count key)

section Tables

variable [DecidableEq Key] (length : Key → Nat)

def serveRecord (records : Key → List Word) :
    RecordRequest Key Word → List Word × (Key → List Word)
  | .read key => (records key, records)
  | .write key buffer => ([], Function.update records key ((List.range (length key)).map buffer))

def transactRecords (records : Key → List Word) :
    List (RecordRequest Key Word) → List Word × (Key → List Word)
  | [] => ([], records)
  | request :: requests =>
      let rest := transactRecords (serveRecord length records request).2 requests
      ((serveRecord length records request).1 ++ rest.1, rest.2)

end Tables

variable {placement} [DecidableEq Drive]

theorem other_record_kept (store : BlockStore Drive Word size) {key other : Key}
    (different : other ≠ key) (buffer : Nat → Word) :
    placement.records (store.write (placement.drive key) (placement.start key)
      (placement.count key) buffer) other = placement.records store other := by
  apply read_same
  intro block started ended word
  apply if_neg
  rintro ⟨same, within⟩
  exact different (placement.apart other key same block started ended within.1 within.2)

variable [DecidableEq Key]

theorem placed_served (store : BlockStore Drive Word size) (request : RecordRequest Key Word) :
    ((store.serve (placement.request request)).1,
        placement.records (store.serve (placement.request request)).2) =
      serveRecord (fun key => size * placement.count key) (placement.records store) request := by
  cases request with
  | read key => rfl
  | write key buffer =>
      refine congrArg (Prod.mk []) ?_
      funext other
      by_cases same : other = key
      · rw [same, Function.update_self]
        exact read_written store (placement.drive key) (placement.start key) (placement.count key)
          buffer
      · rw [Function.update_of_ne same]
        exact other_record_kept store same buffer

/-- Runs of transfers at the records' places are runs on the table of records. -/
theorem placed_transacted (store : BlockStore Drive Word size)
    (requests : List (RecordRequest Key Word)) :
    ((store.transact (requests.map placement.request)).1,
        placement.records (store.transact (requests.map placement.request)).2) =
      transactRecords (fun key => size * placement.count key) (placement.records store)
        requests := by
  induction requests generalizing store with
  | nil => rfl
  | cons request requests induction =>
      have first := @placed_served _ _ _ _ placement _ _ store request
      have rest := induction (store.serve (placement.request request)).2
      have words := congrArg Prod.fst first
      have records := congrArg Prod.snd first
      dsimp only at words records
      rw [List.map_cons, transact, transactRecords, ← words, ← records, ← rest]

omit [DecidableEq Key] in
theorem outside_records_kept (store : BlockStore Drive Word size)
    (requests : List (RecordRequest Key Word)) {drive : Drive} {block : Nat}
    (outside : ∀ key, ¬(drive = placement.drive key ∧ placement.start key ≤ block ∧
      block < placement.start key + placement.count key)) (word : Fin size) :
    (store.transact (requests.map placement.request)).2 drive block word =
      store drive block word := by
  apply transact_untouched
  intro request member writes
  rcases List.mem_map.mp member with ⟨recordRequest, _, rfl⟩
  cases recordRequest with
  | read key => exact writes
  | write key buffer => exact outside key ⟨writes.1.symm, writes.2.1, writes.2.2⟩

end Records

end Library.PlacedRecords
