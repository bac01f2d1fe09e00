import FractionsOS.Storage.NvmeSubmission
import Mathlib.Algebra.Group.Nat.Defs

/-!
# Requests in stored commands

A stored command has room for the buffer, the count and one half of the block
address. The other half is the initialiser beyond the end of `cmd_specific`.
-/

namespace FractionsOS.Nvme

set_option autoImplicit false

theorem pointer_word_low (pointer : UInt32) : (pointerWord pointer).toUInt32 = pointer := by
  unfold pointerWord
  apply UInt32.toBitVec_inj.mp
  change ((pointer.toBitVec).signExtend 64).setWidth 32 = pointer.toBitVec
  ext i inside
  rw [BitVec.getElem_setWidth, BitVec.getLsbD_signExtend,
    decide_eq_true (by omega : i < 64), if_pos inside, Bool.true_and]
  exact BitVec.getLsbD_eq_getElem inside

def NvmeCommand.request (command : NvmeCommand) : Request where
  lba := command.cmdSpecific.2.toUInt64
  count := command.cmdSpecific.1
  buffer := command.prp1.toUInt32

/-- The address read back has lost its high half. -/
theorem command_request (request : Request) :
    request.command.request = { request with lba := request.lba.toUInt32.toUInt64 } := by
  unfold NvmeCommand.request Request.command
  rw [pointer_word_low]

theorem low_half_iff {lba other : UInt64} :
    lba.toUInt32 = other.toUInt32 ↔ lba.toNat % 2 ^ 32 = other.toNat % 2 ^ 32 := by
  rw [← UInt32.toNat_inj, UInt64.toNat_toUInt32, UInt64.toNat_toUInt32]

theorem small_address_kept {lba : UInt64} (small : lba.toNat < 2 ^ 32) :
    lba.toUInt32.toUInt64 = lba := by
  apply UInt64.toNat_inj.mp
  rw [UInt32.toNat_toUInt64, UInt64.toNat_toUInt32]
  exact Nat.mod_eq_of_lt small

theorem commands_equal_iff (one other : Request) :
    one.command = other.command ↔
      one.buffer = other.buffer ∧ one.count = other.count ∧
        one.lba.toNat % 2 ^ 32 = other.lba.toNat % 2 ^ 32 := by
  rw [← low_half_iff]
  constructor
  · intro same
    have read := congrArg (fun command => command.prp1.toUInt32) same
    simp only [Request.command, pointer_word_low] at read
    have halves := congrArg NvmeCommand.cmdSpecific same
    exact ⟨read, congrArg Prod.fst halves, congrArg Prod.snd halves⟩
  · rintro ⟨sameBuffer, sameCount, sameHalf⟩
    unfold Request.command
    rw [sameBuffer, sameCount, sameHalf]

def storedCommand : NvmeAccess → Option NvmeCommand
  | .storeCommand _ command => some command
  | .mmioWrite32 _ _ => none
  | .readStatus _ => none

def storedCommands (trace : List NvmeAccess) : List NvmeCommand :=
  trace.filterMap storedCommand

theorem submission_stores (nvmeRegs : UInt32) (request : Request) :
    storedCommands (submissionAccesses nvmeRegs request) = [request.command] := rfl

section Driver

variable {State : Type} {host : NvmeHost State} {nvmeRegs : UInt32}

theorem wait_stores_nothing {budget : Nat} {state : State} {waited : State × List NvmeAccess}
    (found : waitCompletion host budget state = some waited) : storedCommands waited.2 = [] := by
  apply List.filterMap_eq_nil_iff.mpr
  intro access member
  rw [wait_only_reads found access member]
  rfl

theorem returned_stores {request : Request} {state : State} {outcome : Outcome State}
    (returned : Returns host nvmeRegs request state outcome) :
    storedCommands outcome.trace = [request.command] := by
  rcases returned with ⟨budget, found⟩
  unfold nvmeRead at found
  rw [Option.map_eq_some_iff] at found
  rcases found with ⟨waited, wait, same⟩
  rw [← same]
  have silent := wait_stores_nothing wait
  unfold storedCommands at silent ⊢
  rw [List.filterMap_append, List.filterMap_append, silent]
  rfl

theorem served_stores {state : State} {requests : List Request} {outcomes : List (Outcome State)}
    (serves : Serves host nvmeRegs state requests outcomes) :
    (outcomes.flatMap fun outcome => storedCommands outcome.trace) =
      requests.map Request.command := by
  induction serves with
  | nil => rfl
  | cons returned rest induction =>
      rw [List.flatMap_cons, returned_stores returned, induction]
      rfl

/-- Requests for a disk of 2^32 blocks can be read back from the queue. -/
theorem small_disk_read_back {state : State} {requests : List Request}
    {outcomes : List (Outcome State)} (serves : Serves host nvmeRegs state requests outcomes)
    (small : ∀ request ∈ requests, request.lba.toNat < 2 ^ 32) :
    (outcomes.flatMap fun outcome => storedCommands outcome.trace).map NvmeCommand.request =
      requests := by
  rw [served_stores serves, List.map_map]
  conv_rhs => rw [← List.map_id requests]
  apply List.map_congr_left
  intro request member
  change request.command.request = request
  rw [command_request, small_address_kept (small request member)]

end Driver

theorem small_disk_read_back_two :
    ∃ outcomes, Serves idleHost 0xFEB00000 () [⟨7, 1, 0x200000⟩, ⟨0xFFFFFFFF, 2, 0x200200⟩] outcomes ∧
      (outcomes.flatMap fun outcome => storedCommands outcome.trace).map NvmeCommand.request =
        [⟨7, 1, 0x200000⟩, ⟨0xFFFFFFFF, 2, 0x200200⟩] := by
  have serves : Serves idleHost 0xFEB00000 ()
      [⟨7, 1, 0x200000⟩, ⟨0xFFFFFFFF, 2, 0x200200⟩] _ :=
    .cons (idle_returns 0xFEB00000 _) (.cons (idle_returns 0xFEB00000 _) (.nil ()))
  exact ⟨_, serves, small_disk_read_back serves (by decide)⟩

/-- Calls for two requests that store the same command are calls for one request,
whether they return or not. -/
structure ToldApart (one other : Request) : Prop where
  submitted : ∀ nvmeRegs otherRegs : UInt32,
    storedCommands (submissionAccesses nvmeRegs one) =
      storedCommands (submissionAccesses otherRegs other) → one = other
  returned : ∀ (State : Type) (host : NvmeHost State) (nvmeRegs otherRegs : UInt32)
    (state otherState : State) (outcome otherOutcome : Outcome State),
      Returns host nvmeRegs one state outcome →
        Returns host otherRegs other otherState otherOutcome →
          storedCommands outcome.trace = storedCommands otherOutcome.trace → one = other

theorem told_apart_commands {one other : Request}
    (injective : one.command = other.command → one = other) : ToldApart one other := by
  constructor
  · intro nvmeRegs otherRegs same
    rw [submission_stores, submission_stores] at same
    exact injective (List.singleton_inj.mp same)
  · intro State host nvmeRegs otherRegs state otherState outcome otherOutcome returned
      otherReturned same
    rw [returned_stores returned, returned_stores otherReturned] at same
    exact injective (List.singleton_inj.mp same)

def DifferInHighHalf (one other : Request) : Prop :=
  one.buffer = other.buffer ∧ one.count = other.count ∧
    one.lba.toNat % 2 ^ 32 = other.lba.toNat % 2 ^ 32 ∧
      one.lba.toNat / 2 ^ 32 ≠ other.lba.toNat / 2 ^ 32

theorem halves_determine {lba other : UInt64}
    (low : lba.toNat % 2 ^ 32 = other.toNat % 2 ^ 32)
    (high : lba.toNat / 2 ^ 32 = other.toNat / 2 ^ 32) : lba = other := by
  apply UInt64.toNat_inj.mp
  rw [← Nat.div_add_mod lba.toNat (2 ^ 32), low, high, Nat.div_add_mod]

theorem told_apart_iff (one other : Request) :
    ToldApart one other ↔ ¬DifferInHighHalf one other := by
  constructor
  · rintro apart ⟨sameBuffer, sameCount, sameLow, differHigh⟩
    have sameCommand := (commands_equal_iff one other).mpr ⟨sameBuffer, sameCount, sameLow⟩
    have same : one = other := by
      apply apart.submitted 0 0
      rw [submission_stores, submission_stores, sameCommand]
    rw [same] at differHigh
    exact differHigh rfl
  · intro elsewhere
    apply told_apart_commands
    intro sameCommand
    rcases (commands_equal_iff one other).mp sameCommand with ⟨sameBuffer, sameCount, sameLow⟩
    have sameHigh : one.lba.toNat / 2 ^ 32 = other.lba.toNat / 2 ^ 32 := by
      by_contra differHigh
      exact elsewhere ⟨sameBuffer, sameCount, sameLow, differHigh⟩
    have sameAddress := halves_determine sameLow sameHigh
    cases one
    cases other
    simp only at sameBuffer sameCount sameAddress
    rw [sameBuffer, sameCount, sameAddress]

/-- Block 2^32 is asked for with the command for block 0. -/
theorem high_half_dropped :
    ¬ToldApart ⟨0, 1, 0x200000⟩ ⟨0x100000000, 1, 0x200000⟩ := by
  intro apart
  have same := apart.submitted 0 0 rfl
  exact absurd (congrArg Request.lba same) (by decide)

end FractionsOS.Nvme
