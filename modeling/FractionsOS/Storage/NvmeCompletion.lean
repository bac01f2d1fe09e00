import FractionsOS.Storage.Nvme

/-!
# Completion of commands

The controller answers each command with one completion, posted after some of the
driver's reads. The driver looks for any status but 0xFFFF in the first slot and
takes the phase tag for the status code.
-/

namespace FractionsOS.Nvme

set_option autoImplicit false

/-- What the controller does for a command: after so many reads of a status by the
driver it stores a status in a slot of the completion queue. -/
structure Completion where
  delay : Nat
  slot : Nat
  status : UInt16

def Completion.code (completion : Completion) : UInt16 := completion.status >>> 1

/-- A command that is not completed yet, and how many reads it still outlasts. -/
structure Pending where
  command : Nat
  reads : Nat

structure CompletionQueue where
  /-- `admin_cq[slot].status` -/
  adminCq : Nat → UInt16
  /-- How many commands were submitted; they are numbered from 0 on. -/
  submitted : Nat
  pending : List Pending
  /-- The commands whose completions were posted. -/
  posted : List Nat

/-- The memory that `nvme_init` allocates, with nothing submitted. -/
def freshQueue (adminCq : Nat → UInt16) : CompletionQueue := ⟨adminCq, 0, [], []⟩

section Controller

variable (controller : Nat → Completion)

def CompletionQueue.post (queue : CompletionQueue) (command : Nat) : CompletionQueue :=
  { queue with
    adminCq := Function.update queue.adminCq (controller command).slot (controller command).status
    posted := queue.posted ++ [command] }

def CompletionQueue.postDue (queue : CompletionQueue) : CompletionQueue :=
  (queue.pending.filter fun entry => entry.reads = 0).foldl
    (fun queue entry => queue.post controller entry.command)
    { queue with pending := queue.pending.filter fun entry => 0 < entry.reads }

def CompletionQueue.elapse (queue : CompletionQueue) : CompletionQueue :=
  { queue with pending := queue.pending.map fun entry => { entry with reads := entry.reads - 1 } }

/-- The controller receives a command whenever the driver writes a tail other than 0. -/
def completing : NvmeHost CompletionQueue where
  storeCommand queue _ _ := queue
  mmioWrite32 queue _ value :=
    if value = 0 then queue
    else
      { queue with
        submitted := queue.submitted + 1
        pending := queue.pending ++ [⟨queue.submitted, (controller queue.submitted).delay⟩] }
  readStatus queue slot :=
    let due := queue.postDue controller
    (due.adminCq slot, due.elapse)

/-- A call returns with its own command completed, and true exactly on success. -/
def CallMatched (queue : CompletionQueue) (success : Bool) (after : CompletionQueue) : Prop :=
  queue.submitted ∈ after.posted ∧ (success = true ↔ (controller queue.submitted).code = 0)

def RunMatched (nvmeRegs : UInt32) : List Request → CompletionQueue → Prop
  | [], _ => True
  | request :: requests, queue =>
      ∃ outcome, Returns (completing controller) nvmeRegs request queue outcome ∧
        CallMatched controller queue outcome.success outcome.state ∧
          RunMatched nvmeRegs requests outcome.state

/-- The status that the first slot shows once a call's completion is posted. -/
def statusAfter (queue : CompletionQueue) : UInt16 :=
  if (controller queue.submitted).slot = 0 then (controller queue.submitted).status
  else queue.adminCq 0

/-- The driver's last read comes behind the completion: it waits for it and sees its
end, or the completion comes between its two reads. -/
def InTime (queue : CompletionQueue) : Prop :=
  ((queue.adminCq 0 = 0xFFFF ∨ (controller queue.submitted).delay = 0) ∧
      statusAfter controller queue ≠ 0xFFFF) ∨
    (queue.adminCq 0 ≠ 0xFFFF ∧ (controller queue.submitted).delay = 1)

/-- The completion is in time and shows success by an even status. -/
structure Answerable (queue : CompletionQueue) : Prop where
  inTime : InTime controller queue
  even : statusAfter controller queue &&& 0x1 = 0 ↔ (controller queue.submitted).code = 0

def RunAnswerable (nvmeRegs : UInt32) : List Request → CompletionQueue → Prop
  | [], _ => True
  | request :: requests, queue =>
      Answerable controller queue ∧
        ∀ outcome, Returns (completing controller) nvmeRegs request queue outcome →
          RunAnswerable nvmeRegs requests outcome.state

def awaiting (queue : CompletionQueue) (reads : Nat) : CompletionQueue :=
  { queue with
    submitted := queue.submitted + 1
    pending := [⟨queue.submitted, reads⟩] }

def completed (queue : CompletionQueue) : CompletionQueue :=
  { queue.post controller queue.submitted with
    submitted := queue.submitted + 1
    pending := [] }

structure Settled (queue : CompletionQueue) : Prop where
  pending : queue.pending = []
  posted : ∀ command ∈ queue.posted, command < queue.submitted

variable {controller}

theorem read_settled {queue : CompletionQueue} (settled : queue.pending = []) (slot : Nat) :
    (completing controller).readStatus queue slot = (queue.adminCq slot, queue) := by
  rcases queue with ⟨adminCq, submitted, pending, posted⟩
  cases settled
  rfl

theorem read_awaiting (queue : CompletionQueue) (reads slot : Nat) :
    (completing controller).readStatus (awaiting queue (reads + 1)) slot =
      (queue.adminCq slot, awaiting queue reads) := rfl

theorem read_due (queue : CompletionQueue) (slot : Nat) :
    (completing controller).readStatus (awaiting queue 0) slot =
      ((completed controller queue).adminCq slot, completed controller queue) := rfl

theorem completed_status (queue : CompletionQueue) :
    (completed controller queue).adminCq 0 = statusAfter controller queue := by
  change Function.update queue.adminCq _ _ 0 = _
  rw [Function.update_apply, statusAfter]
  by_cases first : (controller queue.submitted).slot = 0
  · rw [if_pos first, if_pos first.symm]
  · rw [if_neg first, if_neg fun same => first same.symm]

theorem submitted_awaiting {queue : CompletionQueue} (settled : queue.pending = [])
    (nvmeRegs : UInt32) (request : Request) :
    nvmeSubmit (completing controller) nvmeRegs request queue =
      awaiting queue (controller queue.submitted).delay := by
  unfold nvmeSubmit awaiting
  change ({ queue with submitted := _, pending := queue.pending ++ _ } : CompletionQueue) = _
  rw [settled]
  rfl

theorem wait_due (queue : CompletionQueue) (final : CompletionQueue) :
    WaitsUntil (completing controller) (awaiting queue 0) final ↔
      statusAfter controller queue ≠ 0xFFFF ∧ final = completed controller queue := by
  have read := @read_due controller queue 0
  rw [completed_status] at read
  by_cases stuck : statusAfter controller queue = 0xFFFF
  · have again : ((completing controller).readStatus (awaiting queue 0) 0).1 = 0xFFFF := by
      rw [read]
      exact stuck
    have still : (completing controller).readStatus (completed controller queue) 0 =
        (0xFFFF, completed controller queue) := by
      rw [read_settled rfl, completed_status, stuck]
    rw [waits_until_again again, read]
    apply iff_of_false
    · exact waits_forever still
    · intro both
      exact both.1 stuck
  · have done : ((completing controller).readStatus (awaiting queue 0) 0).1 ≠ 0xFFFF := by
      rw [read]
      exact stuck
    rw [waits_until_done done, read]
    constructor
    · intro same
      exact ⟨stuck, same⟩
    · intro both
      exact both.2

/-- Behind a slot that shows 0xFFFF the driver waits for the completion. -/
theorem wait_outlasts {queue : CompletionQueue} (waiting : queue.adminCq 0 = 0xFFFF) (reads : Nat)
    (final : CompletionQueue) :
    WaitsUntil (completing controller) (awaiting queue reads) final ↔
      statusAfter controller queue ≠ 0xFFFF ∧ final = completed controller queue := by
  induction reads with
  | zero => exact wait_due queue final
  | succ reads induction =>
      have read := @read_awaiting controller queue reads 0
      have again : ((completing controller).readStatus (awaiting queue (reads + 1)) 0).1 =
          0xFFFF := by
        rw [read]
        exact waiting
      rw [waits_until_again again, read]
      exact induction

theorem wait_skipped {queue : CompletionQueue} (stale : queue.adminCq 0 ≠ 0xFFFF) (reads : Nat)
    (final : CompletionQueue) :
    WaitsUntil (completing controller) (awaiting queue (reads + 1)) final ↔
      final = awaiting queue reads := by
  have read := @read_awaiting controller queue reads 0
  have done : ((completing controller).readStatus (awaiting queue (reads + 1)) 0).1 ≠ 0xFFFF := by
    rw [read]
    exact stale
  rw [waits_until_done done, read]

theorem completed_posted (queue : CompletionQueue) :
    queue.submitted ∈ (completed controller queue).posted :=
  List.mem_append_right queue.posted (List.mem_singleton.mpr rfl)

theorem completed_settled {queue : CompletionQueue} (settled : Settled queue) :
    Settled (completed controller queue) := by
  constructor
  · rfl
  · intro command member
    rcases List.mem_append.mp member with earlier | own
    · exact Nat.lt_succ_of_lt (settled.posted command earlier)
    · rw [List.mem_singleton.mp own]
      exact Nat.lt_succ_self queue.submitted

section Call

variable {queue : CompletionQueue} (settled : queue.pending = []) (nvmeRegs : UInt32)
  (request : Request) (property : Bool → CompletionQueue → Prop)

include settled

/-- A call that finds 0xFFFF or is answered at once reads the status of its completion,
if that ends the wait. -/
theorem waiting_call_returns_iff
    (waits : queue.adminCq 0 = 0xFFFF ∨ (controller queue.submitted).delay = 0) :
    (∃ outcome, Returns (completing controller) nvmeRegs request queue outcome ∧
        property outcome.success outcome.state) ↔
      statusAfter controller queue ≠ 0xFFFF ∧
        property (statusAfter controller queue &&& 0x1 = 0) (completed controller queue) := by
  have readAgain : (completing controller).readStatus (completed controller queue) 0 =
      (statusAfter controller queue, completed controller queue) := by
    rw [read_settled rfl, completed_status]
  have wait : ∀ final, WaitsUntil (completing controller)
      (awaiting queue (controller queue.submitted).delay) final ↔
        statusAfter controller queue ≠ 0xFFFF ∧ final = completed controller queue := by
    intro final
    rcases waits with waiting | prompt
    · exact wait_outlasts waiting _ final
    · rw [prompt]
      exact wait_due queue final
  rw [returns_iff, submitted_awaiting settled]
  simp only [wait, and_assoc, exists_and_left, exists_eq_left, readAgain]

/-- A call that finds a stale status reads it again, unless the completion comes between
the two reads. -/
theorem stale_call_returns_iff (stale : queue.adminCq 0 ≠ 0xFFFF) {reads : Nat}
    (delay : (controller queue.submitted).delay = reads + 1) :
    (∃ outcome, Returns (completing controller) nvmeRegs request queue outcome ∧
        property outcome.success outcome.state) ↔
      (reads = 0 ∧
          property (statusAfter controller queue &&& 0x1 = 0) (completed controller queue)) ∨
        ∃ more, reads = more + 1 ∧ property (queue.adminCq 0 &&& 0x1 = 0) (awaiting queue more) := by
  rw [returns_iff, submitted_awaiting settled, delay]
  simp only [wait_skipped stale, exists_eq_left]
  cases reads with
  | zero =>
      rw [read_due, completed_status]
      constructor
      · intro holds
        exact Or.inl ⟨rfl, holds⟩
      · rintro (⟨_, holds⟩ | ⟨more, same, _⟩)
        · exact holds
        · exact absurd same (Nat.zero_ne_add_one more)
  | succ reads =>
      rw [read_awaiting]
      constructor
      · intro holds
        exact Or.inr ⟨reads, rfl, holds⟩
      · rintro (⟨none, _⟩ | ⟨more, same, holds⟩)
        · exact absurd none (Nat.succ_ne_zero reads)
        · rw [Nat.succ.inj same]
          exact holds

/-- What a call returns and leaves: its completion read, or a stale status with the
completion still to come. -/
theorem call_returns_iff :
    (∃ outcome, Returns (completing controller) nvmeRegs request queue outcome ∧
        property outcome.success outcome.state) ↔
      (InTime controller queue ∧
          property (statusAfter controller queue &&& 0x1 = 0) (completed controller queue)) ∨
        (queue.adminCq 0 ≠ 0xFFFF ∧ ∃ reads, (controller queue.submitted).delay = reads + 2 ∧
          property (queue.adminCq 0 &&& 0x1 = 0) (awaiting queue reads)) := by
  unfold InTime
  by_cases waits : queue.adminCq 0 = 0xFFFF ∨ (controller queue.submitted).delay = 0
  · rw [waiting_call_returns_iff settled nvmeRegs request property waits]
    have notStale : ∀ reads, ¬(queue.adminCq 0 ≠ 0xFFFF ∧
        (controller queue.submitted).delay = reads + 1) := by
      rintro reads ⟨stale, delay⟩
      rcases waits with waiting | prompt
      · exact stale waiting
      · exact absurd (prompt.symm.trans delay) (Nat.zero_ne_add_one reads)
    constructor
    · intro both
      exact Or.inl ⟨Or.inl ⟨waits, both.1⟩, both.2⟩
    · rintro (⟨ends | late, holds⟩ | ⟨stale, reads, delay, _⟩)
      · exact ⟨ends.2, holds⟩
      · exact absurd late (notStale 0)
      · exact absurd ⟨stale, delay⟩ (notStale (reads + 1))
  · rcases not_or.mp waits with ⟨stale, delayed⟩
    obtain ⟨reads, delay⟩ := Nat.exists_eq_succ_of_ne_zero delayed
    rw [stale_call_returns_iff settled nvmeRegs request property stale delay, delay]
    constructor
    · rintro (⟨none, holds⟩ | ⟨more, same, holds⟩)
      · exact Or.inl ⟨Or.inr ⟨stale, congrArg Nat.succ none⟩, holds⟩
      · exact Or.inr ⟨stale, more, congrArg Nat.succ same, holds⟩
    · rintro (⟨ends | late, holds⟩ | ⟨_, more, same, holds⟩)
      · exact absurd ends.1 (not_or.mpr ⟨stale, Nat.succ_ne_zero reads⟩)
      · exact Or.inl ⟨Nat.succ.inj late.2, holds⟩
      · exact Or.inr ⟨more, Nat.succ.inj same, holds⟩

end Call

theorem awaiting_unmatched {queue : CompletionQueue} (settled : Settled queue) (success : Bool)
    (reads : Nat) : ¬CallMatched controller queue success (awaiting queue reads) := by
  intro both
  exact Nat.lt_irrefl _ (settled.posted queue.submitted both.1)

theorem call_matched_iff {queue : CompletionQueue} (settled : Settled queue) (nvmeRegs : UInt32)
    (request : Request) :
    (∃ outcome, Returns (completing controller) nvmeRegs request queue outcome ∧
        CallMatched controller queue outcome.success outcome.state) ↔
      Answerable controller queue := by
  rw [call_returns_iff settled.pending]
  constructor
  · rintro (⟨inTime, matched⟩ | ⟨_, reads, _, matched⟩)
    · have even := matched.2
      rw [decide_eq_true_iff] at even
      exact ⟨inTime, even⟩
    · exact absurd matched (awaiting_unmatched settled _ reads)
  · intro answerable
    refine Or.inl ⟨answerable.inTime, completed_posted queue, ?_⟩
    rw [decide_eq_true_iff]
    exact answerable.even

theorem matched_settled {queue : CompletionQueue} (settled : Settled queue) {nvmeRegs : UInt32}
    {request : Request} {outcome : Outcome CompletionQueue}
    (returned : Returns (completing controller) nvmeRegs request queue outcome)
    (matched : CallMatched controller queue outcome.success outcome.state) :
    Settled outcome.state := by
  by_contra unsettled
  have found := (call_returns_iff settled.pending nvmeRegs request fun success after =>
    CallMatched controller queue success after ∧ ¬Settled after).mp
      ⟨outcome, returned, matched, unsettled⟩
  rcases found with ⟨_, _, left⟩ | ⟨_, reads, _, early, _⟩
  · exact left (completed_settled settled)
  · exact awaiting_unmatched settled _ reads early

theorem settled_run_matched_iff {queue : CompletionQueue} (settled : Settled queue)
    (nvmeRegs : UInt32) (requests : List Request) :
    RunMatched controller nvmeRegs requests queue ↔
      RunAnswerable controller nvmeRegs requests queue := by
  induction requests generalizing queue with
  | nil => exact Iff.rfl
  | cons request requests induction =>
      constructor
      · rintro ⟨outcome, returned, matched, rest⟩
        refine ⟨(call_matched_iff settled nvmeRegs request).mp ⟨outcome, returned, matched⟩, ?_⟩
        intro other otherReturned
        rw [returns_unique otherReturned returned]
        exact (induction (matched_settled settled returned matched)).mp rest
      · rintro ⟨answerable, rest⟩
        rcases (call_matched_iff settled nvmeRegs request).mpr answerable with
          ⟨outcome, returned, matched⟩
        have after := matched_settled settled returned matched
        exact ⟨outcome, returned, matched, (induction after).mpr (rest outcome returned)⟩

variable (controller) in
/-- Every call of a run is matched exactly when each of them meets its completion
answerable. -/
theorem run_matched_iff (bar0 nvmeRegs : UInt32) (adminCq : Nat → UInt16)
    (requests : List Request) :
    RunMatched controller
        (nvmeInit (completing controller) (some bar0) nvmeRegs (freshQueue adminCq)).1 requests
        (nvmeInit (completing controller) (some bar0) nvmeRegs (freshQueue adminCq)).2 ↔
      RunAnswerable controller
        (nvmeInit (completing controller) (some bar0) nvmeRegs (freshQueue adminCq)).1 requests
        (nvmeInit (completing controller) (some bar0) nvmeRegs (freshQueue adminCq)).2 := by
  have settled : Settled (freshQueue adminCq) := by
    constructor
    · rfl
    · intro command member
      cases member
  exact settled_run_matched_iff settled bar0 requests

end Controller

/-- A command that succeeds in the queue's first round, where the phase tag is 1, is
taken for one that failed. -/
theorem success_reported_failed :
    ¬RunMatched (fun _ => ⟨0, 0, 0x0001⟩) 0xFEB00000 [⟨7, 1, 0x200000⟩]
      (nvmeInit (completing fun _ => ⟨0, 0, 0x0001⟩) (some 0xFEB00000) 0
        (freshQueue fun _ => 0xFFFF)).2 := by
  rintro ⟨outcome, returned, matched, _⟩
  have found := (call_returns_iff rfl 0xFEB00000 ⟨7, 1, 0x200000⟩ fun success _ =>
    success = true).mp ⟨outcome, returned, matched.2.mpr (by decide)⟩
  rcases found with ⟨_, even⟩ | ⟨stale, _⟩
  · exact absurd even (by decide)
  · exact stale rfl

end FractionsOS.Nvme
