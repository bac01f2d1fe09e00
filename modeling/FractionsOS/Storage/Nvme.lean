import FractionsOS.Library.SubmissionRing

/-!
# The NVMe driver

The functions of `nvme.c`. What memory and controller make of the driver's
accesses is a parameter: it takes the stores to the submission queue and to
registers, and answers each read of a completion's status. All addresses have 32 bits.
-/

namespace FractionsOS.Nvme

set_option autoImplicit false

structure NvmeCommand where
  prp1 : UInt64
  prp2 : UInt64
  cmdSpecific : UInt32 × UInt32
  deriving DecidableEq, Repr

def nvmeCommandBytes : Nat := 8 + 8 + 2 * 4

/-- The bytes that `nvme_init` allocates for the submission queue. -/
def adminSqBytes : Nat := 4096

def queueEntries : Nat := adminSqBytes / nvmeCommandBytes

structure Request where
  lba : UInt64
  count : UInt32
  buffer : UInt32
  deriving DecidableEq, Repr

/-- `(uint64_t)buffer`, which extends the sign of a pointer. -/
def pointerWord (pointer : UInt32) : UInt64 := pointer.toInt32.toInt64.toUInt64

/-- The initialiser of `cmd`. Its third number is beyond the end of `cmd_specific`
and dropped. -/
def Request.command (request : Request) : NvmeCommand where
  prp1 := pointerWord request.buffer
  prp2 := 0
  cmdSpecific := (request.count, request.lba.toUInt32)

/-- What stands behind the addresses that the driver accesses. -/
structure NvmeHost (State : Type) where
  /-- `admin_sq[slot] = command` -/
  storeCommand : State → Nat → NvmeCommand → State
  mmioWrite32 : State → UInt32 → UInt32 → State
  /-- `admin_cq[slot].status` -/
  readStatus : State → Nat → UInt16 × State

inductive NvmeAccess where
  | storeCommand (slot : Nat) (command : NvmeCommand)
  | mmioWrite32 (address value : UInt32)
  | readStatus (slot : Nat)
  deriving DecidableEq, Repr

structure Outcome (State : Type) where
  success : Bool
  state : State
  trace : List NvmeAccess

def nvmeRegSq0tdbl : UInt32 := 0x1000

/-- `nvme_regs + index`, `nvme_regs` being a pointer to 32-bit words. -/
def registerAddress (nvmeRegs index : UInt32) : UInt32 := nvmeRegs + 4 * index

section Driver

variable {State : Type} (host : NvmeHost State)

/-- `nvme_init`, given where the controller's BAR 0 is mapped if one is found: the new
`nvme_regs` and what the write of its one register leaves. -/
def nvmeInit (bar0 : Option UInt32) (nvmeRegs : UInt32) (state : State) : UInt32 × State :=
  match bar0 with
  | none => (nvmeRegs, state)
  | some base => (base, host.mmioWrite32 state (registerAddress base nvmeRegSq0tdbl) 0)

/-- `while(admin_cq[0].status == 0xFFFF);` with at most `budget` reads. -/
def waitCompletion : Nat → State → Option (State × List NvmeAccess)
  | 0, _ => none
  | budget + 1, state =>
      let (status, next) := host.readStatus state 0
      if status = 0xFFFF then
        (waitCompletion budget next).map fun (final, trace) => (final, .readStatus 0 :: trace)
      else some (next, [.readStatus 0])

/-- What `nvme_read` writes before it waits. -/
def submissionAccesses (nvmeRegs : UInt32) (request : Request) : List NvmeAccess :=
  [.storeCommand 0 request.command,
    .mmioWrite32 (registerAddress nvmeRegs nvmeRegSq0tdbl) 1]

def nvmeSubmit (nvmeRegs : UInt32) (request : Request) (state : State) : State :=
  host.mmioWrite32 (host.storeCommand state 0 request.command)
    (registerAddress nvmeRegs nvmeRegSq0tdbl) 1

def nvmeRead (nvmeRegs : UInt32) (request : Request) (budget : Nat) (state : State) :
    Option (Outcome State) :=
  (waitCompletion host budget (nvmeSubmit host nvmeRegs request state)).map fun (waited, trace) =>
    let (status, final) := host.readStatus waited 0
    { success := status &&& 0x1 = 0
      state := final
      trace := submissionAccesses nvmeRegs request ++ trace ++ [.readStatus 0] }

/-- The call returns: some number of reads is enough for its wait. -/
def Returns (nvmeRegs : UInt32) (request : Request) (state : State) (outcome : Outcome State) :
    Prop :=
  ∃ budget, nvmeRead host nvmeRegs request budget state = some outcome

inductive Serves (nvmeRegs : UInt32) : State → List Request → List (Outcome State) → Prop where
  | nil (state : State) : Serves nvmeRegs state [] []
  | cons {state : State} {request : Request} {outcome : Outcome State} {requests : List Request}
      {outcomes : List (Outcome State)} (returned : Returns host nvmeRegs request state outcome)
      (rest : Serves nvmeRegs outcome.state requests outcomes) :
      Serves nvmeRegs state (request :: requests) (outcome :: outcomes)

variable {host}

theorem wait_monotone {budget larger : Nat} (enough : budget ≤ larger) {state : State}
    {waited : State × List NvmeAccess} (found : waitCompletion host budget state = some waited) :
    waitCompletion host larger state = some waited := by
  induction budget generalizing larger state waited with
  | zero => cases found
  | succ budget induction =>
      obtain ⟨more, rfl⟩ : ∃ more, larger = more + 1 := ⟨larger - 1, by omega⟩
      simp only [waitCompletion] at found ⊢
      split_ifs at found ⊢ with again
      · rw [Option.map_eq_some_iff] at found ⊢
        rcases found with ⟨rest, inner, same⟩
        exact ⟨rest, induction (by omega) inner, same⟩
      · exact found

variable (host) in
def WaitsUntil (state final : State) : Prop :=
  ∃ budget trace, waitCompletion host budget state = some (final, trace)

theorem wait_unique {state : State} {budget larger : Nat} {first second : State × List NvmeAccess}
    (one : waitCompletion host budget state = some first)
    (other : waitCompletion host larger state = some second) : first = second := by
  have enough := wait_monotone (Nat.le_max_left budget larger) one
  have enoughOther := wait_monotone (Nat.le_max_right budget larger) other
  exact Option.some.inj (enough.symm.trans enoughOther)

theorem waits_until_unique {state first second : State} (one : WaitsUntil host state first)
    (other : WaitsUntil host state second) : first = second := by
  rcases one with ⟨budget, trace, found⟩
  rcases other with ⟨larger, traceOther, foundOther⟩
  exact (Prod.mk.inj (wait_unique found foundOther)).1

theorem waits_until_done {state final : State} (done : (host.readStatus state 0).1 ≠ 0xFFFF) :
    WaitsUntil host state final ↔ final = (host.readStatus state 0).2 := by
  have ends : WaitsUntil host state (host.readStatus state 0).2 := by
    refine ⟨1, [.readStatus 0], ?_⟩
    rw [waitCompletion]
    exact if_neg done
  constructor
  · intro waits
    exact waits_until_unique waits ends
  · rintro rfl
    exact ends

theorem waits_until_again {state final : State} (again : (host.readStatus state 0).1 = 0xFFFF) :
    WaitsUntil host state final ↔ WaitsUntil host (host.readStatus state 0).2 final := by
  constructor
  · rintro ⟨budget, trace, found⟩
    cases budget with
    | zero => cases found
    | succ budget =>
        simp only [waitCompletion, again, if_true, Option.map_eq_some_iff] at found
        rcases found with ⟨rest, inner, same⟩
        rw [← (Prod.mk.inj same).1]
        exact ⟨budget, rest.2, inner⟩
  · rintro ⟨budget, trace, found⟩
    refine ⟨budget + 1, .readStatus 0 :: trace, ?_⟩
    simp only [waitCompletion, again, if_true, found, Option.map_some]

theorem waits_forever {state final : State} (stuck : host.readStatus state 0 = (0xFFFF, state)) :
    ¬WaitsUntil host state final := by
  rintro ⟨budget, trace, found⟩
  induction budget generalizing trace with
  | zero => cases found
  | succ budget induction =>
      simp only [waitCompletion, stuck, if_true, Option.map_eq_some_iff] at found
      rcases found with ⟨rest, inner, same⟩
      rw [← (Prod.mk.inj same).1] at induction
      exact induction rest.2 inner

theorem returns_unique {nvmeRegs : UInt32} {request : Request} {state : State}
    {first second : Outcome State} (one : Returns host nvmeRegs request state first)
    (other : Returns host nvmeRegs request state second) : first = second := by
  rcases one with ⟨budget, found⟩
  rcases other with ⟨larger, foundOther⟩
  unfold nvmeRead at found foundOther
  rw [Option.map_eq_some_iff] at found foundOther
  rcases found with ⟨waited, wait, same⟩
  rcases foundOther with ⟨waitedOther, waitOther, sameOther⟩
  rw [wait_unique waitOther wait] at sameOther
  exact same.symm.trans sameOther

theorem returns_iff {nvmeRegs : UInt32} {request : Request} {state : State}
    (property : Bool → State → Prop) :
    (∃ outcome, Returns host nvmeRegs request state outcome ∧
        property outcome.success outcome.state) ↔
      ∃ waited, WaitsUntil host (nvmeSubmit host nvmeRegs request state) waited ∧
        property ((host.readStatus waited 0).1 &&& 0x1 = 0) (host.readStatus waited 0).2 := by
  constructor
  · rintro ⟨outcome, ⟨budget, found⟩, holds⟩
    unfold nvmeRead at found
    rw [Option.map_eq_some_iff] at found
    rcases found with ⟨⟨waited, trace⟩, wait, rfl⟩
    exact ⟨waited, ⟨budget, trace, wait⟩, holds⟩
  · rintro ⟨waited, ⟨budget, trace, wait⟩, holds⟩
    refine ⟨⟨_, _, submissionAccesses nvmeRegs request ++ trace ++ [.readStatus 0]⟩,
      ⟨budget, ?_⟩, holds⟩
    unfold nvmeRead
    rw [wait]
    rfl

end Driver

end FractionsOS.Nvme
