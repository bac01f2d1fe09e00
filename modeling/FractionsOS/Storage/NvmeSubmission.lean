import FractionsOS.Storage.Nvme

/-!
# Submission of commands

The controller learns of new commands from the doorbell of its first submission
queue, a register at a byte offset. The driver counts that offset in words, so it
writes to another register, and the same value into the same slot at each call.
-/

namespace FractionsOS.Nvme

open Library.SubmissionRing

set_option autoImplicit false

/-- What an access is to the ring of a controller with its registers at `bar0`. -/
def ringWrite (bar0 : UInt32) : NvmeAccess → Option (RingWrite NvmeCommand)
  | .storeCommand slot command => some (.store slot command)
  | .mmioWrite32 address value =>
      if address = bar0 + nvmeRegSq0tdbl then some (.tail value.toNat) else none
  | .readStatus _ => none

def ringWrites (bar0 : UInt32) (trace : List NvmeAccess) : List (RingWrite NvmeCommand) :=
  trace.filterMap (ringWrite bar0)

/-- Every call stores its command in the next slot and writes the new tail to the
doorbell, and the controller fetches every command once. -/
structure FollowsProtocol {State : Type} (bar0 : UInt32) (requests : List Request)
    (outcomes : List (Outcome State)) : Prop where
  calls : ∀ (k : Nat) (request : Request) (outcome : Outcome State), requests[k]? = some request →
    outcomes[k]? = some outcome →
      ringWrites bar0 outcome.trace = submission queueEntries k request.command
  fetched : ∀ slots : Nat → NvmeCommand,
    ((Consumer.mk slots 0 []).run queueEntries
      (outcomes.flatMap fun outcome => ringWrites bar0 outcome.trace)).fetched =
        requests.map Request.command

theorem calls_fetched {State : Type} {bar0 : UInt32} {requests : List Request}
    {outcomes : List (Outcome State)} (sameLength : outcomes.length = requests.length) {k : Nat}
    (calls : ∀ (i : Nat) (request : Request) (outcome : Outcome State),
      requests[i]? = some request → outcomes[i]? = some outcome →
        ringWrites bar0 outcome.trace = submission queueEntries (k + i) request.command)
    {consumer : Consumer NvmeCommand} (stopped : consumer.head = k % queueEntries) :
    (consumer.run queueEntries
      (outcomes.flatMap fun outcome => ringWrites bar0 outcome.trace)).fetched =
        consumer.fetched ++ requests.map Request.command := by
  have writes : (outcomes.flatMap fun outcome => ringWrites bar0 outcome.trace) =
      submissions queueEntries k (requests.map Request.command) := by
    clear stopped
    induction requests generalizing outcomes k with
    | nil =>
        rw [List.eq_nil_of_length_eq_zero sameLength]
        rfl
    | cons request requests induction =>
        cases outcomes with
        | nil => cases sameLength
        | cons outcome outcomes =>
            have later : ∀ (i : Nat) (request : Request) (outcome : Outcome State),
                requests[i]? = some request → outcomes[i]? = some outcome →
                  ringWrites bar0 outcome.trace =
                    submission queueEntries (k + 1 + i) request.command := by
              intro i request outcome inList inRun
              rw [calls (i + 1) request outcome inList inRun, Nat.add_assoc, Nat.add_comm 1 i]
            rw [List.flatMap_cons, calls 0 request outcome rfl rfl,
              induction (Nat.succ.inj sameLength) later]
            rfl
  rw [writes]
  exact submissions_fetched (by decide) stopped _

/-- Calls that keep to the ring have their commands fetched. -/
theorem follows_of_calls {State : Type} {bar0 : UInt32} {requests : List Request}
    {outcomes : List (Outcome State)} (sameLength : outcomes.length = requests.length)
    (calls : ∀ (k : Nat) (request : Request) (outcome : Outcome State),
      requests[k]? = some request → outcomes[k]? = some outcome →
        ringWrites bar0 outcome.trace = submission queueEntries k request.command) :
    FollowsProtocol bar0 requests outcomes := by
  constructor
  · exact calls
  · intro slots
    have fromFirst : ∀ (i : Nat) (request : Request) (outcome : Outcome State),
        requests[i]? = some request → outcomes[i]? = some outcome →
          ringWrites bar0 outcome.trace = submission queueEntries (0 + i) request.command := by
      intro i request outcome inList inRun
      rw [Nat.zero_add]
      exact calls i request outcome inList inRun
    exact calls_fetched sameLength fromFirst rfl

theorem doorbell_missed (bar0 : UInt32) :
    registerAddress bar0 nvmeRegSq0tdbl ≠ bar0 + nvmeRegSq0tdbl := by
  intro same
  exact absurd ((UInt32.add_right_inj bar0).mp same) (by decide)

section Driver

variable {State : Type} {host : NvmeHost State}

theorem wait_only_reads {budget : Nat} {state : State} {waited : State × List NvmeAccess}
    (found : waitCompletion host budget state = some waited) :
    ∀ access ∈ waited.2, access = .readStatus 0 := by
  induction budget generalizing state waited with
  | zero => cases found
  | succ budget induction =>
      simp only [waitCompletion] at found
      split_ifs at found
      · rw [Option.map_eq_some_iff] at found
        rcases found with ⟨rest, inner, same⟩
        rw [← same]
        intro access member
        rcases List.mem_cons.mp member with here | later
        · exact here
        · exact induction inner access later
      · rw [← Option.some.inj found]
        intro access member
        exact List.mem_singleton.mp member

theorem wait_writes_nothing {bar0 : UInt32} {budget : Nat} {state : State}
    {waited : State × List NvmeAccess} (found : waitCompletion host budget state = some waited) :
    ringWrites bar0 waited.2 = [] := by
  apply List.filterMap_eq_nil_iff.mpr
  intro access member
  rw [wait_only_reads found access member]
  rfl

/-- Of each call the controller's ring only sees a store into the first slot. -/
theorem read_ring_writes {bar0 : UInt32} {request : Request} {state : State}
    {outcome : Outcome State} (returned : Returns host bar0 request state outcome) :
    ringWrites bar0 outcome.trace = [.store 0 request.command] := by
  rcases returned with ⟨budget, found⟩
  unfold nvmeRead at found
  rw [Option.map_eq_some_iff] at found
  rcases found with ⟨waited, wait, same⟩
  rw [← same]
  have silent := @wait_writes_nothing State host bar0 budget _ waited wait
  unfold ringWrites at silent ⊢
  rw [List.filterMap_append, List.filterMap_append, silent, submissionAccesses]
  simp only [List.filterMap_cons, ringWrite, if_neg (doorbell_missed bar0)]
  rfl

theorem nothing_fetched {bar0 : UInt32} {state : State} {requests : List Request}
    {outcomes : List (Outcome State)} (serves : Serves host bar0 state requests outcomes)
    (consumer : Consumer NvmeCommand) :
    (consumer.run queueEntries
      (outcomes.flatMap fun outcome => ringWrites bar0 outcome.trace)).fetched =
        consumer.fetched := by
  induction serves generalizing consumer with
  | nil => rfl
  | cons returned rest induction =>
      rw [List.flatMap_cons, read_ring_writes returned]
      exact induction (consumer.write queueEntries (.store 0 _))

/-- The protocol is broken by the first call. -/
theorem protocol_followed_iff (host : NvmeHost State) (bar0 nvmeRegs : UInt32) (state : State)
    (requests : List Request) (outcomes : List (Outcome State))
    (serves : Serves host (nvmeInit host (some bar0) nvmeRegs state).1
      (nvmeInit host (some bar0) nvmeRegs state).2 requests outcomes) :
    FollowsProtocol bar0 requests outcomes ↔ requests = [] := by
  change Serves host bar0 _ requests outcomes at serves
  constructor
  · intro follows
    have fetched := follows.fetched fun _ => ⟨0, 0, (0, 0)⟩
    rw [nothing_fetched serves] at fetched
    exact List.map_eq_nil_iff.mp fetched.symm
  · rintro rfl
    cases serves
    apply follows_of_calls rfl
    intro k request outcome absent
    cases absent

end Driver

def idleHost : NvmeHost Unit where
  storeCommand state _ _ := state
  mmioWrite32 state _ _ := state
  readStatus state _ := (0, state)

theorem idle_returns (nvmeRegs : UInt32) (request : Request) :
    Returns idleHost nvmeRegs request ()
      ⟨true, (), submissionAccesses nvmeRegs request ++ [.readStatus 0] ++ [.readStatus 0]⟩ :=
  ⟨1, by simp [nvmeRead, waitCompletion, idleHost]⟩

theorem two_reads_break_protocol :
    ¬FollowsProtocol 0xFEB00000 [⟨7, 1, 0x200000⟩, ⟨8, 1, 0x201000⟩]
      [(⟨true, (), submissionAccesses 0xFEB00000 ⟨7, 1, 0x200000⟩ ++ [.readStatus 0] ++
          [.readStatus 0]⟩ : Outcome Unit),
        ⟨true, (), submissionAccesses 0xFEB00000 ⟨8, 1, 0x201000⟩ ++ [.readStatus 0] ++
          [.readStatus 0]⟩] := by
  intro follows
  have serves : Serves idleHost 0xFEB00000 () [⟨7, 1, 0x200000⟩, ⟨8, 1, 0x201000⟩] _ :=
    Serves.cons (idle_returns _ _) (Serves.cons (idle_returns _ _) (Serves.nil ()))
  exact absurd ((protocol_followed_iff idleHost 0xFEB00000 0 () _ _ serves).mp follows)
    (List.cons_ne_nil _ _)

/-- The doorbell is missed by the first call. -/
theorem first_read_breaks_protocol :
    ¬∀ outcomes : List (Outcome Unit),
      Serves idleHost (nvmeInit idleHost (some 0xFEB00000) 0 ()).1
        (nvmeInit idleHost (some 0xFEB00000) 0 ()).2 [⟨7, 1, 0x200000⟩] outcomes →
      FollowsProtocol 0xFEB00000 [⟨7, 1, 0x200000⟩] outcomes := by
  intro every
  have follows := every _ (Serves.cons (idle_returns 0xFEB00000 ⟨7, 1, 0x200000⟩) (Serves.nil ()))
  exact absurd (follows.calls 0 _ _ rfl rfl) (by decide +kernel)

end FractionsOS.Nvme
