import FractionsOS.Storage.NvmeCompletion

/-!
# Statuses left behind

The driver never puts 0xFFFF back where it waits for another status. The first call that
returns is the last one that has waited for anything.
-/

namespace FractionsOS.Nvme

set_option autoImplicit false

def Stale (queue : CompletionQueue) : Prop := queue.adminCq 0 ≠ 0xFFFF

section Controller

variable {controller : Nat → Completion}

section Answers

variable (answers : ∀ command, (controller command).slot = 0 → (controller command).status ≠ 0xFFFF)

include answers

theorem post_stale {queue : CompletionQueue} (stale : Stale queue) (command : Nat) :
    Stale (queue.post controller command) := by
  change Function.update queue.adminCq _ _ 0 ≠ 0xFFFF
  rw [Function.update_apply]
  split_ifs with first
  · exact answers command first.symm
  · exact stale

theorem post_due_stale {queue : CompletionQueue} (stale : Stale queue) :
    Stale (queue.postDue controller) := by
  apply List.foldlRecOn (motive := Stale)
  · exact stale
  · intro later kept entry _
    exact post_stale answers kept entry.command

theorem read_stale {queue : CompletionQueue} (stale : Stale queue) :
    ((completing controller).readStatus queue 0).1 ≠ 0xFFFF ∧
      Stale ((completing controller).readStatus queue 0).2 :=
  ⟨post_due_stale answers stale, post_due_stale answers stale⟩

end Answers

theorem submit_first_slot (nvmeRegs : UInt32) (request : Request) (queue : CompletionQueue) :
    (nvmeSubmit (completing controller) nvmeRegs request queue).adminCq = queue.adminCq := rfl

theorem waited_stale {budget : Nat} {queue : CompletionQueue}
    {waited : CompletionQueue × List NvmeAccess}
    (found : waitCompletion (completing controller) budget queue = some waited) :
    Stale waited.1 := by
  induction budget generalizing queue waited with
  | zero => cases found
  | succ budget induction =>
      simp only [waitCompletion] at found
      split_ifs at found with again
      · rw [Option.map_eq_some_iff] at found
        rcases found with ⟨rest, inner, same⟩
        rw [← same]
        change Stale rest.1
        exact induction inner
      · rw [← Option.some.inj found]
        exact again

section Answers

variable (answers : ∀ command, (controller command).slot = 0 → (controller command).status ≠ 0xFFFF)
  {nvmeRegs : UInt32} {request : Request} {queue : CompletionQueue}
  {outcome : Outcome CompletionQueue}

include answers

theorem returned_stale
    (returned : Returns (completing controller) nvmeRegs request queue outcome) :
    Stale outcome.state := by
  rcases returned with ⟨budget, found⟩
  unfold nvmeRead at found
  rw [Option.map_eq_some_iff] at found
  rcases found with ⟨waited, wait, same⟩
  rw [← same]
  exact (read_stale answers (waited_stale wait)).2

/-- A call that finds such a status returns, with one read for its wait. -/
theorem stale_call_returns (nvmeRegs : UInt32) (request : Request) (stale : Stale queue) :
    ∃ outcome, Returns (completing controller) nvmeRegs request queue outcome ∧
      outcome.trace = submissionAccesses nvmeRegs request ++ [.readStatus 0, .readStatus 0] := by
  let submitted := nvmeSubmit (completing controller) nvmeRegs request queue
  let waited := ((completing controller).readStatus submitted 0).2
  let again := (completing controller).readStatus waited 0
  have shown : Stale submitted := by
    rw [Stale, submit_first_slot]
    exact stale
  have wait : waitCompletion (completing controller) 1 submitted =
      some (waited, [.readStatus 0]) := by
    rw [waitCompletion]
    exact if_neg (read_stale answers shown).1
  refine ⟨⟨again.1 &&& 0x1 = 0, again.2,
    submissionAccesses nvmeRegs request ++ [.readStatus 0] ++ [.readStatus 0]⟩, ⟨1, ?_⟩, ?_⟩
  · rw [nvmeRead, wait]
    rfl
  · rw [List.append_assoc]
    rfl

theorem stale_calls_return (nvmeRegs : UInt32) (requests : List Request) (stale : Stale queue) :
    ∃ outcomes, Serves (completing controller) nvmeRegs queue requests outcomes ∧
      outcomes.map Outcome.trace = requests.map fun request =>
        submissionAccesses nvmeRegs request ++ [.readStatus 0, .readStatus 0] := by
  induction requests generalizing queue with
  | nil => exact ⟨[], Serves.nil queue, rfl⟩
  | cons request requests induction =>
      rcases stale_call_returns answers nvmeRegs request stale with ⟨outcome, returned, trace⟩
      rcases induction (returned_stale answers returned) with ⟨outcomes, rest, traces⟩
      refine ⟨outcome :: outcomes, Serves.cons returned rest, ?_⟩
      rw [List.map_cons, List.map_cons, trace, traces]

end Answers

/-- Whatever the completion queue holds at first and whenever the controller answers, all calls
behind one that returned return as well: each stores its command, makes its one write to a
register and reads the status twice, without having waited. -/
theorem later_calls_never_wait
    (answers : ∀ command, (controller command).slot = 0 → (controller command).status ≠ 0xFFFF)
    (nvmeRegs : UInt32) (queue : CompletionQueue) (first : Request)
    (outcome : Outcome CompletionQueue)
    (returned : Returns (completing controller) nvmeRegs first queue outcome)
    (later : List Request) :
    ∃ outcomes, Serves (completing controller) nvmeRegs outcome.state later outcomes ∧
      outcomes.map Outcome.trace = later.map fun request =>
        submissionAccesses nvmeRegs request ++ [.readStatus 0, .readStatus 0] :=
  stale_calls_return answers nvmeRegs later (returned_stale answers returned)

end Controller

/-- The second of two reads, with a controller that answers at once and fails both. -/
theorem later_calls_never_wait_failed :
    ∃ outcome,
      Returns (completing fun _ => ⟨0, 0, 0x0003⟩) 0xFEB00000 ⟨7, 1, 0x200000⟩
        (freshQueue fun _ => 0xFFFF) outcome ∧
      ∃ outcomes,
        Serves (completing fun _ => ⟨0, 0, 0x0003⟩) 0xFEB00000 outcome.state
          [⟨8, 1, 0x200200⟩] outcomes ∧
        outcomes.map Outcome.trace =
          [submissionAccesses 0xFEB00000 ⟨8, 1, 0x200200⟩ ++ [.readStatus 0, .readStatus 0]] := by
  have returned : Returns (completing fun _ => ⟨0, 0, 0x0003⟩) 0xFEB00000 ⟨7, 1, 0x200000⟩
      (freshQueue fun _ => 0xFFFF) _ := ⟨1, rfl⟩
  exact ⟨_, returned, later_calls_never_wait (fun _ _ => by decide) 0xFEB00000 _ ⟨7, 1, 0x200000⟩ _
    returned [⟨8, 1, 0x200200⟩]⟩

end FractionsOS.Nvme
