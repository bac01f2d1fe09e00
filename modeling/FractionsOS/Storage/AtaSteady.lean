import FractionsOS.Storage.AtaTaskFile
import FractionsOS.Storage.Fat32

/-!
# Registers that never change

A bus without a drive shows the same status for ever, as does a drive that hangs. The
functions poll without a limit, so each call then ends after the shortest possible
wait or not at all.
-/

namespace FractionsOS.Ata

open Library.PortPrograms Library.StackMemory

set_option autoImplicit false

/-- Ports whose status and error registers show the same bytes in every state. -/
structure SteadyPorts (State : Type) where
  ports : PortDevice State
  status : UInt8
  error : UInt8
  statusShown : ∀ state, (ports.inb state ataStatus).1 = status
  errorShown : ∀ state, (ports.inb state ataError).1 = error

namespace SteadyPorts

variable {State : Type} (steady : SteadyPorts State)

def HasData : Prop := steady.status &&& ataStatusBsy = 0 ∧ steady.status &&& ataStatusDrq ≠ 0

instance : Decidable steady.HasData := inferInstanceAs (Decidable (_ ∧ _))

/-- Whether a call succeeds, or none when it never returns. -/
def verdict : AtaCall → Option Bool
  | .identify _ =>
      if steady.status &&& ataStatusBsy ≠ 0 then none
      else if steady.status = 0 ∨ steady.error &&& 0x01 ≠ 0 then some false
      else if steady.HasData then some true
      else none
  | .read _ _ _ => if steady.HasData then some true else none
  | .write _ _ _ _ => if steady.HasData then some true else none

section Calls

variable {steady} {Result : Type} {state : State} {allowed : Result → Prop}

theorem wait_bsy_steady {onward : Unit → PortProgram Result} :
    EndsIn steady.ports (ataWaitBsy >>= onward) state allowed ↔
      steady.status &&& ataStatusBsy = 0 ∧
        EndsIn steady.ports (onward ()) (steady.ports.inb state ataStatus).2 allowed := by
  refine (ends_spin_steady steady.statusShown).trans (and_congr_left' ?_)
  rw [decide_eq_false_iff_not, not_not]

theorem wait_drq_steady {onward : Unit → PortProgram Result} :
    EndsIn steady.ports (ataWaitDrq >>= onward) state allowed ↔
      steady.status &&& ataStatusDrq ≠ 0 ∧
        EndsIn steady.ports (onward ()) (steady.ports.inb state ataStatus).2 allowed := by
  refine (ends_spin_steady steady.statusShown).trans (and_congr_left' ?_)
  rw [decide_eq_false_iff_not, not_not]

theorem sector_command_steady {drive : UInt8} {lba : UInt32} {count command : UInt8}
    {onward : PortProgram Result}
    (ends : steady.status &&& ataStatusBsy = 0 →
      ∀ state, EndsIn steady.ports onward state allowed) :
    EndsIn steady.ports (sectorCommand drive lba count command onward) state allowed ↔
      steady.HasData := by
  rw [sectorCommand, wait_bsy_steady, ends_bind (returns_outb _ _ _),
    ends_bind (returns_outb _ _ _), ends_bind (returns_outb _ _ _),
    ends_bind (returns_outb _ _ _), ends_bind (returns_outb _ _ _),
    ends_bind (returns_outb _ _ _), wait_bsy_steady, wait_drq_steady]
  constructor
  · rintro ⟨idle, _, data, _⟩
    exact ⟨idle, data⟩
  · rintro ⟨idle, data⟩
    exact ⟨idle, idle, data, ends idle _⟩

theorem read_steady (drive : UInt8) (lba : UInt32) (count : UInt8)
    {allowed : List UInt16 → Prop} (every : ∀ words, allowed words) :
    EndsIn steady.ports (ataReadSectors drive lba count) state allowed ↔ steady.HasData := by
  apply sector_command_steady
  intro _ state
  exact ⟨_, returns_insw _ _ state, every _⟩

theorem write_steady (drive : UInt8) (lba : UInt32) (count : UInt8) (buffer : Nat → UInt16)
    {allowed : Unit → Prop} (every : ∀ result, allowed result) :
    EndsIn steady.ports (ataWriteSectors drive lba count buffer) state allowed ↔
      steady.HasData := by
  apply sector_command_steady
  intro idle state
  rw [ends_bind (returns_outsw _ _ _), ends_bind (returns_outb _ _ _)]
  have stop : ∀ state, decide ((steady.ports.inb state ataStatus).1 &&& ataStatusBsy ≠ 0) =
      false := by
    intro state
    rw [steady.statusShown, decide_eq_false_iff_not, not_not]
    exact idle
  exact ⟨_, returns_spin_stop (stop _), every _⟩

theorem identify_steady (drive : UInt8) (success : Bool) :
    EndsIn steady.ports (ataIdentify drive) state (fun result => result.1 = success) ↔
      steady.verdict (.identify drive) = some success := by
  have answered : ∀ (result : Bool × List UInt16) state,
      EndsIn steady.ports (pure result) state (fun result => result.1 = success) ↔
        some result.1 = some success := by
    intro result state
    rw [Option.some.injEq]
    constructor
    · rintro ⟨outcome, returns, same⟩
      rw [returns_unique returns (returns_pure result state)] at same
      exact same
    · intro same
      exact ⟨_, returns_pure result state, same⟩
  rw [ataIdentify, wait_bsy_steady, ends_bind (returns_outb _ _ _),
    ends_bind (returns_outb _ _ _), ends_bind (returns_outb _ _ _),
    ends_bind (returns_outb _ _ _), ends_bind (returns_outb _ _ _),
    ends_bind (returns_outb _ _ _), ends_bind (returns_inb _ _)]
  dsimp only
  rw [steady.statusShown, verdict]
  by_cases idle : steady.status &&& ataStatusBsy = 0
  · rw [and_iff_right idle, if_neg (not_not.mpr idle)]
    by_cases absent : steady.status = 0
    · rw [if_pos absent, if_pos (Or.inl absent)]
      exact answered _ _
    · rw [if_neg absent, wait_bsy_steady, and_iff_right idle, ends_bind (returns_inb _ _)]
      dsimp only
      rw [steady.errorShown]
      by_cases failed : steady.error &&& 0x01 ≠ 0
      · rw [if_pos failed, if_pos (Or.inr failed)]
        exact answered _ _
      · rw [if_neg failed, if_neg (not_or.mpr ⟨absent, failed⟩), wait_drq_steady,
          ends_bind (returns_insw _ _ _), answered]
        by_cases data : steady.status &&& ataStatusDrq ≠ 0
        · rw [if_pos ⟨idle, data⟩, and_iff_right data]
        · rw [if_neg fun has => data has.2]
          exact iff_of_false (fun ended => data ended.1) nofun
  · rw [if_pos idle]
    exact iff_of_false (fun ended => idle ended.1) nofun

theorem sector_verdict (success : Bool) :
    (if steady.HasData then some true else none) = some success ↔
      steady.HasData ∧ success = true := by
  by_cases data : steady.HasData
  · rw [if_pos data, and_iff_right data, Option.some.injEq, eq_comm]
  · rw [if_neg data]
    exact iff_of_false nofun fun both => data both.1

theorem call_steady (call : AtaCall) (success : Bool) :
    EndsIn steady.ports call.program state (fun result => result.1 = success) ↔
      steady.verdict call = some success := by
  cases call with
  | identify drive => exact identify_steady drive success
  | read drive lba count =>
      rw [verdict, sector_verdict]
      refine (ends_return fun words => (true, words)).trans ?_
      cases success with
      | true => rw [read_steady drive lba count fun _ => rfl, and_iff_left rfl]
      | false => exact iff_of_false (fun ⟨_, _, failed⟩ => nomatch failed) fun both => nomatch both.2
  | write drive lba count buffer =>
      rw [verdict, sector_verdict]
      refine (ends_return fun _ => (true, [])).trans ?_
      cases success with
      | true => rw [write_steady drive lba count buffer fun _ => rfl, and_iff_left rfl]
      | false => exact iff_of_false (fun ⟨_, _, failed⟩ => nomatch failed) fun both => nomatch both.2

end Calls

/-- Over any run of calls, the drivers report these successes exactly when they are what
the two registers stand for; one call that never returns ends the run. -/
theorem calls_steady_iff (calls : List AtaCall) (state : State) (successes : List Bool) :
    (∃ outcomes, Serves steady.ports state (calls.map AtaCall.program) outcomes ∧
      outcomes.map (fun outcome => outcome.result.1) = successes) ↔
      calls.map steady.verdict = successes.map some := by
  induction calls generalizing state successes with
  | nil =>
      constructor
      · rintro ⟨outcomes, served, rfl⟩
        cases served
        rfl
      · intro same
        rw [List.map_eq_nil_iff.mp same.symm]
        exact ⟨[], .nil state, rfl⟩
  | cons call calls induction =>
      constructor
      · rintro ⟨outcomes, served, rfl⟩
        cases served with
        | cons first rest =>
            have here := (call_steady call _).mp ⟨_, first, rfl⟩
            have later := (induction _ _).mp ⟨_, rest, rfl⟩
            rw [List.map_cons, here, later]
            rfl
      · intro same
        cases successes with
        | nil => cases same
        | cons success successes =>
            rcases List.cons.inj same with ⟨here, later⟩
            rcases (call_steady call success).mpr here with ⟨first, returned, found⟩
            rcases (induction first.state successes).mpr later with ⟨outcomes, served, rest⟩
            refine ⟨first :: outcomes, .cons returned served, ?_⟩
            rw [List.map_cons, rest]
            exact congrArg (· :: successes) found

/-- `fat32_init` reads without asking for the drive first: where `ata_identify` finds no
drive, it does not return. -/
theorem mount_steady_iff (layout : Fat32.Layout) (drive : UInt8) (memory : Memory)
    (state : State) :
    (∃ outcome, Returns steady.ports (Fat32.fat32Init layout drive memory) state outcome) ↔
      steady.HasData := by
  have reads : EndsIn steady.ports (ataReadSectors drive 0 1) state (fun _ => True) ↔ _ :=
    read_steady drive 0 1 fun _ => trivial
  rw [← reads]
  constructor
  · rintro ⟨outcome, returns⟩
    rcases returns_bind_inv returns with ⟨first, _, inner, _, _⟩
    exact ⟨first, inner, trivial⟩
  · rintro ⟨first, inner, _⟩
    exact ⟨_, returns_bind inner (returns_pure _ _)⟩

end SteadyPorts

def bus (value : UInt8) : SteadyPorts Unit where
  ports :=
    { inb := fun state _ => (value, state)
      outb := fun state _ _ => state
      inw := fun state _ => (value.toUInt16, state)
      outw := fun state _ _ => state }
  status := value
  error := value
  statusShown _ := rfl
  errorShown _ := rfl

/-- A floating bus looks busy: not even `ata_identify` returns. -/
example (call : AtaCall) : (bus 0xFF).verdict call = none := by cases call <;> rfl

example (drive : UInt8) : (bus 0).verdict (.identify drive) = some false := rfl

end FractionsOS.Ata
