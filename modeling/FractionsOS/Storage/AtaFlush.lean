import FractionsOS.Storage.AtaCalls

/-!
# The commands of a write

`ata_write_sectors` waits before its first command. The second one, the cache flush, goes
out right behind the last word, when the device may still be busy with the sectors it was
given.
-/

namespace FractionsOS.Ata

open Library.PortPrograms Library.BlockHandshake

set_option autoImplicit false

def ShowsIdle (device : AtaDevice) : Prop :=
  device.status &&& ataStatusBsy = 0 ∧ device.status &&& ataStatusDrq = 0

instance (device : AtaDevice) : Decidable (ShowsIdle device) :=
  inferInstanceAs (Decidable (_ ∧ _))

def isCommand : PortAccess → Bool
  | .writeByte port _ => port == ataStatus
  | .readByte _ => false
  | .readWord _ => false
  | .writeWord _ _ => false

theorem shows_idle_iff (device : AtaDevice) : ShowsIdle device ↔ device.line.Quiet := by
  have busy := bsy_shown_iff device
  have data := drq_shown_iff device
  unfold ShowsIdle Line.Quiet
  constructor
  · intro idle
    constructor
    · by_contra waiting
      exact busy.mpr (Nat.pos_of_ne_zero waiting) idle.1
    · intro ready
      exact data.mpr ready idle.2
  · intro quiet
    constructor
    · by_contra shown
      exact Nat.ne_of_gt (busy.mp shown) quiet.1
    · by_contra shown
      exact quiet.2 (data.mp shown)

section Write

variable {pause : Nat → Pause}

def stored (pause : Nat → Pause) (device : AtaDevice) (drive : UInt8) (lba : UInt32)
    (count : UInt8) (buffer : Nat → UInt16) : AtaDevice :=
  (writeWords (ataPorts (errorFree pause)) ataData (bufferWords count buffer)
    (dataPhase (errorFree pause) device drive lba count ataCmdWrite)).state

theorem write_commands (device : AtaDevice) (drive : UInt8) (lba : UInt32) (count : UInt8)
    (buffer : Nat → UInt16) :
    ReturnsSeeing (ataPorts (errorFree pause)) isCommand (ataWriteSectors drive lba count buffer)
      device () (flushed (errorFree pause) (stored pause device drive lba count buffer))
      [⟨.writeByte ataStatus ataCmdWrite, programmed (unbusied device) drive lba count⟩,
        ⟨.writeByte ataStatus ataCmdFlush, stored pause device drive lba count buffer⟩] := by
  let taken := commanded (errorFree pause) device drive lba count ataCmdWrite
  have words : 0 < (unbusied taken).line.left :=
    commanded_words_left device drive lba count ataCmdWrite (Or.inr rfl)
  apply unseen_bind (unseen_spin (wait_bsy_returns device) rfl)
  apply unseen_bind (unseen_outb ataDrive _ _ rfl)
  apply unseen_bind (unseen_outb ataSectorCnt _ _ rfl)
  apply unseen_bind (unseen_outb ataLbaLow _ _ rfl)
  apply unseen_bind (unseen_outb ataLbaMid _ _ rfl)
  apply unseen_bind (unseen_outb ataLbaHigh _ _ rfl)
  apply seen_bind (seeing_outb ataStatus ataCmdWrite _ rfl)
  apply unseen_bind (unseen_spin (wait_bsy_returns taken) rfl)
  apply unseen_bind (unseen_spin (wait_drq_returns (unbusied taken) words) rfl)
  apply unseen_bind (unseen_outsw ataData (bufferWords count buffer) _ fun _ => rfl)
  apply seen_bind (seeing_outb ataStatus ataCmdFlush _ rfl)
  exact unseen_spin (wait_bsy_returns _) rfl

/-- The first pause behind a sector of the command that takes a poll, if there is one,
is not a busy one. -/
def FirstPauseNotBusy (pause : Nat → Pause) (device : AtaDevice) (sectors : Nat) : Prop :=
  ∀ sector, 1 ≤ sector → sector ≤ sectors → Uninterrupted pause device sector →
    (pause (device.line.pauses + sector)).busy = 0

theorem flush_idle_iff (device : AtaDevice) (idle : device.line.left = 0) (drive : UInt8)
    (lba : UInt32) {count : UInt8} (positive : 0 < count.toNat) (buffer : Nat → UInt16) :
    ShowsIdle (stored pause device drive lba count buffer) ↔
      FirstPauseNotBusy pause device count.toNat := by
  let phase := dataPhase (errorFree pause) device drive lba count ataCmdWrite
  have line := (write_words_line (errorFree pause) phase
    (data_phase_writing device idle drive lba count) (bufferWords count buffer)).1
  have words : (bufferWords count buffer).length = (sectorLine device count).left := by
    rw [bufferWords, List.length_map, List.length_range, sector_line_words device positive]
  have whole : (sectorLine device count).left = count.toNat * sectorWords := by
    rw [sector_line_words device positive, Nat.mul_comm]
    rfl
  rw [data_phase_line device idle drive lba count ataCmdWrite (Or.inr rfl), words] at line
  rw [shows_idle_iff, stored, line]
  change ((sectorLine device count).attempts sectorWords pause _).Quiet ↔ _
  rw [Line.quiet_after_blocks_iff count.toNat _ (sector_line_ready device count) (by decide) whole]
  have place : ∀ block, (sectorLine device count).pauses + block =
      device.line.pauses + (block + 1) := by
    intro block
    change device.line.pauses + 1 + block = _
    omega
  simp only [place]
  constructor
  · intro every sector first last uninterrupted
    obtain ⟨block, rfl⟩ : ∃ block, sector = block + 1 := ⟨sector - 1, by omega⟩
    apply every block (by omega)
    intro earlier before
    exact uninterrupted (earlier + 1) (by omega) (by omega)
  · intro every block inside none
    apply every (block + 1) (by omega) (by omega)
    intro sector first before
    obtain ⟨earlier, rfl⟩ : ∃ earlier, sector = earlier + 1 := ⟨sector - 1, by omega⟩
    exact none earlier (by omega)

/-- The device is idle at both commands of a write exactly when it does not begin to be
busy behind a sector. -/
theorem commands_meet_idle_iff (pause : Nat → Pause) (device : AtaDevice)
    (idle : device.line.left = 0) (drive : UInt8) (lba : UInt32) (count : UInt8)
    (nonzero : count ≠ 0) (buffer : Nat → UInt16) :
    ∃ outcome,
      Returns (ataPorts (errorFree pause)) (ataWriteSectors drive lba count buffer) device outcome ∧
        ((∀ event ∈ outcome.trace, isCommand event.access → ShowsIdle event.before) ↔
          FirstPauseNotBusy pause device count.toNat) := by
  have positive : 0 < count.toNat :=
    Nat.pos_of_ne_zero fun value => nonzero (UInt8.toNat_inj.mp value)
  obtain ⟨trace, returns, commands⟩ := @write_commands pause device drive lba count buffer
  refine ⟨_, returns, ?_⟩
  have first : ShowsIdle (programmed (unbusied device) drive lba count) := by
    rw [shows_idle_iff]
    refine ⟨rfl, fun ready => ?_⟩
    exact Nat.ne_of_gt ready.2.2 idle
  have asCommands : (∀ event ∈ trace, isCommand event.access → ShowsIdle event.before) ↔
      ∀ event ∈ trace.filter fun event => isCommand event.access, ShowsIdle event.before := by
    simp only [List.mem_filter, and_imp]
  rw [asCommands, commands, ← flush_idle_iff device idle drive lba positive buffer]
  simp [first]

/-- A device without pauses. -/
theorem commands_meet_idle_one_sector :
    ∃ outcome,
      Returns (ataPorts alwaysReady) (ataWriteSectors 0 0 1 fun _ => 0) blankDevice outcome ∧
        ((∀ event ∈ outcome.trace, isCommand event.access → ShowsIdle event.before) ↔
          FirstPauseNotBusy (fun _ => Pause.none) blankDevice 1) :=
  commands_meet_idle_iff (fun _ => Pause.none) blankDevice rfl 0 0 1 (by decide) fun _ => 0

/-- A device that is busy for one poll with the sector it was given. -/
theorem flush_meets_busy :
    ∃ outcome,
      Returns (ataPorts busyAfterSector) (ataWriteSectors 0 0 1 fun _ => 0) blankDevice outcome ∧
        ∃ event ∈ outcome.trace, isCommand event.access ∧ ¬ShowsIdle event.before :=
  returns_tested 2 (by decide +kernel)

end Write

end FractionsOS.Ata
