import FractionsOS.Interrupt.Pic
import FractionsOS.Library.WordBytes

/-!
# Remapping the interrupt controllers

Two 8259s that take initialisation words at their data ports. ICW1 clears the mask and
begins the sequence, whatever was written before it, and the masks read ahead of it are
written back behind its last word.
-/

namespace FractionsOS.Pic

open Library.PortPrograms Library.WordBytes

set_option autoImplicit false

inductive Phase where
  | icw2
  | icw3
  | icw4
  | ready
  deriving DecidableEq, Repr

structure Pic8259 where
  mask : UInt8
  base : UInt8
  cascade : UInt8
  icw4 : UInt8
  phase : Phase
  deriving DecidableEq, Repr

def Pic8259.writeCommand (pic : Pic8259) (value : UInt8) : Pic8259 :=
  if value = 0x11 then { pic with mask := 0, phase := .icw2 } else pic

/-- The vector base has five bits, the number of the interrupt is below them. -/
def Pic8259.writeData (pic : Pic8259) (value : UInt8) : Pic8259 :=
  match pic.phase with
  | .icw2 => { pic with base := value &&& 0xF8, phase := .icw3 }
  | .icw3 => { pic with cascade := value, phase := .icw4 }
  | .icw4 => { pic with icw4 := value, phase := .ready }
  | .ready => { pic with mask := value }

structure PicPair where
  master : Pic8259
  slave : Pic8259
  deriving DecidableEq, Repr

/-- The pair behind its four ports. The data ports read the masks. -/
def picPair : PortDevice PicPair where
  inb state port :=
    if port = pic1Data then (state.master.mask, state)
    else if port = pic2Data then (state.slave.mask, state)
    else (0xFF, state)
  outb state port value :=
    if port = pic1Cmd then { state with master := state.master.writeCommand value }
    else if port = pic1Data then { state with master := state.master.writeData value }
    else if port = pic2Cmd then { state with slave := state.slave.writeCommand value }
    else if port = pic2Data then { state with slave := state.slave.writeData value }
    else state
  inw state _ := (0xFFFF, state)
  outw state _ _ := state

/-- A controller with its mask as before, all else as the initialisation words say. -/
def Pic8259.programmed (pic : Pic8259) (base cascade icw4 : UInt8) : Pic8259 :=
  ⟨pic.mask, base &&& 0xF8, cascade, icw4, .ready⟩

/-- Behind ICW1 each word is taken for what it is, in whatever phase ICW1 came. -/
theorem words_taken (pic : Pic8259) (base cascade icw4 mask : UInt8) :
    ((((pic.writeCommand 0x11).writeData base).writeData cascade).writeData icw4).writeData mask =
      ⟨mask, base &&& 0xF8, cascade, icw4, .ready⟩ := by
  have begun : (pic.writeCommand 0x11) = ⟨0, pic.base, pic.cascade, pic.icw4, .icw2⟩ := rfl
  have second : (pic.writeCommand 0x11).writeData base =
      ⟨0, base &&& 0xF8, pic.cascade, pic.icw4, .icw3⟩ := by
    rw [begun]
    rfl
  have third : ((pic.writeCommand 0x11).writeData base).writeData cascade =
      ⟨0, base &&& 0xF8, cascade, pic.icw4, .icw4⟩ := by
    rw [second]
    rfl
  rw [third]
  rfl

def remapped (o1 o2 : UInt8) (state : PicPair) : PicPair where
  master := state.master.programmed o1 0x04 0x01
  slave := state.slave.programmed o2 0x02 0x01

theorem remap_returns (o1 o2 : UInt8) (state : PicPair) :
    ∃ trace, Returns picPair (picRemap o1 o2) state ⟨(), remapped o1 o2 state, trace⟩ := by
  rcases state with ⟨master, slave⟩
  have masterWords := words_taken master o1 0x04 0x01 master.mask
  have slaveWords := words_taken slave o2 0x02 0x01 slave.mask
  unfold remapped Pic8259.programmed
  rw [← masterWords, ← slaveWords]
  exact ⟨_, 0, rfl⟩

theorem remapped_again (o1 o2 p1 p2 : UInt8) (state : PicPair) :
    remapped o1 o2 (remapped p1 p2 state) = remapped o1 o2 state := rfl

def remapAll : List (UInt8 × UInt8) → PortProgram Unit
  | [] => pure ()
  | (o1, o2) :: remaps => do
      picRemap o1 o2
      remapAll remaps

def remappedAll (remaps : List (UInt8 × UInt8)) (state : PicPair) : PicPair :=
  remaps.foldl (fun state remap => remapped remap.1 remap.2 state) state

theorem remap_all_returns (remaps : List (UInt8 × UInt8)) (state : PicPair) :
    ∃ trace, Returns picPair (remapAll remaps) state ⟨(), remappedAll remaps state, trace⟩ := by
  induction remaps generalizing state with
  | nil => exact ⟨[], returns_pure () state⟩
  | cons remap remaps induction =>
      rcases remap_returns remap.1 remap.2 state with ⟨early, first⟩
      rcases induction (remapped remap.1 remap.2 state) with ⟨late, others⟩
      have joined : Returns picPair
          (picRemap remap.1 remap.2 >>= fun _ => remapAll remaps) state _ :=
        returns_bind first others
      exact ⟨early ++ late, joined⟩

theorem remapped_last (remaps : List (UInt8 × UInt8)) (o1 o2 : UInt8) (state : PicPair) :
    remappedAll (remaps ++ [(o1, o2)]) state = remapped o1 o2 state := by
  induction remaps generalizing state with
  | nil => rfl
  | cons remap remaps induction =>
      have later := induction (remapped remap.1 remap.2 state)
      rw [remapped_again] at later
      exact later

/-- Both controllers are out of initialisation with their vectors, their place in the
cascade and the masks they had. -/
structure Reprogrammed (o1 o2 : UInt8) (before after : PicPair) : Prop where
  masterReady : after.master.phase = .ready
  slaveReady : after.slave.phase = .ready
  masterBase : after.master.base = o1
  slaveBase : after.slave.base = o2
  masterCascade : after.master.cascade = 0x04
  slaveIdentity : after.slave.cascade = 0x02
  masterMask : after.master.mask = before.master.mask
  slaveMask : after.slave.mask = before.slave.mask

theorem base_of_multiple {offset : UInt8} (aligned : offset.toNat % 8 = 0) :
    offset &&& 0xF8 = offset := by
  apply UInt8.toNat_inj.mp
  have cleared := and_high_bits offset.toNat_lt (by decide : 3 ≤ 8)
  have whole : offset.toNat / 2 ^ 3 * 2 ^ 3 = offset.toNat :=
    Nat.div_mul_cancel (Nat.dvd_of_mod_eq_zero aligned)
  rw [UInt8.toNat_and]
  exact cleared.trans whole

theorem remapped_reprogrammed {o1 o2 : UInt8} (aligned1 : o1.toNat % 8 = 0)
    (aligned2 : o2.toNat % 8 = 0) (state : PicPair) :
    Reprogrammed o1 o2 state (remapped o1 o2 state) where
  masterReady := rfl
  slaveReady := rfl
  masterBase := base_of_multiple aligned1
  slaveBase := base_of_multiple aligned2
  masterCascade := rfl
  slaveIdentity := rfl
  masterMask := rfl
  slaveMask := rfl

/-- `pic_remap` keeps the masks of both controllers in every state, and remaps before
it leave no trace. -/
theorem remap_reprograms {o1 o2 : UInt8} (aligned1 : o1.toNat % 8 = 0)
    (aligned2 : o2.toNat % 8 = 0) (state : PicPair) :
    (∃ outcome, Returns picPair (picRemap o1 o2) state outcome ∧
      Reprogrammed o1 o2 state outcome.state) ∧
    ∀ earlier : List (UInt8 × UInt8), ∃ outcome single,
      Returns picPair (remapAll (earlier ++ [(o1, o2)])) state outcome ∧
        Returns picPair (picRemap o1 o2) state single ∧ outcome.state = single.state := by
  rcases remap_returns o1 o2 state with ⟨trace, returned⟩
  constructor
  · exact ⟨_, returned, remapped_reprogrammed aligned1 aligned2 state⟩
  · intro earlier
    rcases remap_all_returns (earlier ++ [(o1, o2)]) state with ⟨traceAll, returnedAll⟩
    exact ⟨_, _, returnedAll, returned, remapped_last earlier o1 o2 state⟩

def interruptedStart : PicPair :=
  ⟨⟨0xB8, 0x08, 0x00, 0x00, .icw3⟩, ⟨0x9F, 0x70, 0x02, 0x01, .ready⟩⟩

theorem remap_reprograms_interrupted :
    (∃ outcome, Returns picPair (picRemap 32 40) interruptedStart outcome ∧
      Reprogrammed 32 40 interruptedStart outcome.state) ∧
    ∀ earlier : List (UInt8 × UInt8), ∃ outcome single,
      Returns picPair (remapAll (earlier ++ [(32, 40)])) interruptedStart outcome ∧
        Returns picPair (picRemap 32 40) interruptedStart single ∧ outcome.state = single.state :=
  remap_reprograms (by decide) (by decide) interruptedStart

end FractionsOS.Pic
