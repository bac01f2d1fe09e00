import FractionsOS.Storage.AtaPauses

/-!
# Users of different sectors

Calls of several users may come in any order. As long as the others write none of a user's
sectors, the user reads what it would read alone.
-/

namespace FractionsOS.Ata

open Library.PortPrograms Library.BlockHandshake Library.BlockArrays
open Library.BlockArrays.BlockStore

set_option autoImplicit false

/-- The sectors of one user, and which calls of a run are its own. -/
structure Share (calls : List SectorCall) where
  region : Bool → Nat → Prop
  own : SectorCall → Bool
  inside : ∀ call ∈ calls, own call = true →
    ∀ drive block, Reaches drive block call.request → region drive block
  outside : ∀ call ∈ calls, own call = false →
    ∀ drive block, region drive block → ¬Writes drive block call.request

namespace Share

variable {calls : List SectorCall}

def tail {call : SectorCall} (share : Share (call :: calls)) : Share calls where
  region := share.region
  own := share.own
  inside other member := share.inside other (List.mem_cons_of_mem call member)
  outside other member := share.outside other (List.mem_cons_of_mem call member)

def words (share : Share calls) (outcomes : List (Outcome (Bool × List UInt16) AtaDevice)) :
    List (List UInt16) :=
  ((calls.zip outcomes).filter fun served => share.own served.1).map fun served =>
    served.2.result.2

variable {call : SectorCall} (share : Share (call :: calls))
  (outcome : Outcome (Bool × List UInt16) AtaDevice)
  (outcomes : List (Outcome (Bool × List UInt16) AtaDevice))

theorem words_own (owned : share.own call = true) :
    share.words (outcome :: outcomes) = outcome.result.2 :: share.tail.words outcomes := by
  have kept : ((call, outcome) :: calls.zip outcomes).filter (fun served => share.own served.1) =
      (call, outcome) :: (calls.zip outcomes).filter fun served => share.own served.1 :=
    List.filter_cons_of_pos owned
  rw [words, List.zip_cons_cons, kept]
  rfl

theorem words_foreign (foreign : ¬share.own call = true) :
    share.words (outcome :: outcomes) = share.tail.words outcomes := by
  have dropped : ((call, outcome) :: calls.zip outcomes).filter (fun served => share.own served.1) =
      (calls.zip outcomes).filter fun served => share.own served.1 :=
    List.filter_cons_of_neg foreign
  rw [words, List.zip_cons_cons, dropped]
  rfl

end Share

/-- In any run a user's calls read what they read without the calls of the others, on
drives that need only agree on the user's sectors. -/
theorem shares_isolated (pause : Nat → Pause) (device other : AtaDevice)
    (idle : device.line.left = 0) (idleOther : other.line.left = 0) (calls : List SectorCall)
    (seamless : ∀ call ∈ calls, Seamless pause call) (share : Share calls)
    (agree : Agree share.region (sectors device) (sectors other)) :
    ∃ outcomes alone,
      Serves (ataPorts (errorFree pause)) device (calls.map fun call => call.call.program)
        outcomes ∧
      Serves (ataPorts (errorFree pause)) other
        ((calls.filter share.own).map fun call => call.call.program) alone ∧
      share.words outcomes = alone.map fun outcome => outcome.result.2 := by
  induction calls generalizing device other with
  | nil => exact ⟨[], [], .nil device, .nil other, rfl⟩
  | cons call calls induction =>
      rw [List.forall_mem_cons] at seamless
      rcases seamless_serves device idle seamless.1 with ⟨outcome, returns, drained, served⟩
      have words : outcome.result.2 = _ := congrArg Prod.fst served
      have stored : sectors outcome.state = _ := congrArg Prod.snd served
      cases owned : share.own call with
      | true =>
          rcases seamless_serves other idleOther seamless.1 with
            ⟨outcomeAlone, returnsAlone, drainedAlone, servedAlone⟩
          have wordsAlone : outcomeAlone.result.2 = _ := congrArg Prod.fst servedAlone
          have storedAlone : sectors outcomeAlone.state = _ := congrArg Prod.snd servedAlone
          rcases agree_served agree (share.inside call List.mem_cons_self owned) with ⟨same, after⟩
          rw [← stored, ← storedAlone] at after
          rcases induction outcome.state outcomeAlone.state drained drainedAlone seamless.2
            share.tail after with ⟨outcomes, alone, serves, servesAlone, rest⟩
          refine ⟨outcome :: outcomes, outcomeAlone :: alone, .cons returns serves, ?_, ?_⟩
          · rw [List.filter_cons_of_pos owned]
            exact .cons returnsAlone servesAlone
          · rw [share.words_own outcome outcomes owned, rest, words, same, ← wordsAlone]
            rfl
      | false =>
          have after := agree_untouched agree (share.outside call List.mem_cons_self owned)
          rw [← stored] at after
          rcases induction outcome.state other drained idleOther seamless.2 share.tail after with
            ⟨outcomes, alone, serves, servesAlone, rest⟩
          have foreign : ¬share.own call = true := by
            rw [owned]
            exact Bool.false_ne_true
          refine ⟨outcome :: outcomes, alone, .cons returns serves, ?_, ?_⟩
          · rw [List.filter_cons_of_neg foreign]
            exact servesAlone
          · rw [share.words_foreign outcome outcomes foreign]
            exact rest

def SectorCall.range : SectorCall → SectorRange
  | .read range => range
  | .write range _ => range

def firstDriveShare (calls : List SectorCall) : Share calls where
  region drive _ := drive = false
  own call := !call.range.second
  inside call _ owned drive block reached := by
    rw [Bool.not_eq_true'] at owned
    cases call with
    | read range => exact reached.1.symm.trans owned
    | write range buffer => exact reached.1.symm.trans owned
  outside call _ foreign drive block first written := by
    rw [Bool.not_eq_false'] at foreign
    cases call with
    | read range => exact written
    | write range buffer =>
        exact Bool.false_ne_true (first.symm.trans (written.1.symm.trans foreign))

theorem shares_isolated_drives :
    let calls := [.write ⟨false, 5, 2, by decide, by decide⟩ (fun index => UInt16.ofNat index),
      .write ⟨true, 5, 2, by decide, by decide⟩ (fun _ => 0xFFFF),
      .read ⟨false, 6, 1, by decide, by decide⟩]
    let share := firstDriveShare calls
    ∃ outcomes alone,
      Serves (ataPorts alwaysReady) blankDevice (calls.map fun call => call.call.program)
        outcomes ∧
      Serves (ataPorts alwaysReady) blankDevice
        ((calls.filter share.own).map fun call => call.call.program) alone ∧
      share.words outcomes = alone.map fun outcome => outcome.result.2 :=
  shares_isolated (fun _ => Pause.none) blankDevice blankDevice rfl rfl _
    (fun _ _ => Or.inr fun _ => rfl) (firstDriveShare _) fun _ _ _ _ => rfl

end FractionsOS.Ata
