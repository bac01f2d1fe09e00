import Mathlib.Data.Nat.Basic
import Mathlib.Logic.Function.Iterate
import Mathlib.Tactic.SplitIfs

/-!
# A line that moves words in blocks

A device offers a number of words in blocks of `blockSize` and pauses after each
block: for some polls it is busy, for some more it is not busy but has nothing
to move yet. A host that moves words without polling gets through exactly when
the pauses between its blocks are empty.
-/

namespace Library.BlockHandshake

set_option autoImplicit false

/-- How many polls a pause lasts, first busy ones, then settling ones. -/
structure Pause where
  busy : Nat
  settling : Nat
  deriving DecidableEq, Repr

def Pause.none : Pause := ⟨0, 0⟩

structure Line where
  left : Nat
  busy : Nat
  settling : Nat
  /-- How many pauses were begun. -/
  pauses : Nat
  deriving DecidableEq, Repr

namespace Line

def poll (line : Line) : Line :=
  if 0 < line.busy then { line with busy := line.busy - 1 }
  else { line with settling := line.settling - 1 }

@[simp] theorem poll_left (line : Line) : line.poll.left = line.left := by
  unfold poll
  split_ifs <;> rfl

theorem poll_busy (line : Line) : line.poll.busy = line.busy - 1 := by
  unfold poll
  split_ifs with waiting
  · rfl
  · simp [Nat.eq_zero_of_not_pos waiting]

def Ready (line : Line) : Prop := line.busy = 0 ∧ line.settling = 0 ∧ 0 < line.left

/-- The line shows neither that it is busy nor that it has words to move. -/
def Quiet (line : Line) : Prop := line.busy = 0 ∧ ¬line.Ready

instance (line : Line) : Decidable line.Ready :=
  inferInstanceAs (Decidable (line.busy = 0 ∧ line.settling = 0 ∧ 0 < line.left))

section Moves

variable (blockSize : Nat) (pause : Nat → Pause)

def beginPause (line : Line) : Line :=
  { line with
    busy := (pause line.pauses).busy
    settling := (pause line.pauses).settling
    pauses := line.pauses + 1 }

def moved (line : Line) : Line :=
  let line := { line with left := line.left - 1 }
  if line.left % blockSize = 0 then line.beginPause pause else line

/-- One access to the data port, whether or not the line is ready for it. -/
def attempt (line : Line) : Line := if line.Ready then line.moved blockSize pause else line

def attempts (count : Nat) (line : Line) : Line := (attempt blockSize pause)^[count] line

variable {blockSize pause}

@[simp] theorem attempts_zero (line : Line) : attempts blockSize pause 0 line = line := rfl

theorem attempts_succ (count : Nat) (line : Line) :
    attempts blockSize pause (count + 1) line =
      attempts blockSize pause count (attempt blockSize pause line) := rfl

theorem attempts_add (first second : Nat) (line : Line) :
    attempts blockSize pause (first + second) line =
      attempts blockSize pause second (attempts blockSize pause first line) := by
  rw [attempts, attempts, attempts, Nat.add_comm, Function.iterate_add_apply]

@[simp] theorem moved_left (line : Line) : (moved blockSize pause line).left = line.left - 1 := by
  unfold moved
  dsimp only
  split_ifs <;> rfl

theorem moved_unpaused {line : Line} (busy : line.busy = 0) (settling : line.settling = 0) :
    (moved blockSize (fun _ => Pause.none) line).busy = 0 ∧
      (moved blockSize (fun _ => Pause.none) line).settling = 0 := by
  unfold moved
  dsimp only
  split_ifs
  · exact ⟨rfl, rfl⟩
  · exact ⟨busy, settling⟩

theorem attempt_left_of_ready {line : Line} (ready : line.Ready) :
    (attempt blockSize pause line).left = line.left - 1 := by
  rw [attempt, if_pos ready, moved_left]

theorem attempt_left_ge (line : Line) : line.left ≤ (attempt blockSize pause line).left + 1 := by
  by_cases ready : line.Ready
  · rw [attempt_left_of_ready ready]
    omega
  · rw [attempt, if_neg ready]
    exact Nat.le_succ _

theorem attempts_left_ge (count : Nat) (line : Line) :
    line.left ≤ (attempts blockSize pause count line).left + count := by
  induction count generalizing line with
  | zero => exact le_rfl
  | succ count induction =>
      have one : line.left ≤ (attempt blockSize pause line).left + 1 := attempt_left_ge line
      have more := induction (attempt blockSize pause line)
      rw [attempts_succ]
      omega

/-- Accesses that a line is not ready for leave it as it is. -/
theorem attempts_waiting {line : Line} (waiting : ¬line.Ready) (count : Nat) :
    attempts blockSize pause count line = line := by
  induction count with
  | zero => rfl
  | succ count induction => rw [attempts_succ, attempt, if_neg waiting, induction]

/-- A line whose accesses are as many as its words is drained exactly when every
access met it ready. -/
theorem drained_iff_all_ready (line : Line) :
    (attempts blockSize pause line.left line).left = 0 ↔
      ∀ index, index < line.left → (attempts blockSize pause index line).Ready := by
  generalize size : line.left = left
  induction left generalizing line with
  | zero =>
      constructor
      · intro _ index below
        cases below
      · intro _
        exact size
  | succ left induction =>
      rw [attempts_succ]
      by_cases ready : line.Ready
      · have next := induction (attempt blockSize pause line) (by
          rw [attempt_left_of_ready ready, size, Nat.add_sub_cancel])
        rw [next]
        constructor
        · intro later index below
          cases index with
          | zero => exact ready
          | succ index => exact later index (Nat.lt_of_succ_lt_succ below)
        · intro every index below
          exact every (index + 1) (Nat.succ_lt_succ below)
      · constructor
        · intro drained
          have remaining : line.left ≤ (attempts blockSize pause left line).left + left :=
            attempts_left_ge left line
          rw [attempt, if_neg ready] at drained
          omega
        · intro every
          exact absurd (every 0 (Nat.succ_pos left)) ready

theorem block_le_left (line : Line) (ready : line.Ready) (blocks : Nat)
    (whole : line.left = blocks * blockSize) : blockSize ≤ line.left := by
  rw [whole]
  apply Nat.le_mul_of_pos_left
  rcases Nat.eq_zero_or_pos blocks with none | positive
  · have left := ready.2.2
    rw [whole, none, Nat.zero_mul] at left
    cases left
  · exact positive

theorem attempts_in_block (line : Line) (ready : line.Ready) (blocks : Nat)
    (whole : line.left = blocks * blockSize) (count : Nat) (inside : count < blockSize) :
    attempts blockSize pause count line = { line with left := line.left - count } := by
  have someBlock : blockSize ≤ line.left := block_le_left line ready blocks whole
  induction count with
  | zero => rfl
  | succ count induction =>
      rw [attempts_add, induction (Nat.lt_of_succ_lt inside), attempts_succ, attempts_zero]
      have stillReady : ({ line with left := line.left - count } : Line).Ready :=
        ⟨ready.1, ready.2.1, by dsimp only; omega⟩
      have notBoundary : ¬(line.left - count - 1) % blockSize = 0 := by
        obtain ⟨earlier, rfl⟩ : ∃ earlier, blocks = earlier + 1 := by
          refine ⟨blocks - 1, ?_⟩
          rcases Nat.eq_zero_or_pos blocks with none | positive
          · rw [whole, none, Nat.zero_mul] at someBlock
            omega
          · omega
        have position : line.left - count - 1 =
            blockSize - (count + 1) + earlier * blockSize := by
          rw [whole, Nat.add_mul, Nat.one_mul]
          omega
        rw [position, Nat.add_mul_mod_self_right, Nat.mod_eq_of_lt (by omega)]
        omega
      rw [attempt, if_pos stillReady, moved]
      dsimp only
      rw [if_neg notBoundary, Nat.sub_sub]

theorem attempts_block (line : Line) (ready : line.Ready) (blocks : Nat)
    (positive : 0 < blockSize) (whole : line.left = (blocks + 1) * blockSize) :
    attempts blockSize pause blockSize line =
      ({ line with left := blocks * blockSize } : Line).beginPause pause := by
  have split : blockSize = blockSize - 1 + 1 := by omega
  have inBlock : attempts blockSize pause (blockSize - 1) line =
      { line with left := line.left - (blockSize - 1) } :=
    attempts_in_block line ready (blocks + 1) whole (blockSize - 1) (by omega)
  have last : line.left - (blockSize - 1) - 1 = blocks * blockSize := by
    rw [whole, Nat.add_mul, Nat.one_mul]
    omega
  have stillReady : ({ line with left := line.left - (blockSize - 1) } : Line).Ready := by
    refine ⟨ready.1, ready.2.1, ?_⟩
    rw [Nat.add_mul, Nat.one_mul] at whole
    dsimp only
    omega
  calc
    attempts blockSize pause blockSize line
        = attempts blockSize pause (blockSize - 1 + 1) line := by rw [← split]
    _ = attempt blockSize pause { line with left := line.left - (blockSize - 1) } := by
        rw [attempts_add, inBlock]
        rfl
    _ = ({ line with left := blocks * blockSize } : Line).beginPause pause := by
        rw [attempt, if_pos stillReady, moved]
        dsimp only
        rw [last, if_pos (Nat.mul_mod_left _ _)]

theorem begin_pause_ready_iff (line : Line) (left : Nat) (words : 0 < left) :
    (({ line with left } : Line).beginPause pause).Ready ↔ pause line.pauses = Pause.none := by
  constructor
  · intro ready
    exact congrArg₂ Pause.mk ready.1 ready.2.1
  · intro empty
    refine ⟨?_, ?_, words⟩
    · exact congrArg Pause.busy empty
    · exact congrArg Pause.settling empty

theorem words_to_boundary (size left : Nat) (positive : 0 < size) :
    left % size + 1 = if (left + 1) % size = 0 then size else (left + 1) % size := by
  have below : left % size < size := Nat.mod_lt _ positive
  have again : (left + 1) % size = (left % size + 1) % size := (Nat.mod_add_mod left size 1).symm
  by_cases last : left % size + 1 = size
  · rw [again, last, Nat.mod_self, if_pos rfl]
  · rw [again, Nat.mod_eq_of_lt (show left % size + 1 < size by omega),
      if_neg (Nat.succ_ne_zero _)]

variable (blockSize pause) in
/-- The line has `count` words, and no pause that begins between two of them takes a poll. -/
def Flows (line : Line) (count : Nat) : Prop :=
  count ≤ line.left ∧
    ∀ block, (line.left - 1) % blockSize + 1 + block * blockSize < count →
      pause (line.pauses + block) = Pause.none

theorem flows_at_boundary (line : Line) (left count : Nat) (more : 0 < count)
    (positive : 0 < blockSize) (size : line.left = left + 1) (boundary : left % blockSize = 0) :
    Flows blockSize pause line (count + 1) ↔
      (({ line with left } : Line).beginPause pause).Ready ∧
        Flows blockSize pause (({ line with left } : Line).beginPause pause) count := by
  rcases Nat.eq_zero_or_pos left with none | words
  · subst none
    apply iff_of_false
    · intro flows
      have enough := flows.1
      omega
    · intro both
      cases both.1.2.2
  · have next := words_to_boundary blockSize (left - 1) positive
    rw [Nat.sub_add_cancel words, if_pos boundary] at next
    rw [begin_pause_ready_iff line left words]
    unfold Flows
    rw [size, Nat.add_sub_cancel, boundary]
    change _ ↔ _ ∧ count ≤ left ∧ ∀ block, (left - 1) % blockSize + 1 + block * blockSize < count →
      pause (line.pauses + 1 + block) = Pause.none
    rw [next]
    constructor
    · rintro ⟨enough, empty⟩
      refine ⟨empty 0 (by omega), by omega, ?_⟩
      intro block between
      have pauses : line.pauses + 1 + block = line.pauses + (block + 1) := by omega
      rw [pauses]
      apply empty (block + 1)
      rw [Nat.succ_mul]
      omega
    · rintro ⟨first, enough, empty⟩
      refine ⟨by omega, ?_⟩
      intro block between
      cases block with
      | zero => exact first
      | succ block =>
          have pauses : line.pauses + (block + 1) = line.pauses + 1 + block := by omega
          rw [pauses]
          apply empty block
          rw [Nat.succ_mul] at between
          omega

theorem flows_in_block (line : Line) (left count : Nat) (positive : 0 < blockSize)
    (size : line.left = left + 1) (inside : left % blockSize ≠ 0) :
    Flows blockSize pause line (count + 1) ↔ Flows blockSize pause { line with left } count := by
  have words : 0 < left := by
    apply Nat.pos_of_ne_zero
    rintro rfl
    exact inside (Nat.zero_mod _)
  have next := words_to_boundary blockSize (left - 1) positive
  rw [Nat.sub_add_cancel words, if_neg inside] at next
  unfold Flows
  rw [size, Nat.add_sub_cancel]
  dsimp only
  rw [next, Nat.add_le_add_iff_right]
  simp only [Nat.add_right_comm _ 1, Nat.add_lt_add_iff_right]

/-- The first `count` accesses all meet a ready line exactly when that many words flow. -/
theorem first_ready_iff (count : Nat) (line : Line) (ready : line.Ready)
    (positive : 0 < blockSize) :
    (∀ index, index < count → (attempts blockSize pause index line).Ready) ↔
      Flows blockSize pause line count := by
  induction count generalizing line with
  | zero =>
      apply iff_of_true
      · intro index below
        cases below
      · exact ⟨Nat.zero_le _, fun block below => absurd below (Nat.not_lt_zero _)⟩
  | succ count induction =>
      obtain ⟨left, size⟩ : ∃ left, line.left = left + 1 :=
        Nat.exists_eq_succ_of_ne_zero (Nat.ne_of_gt ready.2.2)
      have onward : (∀ index, index < count + 1 → (attempts blockSize pause index line).Ready) ↔
          ∀ index, index < count →
            (attempts blockSize pause index (moved blockSize pause line)).Ready := by
        rw [Nat.forall_lt_succ_left]
        simp only [attempts_zero, ready, true_and, attempts_succ, attempt, if_true]
      have rest : line.left - 1 = left := by omega
      rw [onward, moved]
      dsimp only
      rw [rest]
      rcases Nat.eq_zero_or_pos count with rfl | more
      · apply iff_of_true
        · intro index below
          cases below
        · exact ⟨by omega, fun block below => by omega⟩
      · by_cases boundary : left % blockSize = 0
        · rw [if_pos boundary, flows_at_boundary line left count more positive size boundary]
          by_cases next : (({ line with left } : Line).beginPause pause).Ready
          · rw [induction _ next, and_iff_right next]
          · apply iff_of_false
            · intro every
              exact next (every 0 more)
            · intro both
              exact next both.1
        · have next : ({ line with left } : Line).Ready := by
            refine ⟨ready.1, ready.2.1, Nat.pos_of_ne_zero ?_⟩
            rintro rfl
            exact boundary (Nat.zero_mod _)
          rw [if_neg boundary, flows_in_block line left count positive size boundary,
            induction _ next]

/-- The words of several blocks all meet a ready line exactly when no pause
between two blocks takes a poll. -/
theorem all_ready_iff (blocks : Nat) (line : Line) (ready : line.Ready) (positive : 0 < blockSize)
    (whole : line.left = blocks * blockSize) :
    (∀ index, index < line.left → (attempts blockSize pause index line).Ready) ↔
      ∀ block, block + 1 < blocks → pause (line.pauses + block) = Pause.none := by
  have words := words_to_boundary blockSize (line.left - 1) positive
  rw [Nat.sub_add_cancel ready.2.2, whole, if_pos (Nat.mul_mod_left _ _)] at words
  rw [first_ready_iff line.left line ready positive, Flows, and_iff_right le_rfl, whole, words]
  have between : ∀ block,
      blockSize + block * blockSize < blocks * blockSize ↔ block + 1 < blocks := by
    intro block
    rw [Nat.add_comm, ← Nat.succ_mul, Nat.mul_lt_mul_right positive]
  simp only [between]

/-- After as many accesses as several blocks have words the line is quiet exactly when the
first pause that takes a poll, if there is one, is not a busy one. -/
theorem quiet_after_blocks_iff (blocks : Nat) (line : Line) (ready : line.Ready)
    (positive : 0 < blockSize) (whole : line.left = blocks * blockSize) :
    (attempts blockSize pause line.left line).Quiet ↔
      ∀ block, block < blocks →
        (∀ earlier, earlier < block → pause (line.pauses + earlier) = Pause.none) →
        (pause (line.pauses + block)).busy = 0 := by
  induction blocks generalizing line with
  | zero =>
      have left := ready.2.2
      rw [whole, Nat.zero_mul] at left
      cases left
  | succ blocks induction =>
      generalize behind : ({ line with left := blocks * blockSize } : Line).beginPause pause = next
      have size : line.left = blockSize + blocks * blockSize := by
        rw [whole, Nat.add_mul, Nat.one_mul, Nat.add_comm]
      have rest : attempts blockSize pause line.left line =
          attempts blockSize pause (blocks * blockSize) next := by
        rw [size, attempts_add, attempts_block line ready blocks positive whole, behind]
      have left : next.left = blocks * blockSize := by
        rw [← behind]
        rfl
      have pauses : next.pauses = line.pauses + 1 := by
        rw [← behind]
        rfl
      have busy : next.busy = (pause line.pauses).busy := by
        rw [← behind]
        rfl
      rw [rest]
      by_cases onward : next.Ready
      · have words := onward.2.2
        rw [left] at words
        rw [← behind, begin_pause_ready_iff line _ words] at onward
        have again := induction next (behind ▸ (begin_pause_ready_iff line _ words).mpr onward) left
        rw [left] at again
        rw [again, pauses]
        constructor
        · intro later block inside none
          cases block with
          | zero => exact congrArg Pause.busy onward
          | succ block =>
              have place : line.pauses + (block + 1) = line.pauses + 1 + block := by omega
              rw [place]
              apply later block (by omega)
              intro earlier before
              have shifted := none (earlier + 1) (by omega)
              rw [← Nat.add_assoc, Nat.add_right_comm] at shifted
              exact shifted
        · intro every block inside none
          have place : line.pauses + 1 + block = line.pauses + (block + 1) := by omega
          rw [place]
          apply every (block + 1) (by omega)
          intro earlier before
          cases earlier with
          | zero => exact onward
          | succ earlier =>
              have shifted := none earlier (by omega)
              rw [Nat.add_right_comm, Nat.add_assoc] at shifted
              exact shifted
      · rw [attempts_waiting onward, Quiet, busy]
        constructor
        · intro quiet block inside none
          cases block with
          | zero => exact quiet.1
          | succ block =>
              have words : 0 < blocks * blockSize := Nat.mul_pos (by omega) positive
              have first := none 0 (Nat.succ_pos block)
              rw [← behind] at onward
              exact absurd ((begin_pause_ready_iff line _ words).mpr first) onward
        · intro every
          exact ⟨every 0 (Nat.succ_pos blocks) (by simp), onward⟩

end Moves

end Line

end Library.BlockHandshake
