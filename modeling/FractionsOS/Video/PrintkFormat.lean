import FractionsOS.Video.Printk

/-!
# Where `printk` stops reading

A format string has a length, the offset of its NUL. The outer loop steps over a `%`
together with the byte behind it, and looks for the NUL only where it goes on.
-/

namespace FractionsOS.Vga

open Library

set_option autoImplicit false

/-- A string in memory: nothing is known of what is stored behind its NUL. -/
structure FormatString where
  cells : Nat → UInt8
  length : Nat
  terminated : cells length = 0
  inside : ∀ offset < length, cells offset ≠ 0

namespace FormatString

structure Consists (format : FormatString) (pieces : List Piece) : Prop where
  spelled : Spells format.cells 0 (formatBytes pieces)
  whole : (formatBytes pieces).length = format.length

structure EndsUnpaired (format : FormatString) (pieces : List Piece) : Prop where
  spelled : Spells format.cells 0 (formatBytes pieces ++ [percentByte])
  whole : (formatBytes pieces).length + 1 = format.length

variable {format : FormatString}

theorem lt_length {offset : Nat} (near : offset ≤ format.length)
    (more : format.cells offset ≠ 0) : offset < format.length := by
  apply Nat.lt_of_le_of_ne near
  intro last
  rw [last] at more
  exact more format.terminated

/-- Behind whole pieces there is the end, one more piece, or a last `%` by itself. -/
theorem piece_inside {pieces : List Piece} (spelled : Spells format.cells 0 (formatBytes pieces))
    (more : (formatBytes pieces).length < format.length) :
    format.EndsUnpaired pieces ∨ ∃ piece : Piece,
      Spells format.cells (formatBytes pieces).length piece.bytes ∧
        (formatBytes pieces).length + piece.bytes.length ≤ format.length := by
  have goesOn := format.inside _ more
  obtain ⟨piece, here⟩ := piece_at goesOn
  cases piece with
  | literal c ordinary => exact Or.inr ⟨.literal c ordinary, here, more⟩
  | directive c =>
      by_cases last : (formatBytes pieces).length + 1 = format.length
      · left
        constructor
        · rw [spells_append, Nat.zero_add]
          exact ⟨spelled, here.1, trivial⟩
        · exact last
      · right
        refine ⟨.directive c, here, ?_⟩
        change (formatBytes pieces).length + 2 ≤ format.length
        omega

theorem consists_or_unpaired (format : FormatString) :
    ∃ pieces, format.Consists pieces ∨ format.EndsUnpaired pieces := by
  have cut : ∀ left pieces, Spells format.cells 0 (formatBytes pieces) →
      (formatBytes pieces).length + left = format.length →
        ∃ pieces, format.Consists pieces ∨ format.EndsUnpaired pieces := by
    intro left
    induction left using Nat.strong_induction_on with
    | _ left induction =>
        intro pieces spelled rest
        rcases Nat.eq_zero_or_pos left with rfl | more
        · exact ⟨pieces, Or.inl ⟨spelled, rest⟩⟩
        rcases piece_inside spelled (by omega) with unpaired | ⟨piece, here, room⟩
        · exact ⟨pieces, Or.inr unpaired⟩
        have longer : (formatBytes (pieces ++ [piece])).length =
            (formatBytes pieces).length + piece.bytes.length := by
          rw [format_bytes_concat, List.length_append]
        have some : 0 < piece.bytes.length := by
          cases piece with
          | literal c ordinary => exact Nat.zero_lt_one
          | directive c => exact Nat.zero_lt_two
        apply induction (left - piece.bytes.length) (by omega) (pieces ++ [piece])
        · rw [format_bytes_concat, spells_append, Nat.zero_add]
          exact ⟨spelled, here⟩
        · omega
  exact cut format.length [] trivial (Nat.zero_add _)

end FormatString

section Reads

variable {format : FormatString} {args : Nat → List UInt8}

/-- The loop stands inside the format and has read nothing behind it. -/
structure ReadsInside (format : FormatString) (state : PrintkState) : Prop where
  fmt : state.fmt ≤ format.length
  reads : ∀ offset ∈ state.reads, offset ≤ format.length

theorem reads_inside_start (stack : Nat → UInt8) : ReadsInside format (printkStart stack) where
  fmt := Nat.zero_le _
  reads := by simp [printkStart]

theorem reads_inside_read {state : PrintkState} (inside : ReadsInside format state) :
    ReadsInside format state.read where
  fmt := inside.fmt
  reads := List.forall_mem_cons.mpr ⟨inside.fmt, inside.reads⟩

theorem copy_argument_reads (state : PrintkState) (str : List UInt8) :
    (copyArgument state str).reads = state.reads ∧ (copyArgument state str).fmt = state.fmt := by
  induction str generalizing state with
  | nil => exact ⟨rfl, rfl⟩
  | cons c str induction =>
      rw [copyArgument]
      split_ifs
      · exact ⟨rfl, rfl⟩
      · exact induction (state.put c)

theorem pass_literal {state : PrintkState} (literal : format.cells state.fmt ≠ percentByte) :
    (printkPass format.cells args state).fmt = state.fmt + 1 ∧
      (printkPass format.cells args state).reads = state.reads := by
  rw [printkPass, if_neg literal]
  exact ⟨rfl, rfl⟩

theorem pass_directive {state : PrintkState} (directive : format.cells state.fmt = percentByte) :
    (printkPass format.cells args state).fmt = state.fmt + 2 ∧
      (printkPass format.cells args state).reads = (state.fmt + 1) :: state.reads := by
  rw [printkPass, if_pos directive]
  dsimp only
  split_ifs
  · obtain ⟨reads, fmt⟩ := copy_argument_reads
      { ({ state with fmt := state.fmt + 1 } : PrintkState).read with taken := state.taken + 1 }
      (args state.taken)
    exact ⟨congrArg (· + 1) fmt, reads⟩
  · exact ⟨rfl, rfl⟩

theorem pass_advances (state : PrintkState) :
    state.fmt < (printkPass format.cells args state).fmt := by
  by_cases directive : format.cells state.fmt = percentByte
  · rw [(pass_directive directive).1]
    omega
  · rw [(pass_literal directive).1]
    omega

theorem pass_keeps_reads (state : PrintkState) :
    state.reads ⊆ (printkPass format.cells args state).reads := by
  by_cases directive : format.cells state.fmt = percentByte
  · rw [(pass_directive directive).2]
    exact List.subset_cons_self _ _
  · rw [(pass_literal directive).2]
    exact List.Subset.refl _

theorem test_reads (state : PrintkState) :
    state.fmt ∈ (printkLoop format.cells args 1 state).2.reads := by
  have read : state.fmt ∈ state.read.reads := List.mem_cons_self
  rw [printkLoop]
  split_ifs
  · exact pass_keeps_reads state.read read
  · exact read

/-- A pass stays inside, unless it stands at a `%` that is the last byte. -/
theorem pass_reads_inside {state : PrintkState} (inside : ReadsInside format state)
    (more : format.cells state.fmt ≠ 0)
    (paired : format.cells state.fmt = percentByte → state.fmt + 1 ≠ format.length) :
    ReadsInside format (printkPass format.cells args state) := by
  have before := FormatString.lt_length inside.fmt more
  by_cases directive : format.cells state.fmt = percentByte
  · obtain ⟨fmt, reads⟩ := @pass_directive format args state directive
    have apart := paired directive
    constructor
    · rw [fmt]
      omega
    · rw [reads]
      exact List.forall_mem_cons.mpr ⟨before, inside.reads⟩
  · obtain ⟨fmt, reads⟩ := @pass_literal format args state directive
    constructor
    · rw [fmt]
      exact before
    · rw [reads]
      exact inside.reads

/-- The loop does not come to a last `%` that stands by itself, as there is no such `%` or
`buffer` is full before it. -/
def UnpairedUnreached (format : FormatString) (args : Nat → List UInt8) : Prop :=
  ∀ pieces, format.EndsUnpaired pieces → 255 ≤ (expand args pieces 0).length

theorem loop_reads_inside (unreached : UnpairedUnreached format args) (budget : Nat)
    {pieces : List Piece} {state : PrintkState}
    (expanded : Expanded format.cells args pieces state) (inside : ReadsInside format state) :
    ReadsInside format (printkLoop format.cells args budget state).2 := by
  induction budget generalizing pieces state with
  | zero => exact inside
  | succ budget induction =>
      rw [printkLoop]
      split_ifs with onward
      · obtain ⟨piece, spelled⟩ := piece_at onward.1
        apply induction (pass_expands (expanded_read expanded) spelled)
        apply pass_reads_inside (reads_inside_read inside) onward.1
        intro directive last
        have full : 255 ≤ (expand args pieces 0).length := by
          apply unreached
          constructor
          · rw [spells_append, Nat.zero_add, ← expanded.fmt]
            exact ⟨expanded.spelled, directive, trivial⟩
          · rw [← expanded.fmt]
            exact last
        rw [← stored_index expanded.stored] at full
        exact Nat.not_lt.mpr full onward.2
      · exact reads_inside_read inside

/-- Each pass takes the pointer on, and the loop ends at the NUL at the latest. -/
theorem loop_ends_inside (budget : Nat) {state : PrintkState}
    (within : ∀ budget, (printkLoop format.cells args budget state).2.fmt ≤ format.length)
    (enough : format.length < state.fmt + budget) :
    (printkLoop format.cells args budget state).1 = true := by
  induction budget generalizing state with
  | zero =>
      have here : state.fmt ≤ format.length := within 0
      omega
  | succ budget induction =>
      rw [printkLoop]
      split_ifs with onward
      · have later := @pass_advances format args state.read
        apply induction
        · intro budget
          have next := within (budget + 1)
          rw [printkLoop, if_pos onward] at next
          exact next
        · change state.fmt < _ at later
          omega
      · rfl

end Reads

/-- The loop reads its format up to the NUL at most, and it ends after one pass for each
byte at most, exactly when it does not come to a `%` that is the last byte. -/
theorem format_reads_inside_iff (format : FormatString) (args : Nat → List UInt8)
    (stack : Nat → UInt8) :
    ((∀ budget, ∀ offset ∈ (printkLoop format.cells args budget (printkStart stack)).2.reads,
        offset ≤ format.length) ∧
      (printkLoop format.cells args (format.length + 1) (printkStart stack)).1 = true) ↔
      UnpairedUnreached format args := by
  constructor
  · rintro ⟨inside, -⟩ pieces unpaired
    by_contra short
    have whole := (spells_append.mp unpaired.spelled).1
    have percent := (spells_append.mp unpaired.spelled).2.1
    rw [Nat.zero_add] at percent
    have spelled : Spells format.cells 0 (formatBytes (pieces ++ [.directive 0])) := by
      rw [format_bytes_concat, spells_append, Nat.zero_add]
      refine ⟨whole, percent, ?_, trivial⟩
      rw [unpaired.whole]
      exact format.terminated
    have room : (expand args (pieces ++ [Piece.directive 0]).dropLast 0).length < 255 := by
      rw [List.dropLast_concat]
      exact Nat.lt_of_not_le short
    obtain ⟨state, expanded, runs⟩ := loop_reaches stack spelled room
    have behind : state.fmt = format.length + 1 := by
      rw [expanded.fmt, format_bytes_concat, List.length_append, ← unpaired.whole]
      rfl
    have bound := inside (1 + (pieces ++ [Piece.directive 0]).length) state.fmt
    rw [runs] at bound
    have read := bound (test_reads state)
    omega
  · intro unreached
    have within : ∀ budget,
        ReadsInside format (printkLoop format.cells args budget (printkStart stack)).2 :=
      fun budget => loop_reads_inside unreached budget (expanded_start stack)
        (reads_inside_start stack)
    constructor
    · exact fun budget => (within budget).reads
    · apply loop_ends_inside _ fun budget => (within budget).fmt
      exact Nat.lt_succ_of_le (Nat.le_add_left _ _)

def percentFormat : FormatString where
  cells offset := if offset = 0 then percentByte else 0
  length := 1
  terminated := rfl
  inside offset before := by
    rw [if_pos (Nat.lt_one_iff.mp before)]
    decide

theorem last_percent_passes_end :
    ¬∀ (format : FormatString) (args : Nat → List UInt8) (stack : Nat → UInt8),
      (∀ budget, ∀ offset ∈ (printkLoop format.cells args budget (printkStart stack)).2.reads,
          offset ≤ format.length) ∧
        (printkLoop format.cells args (format.length + 1) (printkStart stack)).1 = true := by
  intro inside
  have bound := (inside percentFormat (fun _ => []) fun _ => 0).1 2 2 (by decide)
  exact absurd bound (by decide)

end FractionsOS.Vga
