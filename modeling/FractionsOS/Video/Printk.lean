import FractionsOS.Video.Vga
import Mathlib.Data.List.Induction
import Mathlib.Tactic.SplitIfs

/-!
# Formatted output

`printk` expands its format into `buffer[256]` and hands the result to the console. The
format is memory from `fmt` on, as the code may walk past the terminating NUL, and the
`n`-th `va_arg` gives the string `args n`. The outer loop looks at its index before each
pass; the loop that copies an argument does not, and stores outside `buffer` are made like
all others.
-/

namespace FractionsOS.Vga

open Library

set_option autoImplicit false

def percentByte : UInt8 := 37
def stringByte : UInt8 := 115

/-- `fmt` is the offset that the pointer has reached, `reads` the offsets of the format
that were read, latest first, and `taken` the number of arguments taken. -/
structure PrintkState where
  fmt : Nat
  reads : List Nat
  taken : Nat
  i : Nat
  buffer : TracedMemory UInt8

/-- The locals before the loop, over whatever the stack holds. -/
def printkStart (stack : Nat → UInt8) : PrintkState where
  fmt := 0
  reads := []
  taken := 0
  i := 0
  buffer := { cells := stack, trace := [] }

def PrintkState.read (state : PrintkState) : PrintkState :=
  { state with reads := state.fmt :: state.reads }

/-- `buffer[i++] = c` -/
def PrintkState.put (state : PrintkState) (c : UInt8) : PrintkState :=
  { state with buffer := state.buffer.store state.i c, i := state.i + 1 }

@[simp] theorem put_fmt (state : PrintkState) (c : UInt8) : (state.put c).fmt = state.fmt := rfl

@[simp] theorem put_taken (state : PrintkState) (c : UInt8) :
    (state.put c).taken = state.taken := rfl

def copyArgument (state : PrintkState) : List UInt8 → PrintkState
  | [] => state
  | c :: str => if c = 0 then state else copyArgument (state.put c) str

section Code

variable (format : Nat → UInt8) (args : Nat → List UInt8)

def printkPass (state : PrintkState) : PrintkState :=
  if format state.fmt = percentByte then
    let state := { state with fmt := state.fmt + 1 }.read
    let state :=
      if format state.fmt = stringByte then
        copyArgument { state with taken := state.taken + 1 } (args state.taken)
      else state
    { state with fmt := state.fmt + 1 }
  else
    { state.put (format state.fmt) with fmt := state.fmt + 1 }

/-- The outer loop, stopped when it has used up a budget of passes, and whether it ended
by itself. -/
def printkLoop : Nat → PrintkState → Bool × PrintkState
  | 0, state => (false, state)
  | budget + 1, state =>
      if format state.fmt ≠ 0 ∧ state.i < 255 then
        printkLoop budget (printkPass format args state.read)
      else (true, state.read)

def printkBuffer (stack : Nat → UInt8) (budget : Nat) : Bool × PrintkState :=
  let (ended, state) := printkLoop format args budget (printkStart stack)
  (ended, if ended then { state with buffer := state.buffer.store state.i 0 } else state)

def PrintkState.text (state : PrintkState) : List UInt8 :=
  (List.range state.i).map state.buffer.cells

def printk (stack : Nat → UInt8) (budget : Nat) (console : VgaState) : Option VgaState :=
  let (ended, state) := printkBuffer format args stack budget
  if ended then some (vgaWriteString console state.text) else none

end Code

/-- What a format is read in: a byte that is copied, or a `%` with the byte behind it. -/
inductive Piece where
  | literal (c : UInt8) (ordinary : c ≠ 0 ∧ c ≠ percentByte)
  | directive (c : UInt8)

def Piece.bytes : Piece → List UInt8
  | .literal c _ => [c]
  | .directive c => [percentByte, c]

def formatBytes (pieces : List Piece) : List UInt8 := pieces.flatMap Piece.bytes

def Piece.takesArgument : Piece → Bool
  | .literal _ _ => false
  | .directive c => c == stringByte

def argumentsIn (pieces : List Piece) : Nat := pieces.countP Piece.takesArgument

/-- What a piece becomes when `argument` is the next argument. -/
def Piece.expand (argument : List UInt8) : Piece → List UInt8
  | .literal c _ => [c]
  | .directive c => if c = stringByte then stringBytes argument else []

def expand (args : Nat → List UInt8) : List Piece → Nat → List UInt8
  | [], _ => []
  | piece :: pieces, taken =>
      piece.expand (args taken) ++ expand args pieces (taken + argumentsIn [piece])

def Spells (format : Nat → UInt8) : Nat → List UInt8 → Prop
  | _, [] => True
  | offset, c :: bytes => format offset = c ∧ Spells format (offset + 1) bytes

theorem spells_append {format : Nat → UInt8} {first second : List UInt8} {offset : Nat} :
    Spells format offset (first ++ second) ↔
      Spells format offset first ∧ Spells format (offset + first.length) second := by
  induction first generalizing offset with
  | nil => simp [Spells]
  | cons c first induction =>
      have place : offset + 1 + first.length = offset + (c :: first).length := by
        rw [List.length_cons]
        omega
      simp only [List.cons_append, Spells, induction, place, and_assoc]

theorem arguments_append (first second : List Piece) :
    argumentsIn (first ++ second) = argumentsIn first + argumentsIn second :=
  List.countP_append

theorem arguments_cons (piece : Piece) (pieces : List Piece) :
    argumentsIn (piece :: pieces) = argumentsIn [piece] + argumentsIn pieces :=
  arguments_append [piece] pieces

theorem format_bytes_concat (pieces : List Piece) (piece : Piece) :
    formatBytes (pieces ++ [piece]) = formatBytes pieces ++ piece.bytes := by
  simp [formatBytes]

theorem expand_concat (args : Nat → List UInt8) (pieces : List Piece) (piece : Piece)
    (taken : Nat) :
    expand args (pieces ++ [piece]) taken =
      expand args pieces taken ++ piece.expand (args (taken + argumentsIn pieces)) := by
  induction pieces generalizing taken with
  | nil => simp [expand, argumentsIn]
  | cons other pieces induction =>
      rw [List.cons_append, expand, induction, expand, List.append_assoc,
        arguments_cons other pieces, Nat.add_assoc]

theorem piece_at {format : Nat → UInt8} {offset : Nat} (more : format offset ≠ 0) :
    ∃ piece : Piece, Spells format offset piece.bytes := by
  by_cases percent : format offset = percentByte
  · exact ⟨.directive (format (offset + 1)), percent, rfl, trivial⟩
  · exact ⟨.literal (format offset) ⟨more, percent⟩, rfl, trivial⟩

theorem piece_not_end {format : Nat → UInt8} {offset : Nat} {piece : Piece}
    (spelled : Spells format offset piece.bytes) : format offset ≠ 0 := by
  cases piece with
  | literal c ordinary => exact spelled.1 ▸ ordinary.1
  | directive c => simp [spelled.1, percentByte]

/-- The text is stored from the start of `buffer` on, and nothing behind it. -/
structure Stored (state : PrintkState) (text : List UInt8) : Prop where
  cells : state.text = text
  trace : ∀ index ∈ state.buffer.trace, index < state.i

theorem stored_index {state : PrintkState} {text : List UInt8} (stored : Stored state text) :
    state.i = text.length := by
  rw [← stored.cells, PrintkState.text, List.length_map, List.length_range]

theorem put_stores {state : PrintkState} {text : List UInt8} (stored : Stored state text)
    (c : UInt8) : Stored (state.put c) (text ++ [c]) := by
  constructor
  · have earlier : (List.range state.i).map (state.buffer.store state.i c).cells = text := by
      rw [← stored.cells, PrintkState.text]
      apply List.map_congr_left
      intro index inside
      have below : index < state.i := List.mem_range.mp inside
      rw [TracedMemory.store_cells, if_neg (by omega)]
    change (List.range (state.i + 1)).map (state.buffer.store state.i c).cells = _
    rw [List.range_succ, List.map_append, earlier]
    simp [TracedMemory.store_cells]
  · intro index member
    change index < state.i + 1
    rcases List.mem_cons.mp member with here | earlier
    · omega
    · have below := stored.trace index earlier
      omega

theorem copy_argument_stores {state : PrintkState} {text : List UInt8}
    (stored : Stored state text) (str : List UInt8) :
    Stored (copyArgument state str) (text ++ stringBytes str) ∧
      (copyArgument state str).fmt = state.fmt ∧ (copyArgument state str).taken = state.taken := by
  induction str generalizing state text with
  | nil => simpa [copyArgument, stringBytes] using stored
  | cons c str induction =>
      by_cases terminator : c = 0
      · simpa [copyArgument, stringBytes, terminator] using stored
      · have rest := induction (put_stores stored c)
        rw [List.append_assoc] at rest
        simpa [copyArgument, stringBytes, terminator] using rest

section Runs

variable {format : Nat → UInt8} {args : Nat → List UInt8}

/-- The loop is between two passes, with these pieces of the format expanded. -/
structure Expanded (format : Nat → UInt8) (args : Nat → List UInt8) (pieces : List Piece)
    (state : PrintkState) : Prop where
  fmt : state.fmt = (formatBytes pieces).length
  spelled : Spells format 0 (formatBytes pieces)
  taken : state.taken = argumentsIn pieces
  stored : Stored state (expand args pieces 0)

theorem expanded_start (stack : Nat → UInt8) : Expanded format args [] (printkStart stack) where
  fmt := rfl
  spelled := trivial
  taken := rfl
  stored := ⟨rfl, by simp [printkStart]⟩

theorem expanded_read {pieces : List Piece} {state : PrintkState}
    (expanded : Expanded format args pieces state) : Expanded format args pieces state.read where
  fmt := expanded.fmt
  spelled := expanded.spelled
  taken := expanded.taken
  stored := ⟨expanded.stored.cells, expanded.stored.trace⟩

theorem pass_expands {pieces : List Piece} {state : PrintkState} {piece : Piece}
    (expanded : Expanded format args pieces state)
    (spelled : Spells format state.fmt piece.bytes) :
    Expanded format args (pieces ++ [piece]) (printkPass format args state) := by
  have whole : Spells format 0 (formatBytes (pieces ++ [piece])) := by
    rw [format_bytes_concat, spells_append, Nat.zero_add, ← expanded.fmt]
    exact ⟨expanded.spelled, spelled⟩
  have length : (formatBytes (pieces ++ [piece])).length = state.fmt + piece.bytes.length := by
    rw [format_bytes_concat, List.length_append, expanded.fmt]
  have text := expand_concat args pieces piece 0
  rw [Nat.zero_add, ← expanded.taken] at text
  have count := arguments_append pieces [piece]
  rw [← expanded.taken] at count
  cases piece with
  | literal c ordinary =>
      have here : format state.fmt = c := spelled.1
      rw [printkPass, here, if_neg ordinary.2]
      have put := put_stores expanded.stored c
      exact ⟨length.symm, whole, count.symm, text ▸ ⟨put.cells, put.trace⟩⟩
  | directive c =>
      have here : format (state.fmt + 1) = c := spelled.2.1
      rw [printkPass, if_pos spelled.1]
      simp only [PrintkState.read, here]
      by_cases string : c = stringByte
      · subst string
        have before : Stored { state with
            fmt := state.fmt + 1
            reads := (state.fmt + 1) :: state.reads
            taken := state.taken + 1 } (expand args pieces 0) :=
          ⟨expanded.stored.cells, expanded.stored.trace⟩
        obtain ⟨copied, fmt, taken⟩ := copy_argument_stores before (args state.taken)
        rw [if_pos rfl]
        constructor
        · rw [length, fmt]
          rfl
        · exact whole
        · rw [count, taken]
          rfl
        · rw [text]
          exact ⟨copied.cells, copied.trace⟩
      · have none : Piece.expand (args state.taken) (.directive c) = [] := if_neg string
        rw [none, List.append_nil] at text
        rw [if_neg string]
        constructor
        · rw [length]
          rfl
        · exact whole
        · rw [count]
          simp [argumentsIn, Piece.takesArgument, string]
        · rw [text]
          exact ⟨expanded.stored.cells, expanded.stored.trace⟩

/-- Between two passes the loop has expanded what lies before its pointer, and it has not
gone on from more than 254 bytes. -/
theorem loop_expands (budget : Nat) {pieces : List Piece} {state : PrintkState}
    (expanded : Expanded format args pieces state) :
    ∃ more, Expanded format args (pieces ++ more) (printkLoop format args budget state).2 ∧
      ∀ earlier last, more = earlier ++ [last] →
        (expand args (pieces ++ earlier) 0).length < 255 := by
  induction budget generalizing pieces state with
  | zero =>
      refine ⟨[], ?_, by simp⟩
      rw [List.append_nil]
      exact expanded
  | succ budget induction =>
      rw [printkLoop]
      split_ifs with onward
      · obtain ⟨piece, spelled⟩ := piece_at onward.1
        obtain ⟨more, later, room⟩ := induction (pass_expands (expanded_read expanded) spelled)
        refine ⟨piece :: more, ?_, ?_⟩
        · rw [List.append_cons]
          exact later
        · intro earlier last same
          cases earlier with
          | nil =>
              rw [List.append_nil, ← stored_index expanded.stored]
              exact onward.2
          | cons first earlier =>
              rw [List.cons_append, List.cons.injEq] at same
              rw [List.append_cons, ← same.1]
              exact room earlier last same.2
      · refine ⟨[], ?_, by simp⟩
        rw [List.append_nil]
        exact expanded_read expanded

/-- A pass is made for each piece as long as there is room. -/
theorem loop_reaches (stack : Nat → UInt8) {pieces : List Piece}
    (spelled : Spells format 0 (formatBytes pieces))
    (room : (expand args pieces.dropLast 0).length < 255) :
    ∃ state, Expanded format args pieces state ∧ ∀ budget,
      printkLoop format args (budget + pieces.length) (printkStart stack) =
        printkLoop format args budget state := by
  induction pieces using List.reverseRecOn with
  | nil => exact ⟨printkStart stack, expanded_start stack, fun budget => rfl⟩
  | append_singleton pieces piece induction =>
      rw [List.dropLast_concat] at room
      rw [format_bytes_concat, spells_append, Nat.zero_add] at spelled
      have shorter : (expand args pieces.dropLast 0).length < 255 := by
        rcases List.eq_nil_or_concat pieces with rfl | ⟨earlier, last, rfl⟩
        · exact room
        · rw [List.concat_eq_append] at room ⊢
          rw [expand_concat, List.length_append] at room
          rw [List.dropLast_concat]
          omega
      obtain ⟨state, expanded, runs⟩ := induction spelled.1 shorter
      rw [← expanded.fmt] at spelled
      have onward : format state.fmt ≠ 0 ∧ state.i < 255 := by
        rw [stored_index expanded.stored]
        exact ⟨piece_not_end spelled.2, room⟩
      refine ⟨_, pass_expands (expanded_read expanded) spelled.2, ?_⟩
      intro budget
      rw [List.length_append, List.length_singleton, ← Nat.add_assoc, Nat.add_right_comm, runs,
        printkLoop, if_pos onward]

/-- No argument that the loop comes to takes the expansion beyond 255 bytes. -/
def ArgumentsFit (format : Nat → UInt8) (args : Nat → List UInt8) : Prop :=
  ∀ pieces, Spells format 0 (formatBytes (pieces ++ [.directive stringByte])) →
    (expand args pieces 0).length < 255 →
    (expand args (pieces ++ [.directive stringByte]) 0).length ≤ 255

theorem expansion_fits (fit : ArgumentsFit format args) {pieces : List Piece}
    (spelled : Spells format 0 (formatBytes pieces))
    (room : ∀ earlier last, pieces = earlier ++ [last] → (expand args earlier 0).length < 255) :
    (expand args pieces 0).length ≤ 255 := by
  rcases List.eq_nil_or_concat pieces with rfl | ⟨earlier, last, rfl⟩
  · simp [expand]
  · rw [List.concat_eq_append] at *
    have before := room earlier last rfl
    by_cases string : last = .directive stringByte
    · subst string
      exact fit earlier spelled before
    · have short : (last.expand (args (0 + argumentsIn earlier))).length ≤ 1 := by
        cases last with
        | literal c ordinary => simp [Piece.expand]
        | directive c =>
            have other : c ≠ stringByte := by
              intro same
              exact string (congrArg Piece.directive same)
            simp [Piece.expand, other]
      rw [expand_concat, List.length_append]
      omega

end Runs

/-- All stores of all runs hit the 256 bytes of `buffer`, the terminating NUL included,
exactly when each argument that the loop comes to fits into what is left of it. -/
theorem printk_stores_inside_iff (format : Nat → UInt8) (args : Nat → List UInt8)
    (stack : Nat → UInt8) :
    (∀ budget, ∀ index ∈ (printkBuffer format args stack budget).2.buffer.trace, index ≤ 255) ↔
      ArgumentsFit format args := by
  constructor
  · intro inside pieces spelled before
    by_contra overrun
    have room : (expand args (pieces ++ [Piece.directive stringByte]).dropLast 0).length < 255 := by
      rw [List.dropLast_concat]
      exact before
    obtain ⟨state, expanded, runs⟩ := loop_reaches stack spelled room
    have full : ¬(format state.fmt ≠ 0 ∧ state.i < 255) := by
      rw [stored_index expanded.stored]
      omega
    have finished := inside (1 + (pieces ++ [Piece.directive stringByte]).length) state.i
    rw [printkBuffer, runs, printkLoop, if_neg full] at finished
    have bound := finished List.mem_cons_self
    rw [stored_index expanded.stored] at bound
    exact overrun bound
  · intro fit budget index member
    obtain ⟨pieces, expanded, room⟩ := loop_expands budget (expanded_start stack)
    have bound := expansion_fits fit expanded.spelled room
    rw [List.nil_append] at expanded bound
    rw [← stored_index expanded.stored] at bound
    rw [printkBuffer] at member
    have cases : index = (printkLoop format args budget (printkStart stack)).2.i ∨
        index ∈ (printkLoop format args budget (printkStart stack)).2.buffer.trace := by
      simp only at member
      split_ifs at member
      · exact List.mem_cons.mp member
      · exact Or.inr member
    rcases cases with last | earlier
    · omega
    · have below := expanded.stored.trace index earlier
      omega

/-- An argument of 256 bytes for the format `%s`. -/
theorem long_argument_overruns :
    ¬∀ (format : Nat → UInt8) (args : Nat → List UInt8) (stack : Nat → UInt8) (budget : Nat),
      ∀ index ∈ (printkBuffer format args stack budget).2.buffer.trace, index ≤ 255 := by
  intro inside
  have overrun := inside (fun offset => if offset = 0 then percentByte else if offset = 1 then
    stringByte else 0) (fun _ => List.replicate 256 65) (fun _ => 0) 2 256 (by decide +kernel)
  omega

end FractionsOS.Vga
