import FractionsOS.Video.PrintkFormat
import Mathlib.Data.List.TakeWhile

/-!
# What `printk` prints

A format of whole pieces whose expansion fits into `buffer` is expanded as a whole: where
the loop leaves off at 255 bytes, what is left of the format prints nothing.
-/

namespace FractionsOS.Vga

open Library

set_option autoImplicit false

theorem expand_append (args : Nat → List UInt8) (first second : List Piece) (taken : Nat) :
    expand args (first ++ second) taken =
      expand args first taken ++ expand args second (taken + argumentsIn first) := by
  induction first generalizing taken with
  | nil => rfl
  | cons piece first induction =>
      rw [List.cons_append, expand, expand, induction, List.append_assoc,
        arguments_cons piece first, Nat.add_assoc]

theorem expand_nonzero (args : Nat → List UInt8) (pieces : List Piece) (taken : Nat) :
    ∀ c ∈ expand args pieces taken, c ≠ 0 := by
  induction pieces generalizing taken with
  | nil => simp [expand]
  | cons piece pieces induction =>
      intro byte member
      rw [expand] at member
      rcases List.mem_append.mp member with here | later
      · cases piece with
        | literal c ordinary =>
            rw [List.mem_singleton.mp here]
            exact ordinary.1
        | directive c =>
            rw [Piece.expand] at here
            split_ifs at here
            · simpa using List.mem_takeWhile_imp here
            · cases here
      · exact induction _ byte later

/-- The directives `%s` that begin before 255 bytes have been produced. -/
def argumentsReached (args : Nat → List UInt8) (pieces : List Piece) : Nat :=
  (List.range pieces.length).countP fun k =>
    pieces[k]?.any Piece.takesArgument && decide ((expand args (pieces.take k) 0).length < 255)

theorem arguments_reached_concat (args : Nat → List UInt8) (pieces : List Piece) (piece : Piece) :
    argumentsReached args (pieces ++ [piece]) =
      argumentsReached args pieces +
        if (expand args pieces 0).length < 255 then argumentsIn [piece] else 0 := by
  have earlier : (List.range pieces.length).countP (fun k =>
      (pieces ++ [piece])[k]?.any Piece.takesArgument &&
        decide ((expand args ((pieces ++ [piece]).take k) 0).length < 255)) =
        argumentsReached args pieces := by
    apply List.countP_congr
    intro k inside
    have below := List.mem_range.mp inside
    rw [List.getElem?_append_left below, List.take_append_of_le_length (Nat.le_of_lt below)]
  rw [argumentsReached, List.length_append, List.length_singleton, List.range_succ,
    List.countP_append, earlier, List.countP_singleton]
  simp only [List.getElem?_concat_length, Option.any_some, List.take_left, argumentsIn]
  by_cases room : (expand args pieces 0).length < 255
  · rw [if_pos room, List.countP_singleton, decide_eq_true room, Bool.and_true]
  · rw [if_neg room, decide_eq_false room, Bool.and_false, if_neg Bool.false_ne_true]

def EachBegins (args : Nat → List UInt8) (pieces : List Piece) : Prop :=
  ∀ earlier piece later, pieces = earlier ++ piece :: later →
    (expand args earlier 0).length < 255

theorem each_begins_concat {args : Nat → List UInt8} {pieces : List Piece} {piece : Piece} :
    EachBegins args (pieces ++ [piece]) ↔
      EachBegins args pieces ∧ (expand args pieces 0).length < 255 := by
  constructor
  · intro begins
    constructor
    · intro earlier other later same
      apply begins earlier other (later ++ [piece])
      rw [same, List.append_assoc, List.cons_append]
    · exact begins pieces piece [] rfl
  · rintro ⟨begins, room⟩ earlier other later same
    rcases List.eq_nil_or_concat later with rfl | ⟨middle, last, rfl⟩
    · rw [← (List.append_inj' same rfl).1]
      exact room
    · rw [List.concat_eq_append, ← List.cons_append, ← List.append_assoc] at same
      exact begins earlier other middle (List.append_inj' same rfl).1

theorem arguments_reached_all {args : Nat → List UInt8} {pieces : List Piece}
    (begins : EachBegins args pieces) : argumentsReached args pieces = argumentsIn pieces := by
  induction pieces using List.reverseRecOn with
  | nil => rfl
  | append_singleton pieces piece induction =>
      rw [each_begins_concat] at begins
      rw [arguments_reached_concat, if_pos begins.2, induction begins.1, arguments_append]

theorem arguments_reached_full {args : Nat → List UInt8} {pieces : List Piece}
    (full : 255 ≤ (expand args pieces 0).length) (more : List Piece) :
    argumentsReached args (pieces ++ more) = argumentsReached args pieces := by
  induction more using List.reverseRecOn with
  | nil => rw [List.append_nil]
  | append_singleton more piece induction =>
      have stillFull : ¬(expand args (pieces ++ more) 0).length < 255 := by
        rw [expand_append, List.length_append]
        omega
      rw [← List.append_assoc, arguments_reached_concat, if_neg stillFull, induction, Nat.add_zero]

section Runs

variable {format : Nat → UInt8} {args : Nat → List UInt8}

/-- From any point of the format on, the loop ends before a piece that there is no room for,
or behind the last one. -/
theorem loop_finishes (left : List Piece) {done : List Piece} {state : PrintkState}
    (expanded : Expanded format args done state) (begins : EachBegins args done)
    (spelled : Spells format state.fmt (formatBytes left ++ [0])) :
    ∃ more rest final, left = more ++ rest ∧ Expanded format args (done ++ more) final ∧
      EachBegins args (done ++ more) ∧
      (rest = [] ∨ 255 ≤ (expand args (done ++ more) 0).length) ∧
      ∀ budget, left.length < budget → printkLoop format args budget state = (true, final) := by
  induction left generalizing done state with
  | nil =>
      refine ⟨[], [], state.read, rfl, ?_, ?_, Or.inl rfl, ?_⟩
      · rw [List.append_nil]
        exact expanded_read expanded
      · rw [List.append_nil]
        exact begins
      · intro budget enough
        obtain ⟨budget, rfl⟩ := Nat.exists_eq_add_of_lt enough
        rw [printkLoop, if_neg]
        exact fun onward => onward.1 spelled.1
  | cons piece left induction =>
      have bytes : formatBytes (piece :: left) ++ [0] = piece.bytes ++ (formatBytes left ++ [0]) :=
        List.append_assoc _ _ _
      rw [bytes, spells_append] at spelled
      by_cases room : (expand args done 0).length < 255
      · have next := pass_expands (expanded_read expanded) spelled.1
        have onward : format state.fmt ≠ 0 ∧ state.i < 255 := by
          rw [stored_index expanded.stored]
          exact ⟨piece_not_end spelled.1, room⟩
        have place : (printkPass format args state.read).fmt = state.fmt + piece.bytes.length := by
          rw [next.fmt, format_bytes_concat, List.length_append, expanded.fmt]
        obtain ⟨more, rest, final, same, later, laterBegins, stops, runs⟩ :=
          induction next (each_begins_concat.mpr ⟨begins, room⟩) (place ▸ spelled.2)
        refine ⟨piece :: more, rest, final, ?_, ?_, ?_, ?_, ?_⟩
        · rw [same, List.cons_append]
        · rw [List.append_cons]
          exact later
        · rw [List.append_cons]
          exact laterBegins
        · rw [List.append_cons]
          exact stops
        · intro budget enough
          obtain ⟨budget, rfl⟩ : ∃ fewer, budget = fewer + 1 := ⟨budget - 1, by omega⟩
          rw [printkLoop, if_pos onward]
          apply runs
          rw [List.length_cons] at enough
          omega
      · refine ⟨[], piece :: left, state.read, rfl, ?_, ?_, Or.inr ?_, ?_⟩
        · rw [List.append_nil]
          exact expanded_read expanded
        · rw [List.append_nil]
          exact begins
        · rw [List.append_nil]
          exact Nat.le_of_not_lt room
        · intro budget enough
          obtain ⟨budget, rfl⟩ : ∃ fewer, budget = fewer + 1 := ⟨budget - 1, by omega⟩
          rw [printkLoop, if_neg]
          rintro ⟨-, before⟩
          rw [stored_index expanded.stored] at before
          exact room before

theorem spells_list {cells : Nat → UInt8} (length : Nat) {bytes : List UInt8}
    (stored : (List.range length).map cells = bytes) : Spells cells 0 bytes := by
  induction length generalizing bytes with
  | zero =>
      rw [← stored]
      trivial
  | succ length induction =>
      rw [List.range_succ, List.map_append] at stored
      rw [← stored, spells_append, List.length_map, List.length_range, Nat.zero_add]
      exact ⟨induction rfl, rfl, trivial⟩

end Runs

/-- What a call of `printk` has done when it hands `buffer` to the console: the buffer holds
`text` as a C string, and `taken` arguments were taken. -/
structure Prints (format : Nat → UInt8) (args : Nat → List UInt8) (stack : Nat → UInt8)
    (budget : Nat) (text : List UInt8) (taken : Nat) : Prop where
  buffer : Spells (printkBuffer format args stack budget).2.buffer.cells 0 (text ++ [0])
  nonzero : ∀ c ∈ text, c ≠ 0
  taken : (printkBuffer format args stack budget).2.taken = taken
  console : ∀ console, printk format args stack budget console = some (vgaWriteString console text)

/-- A format of whole pieces whose expansion has at most 255 bytes is printed as its
expansion, and an argument is taken for each `%s` before the 255th of them. -/
theorem printk_expands (format : FormatString) (pieces : List Piece)
    (consists : format.Consists pieces) (args : Nat → List UInt8)
    (short : (expand args pieces 0).length ≤ 255) (stack : Nat → UInt8) :
    ∀ budget, pieces.length < budget →
      Prints format.cells args stack budget (expand args pieces 0) (argumentsReached args pieces) := by
  have spelled : Spells format.cells (printkStart stack).fmt (formatBytes pieces ++ [0]) := by
    change Spells format.cells 0 _
    rw [spells_append, Nat.zero_add, consists.whole]
    exact ⟨consists.spelled, format.terminated, trivial⟩
  have start : Expanded format.cells args [] (printkStart stack) := expanded_start stack
  obtain ⟨done, rest, final, same, expanded, begins, stops, runs⟩ :=
    loop_finishes pieces start (by simp [EachBegins]) spelled
  rw [List.nil_append] at expanded begins stops
  have noText : expand args pieces 0 = expand args done 0 := by
    rw [same, expand_append]
    rcases stops with rfl | full
    · exact List.append_nil _
    · rw [same, expand_append, List.length_append] at short
      have empty : (expand args rest (0 + argumentsIn done)).length = 0 := by omega
      rw [List.length_eq_zero_iff.mp empty, List.append_nil]
  have noArgument : argumentsReached args pieces = argumentsIn done := by
    rw [same, ← arguments_reached_all begins]
    rcases stops with rfl | full
    · rw [List.append_nil]
    · exact arguments_reached_full full rest
  intro budget enough
  have ran : printkBuffer format.cells args stack budget =
      (true, { final with buffer := final.buffer.store final.i 0 }) := by
    rw [printkBuffer, runs budget enough]
    rfl
  have text : PrintkState.text { final with buffer := final.buffer.store final.i 0 } =
      expand args pieces 0 := by
    rw [noText, ← expanded.stored.cells, PrintkState.text, PrintkState.text]
    apply List.map_congr_left
    intro index inside
    rw [TracedMemory.store_cells, if_neg (Nat.ne_of_lt (List.mem_range.mp inside))]
  constructor
  · rw [ran, spells_append]
    constructor
    · exact spells_list final.i text
    · rw [noText, ← stored_index expanded.stored, Nat.zero_add]
      refine ⟨?_, trivial⟩
      rw [TracedMemory.store_cells, if_pos rfl]
  · exact expand_nonzero args pieces 0
  · rw [ran, noArgument]
    exact expanded.taken
  · intro console
    rw [printk, ran, ← text]
    rfl

def letterFormat : FormatString where
  cells offset := [97, percentByte, stringByte, 98].getD offset 0
  length := 4
  terminated := rfl
  inside := by decide

def letterPieces : List Piece :=
  [.literal 97 (by decide), .directive stringByte, .literal 98 (by decide)]

theorem printk_expands_letters :
    Prints letterFormat.cells (fun _ => [65, 66]) (fun _ => 0) 4 [97, 65, 66, 98] 1 :=
  printk_expands letterFormat letterPieces ⟨⟨rfl, rfl, rfl, rfl, trivial⟩, rfl⟩
    (fun _ => [65, 66]) (by decide) (fun _ => 0) 4 (by decide)

end FractionsOS.Vga
